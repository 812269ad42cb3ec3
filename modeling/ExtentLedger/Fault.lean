/-!
# Faults

What can go wrong between a change and its commit. A fault belongs to one of four kinds, named for the stage that it
concerns; collaborators raise faults of their own with a free text.
-/

namespace ExtentLedger

inductive Fault
  | resolution (detail : String)
  | geometry (detail : String)
  | invalidExtent (detail : String)
  | referenceMismatch (expected found : String)
  | unknownTransform (source target : String)
  | transform (detail : String)
  | dispatch (detail : String)
  | config (detail : String)
deriving DecidableEq, Repr

namespace Fault

inductive Kind
  | resolution
  | geometry
  | dispatch
  | config
deriving DecidableEq, Repr

def Kind.name : Kind → String
  | .resolution => "resolution"
  | .geometry => "geometry"
  | .dispatch => "dispatch"
  | .config => "config"

def kind : Fault → Kind
  | .resolution _ => .resolution
  | .geometry _ | .invalidExtent _ | .referenceMismatch .. | .unknownTransform .. | .transform _ => .geometry
  | .dispatch _ => .dispatch
  | .config _ => .config

def message : Fault → String
  | .resolution d => "Resolution error: " ++ d
  | .geometry d => "Geometry error: " ++ d
  | .invalidExtent d => "Invalid extent: " ++ d
  | .referenceMismatch e f => "Reference system mismatch: expected " ++ e ++ ", found " ++ f
  | .unknownTransform s t => "No transform registered from " ++ s ++ " to " ++ t
  | .transform d => "Transform error: " ++ d
  | .dispatch d => "Dispatch error: " ++ d
  | .config d => "Configuration error: " ++ d

end Fault

end ExtentLedger
