import Std.Data.ExtTreeSet

/-!
# Operations and phases

What is done to the data, and at which moment of it a change is announced.
-/

namespace ExtentLedger

inductive Operation
  | insert
  | update
  | delete
  | other
deriving DecidableEq, Repr

namespace Operation

def rank : Operation → Nat
  | .insert => 0
  | .update => 1
  | .delete => 2
  | .other => 3

instance : Ord Operation := ⟨compareOn rank⟩

instance : Std.TransOrd Operation := inferInstanceAs (Std.TransCmp (compareOn rank))

instance : Std.LawfulEqOrd Operation where
  eq_of_compare {a b} := by cases a <;> cases b <;> decide

def all : List Operation := [.insert, .update, .delete, .other]

/-- The word that stands for it in configurations. -/
def word : Operation → String
  | .insert => "insert"
  | .update => "update"
  | .delete => "delete"
  | .other => "other"

def name : Operation → String
  | .insert => "INSERT"
  | .update => "UPDATE"
  | .delete => "DELETE"
  | .other => "OTHER"

def title : Operation → String
  | .insert => "Insert"
  | .update => "Update"
  | .delete => "Delete"
  | .other => "Other"

/-- Can the operation move the extent of the data? -/
def changesExtent : Operation → Bool
  | .other => false
  | _ => true

end Operation

/-- A set of operations; its elements come in the order of `Operation.all`. -/
abbrev OperationSet := Std.ExtTreeSet Operation

inductive Phase
  | preInsert
  | postInsert
  | preUpdate
  | postUpdate
  | preDelete
deriving DecidableEq, Repr

namespace Phase

def name : Phase → String
  | .preInsert => "PRE_INSERT"
  | .postInsert => "POST_INSERT"
  | .preUpdate => "PRE_UPDATE"
  | .postUpdate => "POST_UPDATE"
  | .preDelete => "PRE_DELETE"

def title : Phase → String
  | .preInsert => "PreInsert"
  | .postInsert => "PostInsert"
  | .preUpdate => "PreUpdate"
  | .postUpdate => "PostUpdate"
  | .preDelete => "PreDelete"

def operation : Phase → Operation
  | .preInsert | .postInsert => .insert
  | .preUpdate | .postUpdate => .update
  | .preDelete => .delete

/-- Inserted data is announced before and after; the second announcement adds nothing. -/
def repeatsEarlier : Phase → Bool
  | .postInsert => true
  | _ => false

end Phase

end ExtentLedger
