/-!
# Attempts

Whatever the library asks of a collaborator is an attempt: it reads and changes the collaborators' common state, and
comes to a value, to an error, or to a crash in the middle. What it changed before it failed stays changed. Containing
an attempt turns a crash into an error, so that it ends where it is contained.
-/

namespace ExtentLedger

inductive Outcome (ε α : Type)
  | value (a : α)
  | failure (e : ε)
  /-- The attempt broke off, leaving a text or nothing that can be read. -/
  | crash (words : Option String)
deriving Repr

def Attempt (σ ε α : Type) : Type := σ → Outcome ε α × σ

namespace Attempt

variable {σ τ ε ε' α β : Type}

instance : Monad (Attempt σ ε) where
  pure a := fun s => (.value a, s)
  bind x f := fun s =>
    match x s with
    | (.value a, s) => f a s
    | (.failure e, s) => (.failure e, s)
    | (.crash c, s) => (.crash c, s)

def always (r : Outcome ε α) : Attempt σ ε α := fun s => (r, s)

def fail (e : ε) : Attempt σ ε α := fun s => (.failure e, s)

def crash (words : Option String) : Attempt σ ε α := fun s => (.crash words, s)

def ofExcept : Except ε α → Attempt σ ε α
  | .ok a => pure a
  | .error e => fail e

def update (f : σ → σ) : Attempt σ ε Unit := fun s => (.value (), f s)

/-- Goes on after an error; a crash is not an error. -/
def recover (x : Attempt σ ε α) (f : ε → Attempt σ ε' α) : Attempt σ ε' α := fun s =>
  match x s with
  | (.value a, s) => (.value a, s)
  | (.failure e, s) => f e s
  | (.crash c, s) => (.crash c, s)

def mapError (f : ε → ε') (x : Attempt σ ε α) : Attempt σ ε' α := x.recover fun e => fail (f e)

def onSecond (x : Attempt σ ε α) : Attempt (τ × σ) ε α := fun (t, s) =>
  let (r, s) := x s
  (r, (t, s))

/-- A step over the first part of a larger state, which a refused step leaves as it was. -/
def onFirst (f : τ → Except ε (α × τ)) : Attempt (τ × σ) ε α := fun (t, s) =>
  match f t with
  | .ok (a, t) => (.value a, (t, s))
  | .error e => (.failure e, (t, s))

def crashText : Option String → String
  | some words => "panicked: " ++ words
  | none => "panicked"

/-- Runs an attempt to its end; a crash becomes the error that `stage` makes of its text. -/
def contain (stage : String → ε) (x : Attempt σ ε α) (s : σ) : Except ε α × σ :=
  match x s with
  | (.value a, s) => (.ok a, s)
  | (.failure e, s) => (.error e, s)
  | (.crash c, s) => (.error (stage (crashText c)), s)

@[simp] theorem pure_apply (a : α) (s : σ) : (pure a : Attempt σ ε α) s = (.value a, s) := rfl

theorem bind_apply (x : Attempt σ ε α) (f : α → Attempt σ ε β) (s : σ) :
    (x >>= f) s = match x s with
      | (.value a, s) => f a s
      | (.failure e, s) => (.failure e, s)
      | (.crash c, s) => (.crash c, s) := rfl

end Attempt

/-- The error of an attempt that came to no value; `stage` makes one of the text of a crash. -/
def Outcome.error? {ε α : Type} (stage : String → ε) : Outcome ε α → Option ε
  | value _ => none
  | failure e => some e
  | crash c => some (stage (Attempt.crashText c))

end ExtentLedger
