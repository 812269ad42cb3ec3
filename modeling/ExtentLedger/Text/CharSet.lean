/-!
# Sets of characters

A set of characters is a list of closed ranges of code points. What is known of the ends of its ranges decides which
characters it holds, so a property of a long table is checked range by range.
-/

namespace ExtentLedger

namespace Text

structure CharSet where
  ranges : List (Nat × Nat)

namespace CharSet

def contains (s : CharSet) (c : Char) : Bool := s.ranges.any fun r => r.1 ≤ c.toNat && c.toNat ≤ r.2

/-- Do the ranges ascend, with a gap before each? -/
def isApart (s : CharSet) : Bool :=
  s.ranges.all (fun r => r.1 ≤ r.2) && (s.ranges.zip s.ranges.tail).all fun p => p.1.2 + 1 < p.2.1

def size (s : CharSet) : Nat := s.ranges.foldl (fun n r => n + (r.2 + 1 - r.1)) 0

/-- A set whose ranges end before `a` or start after `b` holds nothing from `a` to `b`. -/
theorem contains_eq_false {s : CharSet} {a b : Nat} (h : ∀ r ∈ s.ranges, r.2 < a ∨ b < r.1) {c : Char}
    (ha : a ≤ c.toNat) (hb : c.toNat ≤ b) : s.contains c = false := by
  simp only [contains, List.any_eq_false, Bool.and_eq_true, decide_eq_true_eq, not_and]
  intro r hr
  have := h r hr
  omega

end CharSet

end Text

end ExtentLedger
