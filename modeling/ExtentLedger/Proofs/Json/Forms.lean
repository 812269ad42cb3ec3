import ExtentLedger.Json.Forms
import ExtentLedger.Proofs.Json.Trees

/-!
# Operations and entities from their own texts

A decoder run on the text of a value sees the value itself, so each form comes down to the decoder on the tree that was
written.
-/

namespace ExtentLedger

open Json

namespace Json.Decoder

variable {α : Type}

theorem isOk_iff {d : Decoder α} {t : Tree} : (d t).isOk = true ↔ ∃ a, d t = .ok a := by
  cases d t with
  | ok a => exact iff_of_true rfl ⟨a, rfl⟩
  | error e => exact iff_of_false nofun nofun

theorem mismatch_ne_ok {t : Tree} {expected : String} {a : α} : mismatch t expected ≠ .ok a := by
  have hb (x : Except DecodeError Found) :
      (x >>= fun found => .error (.invalidType found expected)) ≠ (.ok a : Except DecodeError α) := by
    cases x <;> nofun
  rw [mismatch.eq_def]
  cases t with
  | number n =>
    dsimp only
    split <;> exact hb _
  | _ => exact hb _

theorem string_eq_ok {t : Tree} {expected s : String} :
    string expected t = .ok s ↔ ∃ ps, t = .string ps ∧ pieces ps = .ok s := by
  cases t with
  | string ps => exact ⟨fun h => ⟨ps, rfl, h⟩, fun ⟨_, he, h⟩ => by cases he; exact h⟩
  | _ =>
    rw [string.eq_def]
    exact iff_of_false mismatch_ne_ok nofun

@[simp] theorem pieces_spelling (s : String) : pieces (Piece.spelling s) = .ok s := by
  rw [pieces, Piece.decode?_spelling]
  simp

@[simp] theorem string_spelling (expected s : String) : string expected (.string (Piece.spelling s)) = .ok s :=
  pieces_spelling s

theorem integer_ofInt {low high n : Int} (expected : String) (hl : low ≤ n) (hh : n ≤ high)
    (hmin : Int64.minValue.toInt ≤ n) (hmax : n < UInt64.size) :
    integer low high expected (Tree.ofInt n).asRead = .ok n := by
  have hv : (Tree.ofInt n).asRead = .number (.ofInt n) := rfl
  rw [hv, integer, value?_ofInt hmin hmax]
  exact if_pos ⟨hl, hh⟩

/-- What is read is the whole text, however its value is spelled. -/
theorem run_of_isSpelled {d : Decoder α} {t : Tree} {s : String} (h : t.IsSpelled s) : d.run s = d t := by
  rw [run, h.ofTokens_ofChars]
  cases hd : d t <;> simp [hd, bind, Except.bind]

structure Reads (d : Decoder α) (f : α → Tree) : Prop where
  isWritable (a : α) : (f a).IsWritable
  asRead (a : α) : d (f a).asRead = .ok a

variable {d : Decoder α} {f : α → Tree}

theorem Reads.run_text (h : d.Reads f) (a : α) : d.run (f a).text = .ok a := by
  rw [run_of_isSpelled (h.isWritable a).isSpelled_text, h.asRead a]

theorem reads_string (expected : String) : (string expected).Reads Tree.ofString where
  isWritable := Tree.isWritable_ofString
  asRead s := by rw [Tree.asRead_ofString, string_spelling]

theorem Reads.listOf (h : d.Reads f) : (listOf d).Reads fun as => .ofItems (as.map f) where
  isWritable as := Tree.isWritable_ofItems (List.forall_mem_map.mpr fun a _ => h.isWritable a)
  asRead as := by
    have hm : ((as.map f).map Tree.asRead).mapM d = .ok as := by
      induction as with
      | nil => rfl
      | cons a as ih =>
        rw [List.map_cons, List.map_cons, List.mapM_cons, h.asRead a, ih]
        rfl
    rw [Tree.asRead_ofItems, Decoder.listOf, hm]
    rfl

end Json.Decoder

theorem Operation.reads : Operation.decoder.Reads Operation.toTree where
  isWritable op := Tree.isWritable_ofString op.word
  asRead op := by
    rw [Operation.toTree, Tree.asRead_ofString, Operation.decoder, Decoder.oneOf, Decoder.pieces_spelling]
    cases op <;> rfl

theorem Entity.reads : Entity.decoder.Reads Entity.toTree := Decoder.reads_string "a string"

end ExtentLedger
