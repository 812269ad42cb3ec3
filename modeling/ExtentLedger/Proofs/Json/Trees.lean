import ExtentLedger.Json.Tree
import ExtentLedger.Proofs.Json.Tokens

/-!
# Reading values back

A well-formed value is read back from any of its spellings, and nothing is left over. Its tokens come back since every
number in it stands in front of what ends an item or a member, or at the end; the value comes back from its tokens by
induction, whatever stands behind them. The text that is written for a value without other numbers than integers is one
of the spellings of the value that comes back.
-/

namespace ExtentLedger

namespace Json

namespace Tree

/-! ## Values and their parts -/

/-- What holds of a container when it holds of what is in it holds of every value. -/
theorem induction {P : Tree → Prop} (null : P .null) (boolean : ∀ b, P (.boolean b)) (number : ∀ n, P (.number n))
    (string : ∀ ps, P (.string ps)) (array : ∀ items closed, (∀ v ∈ items, P v) → P (.array items closed))
    (object : ∀ members stray, (∀ m ∈ members, P m.2) → P (.object members stray)) (broken : P .broken) (t : Tree) :
    P t := by
  induction hs : sizeOf t using Nat.strongRecOn generalizing t with
  | ind n ih =>
    cases t with
    | null => exact null
    | boolean b => exact boolean b
    | number n => exact number n
    | string ps => exact string ps
    | array items closed =>
      rw [Tree.array.sizeOf_spec] at hs
      refine array items closed fun v hv => ih (sizeOf v) ?_ v rfl
      have hlt := List.sizeOf_lt_of_mem hv
      omega
    | object members stray =>
      rw [Tree.object.sizeOf_spec] at hs
      refine object members stray fun m hm => ih (sizeOf m.2) ?_ m.2 rfl
      have hlt := List.sizeOf_lt_of_mem hm
      rw [Prod.mk.sizeOf_spec] at hlt
      omega
    | broken => exact broken

theorem itemsIntact_iff {vs : List Tree} : itemsIntact vs = true ↔ ∀ v ∈ vs, v.isIntact = true := by
  induction vs with
  | nil => simp [itemsIntact]
  | cons v vs ih => rw [itemsIntact, Bool.and_eq_true, ih, List.forall_mem_cons]

theorem membersIntact_iff {ms : List (List Piece × Tree)} :
    membersIntact ms = true ↔ ∀ m ∈ ms, m.2.isIntact = true := by
  induction ms with
  | nil => simp [membersIntact]
  | cons m ms ih => rw [membersIntact, Bool.and_eq_true, ih, List.forall_mem_cons]

theorem isIntact_array {items : List Tree} {closed : Bool} :
    (array items closed).isIntact = true ↔ closed = true ∧ ∀ v ∈ items, v.isIntact = true := by
  rw [isIntact, Bool.and_eq_true, itemsIntact_iff]

theorem isIntact_object {members : List (List Piece × Tree)} {stray : Option Tree} :
    (object members stray).isIntact = true ↔ stray = none ∧ ∀ m ∈ members, m.2.isIntact = true := by
  rw [isIntact, Bool.and_eq_true, membersIntact_iff, Option.isNone_iff_eq_none]

theorem itemsReadable_iff {depth : Nat} {vs : List Tree} :
    itemsReadable depth vs = true ↔ ∀ v ∈ vs, v.isReadable depth = true := by
  induction vs with
  | nil => simp [itemsReadable]
  | cons v vs ih => rw [itemsReadable, Bool.and_eq_true, ih, List.forall_mem_cons]

theorem membersReadable_iff {depth : Nat} {ms : List (List Piece × Tree)} : membersReadable depth ms = true ↔
    ∀ m ∈ ms, (Piece.decode? m.1).isSome = true ∧ m.2.isReadable depth = true := by
  induction ms with
  | nil => simp [membersReadable]
  | cons m ms ih => rw [membersReadable, Bool.and_eq_true, Bool.and_eq_true, ih, List.forall_mem_cons]

theorem isReadable_mono {t : Tree} {depth depth' : Nat} (hd : depth ≤ depth') (h : t.isReadable depth = true) :
    t.isReadable depth' = true := by
  induction t using Tree.induction generalizing depth depth' with
  | array items closed ih =>
    cases depth with
    | zero => cases h
    | succ depth =>
      obtain ⟨depth', rfl⟩ := Nat.exists_eq_add_of_lt hd
      rw [isReadable, Bool.and_eq_true, itemsReadable_iff] at h ⊢
      exact ⟨h.1, fun v hv => ih v hv (Nat.le_add_right _ _) (h.2 v hv)⟩
  | object members stray ih =>
    cases depth with
    | zero => cases h
    | succ depth =>
      obtain ⟨depth', rfl⟩ := Nat.exists_eq_add_of_lt hd
      rw [isReadable, Bool.and_eq_true, membersReadable_iff] at h ⊢
      exact ⟨h.1, fun m hm => ⟨(h.2 m hm).1, ih m hm (Nat.le_add_right _ _) (h.2 m hm).2⟩⟩
  | _ => exact h

/-! ## Values that are written -/

inductive IsWritable : Tree → Prop
  | null : IsWritable .null
  | boolean (b : Bool) : IsWritable (.boolean b)
  | ofInt (n : Int) : IsWritable (.ofInt n)
  | string {ps : List Piece} (h : ∀ p ∈ ps, p.FitsEscape) : IsWritable (.string ps)
  | array {items : List Tree} (h : ∀ v ∈ items, IsWritable v) : IsWritable (.array items true)
  | object {members : List (List Piece × Tree)} (hn : ∀ m ∈ members, ∀ p ∈ m.1, p.FitsEscape)
      (hv : ∀ m ∈ members, IsWritable m.2) : IsWritable (.object members none)

mutual

def asRead : Tree → Tree
  | .string ps => .string (ps.map Piece.asRead)
  | .array items closed => .array (itemsAsRead items) closed
  | .object members stray => .object (membersAsRead members) stray
  | t => t

def itemsAsRead : List Tree → List Tree
  | [] => []
  | v :: vs => v.asRead :: itemsAsRead vs

def membersAsRead : List (List Piece × Tree) → List (List Piece × Tree)
  | [] => []
  | (name, v) :: ms => (name.map Piece.asRead, v.asRead) :: membersAsRead ms

end

theorem itemsAsRead_eq_map (vs : List Tree) : itemsAsRead vs = vs.map asRead := by
  induction vs with
  | nil => rfl
  | cons v vs ih => rw [itemsAsRead, ih, List.map_cons]

theorem membersAsRead_eq_map (ms : List (List Piece × Tree)) :
    membersAsRead ms = ms.map fun m => (m.1.map Piece.asRead, m.2.asRead) := by
  induction ms with
  | nil => rfl
  | cons m ms ih => rw [membersAsRead, ih, List.map_cons]

theorem isWritable_ofString (s : String) : (ofString s).IsWritable :=
  .string (List.forall_mem_map.mpr fun _ _ => trivial)

theorem isWritable_ofItems {items : List Tree} (h : ∀ v ∈ items, v.IsWritable) : (ofItems items).IsWritable := .array h

theorem isWritable_ofMembers {members : List (String × Tree)} (h : ∀ m ∈ members, m.2.IsWritable) :
    (ofMembers members).IsWritable :=
  .object (List.forall_mem_map.mpr fun _ _ => List.forall_mem_map.mpr fun _ _ => trivial) (List.forall_mem_map.mpr h)

@[simp] theorem asRead_ofString (s : String) : (ofString s).asRead = .string (Piece.spelling s) := by
  rw [ofString, asRead, Piece.map_asRead_ofString]

@[simp] theorem asRead_ofItems (items : List Tree) : (ofItems items).asRead = .array (items.map asRead) true := by
  rw [ofItems, asRead, itemsAsRead_eq_map]

@[simp] theorem asRead_ofMembers (members : List (String × Tree)) :
    (ofMembers members).asRead = .object (members.map fun m => (Piece.spelling m.1, m.2.asRead)) none := by
  rw [ofMembers, asRead, membersAsRead_eq_map, List.map_map]
  simp only [Function.comp_def, Piece.map_asRead_ofString]

theorem IsWritable.isIntact_asRead {t : Tree} (h : t.IsWritable) : t.asRead.isIntact = true := by
  induction h with
  | array _ ih =>
    rw [asRead, itemsAsRead_eq_map]
    exact isIntact_array.mpr ⟨rfl, List.forall_mem_map.mpr ih⟩
  | object _ _ ih =>
    rw [asRead, membersAsRead_eq_map]
    exact isIntact_object.mpr ⟨rfl, List.forall_mem_map.mpr ih⟩
  | _ => rfl

/-! ## Tokens -/

theorem itemTokens_eq_intercalate (vs : List Tree) : itemTokens vs = [Token.comma].intercalate (vs.map tokens) := by
  induction vs with
  | nil => rfl
  | cons v vs ih =>
    cases vs with
    | nil => simp [itemTokens]
    | cons w vs => simp [itemTokens, ih]

def tokensOfMember (m : List Piece × Tree) : List Token := .string m.1 :: .colon :: m.2.tokens

theorem memberTokens_eq_intercalate (ms : List (List Piece × Tree)) :
    memberTokens ms = [Token.comma].intercalate (ms.map tokensOfMember) := by
  induction ms with
  | nil => rfl
  | cons m ms ih =>
    cases ms with
    | nil => simp [memberTokens, tokensOfMember]
    | cons n ms => simp [memberTokens, tokensOfMember, ih]

end Tree

namespace NumbersEnd

variable {α : Type} {t : Token} {ts us : List Token}

theorem nil : NumbersEnd [] := List.isChain_nil

theorem cons (ht : ∀ n, t ≠ .number n) (h : NumbersEnd ts) : NumbersEnd (t :: ts) :=
  List.isChain_cons.mpr ⟨fun _ _ n hn => absurd hn (ht n), h⟩

theorem append_cons (h : NumbersEnd ts) (ht : t.isEnd = true) (h' : NumbersEnd us) : NumbersEnd (ts ++ t :: us) := by
  refine List.isChain_append.mpr ⟨h, cons (fun n hn => ?_) h', fun _ _ u hu _ _ => ?_⟩
  · rw [hn] at ht
    cases ht
  · cases hu
    exact ht

theorem intercalate {f : α → List Token} {as : List α} (h : ∀ a ∈ as, NumbersEnd (f a)) :
    NumbersEnd ([Token.comma].intercalate (as.map f)) := by
  induction as with
  | nil => exact .nil
  | cons a as ih =>
    rw [List.forall_mem_cons] at h
    cases as with
    | nil => simpa using h.1
    | cons b as => simpa using h.1.append_cons rfl (ih h.2)

end NumbersEnd

namespace AreSpelled

variable {α : Type} {t : Token} {ts us : List Token} {cs ds : List Char}

theorem empty : AreSpelled [] [] := .nil nofun

theorem cons_chars (ht : t.IsSpelled cs) (h : AreSpelled ts ds) : AreSpelled (t :: ts) (cs ++ ds) := by
  have hs : ∀ c ∈ ([] : List Char), Reading.isSpace c = true := nofun
  exact .cons hs ht h

theorem spaces {spaces : List Char} (hs : ∀ c ∈ spaces, Reading.isSpace c = true) (h : AreSpelled ts cs) :
    AreSpelled ts (spaces ++ cs) := by
  cases h with
  | nil hs' => exact .nil (List.forall_mem_append.mpr ⟨hs, hs'⟩)
  | cons hs' ht h =>
    rw [← List.append_assoc]
    exact .cons (List.forall_mem_append.mpr ⟨hs, hs'⟩) ht h

theorem append (h : AreSpelled ts cs) (h' : AreSpelled us ds) : AreSpelled (ts ++ us) (cs ++ ds) := by
  induction h with
  | nil hs => exact h'.spaces hs
  | cons hs ht _ ih =>
    rw [List.append_assoc, List.append_assoc]
    exact .cons hs ht ih

theorem intercalate {f g : α → List Token} {as : List α}
    (h : ∀ a ∈ as, AreSpelled (f a) ((g a).flatMap Token.chars)) :
    AreSpelled ([Token.comma].intercalate (as.map f)) (([Token.comma].intercalate (as.map g)).flatMap Token.chars) := by
  induction as with
  | nil => exact .empty
  | cons a as ih =>
    rw [List.forall_mem_cons] at h
    cases as with
    | nil => simpa using h.1
    | cons b as => simpa [Token.chars] using h.1.append (cons_chars .comma (ih h.2))

end AreSpelled

namespace Tree

theorem numbersEnd_tokens (t : Tree) : NumbersEnd t.tokens := by
  -- Behind an item or a member stands a comma or what closes the container, so a number in it ends there.
  induction t using Tree.induction with
  | array items closed ih =>
    rw [tokens, itemTokens_eq_intercalate]
    exact .append_cons (.cons nofun (.intercalate ih)) rfl .nil
  | object members stray ih =>
    rw [tokens, memberTokens_eq_intercalate]
    exact .append_cons (.cons nofun (.intercalate fun m hm => .cons nofun (.cons nofun (ih m hm)))) rfl .nil
  | _ => exact List.isChain_singleton _

theorem IsWritable.areSpelled {t : Tree} (h : t.IsWritable) :
    AreSpelled t.asRead.tokens (t.tokens.flatMap Token.chars) := by
  induction h with
  | null => exact .cons_chars .null .empty
  | boolean b => cases b <;> exact .cons_chars (.boolean _) .empty
  | ofInt n => exact .cons_chars (Token.isSpelled_ofInt n) .empty
  | string h => exact .cons_chars (Token.isSpelled_string h) .empty
  | array _ ih =>
    rw [asRead, tokens, tokens, itemTokens_eq_intercalate, itemTokens_eq_intercalate, itemsAsRead_eq_map, List.map_map,
      List.flatMap_append]
    exact .append (.cons_chars .openBracket (.intercalate ih)) (.cons_chars .closeBracket .empty)
  | object hn _ ih =>
    rw [asRead, tokens, tokens, memberTokens_eq_intercalate, memberTokens_eq_intercalate, membersAsRead_eq_map,
      List.map_map, List.flatMap_append]
    refine .append (.cons_chars .openBrace (.intercalate fun m hm => ?_)) (.cons_chars .closeBrace .empty)
    exact .cons_chars (Token.isSpelled_string (hn m hm)) (.cons_chars .colon (ih m hm))

theorem IsWritable.isSpelled_text {t : Tree} (h : t.IsWritable) : t.asRead.IsSpelled t.text := by
  refine ⟨h.isIntact_asRead, ?_⟩
  rw [text, String.toList_ofList]
  exact h.areSpelled

/-! ## From the tokens to the value -/

def IsReadBack (t : Tree) : Prop :=
  ∀ fuel ts, 2 * t.tokens.length ≤ fuel → read fuel (t.tokens ++ ts) = (t, ts)

theorem isReadBack_of_succ {t : Tree} (ht : t.tokens ≠ [])
    (h : ∀ fuel ts, 2 * t.tokens.length < fuel + 2 → read (fuel + 1) (t.tokens ++ ts) = (t, ts)) : t.IsReadBack := by
  intro fuel ts hf
  have hpos := List.length_pos_iff.mpr ht
  obtain ⟨fuel, rfl⟩ := Nat.exists_eq_add_one.mpr (show 0 < fuel by omega)
  exact h fuel ts (by omega)

theorem readItems_itemTokens {v : Tree} {vs : List Tree} (h : ∀ w ∈ v :: vs, w.IsReadBack) {fuel : Nat}
    (hf : 2 * (itemTokens (v :: vs)).length < fuel) (ts : List Token) :
    readItems fuel (itemTokens (v :: vs) ++ .closeBracket :: ts) = (v :: vs, true, ts) := by
  -- One unit of fuel is for this call; what is left suffices for the item and for the call behind the comma.
  obtain ⟨fuel, rfl⟩ := Nat.exists_eq_add_one.mpr (Nat.zero_lt_of_lt hf)
  induction vs generalizing v fuel with
  | nil =>
    have hv := h v List.mem_cons_self fuel (.closeBracket :: ts) (Nat.le_of_lt_add_one hf)
    simp only [itemTokens, readItems, hv]
  | cons w vs ih =>
    have ht : itemTokens (v :: w :: vs) = v.tokens ++ .comma :: itemTokens (w :: vs) := rfl
    rw [List.forall_mem_cons] at h
    rw [ht, List.length_append, List.length_cons] at hf
    have hv := h.1 fuel (.comma :: (itemTokens (w :: vs) ++ .closeBracket :: ts)) (by omega)
    obtain ⟨fuel, rfl⟩ := Nat.exists_eq_add_one.mpr (show 0 < fuel by omega)
    have hvs := ih h.2 fuel (by omega)
    rw [ht, List.append_assoc, List.cons_append, readItems, hv]
    simp only [hvs]

theorem readMembers_memberTokens {m : List Piece × Tree} {ms : List (List Piece × Tree)}
    (h : ∀ n ∈ m :: ms, n.2.IsReadBack) {fuel : Nat} (hf : 2 * (memberTokens (m :: ms)).length < fuel)
    (ts : List Token) :
    readMembers fuel (memberTokens (m :: ms) ++ .closeBrace :: ts) = (m :: ms, none, ts) := by
  obtain ⟨fuel, rfl⟩ := Nat.exists_eq_add_one.mpr (Nat.zero_lt_of_lt hf)
  induction ms generalizing m fuel with
  | nil =>
    have ht : memberTokens [m] = .string m.1 :: .colon :: m.2.tokens := rfl
    rw [ht, List.length_cons, List.length_cons] at hf
    have hv := h m List.mem_cons_self fuel (.closeBrace :: ts) (by omega)
    rw [ht, List.cons_append, List.cons_append, readMembers, hv]
  | cons n ms ih =>
    have ht : memberTokens (m :: n :: ms) =
        .string m.1 :: .colon :: m.2.tokens ++ .comma :: memberTokens (n :: ms) := rfl
    rw [List.forall_mem_cons] at h
    rw [ht, List.length_append, List.length_cons, List.length_cons, List.length_cons] at hf
    have hv := h.1 fuel (.comma :: (memberTokens (n :: ms) ++ .closeBrace :: ts)) (by omega)
    obtain ⟨fuel, rfl⟩ := Nat.exists_eq_add_one.mpr (show 0 < fuel by omega)
    have hms := ih h.2 fuel (by omega)
    rw [ht, List.append_assoc, List.cons_append, List.cons_append, List.cons_append, readMembers, hv]
    simp only [hms]

theorem head?_itemTokens (v : Tree) (vs : List Tree) (ts : List Token) :
    (itemTokens (v :: vs) ++ ts).head? ≠ some .closeBracket := by
  cases v <;> cases vs <;> nofun

theorem read_openBracket {fuel : Nat} {ts rest : List Token} {items : List Tree} {closed : Bool}
    (hne : ts.head? ≠ some .closeBracket) (h : readItems fuel ts = (items, closed, rest)) :
    read (fuel + 1) (.openBracket :: ts) = (.array items closed, rest) := by
  have hr : read (fuel + 1) (.openBracket :: ts) =
      (.array (readItems fuel ts).1 (readItems fuel ts).2.1, (readItems fuel ts).2.2) := by
    rw [read.eq_def]
    cases ts with
    | nil => rfl
    | cons t ts =>
      cases t with
      | closeBracket => exact absurd rfl hne
      | _ => rfl
  rw [hr, h]

theorem head?_memberTokens (m : List Piece × Tree) (ms : List (List Piece × Tree)) (ts : List Token) :
    (memberTokens (m :: ms) ++ ts).head? ≠ some .closeBrace := by
  cases ms <;> nofun

theorem read_openBrace {fuel : Nat} {ts rest : List Token} {members : List (List Piece × Tree)} {stray : Option Tree}
    (hne : ts.head? ≠ some .closeBrace) (h : readMembers fuel ts = (members, stray, rest)) :
    read (fuel + 1) (.openBrace :: ts) = (.object members stray, rest) := by
  have hr : read (fuel + 1) (.openBrace :: ts) =
      (.object (readMembers fuel ts).1 (readMembers fuel ts).2.1, (readMembers fuel ts).2.2) := by
    rw [read.eq_def]
    cases ts with
    | nil => rfl
    | cons t ts =>
      cases t with
      | closeBrace => exact absurd rfl hne
      | _ => rfl
  rw [hr, h]

theorem isReadBack {t : Tree} (h : t.isIntact = true) : t.IsReadBack := by
  induction t using Tree.induction with
  | array items closed ih =>
    obtain ⟨rfl, hi⟩ := isIntact_array.mp h
    refine isReadBack_of_succ nofun fun fuel ts hf => ?_
    cases items with
    | nil => rfl
    | cons v vs =>
      rw [tokens, List.length_append, List.length_cons] at hf
      rw [tokens, List.append_assoc]
      have hvs : ∀ w ∈ v :: vs, w.IsReadBack := fun w hw => ih w hw (hi w hw)
      exact read_openBracket (head?_itemTokens v vs _) (readItems_itemTokens hvs (by omega) ts)
  | object members stray ih =>
    obtain ⟨rfl, hi⟩ := isIntact_object.mp h
    refine isReadBack_of_succ nofun fun fuel ts hf => ?_
    cases members with
    | nil => rfl
    | cons m ms =>
      rw [tokens, List.length_append, List.length_cons] at hf
      rw [tokens, List.append_assoc]
      have hms : ∀ n ∈ m :: ms, n.2.IsReadBack := fun n hn => ih n hn (hi n hn)
      exact read_openBrace (head?_memberTokens m ms _) (readMembers_memberTokens hms (by omega) ts)
  | broken => cases h
  | _ => exact isReadBack_of_succ nofun fun _ _ _ => rfl

/-- A value is read back from any of its spellings, with nothing left over. -/
theorem IsSpelled.ofTokens_ofChars {t : Tree} {s : String} (h : t.IsSpelled s) :
    ofTokens (Token.ofChars s.toList) = (t, []) := by
  have hr := isReadBack h.1 (2 * t.tokens.length + 2) [] (by omega)
  rwa [List.append_nil, ← h.2.tokens_eq t.numbersEnd_tokens] at hr

end Tree

end Json

end ExtentLedger
