import ExtentLedger.Proofs.Json.Forms

/-!
# Objects by their entries

What an object text says apart from its spelling: the values of its members under their names, in the order of the text.
The decoders of objects are described by what stands under the names that they know.
-/

namespace ExtentLedger

namespace Json

abbrev Entries := List (String × Tree)

namespace Entries

variable {α : Type} {es : Entries} {names : List String} {name : String} {v : Tree}

def AreIn (es : Entries) (members : List (List Piece × Tree)) : Prop :=
  List.Forall₂ (fun m e => Decoder.pieces m.1 = .ok e.1 ∧ m.2 = e.2) members es

/-- The text is an object with these entries, whatever escapes and spaces it is written with. -/
def IsText (es : Entries) (s : String) : Prop :=
  ∃ members, es.AreIn members ∧ (Tree.object members none).IsSpelled s

def Once (names : List String) (es : Entries) : Prop := ∀ n ∈ names, (es.map Prod.fst).count n ≤ 1

instance (names : List String) (es : Entries) : Decidable (Once names es) :=
  inferInstanceAs (Decidable (∀ n ∈ names, (es.map Prod.fst).count n ≤ 1))

def ordered (names : List String) (es : Entries) : Entries :=
  names.filterMap fun n => (es.lookup n).map (n, ·)

def field? (d : Decoder α) (es : Entries) (name : String) : Option α := (es.lookup name).bind fun v => (d v).toOption

/-! ## Names -/

theorem lookup_eq_none : es.lookup name = none ↔ name ∉ es.map Prod.fst := by
  rw [List.lookup_eq_none_iff, List.mem_map]
  simp only [bne_iff_ne, not_exists, not_and]
  exact ⟨fun h e he hn => h e he hn.symm, fun h e he hn => h e he hn.symm⟩

theorem mem_of_lookup (h : es.lookup name = some v) : (name, v) ∈ es := by
  obtain ⟨before, after, rfl, -⟩ := List.lookup_eq_some_iff.mp h
  exact List.mem_append_right _ List.mem_cons_self

theorem lookup_cons_of_ne {n : String} (h : name ≠ n) : List.lookup name ((n, v) :: es) = es.lookup name := by
  rw [List.lookup_cons, beq_false_of_ne h]

theorem lookup_cons_self : List.lookup name ((name, v) :: es) = some v := by
  rw [List.lookup_cons, beq_self_eq_true]

theorem lookup_eq_some (h : (es.map Prod.fst).count name ≤ 1) : es.lookup name = some v ↔ (name, v) ∈ es := by
  refine ⟨mem_of_lookup, fun hv => ?_⟩
  induction es with
  | nil => cases hv
  | cons e es ih =>
    obtain ⟨n, w⟩ := e
    rw [List.map_cons, List.count_cons] at h
    by_cases hn : n = name
    · subst hn
      rw [if_pos (beq_self_eq_true _)] at h
      rcases List.mem_cons.mp hv with he | hv
      · cases he
        exact lookup_cons_self
      · -- A second entry under the name is one too many.
        have hpos : 0 < (es.map Prod.fst).count n := List.count_pos_iff.mpr (List.mem_map_of_mem hv)
        omega
    · rw [lookup_cons_of_ne (Ne.symm hn)]
      refine ih (by omega) ?_
      rcases List.mem_cons.mp hv with he | hv
      · cases he
        exact absurd rfl hn
      · exact hv

theorem once_append {fs : Entries} : Once names (es ++ fs) ↔
    Once names es ∧ Once names fs ∧ ∀ n ∈ names, n ∈ es.map Prod.fst → n ∉ fs.map Prod.fst := by
  simp only [Once, List.map_append, List.count_append]
  refine ⟨fun h => ⟨fun n hn => ?_, fun n hn => ?_, fun n hn hm hm' => ?_⟩, fun ⟨h, h', hd⟩ n hn => ?_⟩
  · exact (Nat.le_add_right _ _).trans (h n hn)
  · exact (Nat.le_add_left _ _).trans (h n hn)
  · have := h n hn
    have := List.count_pos_iff.mpr hm
    have := List.count_pos_iff.mpr hm'
    omega
  · by_cases hm : n ∈ es.map Prod.fst
    · rw [List.count_eq_zero_of_not_mem (hd n hn hm)]
      exact h n hn
    · rw [List.count_eq_zero_of_not_mem hm, Nat.zero_add]
      exact h' n hn

theorem once_singleton (names : List String) (e : String × Tree) : Once names [e] := fun n _ => by
  rw [List.map_singleton, List.count_singleton]
  split <;> decide

theorem once_concat : Once names (es ++ [(name, v)]) ↔ Once names es ∧ (name ∈ names → name ∉ es.map Prod.fst) := by
  rw [once_append]
  simp only [once_singleton, true_and, List.map_singleton, List.mem_singleton]
  exact and_congr_right fun _ => ⟨fun h hn hm => h name hn hm rfl, fun h n hn hm he => h (he ▸ hn) (he ▸ hm)⟩

theorem once_cons : Once names ((name, v) :: es) ↔ Once names es ∧ (name ∈ names → name ∉ es.map Prod.fst) := by
  rw [← List.singleton_append, once_append]
  simp only [once_singleton, true_and, List.map_singleton, List.mem_singleton]
  exact and_congr_right fun _ => ⟨fun h hn => h name hn rfl, fun h n hn he => he ▸ h (he ▸ hn)⟩

/-! ## Known entries in their order -/

theorem lookup_ordered (names : List String) (es : Entries) (name : String) :
    (ordered names es).lookup name = if name ∈ names then es.lookup name else none := by
  induction names with
  | nil => rfl
  | cons n names ih =>
    rw [ordered, List.filterMap_cons] at *
    by_cases hn : name = n
    · subst hn
      rw [if_pos List.mem_cons_self]
      cases hl : es.lookup name with
      | some v => exact lookup_cons_self
      | none =>
        rw [hl, ite_self] at ih
        exact ih
    · have hmem : name ∈ n :: names ↔ name ∈ names := by simp [hn]
      simp only [hmem]
      cases es.lookup n with
      | none => exact ih
      | some v => exact (lookup_cons_of_ne hn).trans ih

theorem mem_ordered {e : String × Tree} (h : e ∈ ordered names es) : e.1 ∈ names ∧ e ∈ es := by
  obtain ⟨n, hn, he⟩ := List.mem_filterMap.mp h
  obtain ⟨v, hv, rfl⟩ := Option.map_eq_some_iff.mp he
  exact ⟨hn, mem_of_lookup hv⟩

theorem once_ordered (hn : names.Nodup) (es : Entries) : Once names (ordered names es) := by
  have hs : ((ordered names es).map Prod.fst).Sublist names := by
    induction names with
    | nil => exact .slnil
    | cons n names ih =>
      have ih := ih (List.nodup_cons.mp hn).2
      rw [ordered, List.filterMap_cons]
      cases es.lookup n with
      | none => exact ih.cons n
      | some v => exact ih.cons_cons n
  exact fun n _ => List.nodup_iff_count.mp (hn.sublist hs) n

theorem field?_ordered {d : Decoder α} (h : name ∈ names) : field? d (ordered names es) name = field? d es name := by
  rw [field?, lookup_ordered, if_pos h, field?]

/-- Where every value under the name is acceptable, there is a field if the name stands there. -/
theorem isSome_field? {d : Decoder α} (h : ∀ w, (name, w) ∈ es → (d w).isOk = true) :
    (es.field? d name).isSome = true ↔ name ∈ es.map Prod.fst := by
  rw [field?]
  cases hl : es.lookup name with
  | none => exact iff_of_false nofun (lookup_eq_none.mp hl)
  | some w =>
    obtain ⟨a, ha⟩ := Decoder.isOk_iff.mp (h w (mem_of_lookup hl))
    rw [Option.bind_some, ha]
    exact iff_of_true rfl (List.mem_map_of_mem (mem_of_lookup hl))

theorem field?_cons_self {d : Decoder α} : field? d ((name, v) :: es) name = (d v).toOption := by
  rw [field?, lookup_cons_self, Option.bind_some]

theorem field?_cons_of_ne {d : Decoder α} {n : String} (h : name ≠ n) :
    field? d ((n, v) :: es) name = field? d es name := by
  rw [field?, lookup_cons_of_ne h, field?]

theorem field?_concat_of_ne {d : Decoder α} {n : String} (h : name ≠ n) :
    field? d (es ++ [(n, v)]) name = field? d es name := by
  rw [field?, List.lookup_append, lookup_cons_of_ne h, List.lookup_nil, Option.or_none, field?]

theorem field?_concat {d : Decoder α} (h : name ∉ es.map Prod.fst) :
    field? d (es ++ [(name, v)]) name = (d v).toOption := by
  rw [field?, List.lookup_append, lookup_eq_none.mpr h, lookup_cons_self]
  rfl

/-! ## Texts -/

theorem AreIn.exists_of_mem {members : List (List Piece × Tree)} (h : es.AreIn members) (hv : (name, v) ∈ es) :
    ∃ ps, Decoder.pieces ps = .ok name ∧ (ps, v) ∈ members := by
  induction h with
  | nil => cases hv
  | @cons m e members es hm _ ih =>
    rcases List.mem_cons.mp hv with rfl | hv
    · obtain ⟨ps, w⟩ := m
      obtain ⟨hps, rfl⟩ := hm
      exact ⟨ps, hps, List.mem_cons_self⟩
    · obtain ⟨ps, hps, hmem⟩ := ih hv
      exact ⟨ps, hps, List.mem_cons_of_mem m hmem⟩

theorem IsText.isIntact {s : String} (h : es.IsText s) (hv : (name, v) ∈ es) : v.isIntact = true := by
  obtain ⟨members, hm, hs, -⟩ := h
  obtain ⟨ps, -, hmem⟩ := hm.exists_of_mem hv
  exact (Tree.isIntact_object.mp hs).2 (ps, v) hmem

theorem areIn_spelling (members : List (String × Tree)) :
    AreIn (members.map fun m => (m.1, m.2.asRead)) (members.map fun m => (Piece.spelling m.1, m.2.asRead)) := by
  rw [AreIn, List.forall₂_map_left_iff, List.forall₂_map_right_iff, List.forall₂_same]
  exact fun m _ => ⟨Decoder.pieces_spelling m.1, rfl⟩

theorem isText_ofMembers {members : List (String × Tree)} (h : ∀ m ∈ members, m.2.IsWritable) :
    IsText (members.map fun m => (m.1, m.2.asRead)) (Tree.ofMembers members).text := by
  refine ⟨_, areIn_spelling members, ?_⟩
  rw [← Tree.asRead_ofMembers]
  exact (Tree.isWritable_ofMembers h).isSpelled_text

/-! Members can be left out of a text, or put into another order: each is spelled as it was. -/

def Spellable (ts : List Token) : Prop := ∃ cs, AreSpelled ts cs

theorem spellable_singleton {t : Token} {cs : List Char} (h : t.IsSpelled cs) : Spellable [t] :=
  ⟨cs ++ [], .cons_chars h .empty⟩

theorem spellable_append {ts us : List Token} : Spellable (ts ++ us) ↔ Spellable ts ∧ Spellable us := by
  constructor
  · intro h
    induction ts with
    | nil => exact ⟨⟨[], .empty⟩, h⟩
    | cons t ts ih =>
      obtain ⟨cs, h⟩ := h
      cases h with
      | cons hs ht h =>
        obtain ⟨⟨ds, hts⟩, hus⟩ := ih ⟨_, h⟩
        exact ⟨⟨_, .cons hs ht hts⟩, hus⟩
  · rintro ⟨⟨cs, h⟩, ds, h'⟩
    exact ⟨cs ++ ds, h.append h'⟩

theorem spellable_intercalate {f : α → List Token} {as : List α} :
    Spellable ([Token.comma].intercalate (as.map f)) ↔ ∀ a ∈ as, Spellable (f a) := by
  induction as with
  | nil => exact iff_of_true ⟨[], .empty⟩ nofun
  | cons a as ih =>
    rw [List.forall_mem_cons]
    cases as with
    | nil => simp
    | cons b as =>
      have he : [Token.comma].intercalate ((a :: b :: as).map f) =
          f a ++ ([Token.comma] ++ [Token.comma].intercalate ((b :: as).map f)) := by simp
      rw [he, spellable_append, spellable_append, ih]
      exact ⟨fun h => ⟨h.1, h.2.2⟩, fun h => ⟨h.1, spellable_singleton .comma, h.2⟩⟩

theorem IsText.exists_of_subset {es' : Entries} {s : String} (h : es.IsText s) (hs : es' ⊆ es) :
    ∃ s', es'.IsText s' := by
  obtain ⟨members, hm, hi, hspelled⟩ := h
  have hspellable : ∀ m ∈ members, Spellable (Tree.tokensOfMember m) := by
    have ht : Spellable ([Token.openBrace] ++ Tree.memberTokens members ++ [.closeBrace]) := ⟨_, hspelled⟩
    rw [spellable_append, spellable_append, Tree.memberTokens_eq_intercalate, spellable_intercalate] at ht
    exact ht.1.2
  obtain ⟨members', hm', hsub⟩ : ∃ members', es'.AreIn members' ∧ members' ⊆ members := by
    induction es' with
    | nil => exact ⟨[], .nil, List.nil_subset _⟩
    | cons e es' ih =>
      obtain ⟨he, hs⟩ := List.cons_subset.mp hs
      obtain ⟨members', hm', hsub⟩ := ih hs
      obtain ⟨ps, hps, hmem⟩ := hm.exists_of_mem he
      exact ⟨(ps, e.2) :: members', .cons ⟨hps, rfl⟩ hm', List.cons_subset.mpr ⟨hmem, hsub⟩⟩
  obtain ⟨cs, hcs⟩ : Spellable (Tree.object members' none).tokens := by
    have hms := spellable_intercalate.mpr fun m hm => hspellable m (hsub hm)
    rw [← Tree.memberTokens_eq_intercalate] at hms
    have hopen := spellable_append.mpr ⟨spellable_singleton .openBrace, hms⟩
    exact spellable_append.mpr ⟨hopen, spellable_singleton .closeBrace⟩
  refine ⟨String.ofList cs, members', hm', ?_, ?_⟩
  · exact Tree.isIntact_object.mpr ⟨rfl, fun m hm => (Tree.isIntact_object.mp hi).2 m (hsub hm)⟩
  · rwa [String.toList_ofList]

theorem IsText.exists_ordered {s : String} (h : es.IsText s) (names : List String) :
    ∃ s', (es.ordered names).IsText s' :=
  h.exists_of_subset fun _ he => (mem_ordered he).2

end Entries

end Json

end ExtentLedger
