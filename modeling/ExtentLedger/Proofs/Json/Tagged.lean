import ExtentLedger.Proofs.Attempt.Pure
import ExtentLedger.Proofs.Json.Objects

/-!
# Reference systems by their known fields

A reference system is read from an object text in two passes: the first takes the kind and keeps the other members, the
second picks the fields of the kind among these. What comes out is told by what stands under the name of the kind and
the names of its fields, wherever it stands.
-/

namespace ExtentLedger

open Json

namespace ReferenceSystem

variable {es : Entries} {kind : Option Kind} {k : Kind} {fields : List String} {name : String}

/-! ## Kinds -/

namespace Kind

theorem decoder_word (k : Kind) : Kind.decoder (.string (Piece.spelling k.word)) = .ok k := by
  rw [decoder, Decoder.string_spelling]
  cases k <;> rfl

theorem fields_spec (k : Kind) : k.fields.Nodup ∧ "kind" ∉ k.fields := by
  cases k <;> decide

theorem exists_build {texts : List String} (h : k.fields.length = texts.length) : ∃ r, k.build texts = some r := by
  cases k with
  | horizontal =>
    obtain ⟨c, rfl⟩ := List.length_eq_one_iff.mp h.symm
    exact ⟨_, rfl⟩
  | compound =>
    obtain ⟨c, h, v, rfl⟩ := List.length_eq_three.mp h.symm
    exact ⟨_, rfl⟩

end Kind

/-! ## The first pass -/

def splits (e : String × Tree) : Bool :=
  if e.1 = "kind" then (Kind.decoder e.2).isOk else e.2.isReadable maxDepth

theorem split_kind {ps : List Piece} (hps : Decoder.pieces ps = .ok "kind") (v : Tree)
    (members : List (List Piece × Tree)) :
    split none ((ps, v) :: members) = (Kind.decoder v >>= fun k => split (some k) members) := by
  rw [split, hps]
  rfl

theorem split_other {ps : List Piece} (hps : Decoder.pieces ps = .ok name) (hn : name ≠ "kind") (v : Tree)
    (members : List (List Piece × Tree)) :
    split kind ((ps, v) :: members) =
      if v.isReadable maxDepth then split kind members >>= fun r => .ok (r.1, (name, v) :: r.2)
      else .error .malformed := by
  rw [split, hps]
  exact if_neg hn

/-- What the first pass makes of the entries, where it has found the kind before or not. -/
structure IsSplit (kind : Option Kind) (es : Entries) (k : Option Kind) (rest : Entries) : Prop where
  fresh : kind.isSome = true → "kind" ∉ es.map Prod.fst
  once : es.Once ["kind"]
  fits : ∀ e ∈ es, splits e = true
  kind_eq : k = kind.or (es.field? Kind.decoder "kind")
  rest_eq : rest = es.filter fun e => e.1 ≠ "kind"

variable {k' : Option Kind} {rest : Entries} {v : Tree}

theorem isSplit_nil : IsSplit kind [] k' rest ↔ k' = kind ∧ rest = [] := by
  have hf : Entries.field? Kind.decoder [] "kind" = none := rfl
  constructor
  · rintro ⟨-, -, -, hk, hr⟩
    rw [hf, Option.or_none] at hk
    exact ⟨hk, hr⟩
  · rintro ⟨rfl, rfl⟩
    exact ⟨fun _ => List.not_mem_nil, fun _ _ => Nat.zero_le 1, List.forall_mem_nil _, by rw [hf, Option.or_none], rfl⟩

theorem isSplit_kind_again : ¬ IsSplit (some k) (("kind", v) :: es) k' rest :=
  fun h => h.fresh rfl List.mem_cons_self

theorem isSplit_kind : IsSplit none (("kind", v) :: es) k' rest ↔
    ∃ k, Kind.decoder v = .ok k ∧ IsSplit (some k) es k' rest := by
  have hmem : "kind" ∈ ["kind"] := List.mem_singleton.mpr rfl
  constructor
  · rintro ⟨-, honce, hfits, rfl, rfl⟩
    obtain ⟨honce, hfresh⟩ := Entries.once_cons.mp honce
    obtain ⟨hv, hfits⟩ := List.forall_mem_cons.mp hfits
    rw [splits, if_pos rfl] at hv
    obtain ⟨k, hk⟩ := Decoder.isOk_iff.mp hv
    refine ⟨k, hk, fun _ => hfresh hmem, honce, hfits, ?_, rfl⟩
    rw [Entries.field?_cons_self, hk]
    rfl
  · rintro ⟨k, hk, hfresh, honce, hfits, rfl, rfl⟩
    refine ⟨by simp, Entries.once_cons.mpr ⟨honce, fun _ => hfresh rfl⟩, List.forall_mem_cons.mpr ⟨?_, hfits⟩, ?_, rfl⟩
    · rw [splits, if_pos rfl]
      exact Decoder.isOk_iff.mpr ⟨k, hk⟩
    · rw [Entries.field?_cons_self, hk]
      rfl

theorem isSplit_other (hn : name ≠ "kind") : IsSplit kind ((name, v) :: es) k' rest ↔
    v.isReadable maxDepth = true ∧ ∃ rest', IsSplit kind es k' rest' ∧ rest = (name, v) :: rest' := by
  have hs : splits (name, v) = v.isReadable maxDepth := by rw [splits, if_neg hn]
  have hf : ((name, v) :: es).filter (fun e => e.1 ≠ "kind") = (name, v) :: es.filter fun e => e.1 ≠ "kind" :=
    List.filter_cons_of_pos (decide_eq_true hn)
  have hfield : Entries.field? Kind.decoder ((name, v) :: es) "kind" = es.field? Kind.decoder "kind" :=
    Entries.field?_cons_of_ne (Ne.symm hn)
  have hmem : "kind" ∈ ((name, v) :: es).map Prod.fst ↔ "kind" ∈ es.map Prod.fst := by simp [Ne.symm hn]
  constructor
  · rintro ⟨hfresh, honce, hfits, rfl, rfl⟩
    obtain ⟨hv, hfits⟩ := List.forall_mem_cons.mp hfits
    rw [hfield]
    exact ⟨hs ▸ hv, _, ⟨fun h => mt hmem.mpr (hfresh h), (Entries.once_cons.mp honce).1, hfits, rfl, rfl⟩, hf⟩
  · rintro ⟨hv, _, ⟨hfresh, honce, hfits, rfl, rfl⟩, rfl⟩
    refine ⟨fun h => mt hmem.mp (hfresh h), Entries.once_cons.mpr ⟨honce, fun h => absurd (List.mem_singleton.mp h) hn⟩,
      List.forall_mem_cons.mpr ⟨hs ▸ hv, hfits⟩, by rw [hfield], hf.symm⟩

theorem split_eq_ok {members : List (List Piece × Tree)} (h : es.AreIn members) :
    split kind members = .ok (k', rest) ↔ IsSplit kind es k' rest := by
  induction h generalizing kind k' rest with
  | nil =>
    have hs : split kind [] = .ok (kind, []) := rfl
    rw [hs, isSplit_nil, Except.ok.injEq, Prod.mk.injEq, eq_comm, eq_comm (a := [])]
  | @cons m e members es hm _ ih =>
    obtain ⟨ps, v⟩ := m
    obtain ⟨name, w⟩ := e
    obtain ⟨hps, rfl⟩ := hm
    dsimp only at hps
    by_cases hn : name = "kind"
    · subst hn
      cases kind with
      | some k =>
        have hs : split (some k) ((ps, v) :: members) = .error (.duplicateField "kind") := by
          rw [split, hps]
          rfl
        rw [hs]
        exact iff_of_false (by simp) isSplit_kind_again
      | none =>
        rw [split_kind hps, bind_eq_ok, isSplit_kind]
        exact exists_congr fun k => and_congr_right fun _ => ih
    · rw [split_other hps hn, isSplit_other hn]
      by_cases hv : v.isReadable maxDepth = true
      · rw [if_pos hv, bind_eq_ok]
        constructor
        · rintro ⟨⟨k', rest⟩, hr, he⟩
          cases he
          exact ⟨hv, rest, ih.mp hr, rfl⟩
        · rintro ⟨-, rest, hr, rfl⟩
          exact ⟨_, ih.mpr hr, rfl⟩
      · rw [if_neg hv]
        exact iff_of_false (by simp) fun h => hv h.1

/-! ## The second pass -/

def textField : Decoder String := .string "a string"

def textsOf (fields : List String) (es : Entries) : List (String × String) :=
  es.filterMap fun e => if e.1 ∈ fields then (textField e.2).toOption.map (e.1, ·) else none

theorem textsOf_append (fields : List String) (es fs : Entries) :
    textsOf fields (es ++ fs) = textsOf fields es ++ textsOf fields fs := List.filterMap_append

theorem textsOf_of_mem {v : Tree} {s : String} (hn : name ∈ fields) (hs : textField v = .ok s) :
    textsOf fields [(name, v)] = [(name, s)] := by
  rw [textsOf, List.filterMap_cons_some (b := (name, s)), List.filterMap_nil]
  rw [if_pos hn, hs]
  rfl

theorem textsOf_of_not_mem (hn : name ∉ fields) (v : Tree) : textsOf fields [(name, v)] = [] :=
  List.filterMap_cons_none (if_neg hn)

theorem lookup_textsOf (h : ∀ e ∈ es, e.1 ∈ fields → (textField e.2).isOk = true) (hn : name ∈ fields) :
    (textsOf fields es).lookup name = es.field? textField name := by
  induction es with
  | nil => rfl
  | cons e es ih =>
    obtain ⟨n, v⟩ := e
    rw [List.forall_mem_cons] at h
    have ih := ih h.2
    rw [← List.singleton_append, textsOf_append]
    by_cases hf : n ∈ fields
    · obtain ⟨s, hs⟩ := Decoder.isOk_iff.mp (h.1 hf)
      rw [textsOf_of_mem hf hs, List.singleton_append, List.singleton_append, List.lookup_cons]
      by_cases he : name = n
      · subst he
        rw [beq_self_eq_true, Entries.field?_cons_self, hs]
        rfl
      · rw [beq_false_of_ne he, Entries.field?_cons_of_ne he]
        exact ih
    · have he : name ≠ n := fun he => hf (he ▸ hn)
      rw [textsOf_of_not_mem hf, List.nil_append, List.singleton_append, Entries.field?_cons_of_ne he, ih]

theorem collect_append (found : List (String × String)) (es fs : Entries) :
    collect fields found (es ++ fs) = (collect fields found es >>= fun found => collect fields found fs) := by
  induction es generalizing found with
  | nil => rfl
  | cons e es ih =>
    obtain ⟨name, v⟩ := e
    rw [List.cons_append, collect, collect]
    by_cases hn : name ∈ fields
    · rw [if_pos hn, if_pos hn]
      by_cases hl : (found.lookup name).isSome = true
      · rw [if_pos hl, if_pos hl]
        rfl
      · rw [if_neg hl, if_neg hl, bind_assoc]
        exact bind_congr fun s => ih _
    · rw [if_neg hn, if_neg hn, ih]

theorem collect_textsOf_eq_ok (h : ∀ e ∈ es, e.1 ∈ fields → (textField e.2).isOk = true) {v : Tree}
    {r : List (String × String)} : collect fields (textsOf fields es) [(name, v)] = .ok r ↔
      (name ∈ fields → name ∉ es.map Prod.fst) ∧ (name ∈ fields → (textField v).isOk = true) ∧
        r = textsOf fields (es ++ [(name, v)]) := by
  rw [collect, textsOf_append]
  by_cases hn : name ∈ fields
  · have hs := Entries.isSome_field? fun w hw => h (name, w) hw hn
    rw [if_pos hn, lookup_textsOf h hn]
    by_cases hm : name ∈ es.map Prod.fst
    · rw [if_pos (hs.mpr hm)]
      exact iff_of_false (by simp) fun h => h.1 hn hm
    · rw [if_neg fun h => hm (hs.mp h), bind_eq_ok]
      constructor
      · rintro ⟨s, hv, hr⟩
        cases hr
        exact ⟨fun _ => hm, fun _ => Decoder.isOk_iff.mpr ⟨s, hv⟩, by rw [textsOf_of_mem hn hv]⟩
      · rintro ⟨-, hv, rfl⟩
        obtain ⟨s, hv⟩ := Decoder.isOk_iff.mp (hv hn)
        exact ⟨s, hv, by rw [textsOf_of_mem hn hv]; rfl⟩
  · rw [if_neg hn, textsOf_of_not_mem hn, List.append_nil, collect, Except.ok.injEq]
    simp only [hn, false_imp_iff, true_and]
    exact eq_comm

theorem collect_eq_ok {r : List (String × String)} : collect fields [] es = .ok r ↔
    es.Once fields ∧ (∀ e ∈ es, e.1 ∈ fields → (textField e.2).isOk = true) ∧ r = textsOf fields es := by
  induction es using List.reverseRecOn generalizing r with
  | nil =>
    have hc : collect fields [] [] = .ok [] := rfl
    rw [hc]
    constructor
    · intro h
      cases h
      exact ⟨fun _ _ => Nat.zero_le 1, List.forall_mem_nil _, rfl⟩
    · rintro ⟨-, -, rfl⟩
      rfl
  | append_singleton es e ih =>
    obtain ⟨name, v⟩ := e
    rw [collect_append, bind_eq_ok, List.forall_mem_append, List.forall_mem_singleton, Entries.once_concat]
    constructor
    · rintro ⟨found, hf, hr⟩
      obtain ⟨honce, hfits, rfl⟩ := ih.mp hf
      obtain ⟨hnew, hv, rfl⟩ := (collect_textsOf_eq_ok hfits).mp hr
      exact ⟨⟨honce, hnew⟩, ⟨hfits, hv⟩, rfl⟩
    · rintro ⟨⟨honce, hnew⟩, ⟨hfits, hv⟩, rfl⟩
      exact ⟨_, ih.mpr ⟨honce, hfits, rfl⟩, (collect_textsOf_eq_ok hfits).mpr ⟨hnew, hv, rfl⟩⟩

theorem pick_congr {found found' : List (String × String)} (h : ∀ n ∈ fields, found.lookup n = found'.lookup n) :
    pick found fields = pick found' fields := by
  induction fields with
  | nil => rfl
  | cons n fields ih =>
    rw [List.forall_mem_cons] at h
    have ih := ih h.2
    rw [pick, pick] at ih ⊢
    rw [List.mapM_cons, List.mapM_cons, h.1, ih]

theorem pick_eq_ok {found : List (String × String)} {fields texts : List String} (hl : texts.length = fields.length)
    (h : ∀ m ∈ fields.zip texts, found.lookup m.1 = some m.2) : pick found fields = .ok texts := by
  induction fields generalizing texts with
  | nil =>
    rw [List.length_eq_zero_iff.mp hl]
    rfl
  | cons f fields ih =>
    obtain ⟨t, texts, rfl⟩ := List.exists_cons_of_length_eq_add_one hl
    rw [List.zip_cons_cons, List.forall_mem_cons] at h
    have hrest := ih (Nat.succ.inj hl) h.2
    rw [pick] at hrest ⊢
    simp [h.1, hrest, bind, Except.bind, pure, Except.pure]

theorem pick_missing {found : List (String × String)} (h : ∃ n ∈ fields, found.lookup n = none) :
    ∃ n ∈ fields, found.lookup n = none ∧ pick found fields = .error (.missingField n) := by
  induction fields with
  | nil => simp at h
  | cons n fields ih =>
    cases hn : found.lookup n with
    | none =>
      refine ⟨n, List.mem_cons_self, hn, ?_⟩
      rw [pick, List.mapM_cons, hn]
      rfl
    | some s =>
      obtain ⟨m, hm, hl⟩ := h
      have hm : m ∈ fields := by
        rcases List.mem_cons.mp hm with rfl | hm
        · rw [hn] at hl
          cases hl
        · exact hm
      obtain ⟨m, hm, hl, hp⟩ := ih ⟨m, hm, hl⟩
      refine ⟨m, List.mem_cons_of_mem n hm, hl, ?_⟩
      rw [pick] at hp ⊢
      rw [List.mapM_cons, hn, hp]
      rfl

/-! ## Both passes -/

/-- No known field is repeated, the kind and the values of its fields are acceptable, and the others are readable. -/
structure Accepts (depth : Nat) (k : Kind) (es : Entries) : Prop where
  once : es.Once ("kind" :: k.fields)
  kind : es.field? Kind.decoder "kind" = some k
  texts : ∀ e ∈ es, e.1 ∈ k.fields → (textField e.2).isOk = true
  others : ∀ e ∈ es, e.1 ∉ "kind" :: k.fields → e.2.isReadable depth = true

theorem isReadable_of_textField {v : Tree} (h : (textField v).isOk = true) (depth : Nat) :
    v.isReadable depth = true := by
  obtain ⟨s, hs⟩ := Decoder.isOk_iff.mp h
  obtain ⟨ps, rfl, hps⟩ := Decoder.string_eq_ok.mp hs
  rw [Tree.isReadable]
  cases hd : Piece.decode? ps with
  | some cs => rfl
  | none =>
    rw [Decoder.pieces, hd] at hps
    cases hps

theorem Accepts.splits_all {depth : Nat} (hd : depth ≤ maxDepth) (h : Accepts depth k es) :
    ∀ e ∈ es, splits e = true := by
  rintro ⟨name, v⟩ he
  rw [splits]
  by_cases hn : name = "kind"
  · subst hn
    rw [if_pos rfl]
    have hv := (Entries.lookup_eq_some (h.once "kind" List.mem_cons_self)).mpr he
    have hk := h.kind
    rw [Entries.field?, hv, Option.bind_some] at hk
    cases hd : Kind.decoder v with
    | ok k => rfl
    | error e =>
      rw [hd] at hk
      cases hk
  · rw [if_neg hn]
    by_cases hf : name ∈ k.fields
    · exact isReadable_of_textField (h.texts (name, v) he hf) maxDepth
    · exact Tree.isReadable_mono hd (h.others _ he (by simp [hn, hf]))

theorem count_filter {name : String} (hn : name ≠ "kind") (es : Entries) :
    ((es.filter fun e => e.1 ≠ "kind").map Prod.fst).count name = (es.map Prod.fst).count name := by
  have hm : (es.filter fun e => e.1 ≠ "kind").map Prod.fst = (es.map Prod.fst).filter fun n => n ≠ "kind" := by
    rw [List.filter_map]
    rfl
  rw [hm]
  exact List.count_filter (decide_eq_true hn)

theorem textsOf_filter (hk : "kind" ∉ fields) (es : Entries) :
    textsOf fields (es.filter fun e => e.1 ≠ "kind") = textsOf fields es := by
  rw [textsOf, List.filterMap_filter, textsOf]
  congr 1
  funext e
  by_cases he : e.1 = "kind"
  · have hn : e.1 ∉ fields := he ▸ hk
    simp [he, hk]
  · simp [he]

variable {depth : Nat} {members : List (List Piece × Tree)} {s : String} {r : ReferenceSystem}

theorem ofMembers_eq (hm : es.AreIn members) (hd : depth ≤ maxDepth) (h : Accepts depth k es) :
    ofMembers members none = (pick (textsOf k.fields es) k.fields >>= fun texts =>
      match k.build texts with
      | some r => .ok r
      | none => .error .malformed) := by
  obtain ⟨-, hkind⟩ := k.fields_spec
  have hs : split none members = .ok (some k, es.filter fun e => e.1 ≠ "kind") :=
    (split_eq_ok hm).mpr ⟨by simp, fun n hn => h.once n (by simp_all), h.splits_all hd, by rw [h.kind]; rfl, rfl⟩
  have hc : collect k.fields [] (es.filter fun e => e.1 ≠ "kind") = .ok (textsOf k.fields es) := by
    refine collect_eq_ok.mpr ⟨fun n hn => ?_, fun e he hf => ?_, (textsOf_filter hkind es).symm⟩
    · rw [count_filter fun he => hkind (he ▸ hn)]
      exact h.once n (List.mem_cons_of_mem _ hn)
    · exact h.texts e (List.mem_of_mem_filter he) hf
  rw [ofMembers, hs]
  change (collect k.fields [] (es.filter fun e => e.1 ≠ "kind") >>= fun texts => pick texts k.fields >>= _) = _
  rw [hc]
  rfl

theorem exists_of_ofMembers (hm : es.AreIn members) (h : ofMembers members none = .ok r) :
    ∃ k, es.field? Kind.decoder "kind" = some k ∧ es.Once ("kind" :: k.fields) := by
  obtain ⟨⟨k', rest⟩, hs, h⟩ := bind_eq_ok.mp h
  obtain ⟨-, honce, -, rfl, rfl⟩ := (split_eq_ok hm).mp hs
  cases hk : es.field? Kind.decoder "kind" with
  | none =>
    rw [hk] at h
    cases h
  | some k =>
    rw [hk] at h
    obtain ⟨found, hc, -⟩ := bind_eq_ok.mp h
    refine ⟨k, rfl, fun n hn => ?_⟩
    by_cases hne : n = "kind"
    · exact hne ▸ honce "kind" (List.mem_singleton.mpr rfl)
    · rw [← count_filter hne]
      exact (collect_eq_ok.mp hc).1 n ((List.mem_cons.mp hn).resolve_left hne)

/-! ## Texts -/

theorem run_eq (hs : es.IsText s) (hd : depth ≤ maxDepth) (h : Accepts depth k es) :
    decoder.run s = (pick (textsOf k.fields es) k.fields >>= fun texts =>
      match k.build texts with
      | some r => .ok r
      | none => .error .malformed) := by
  obtain ⟨members, hm, hs⟩ := hs
  rw [Decoder.run_of_isSpelled hs]
  exact ofMembers_eq hm hd h

theorem Accepts.ordered (h : Accepts depth k es) : Accepts depth k (es.ordered ("kind" :: k.fields)) where
  once := Entries.once_ordered (List.nodup_cons.mpr k.fields_spec.symm) es
  kind := (Entries.field?_ordered List.mem_cons_self).trans h.kind
  texts e he := h.texts e (Entries.mem_ordered he).2
  others _ he hn := absurd (Entries.mem_ordered he).1 hn

theorem Accepts.lookup_textsOf (h : Accepts depth k es) (hn : name ∈ k.fields) :
    (textsOf k.fields es).lookup name = es.field? textField name :=
  ReferenceSystem.lookup_textsOf h.texts hn

theorem run_ordered (hs : es.IsText s) (hd : depth ≤ maxDepth) (h : Accepts depth k es) {s' : String}
    (hs' : (es.ordered ("kind" :: k.fields)).IsText s') : decoder.run s' = decoder.run s := by
  have hp : pick (textsOf k.fields (es.ordered ("kind" :: k.fields))) k.fields = pick (textsOf k.fields es) k.fields :=
    pick_congr fun n hn => by
      rw [h.ordered.lookup_textsOf hn, h.lookup_textsOf hn, Entries.field?_ordered (List.mem_cons_of_mem _ hn)]
  rw [run_eq hs' hd h.ordered, run_eq hs hd h, hp]

theorem exists_forall₂ {α β : Type} {P : α → β → Prop} {as : List α} (h : ∀ a ∈ as, ∃ b, P a b) :
    ∃ bs, List.Forall₂ P as bs := by
  induction as with
  | nil => exact ⟨[], .nil⟩
  | cons a as ih =>
    rw [List.forall_mem_cons] at h
    obtain ⟨b, hb⟩ := h.1
    obtain ⟨bs, hbs⟩ := ih h.2
    exact ⟨b :: bs, .cons hb hbs⟩

theorem run_eq_ok (hs : es.IsText s) (hd : depth ≤ maxDepth) (h : Accepts depth k es)
    (hall : ∀ name ∈ k.fields, es.lookup name ≠ none) :
    ∃ texts r, List.Forall₂ (fun name t => es.field? textField name = some t) k.fields texts ∧
      k.build texts = some r ∧ decoder.run s = .ok r := by
  obtain ⟨texts, ht⟩ : ∃ texts, List.Forall₂ (fun name t => es.field? textField name = some t) k.fields texts := by
    refine exists_forall₂ fun name hn => ?_
    obtain ⟨v, hv⟩ := Option.ne_none_iff_exists'.mp (hall name hn)
    obtain ⟨t, ht⟩ := Decoder.isOk_iff.mp (h.texts (name, v) (Entries.mem_of_lookup hv) hn)
    refine ⟨t, ?_⟩
    rw [Entries.field?, hv, Option.bind_some, ht]
    rfl
  obtain ⟨hlen, hzip⟩ := List.forall₂_iff_zip.mp ht
  obtain ⟨r, hr⟩ := Kind.exists_build hlen
  have hp : pick (textsOf k.fields es) k.fields = .ok texts :=
    pick_eq_ok hlen.symm fun m hm => (h.lookup_textsOf (List.of_mem_zip hm).1).trans (hzip hm)
  refine ⟨texts, r, ht, hr, ?_⟩
  rw [run_eq hs hd h, hp]
  exact bind_eq_ok.mpr ⟨texts, rfl, by rw [hr]⟩

theorem run_missing (hs : es.IsText s) (hd : depth ≤ maxDepth) (h : Accepts depth k es)
    (hmissing : ∃ name ∈ k.fields, es.lookup name = none) :
    ∃ name ∈ k.fields, es.lookup name = none ∧ decoder.run s = .error (.missingField name) := by
  have hl {name : String} (hn : name ∈ k.fields) :
      (textsOf k.fields es).lookup name = none ↔ es.lookup name = none := by
    rw [h.lookup_textsOf hn, ← Option.not_isSome_iff_eq_none, Entries.isSome_field? fun v hv => h.texts (name, v) hv hn,
      Entries.lookup_eq_none]
  obtain ⟨name, hn, hnone⟩ := hmissing
  obtain ⟨name, hn, hnone, hp⟩ := pick_missing ⟨name, hn, (hl hn).mpr hnone⟩
  refine ⟨name, hn, (hl hn).mp hnone, ?_⟩
  rw [run_eq hs hd h, hp]
  rfl

theorem run_missing_kind (hs : es.IsText s) (hkind : es.lookup "kind" = none)
    (h : ∀ e ∈ es, e.2.isReadable maxDepth = true) : decoder.run s = .error (.missingField "kind") := by
  obtain ⟨members, hm, hs⟩ := hs
  have hnot := Entries.lookup_eq_none.mp hkind
  have hsplits : ∀ e ∈ es, splits e = true := by
    intro e he
    have hne : e.1 ≠ "kind" := fun hn => hnot (hn ▸ List.mem_map_of_mem he)
    rw [splits, if_neg hne]
    exact h e he
  have honce : es.Once ["kind"] := fun n hn => by
    rw [List.mem_singleton.mp hn, List.count_eq_zero_of_not_mem hnot]
    exact Nat.zero_le 1
  have hf : es.field? Kind.decoder "kind" = none := by rw [Entries.field?, hkind]; rfl
  have hsplit : split none members = .ok (none, es.filter fun e => e.1 ≠ "kind") :=
    (split_eq_ok hm).mpr ⟨by simp, honce, hsplits, by rw [hf]; rfl, rfl⟩
  rw [Decoder.run_of_isSpelled hs]
  change ofMembers members none = _
  rw [ofMembers, hsplit]
  rfl

theorem run_error (hs : es.IsText s)
    (h : ∀ k, es.field? Kind.decoder "kind" = some k → ¬ es.Once ("kind" :: k.fields)) :
    ∃ e, decoder.run s = .error e := by
  obtain ⟨members, hm, hs⟩ := hs
  rw [Decoder.run_of_isSpelled hs]
  cases hr : decoder (.object members none) with
  | error e => exact ⟨e, rfl⟩
  | ok r =>
    obtain ⟨k, hk, honce⟩ := exists_of_ofMembers hm hr
    exact absurd honce (h k hk)

/-! ## Systems from their own texts -/

def Kind.writtenMembers (k : Kind) (texts : List String) : List (String × Tree) :=
  ("kind", .ofString k.word) :: (k.fields.zip texts).map fun m => (m.1, .ofString m.2)

/-- A system is written as its kind and its texts, each under the name of its field. -/
theorem exists_toTree (r : ReferenceSystem) : ∃ (k : Kind) (texts : List String),
    k.build texts = some r ∧ texts.length = k.fields.length ∧ r.toTree = .ofMembers (k.writtenMembers texts) := by
  cases r with
  | horizontal c => exact ⟨.horizontal, [c], rfl, rfl, rfl⟩
  | compound c h v => exact ⟨.compound, [c, h, v], rfl, rfl, rfl⟩

theorem accepts_writtenMembers {texts : List String} (hl : texts.length = k.fields.length) :
    Accepts 0 k ((k.writtenMembers texts).map fun m => (m.1, m.2.asRead)) := by
  have hfst : ((k.writtenMembers texts).map fun m => (m.1, m.2.asRead)).map Prod.fst = "kind" :: k.fields := by
    have hzip : (k.fields.zip texts).map Prod.fst = k.fields := List.map_fst_zip (Nat.le_of_eq hl.symm)
    rw [List.map_map, Kind.writtenMembers, List.map_cons, List.map_map]
    exact congrArg ("kind" :: ·) hzip
  refine ⟨fun n _ => ?_, ?_, ?_, ?_⟩
  · rw [hfst]
    exact List.nodup_iff_count.mp (List.nodup_cons.mpr k.fields_spec.symm) n
  · rw [Kind.writtenMembers, List.map_cons, Entries.field?_cons_self, Tree.asRead_ofString, k.decoder_word]
    rfl
  · rw [List.forall_mem_map, Kind.writtenMembers, List.forall_mem_cons, List.forall_mem_map]
    refine ⟨fun h => absurd h k.fields_spec.2, fun m _ _ => ?_⟩
    exact Decoder.isOk_iff.mpr ⟨m.2, (Decoder.reads_string _).asRead m.2⟩
  · exact fun e he hn => absurd (hfst ▸ List.mem_map_of_mem he) hn

theorem reads : ReferenceSystem.decoder.Reads toTree where
  isWritable r := by
    obtain ⟨k, texts, -, -, ht⟩ := exists_toTree r
    rw [ht]
    refine Tree.isWritable_ofMembers (List.forall_mem_cons.mpr ⟨Tree.isWritable_ofString k.word, ?_⟩)
    exact List.forall_mem_map.mpr fun m _ => Tree.isWritable_ofString m.2
  asRead r := by
    obtain ⟨k, texts, hb, hl, ht⟩ := exists_toTree r
    have h := accepts_writtenMembers (k := k) hl
    have hp : pick (textsOf k.fields ((k.writtenMembers texts).map fun m => (m.1, m.2.asRead))) k.fields =
        .ok texts := by
      refine pick_eq_ok hl fun m hm => ?_
      have hn : m.1 ∈ k.fields := (List.of_mem_zip hm).1
      have hmem : (m.1, (Tree.ofString m.2).asRead) ∈ (k.writtenMembers texts).map fun m => (m.1, m.2.asRead) :=
        List.mem_map.mpr ⟨(m.1, .ofString m.2), List.mem_cons_of_mem _ (List.mem_map_of_mem hm), rfl⟩
      have hv := (Entries.lookup_eq_some (h.once m.1 (List.mem_cons_of_mem _ hn))).mpr hmem
      rw [h.lookup_textsOf hn, Entries.field?, hv, Option.bind_some, textField, (Decoder.reads_string _).asRead]
      rfl
    rw [ht, Tree.asRead_ofMembers, decoder, ofMembers_eq (Entries.areIn_spelling _) (Nat.zero_le _) h, hp]
    exact bind_eq_ok.mpr ⟨texts, rfl, by rw [hb]⟩

end ReferenceSystem

end ExtentLedger
