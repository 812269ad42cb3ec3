import ExtentLedger.Observer.ConfigJson
import ExtentLedger.Proofs.Json.Tagged

/-!
# Configurations from texts

A configuration is read from an object by what stands under its four names, wherever it stands: the other members are
passed over. Hence it is read back from its own text, whatever its scope, operations, budget and priority are. Reading
checks it as it would be checked anyway, so what has once been read can be written and read again.
-/

namespace ExtentLedger

open Json

namespace ObserverConfig

/-! ## Fields -/

theorem reads_scopeField : scopeField.Reads Tree.ofString := Decoder.reads_string "a string"

theorem reads_operationsField :
    operationsField.Reads fun ops => .ofItems (ops.toList.map Operation.toTree) where
  isWritable ops := Operation.reads.listOf.isWritable ops.toList
  asRead ops := by
    have hset : Std.ExtTreeSet.ofList ops.toList = ops := Std.ExtTreeSet.ext_mem fun op => by simp
    rw [operationsField, Operation.reads.listOf.asRead, Except.map, hset]

theorem reads_budgetField : budgetField.Reads fun n => .ofInt n.toNat where
  isWritable n := .ofInt n.toNat
  asRead n := by
    have hn : n.toNat < UInt64.size := n.toNat_lt_size
    have hmin : Int64.minValue.toInt ≤ 0 := by decide
    rw [budgetField, Decoder.integer_ofInt "usize" (by omega) (by omega) (by omega) (by omega)]
    simp [Except.map]

theorem reads_priorityField : priorityField.Reads fun n => .ofInt n.toInt where
  isWritable n := .ofInt n.toInt
  asRead n := by
    have hl := n.minValue_le_toInt
    have hh := n.toInt_le
    rw [priorityField, Decoder.integer_ofInt "i32" hl hh (Int.le_trans (by decide) hl) (Int.lt_of_le_of_lt hh (by decide))]
    simp [Except.map]

/-! ## Members by their names -/

def fieldNames : List String := ["namespace", "operations", "densify_points", "priority"]

def fits (name : String) (v : Tree) : Bool :=
  if name = "namespace" then (scopeField v).isOk
  else if name = "operations" then (operationsField v).isOk
  else if name = "densify_points" then (budgetField v).isOk
  else if name = "priority" then (priorityField v).isOk
  else v.isIntact

/-- No known field is repeated, and the values of the known fields are acceptable. -/
structure Accepts (es : Entries) : Prop where
  once : es.Once fieldNames
  fits : ∀ e ∈ es, e.1 ∈ fieldNames → fits e.1 e.2 = true

def Draft.ofEntries (es : Entries) : Draft :=
  ⟨es.field? scopeField "namespace", es.field? operationsField "operations", es.field? budgetField "densify_points",
    es.field? priorityField "priority"⟩

/-! ## One member -/

section

variable {α : Type} {es : Entries} {name : String} {v : Tree} {d : Decoder α}

theorem once_eq_ok {r : Option α} (h : ∀ w, (name, w) ∈ es → (d w).isOk = true) :
    once name (es.field? d name) d v = .ok r ↔
      name ∉ es.map Prod.fst ∧ (d v).isOk = true ∧ r = Entries.field? d (es ++ [(name, v)]) name := by
  rw [once]
  by_cases hn : name ∈ es.map Prod.fst
  · rw [if_pos ((Entries.isSome_field? h).mpr hn)]
    exact iff_of_false (by simp) fun h => h.1 hn
  · rw [if_neg fun hs => hn ((Entries.isSome_field? h).mp hs), Entries.field?_concat hn]
    cases d v <;> simp [hn, Except.map, Except.isOk, Except.toBool, Except.toOption, eq_comm]

theorem set_once_eq_ok {f : Option α → Draft} {e : Draft} (h : ∀ w, (name, w) ∈ es → (d w).isOk = true) :
    (do return f (← once name (es.field? d name) d v)) = Except.ok e ↔
      name ∉ es.map Prod.fst ∧ (d v).isOk = true ∧ e = f (Entries.field? d (es ++ [(name, v)]) name) := by
  rw [bind_eq_ok]
  constructor
  · rintro ⟨r, hr, he⟩
    obtain ⟨hn, hv, rfl⟩ := (once_eq_ok h).mp hr
    cases he
    exact ⟨hn, hv, rfl⟩
  · rintro ⟨hn, hv, rfl⟩
    exact ⟨_, (once_eq_ok h).mpr ⟨hn, hv, rfl⟩, rfl⟩

end

namespace Draft

variable {es : Entries} {name : String} {v : Tree} {d : Draft}

theorem add_eq_ok (h : ∀ e ∈ es, fits e.1 e.2 = true) : (ofEntries es).add name v = .ok d ↔
    (name ∈ fieldNames → name ∉ es.map Prod.fst) ∧ fits name v = true ∧ d = ofEntries (es ++ [(name, v)]) := by
  have hfits {n : String} {w : Tree} (hw : (n, w) ∈ es) : fits n w = true := h (n, w) hw
  by_cases h1 : name = "namespace"
  · subst h1
    have hs : ∀ w, ("namespace", w) ∈ es → (scopeField w).isOk = true := fun w => hfits
    rw [add, if_pos rfl, ofEntries, set_once_eq_ok hs]
    simp [ofEntries, fits, fieldNames, Entries.field?_concat_of_ne]
  by_cases h2 : name = "operations"
  · subst h2
    have hs : ∀ w, ("operations", w) ∈ es → (operationsField w).isOk = true := fun w => hfits
    rw [add, if_neg h1, if_pos rfl, ofEntries, set_once_eq_ok hs]
    simp [ofEntries, fits, fieldNames, Entries.field?_concat_of_ne]
  by_cases h3 : name = "densify_points"
  · subst h3
    have hs : ∀ w, ("densify_points", w) ∈ es → (budgetField w).isOk = true := fun w => hfits
    rw [add, if_neg h1, if_neg h2, if_pos rfl, ofEntries, set_once_eq_ok hs]
    simp [ofEntries, fits, fieldNames, Entries.field?_concat_of_ne]
  by_cases h4 : name = "priority"
  · subst h4
    have hs : ∀ w, ("priority", w) ∈ es → (priorityField w).isOk = true := fun w => hfits
    rw [add, if_neg h1, if_neg h2, if_neg h3, if_pos rfl, ofEntries, set_once_eq_ok hs]
    simp [ofEntries, fits, fieldNames, Entries.field?_concat_of_ne]
  · have hsame : ofEntries (es ++ [(name, v)]) = ofEntries es := by
      simp [ofEntries, Entries.field?_concat_of_ne, Ne.symm h1, Ne.symm h2, Ne.symm h3, Ne.symm h4]
    rw [add, if_neg h1, if_neg h2, if_neg h3, if_neg h4, hsame]
    cases hv : v.isIntact <;> simp [fits, fieldNames, h1, h2, h3, h4, hv, eq_comm]

/-! ## All members -/

theorem foldlM_add_eq_ok : es.foldlM (fun d e => d.add e.1 e.2) blank = .ok d ↔
    es.Once fieldNames ∧ (∀ e ∈ es, fits e.1 e.2 = true) ∧ d = ofEntries es := by
  -- From the front to the back: what has been read is always the draft of the entries so far.
  induction es using List.reverseRecOn generalizing d with
  | nil =>
    refine ⟨fun h => ⟨fun _ _ => Nat.zero_le 1, List.forall_mem_nil _, ?_⟩, fun ⟨_, _, h⟩ => ?_⟩
    · cases h
      rfl
    · rw [h]
      rfl
  | append_singleton es e ih =>
    obtain ⟨name, v⟩ := e
    rw [List.foldlM_append, bind_eq_ok, List.forall_mem_append, List.forall_mem_singleton, Entries.once_concat]
    simp only [List.foldlM_cons, List.foldlM_nil, bind_pure]
    constructor
    · rintro ⟨a, ha, hd⟩
      obtain ⟨ho, hf, rfl⟩ := ih.mp ha
      obtain ⟨hn, hv, rfl⟩ := (add_eq_ok hf).mp hd
      exact ⟨⟨ho, hn⟩, ⟨hf, hv⟩, rfl⟩
    · rintro ⟨⟨ho, hn⟩, ⟨hf, hv⟩, rfl⟩
      exact ⟨ofEntries es, ih.mpr ⟨ho, hf, rfl⟩, (add_eq_ok hf).mpr ⟨hn, hv, rfl⟩⟩

end Draft

theorem addAll_eq_foldlM {es : Entries} {members : List (List Piece × Tree)} (h : es.AreIn members) (d : Draft) :
    addAll d members = es.foldlM (fun d e => d.add e.1 e.2) d := by
  induction h generalizing d with
  | nil => rfl
  | @cons m e members es hm _ ih =>
    obtain ⟨ps, v⟩ := m
    obtain ⟨hps, rfl⟩ := hm
    rw [addAll, hps, List.foldlM_cons]
    exact bind_congr fun d => ih d

/-! ## Texts -/

section

variable {es : Entries} {s s' : String}

theorem Accepts.fits_all (h : Accepts es) (hs : es.IsText s) : ∀ e ∈ es, ObserverConfig.fits e.1 e.2 = true := by
  intro e he
  by_cases hn : e.1 ∈ fieldNames
  · exact h.fits e he hn
  · simp only [fieldNames, List.mem_cons, List.not_mem_nil, or_false, not_or] at hn
    rw [ObserverConfig.fits, if_neg hn.1, if_neg hn.2.1, if_neg hn.2.2.1, if_neg hn.2.2.2]
    exact hs.isIntact he

theorem decoder_object {members : List (List Piece × Tree)} (hm : es.AreIn members) :
    decoder (.object members none) = (es.foldlM (fun (d : Draft) e => d.add e.1 e.2) Draft.blank >>= fun d =>
      match d.finish? with
      | some c => .ok c
      | none => .error (.missingField "namespace")) := by
  rw [decoder, addAll_eq_foldlM hm]
  rfl

theorem run_eq (hs : es.IsText s) (h : Accepts es) :
    decoder.run s = match (Draft.ofEntries es).finish? with
      | some c => .ok c
      | none => .error (.missingField "namespace") := by
  have hd := Draft.foldlM_add_eq_ok.mpr ⟨h.once, h.fits_all hs, rfl⟩
  obtain ⟨members, hm, hs⟩ := hs
  rw [Decoder.run_of_isSpelled hs, decoder_object hm, hd]
  rfl

theorem Accepts.ordered (h : Accepts es) : Accepts (es.ordered fieldNames) where
  once := Entries.once_ordered (by decide) es
  fits e he := h.fits e (Entries.mem_ordered he).2

theorem Draft.ofEntries_ordered (es : Entries) : ofEntries (es.ordered fieldNames) = ofEntries es := by
  simp [ofEntries, Entries.field?_ordered, fieldNames]

theorem run_ordered (hs : es.IsText s) (h : Accepts es) (hs' : (es.ordered fieldNames).IsText s') :
    decoder.run s' = decoder.run s := by
  rw [run_eq hs' h.ordered, run_eq hs h, Draft.ofEntries_ordered]

/-- Where there is a scope, the fields in the text are taken, and the others are as in a new configuration. -/
theorem run_eq_ok (hs : es.IsText s) (h : Accepts es) (hscope : es.lookup "namespace" ≠ none) :
    ∃ c, decoder.run s = .ok c ∧ es.field? scopeField "namespace" = some c.scope ∧
      c.operations = (es.field? operationsField "operations").getD (ofScope c.scope).operations ∧
      c.budget = (es.field? budgetField "densify_points").getD (ofScope c.scope).budget ∧
      c.priority = (es.field? priorityField "priority").getD (ofScope c.scope).priority := by
  have hsome : (es.field? scopeField "namespace").isSome = true := by
    refine (Entries.isSome_field? fun v hv => ?_).mpr (not_not.mp fun hn => hscope (Entries.lookup_eq_none.mpr hn))
    exact h.fits ("namespace", v) hv List.mem_cons_self
  obtain ⟨scope, hf⟩ := Option.isSome_iff_exists.mp hsome
  have hfinish : (Draft.ofEntries es).finish? = some ⟨scope,
      (es.field? operationsField "operations").getD (ofScope scope).operations,
      (es.field? budgetField "densify_points").getD (ofScope scope).budget,
      (es.field? priorityField "priority").getD (ofScope scope).priority⟩ := by
    rw [Draft.finish?, Draft.ofEntries, hf]
    rfl
  have hr := run_eq hs h
  rw [hfinish] at hr
  exact ⟨_, hr, hf, rfl, rfl, rfl⟩

theorem run_missing (hs : es.IsText s) (h : Accepts es) (hscope : es.lookup "namespace" = none) :
    decoder.run s = .error (.missingField "namespace") := by
  have hfinish : (Draft.ofEntries es).finish? = none := by
    rw [Draft.finish?, Draft.ofEntries, Entries.field?, hscope]
    rfl
  rw [run_eq hs h, hfinish]

theorem run_repeated (hs : es.IsText s) (h : ¬ es.Once fieldNames) : ∃ e, decoder.run s = .error e := by
  obtain ⟨members, hm, hs⟩ := hs
  rw [Decoder.run_of_isSpelled hs, decoder_object hm]
  cases hr : es.foldlM (fun (d : Draft) e => d.add e.1 e.2) Draft.blank with
  | error e => exact ⟨e, rfl⟩
  | ok d =>
    exact absurd (Draft.foldlM_add_eq_ok.mp hr).1 h

end

/-! ## Configurations from their own texts -/

theorem decoder_of_fields {c : ObserverConfig} {scope operations budget priority : Tree}
    {members : List (List Piece × Tree)} (hs : scopeField scope = .ok c.scope)
    (ho : operationsField operations = .ok c.operations) (hb : budgetField budget = .ok c.budget)
    (hp : priorityField priority = .ok c.priority)
    (hm : Entries.AreIn [("namespace", scope), ("operations", operations), ("densify_points", budget),
      ("priority", priority)] members) : decoder (.object members none) = .ok c := by
  have hd : Draft.ofEntries [("namespace", scope), ("operations", operations), ("densify_points", budget),
      ("priority", priority)] = ⟨some c.scope, some c.operations, some c.budget, some c.priority⟩ := by
    simp [Draft.ofEntries, Entries.field?_cons_of_ne, Entries.field?_cons_self, hs, ho, hb, hp, Except.toOption]
  rw [decoder_object hm, Draft.foldlM_add_eq_ok.mpr ⟨?_, ?_, hd.symm⟩]
  · rfl
  · exact fun n _ => List.nodup_iff_count.mp (show fieldNames.Nodup by decide) n
  · simp [fits, hs, ho, hb, hp, Except.isOk, Except.toBool]

theorem reads : decoder.Reads toTree where
  isWritable c := by
    refine Tree.isWritable_ofMembers fun m hm => ?_
    simp only [List.mem_cons, List.not_mem_nil, or_false] at hm
    rcases hm with rfl | rfl | rfl | rfl
    · exact reads_scopeField.isWritable c.scope
    · exact reads_operationsField.isWritable c.operations
    · exact reads_budgetField.isWritable c.budget
    · exact reads_priorityField.isWritable c.priority
  asRead c := by
    rw [toTree, Tree.asRead_ofMembers]
    exact decoder_of_fields (reads_scopeField.asRead c.scope) (reads_operationsField.asRead c.operations)
      (reads_budgetField.asRead c.budget) (reads_priorityField.asRead c.priority) (Entries.areIn_spelling _)

/-! ## Checked configurations -/

theorem ofJson_of_ok {s : String} {c : ObserverConfig} (h : decoder.run s = .ok c) :
    ofJson s = c.validate.map fun _ => c := by
  rw [ofJson, h]
  cases h : c.validate <;> simp [h, bind, Except.bind, pure, Except.pure, Except.map]

theorem ofJson_of_error {s : String} {e : DecodeError} (h : decoder.run s = .error e) :
    ofJson s = .error (.config e.message) := by
  rw [ofJson, h]

theorem ofJson_toJson (c : ObserverConfig) : ofJson c.toJson = c.validate.map fun _ => c :=
  ofJson_of_ok (reads.run_text c)

theorem validate_of_ofJson {s : String} {c : ObserverConfig} (h : ofJson s = .ok c) : c.validate = .ok () := by
  unfold ofJson at h
  cases hr : decoder.run s with
  | error e =>
    rw [hr] at h
    cases h
  | ok d =>
    rw [hr] at h
    obtain ⟨_, hv, h⟩ := bind_eq_ok.mp h
    cases h
    exact hv

/-- Everything is read back from its own text, and a configuration that is accepted from any text is usable and is
accepted again from its own. -/
theorem json_roundTrip :
    (∀ r : ReferenceSystem, ReferenceSystem.decoder.run r.toTree.text = .ok r) ∧
    (∀ op : Operation, Operation.decoder.run op.toTree.text = .ok op) ∧
    (∀ e : Entity, Entity.decoder.run (Entity.toTree e).text = .ok e) ∧
    (∀ c : ObserverConfig, decoder.run c.toJson = .ok c ∧ ofJson c.toJson = c.validate.map fun _ => c) ∧
    ∀ (s : String) (c : ObserverConfig), ofJson s = .ok c → c.validate = .ok () ∧ ofJson c.toJson = .ok c := by
  refine ⟨ReferenceSystem.reads.run_text, Operation.reads.run_text, Entity.reads.run_text,
    fun c => ⟨reads.run_text c, c.ofJson_toJson⟩, fun s c h => ?_⟩
  have hv := validate_of_ofJson h
  refine ⟨hv, ?_⟩
  rw [ofJson_toJson, hv]
  rfl

theorem json_roundTrip_disordered :
    let s := "\x7b\"operations\": [\"update\", \"insert\", \"update\"], \"namespace\": \"\\u0007a\"\x7d"
    let c : ObserverConfig := ⟨"\x07a", Std.ExtTreeSet.ofList [Operation.update, .insert], 1000, 0⟩
    ofJson s = .ok c ∧ c.validate = .ok () ∧ ofJson c.toJson = .ok c := by
  intro s c
  have h : ofJson s = .ok c := by decide +kernel
  exact ⟨h, json_roundTrip.2.2.2.2 s c h⟩

end ObserverConfig

end ExtentLedger
