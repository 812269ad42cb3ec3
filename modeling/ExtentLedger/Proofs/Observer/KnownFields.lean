import ExtentLedger.Proofs.Json.Numerals
import ExtentLedger.Proofs.Json.Tagged
import ExtentLedger.Proofs.Observer.ConfigJson

/-!
# Objects by their known fields

A configuration and a reference system are read from an object text by what stands under the names that they know. The
order of the members does not matter, the other members are passed over, and a name that is repeated is an error
wherever it stands. The other members of a reference system are read before they are passed over, so a number among them
must be within the range of the doubles.
-/

namespace ExtentLedger

namespace Json

/-- Members under other names can be left out and those under these names put in order: what is read is the same. -/
def ReadsOnly {ε α : Type} (read : String → Except ε α) (names : List String) (es : Entries) (s : String) : Prop :=
  (∃ s', (es.ordered names).IsText s') ∧ ∀ s', (es.ordered names).IsText s' → read s' = read s

/-- What is read from an object text is what stands under the names that are known. -/
theorem decoding_knownFields :
    (∀ (es : Entries) (s : String), es.IsText s → ObserverConfig.Accepts es →
      ReadsOnly ObserverConfig.decoder.run ObserverConfig.fieldNames es s ∧
      ReadsOnly ObserverConfig.ofJson ObserverConfig.fieldNames es s ∧
      (es.lookup "namespace" ≠ none → ∃ c, ObserverConfig.decoder.run s = .ok c ∧
        ObserverConfig.ofJson s = c.validate.map (fun _ => c) ∧
        es.field? ObserverConfig.scopeField "namespace" = some c.scope ∧
        let new := ObserverConfig.ofScope c.scope
        c.operations = (es.field? ObserverConfig.operationsField "operations").getD new.operations ∧
        c.budget = (es.field? ObserverConfig.budgetField "densify_points").getD new.budget ∧
        c.priority = (es.field? ObserverConfig.priorityField "priority").getD new.priority) ∧
      (es.lookup "namespace" = none → ObserverConfig.decoder.run s = .error (.missingField "namespace") ∧
        ObserverConfig.ofJson s = .error (.config (DecodeError.missingField "namespace").message))) ∧
    (∀ (es : Entries) (s : String), es.IsText s → ¬ es.Once ObserverConfig.fieldNames →
      (∃ e, ObserverConfig.decoder.run s = .error e) ∧ ∃ e, ObserverConfig.ofJson s = .error e) ∧
    (∀ (es : Entries) (s : String) (k : ReferenceSystem.Kind), es.IsText s → ReferenceSystem.Accepts 99 k es →
      ReadsOnly ReferenceSystem.decoder.run ("kind" :: k.fields) es s ∧
      ((∀ name ∈ k.fields, es.lookup name ≠ none) → ∃ texts r,
        List.Forall₂ (fun name t => es.field? ReferenceSystem.textField name = some t) k.fields texts ∧
          k.build texts = some r ∧ ReferenceSystem.decoder.run s = .ok r) ∧
      ((∃ name ∈ k.fields, es.lookup name = none) →
        ∃ name ∈ k.fields, es.lookup name = none ∧ ReferenceSystem.decoder.run s = .error (.missingField name))) ∧
    (∀ (es : Entries) (s : String), es.IsText s → es.lookup "kind" = none →
      (∃ e, ReferenceSystem.decoder.run s = .error e) ∧
      ((∀ e ∈ es, e.2.isReadable 99 = true) → ReferenceSystem.decoder.run s = .error (.missingField "kind"))) ∧
    (∀ (es : Entries) (s : String), es.IsText s →
      (¬ es.Once ["kind"] ∨ ∃ k, es.field? ReferenceSystem.Kind.decoder "kind" = some k ∧ ¬ es.Once k.fields) →
      ∃ e, ReferenceSystem.decoder.run s = .error e) ∧
    ∀ n : Numeral, n.size ≤ Double.largest → n.value?.isSome = true := by
  have hdepth : 99 ≤ ReferenceSystem.maxDepth := by decide
  refine ⟨fun es s hs h => ⟨?_, ?_, ?_, ?_⟩, ?_, fun es s k hs h => ⟨?_, ?_, ?_⟩, ?_, ?_, ?_⟩
  · exact ⟨hs.exists_ordered _, fun s' hs' => ObserverConfig.run_ordered hs h hs'⟩
  · refine ⟨hs.exists_ordered _, fun s' hs' => ?_⟩
    rw [ObserverConfig.ofJson, ObserverConfig.run_ordered hs h hs', ObserverConfig.ofJson]
  · intro hscope
    obtain ⟨c, hc, hfields⟩ := ObserverConfig.run_eq_ok hs h hscope
    exact ⟨c, hc, ObserverConfig.ofJson_of_ok hc, hfields⟩
  · intro hscope
    have he := ObserverConfig.run_missing hs h hscope
    exact ⟨he, ObserverConfig.ofJson_of_error he⟩
  · intro es s hs h
    obtain ⟨e, he⟩ := ObserverConfig.run_repeated hs h
    exact ⟨⟨e, he⟩, _, ObserverConfig.ofJson_of_error he⟩
  · exact ⟨hs.exists_ordered _, fun s' hs' => ReferenceSystem.run_ordered hs hdepth h hs'⟩
  · exact ReferenceSystem.run_eq_ok hs hdepth h
  · exact ReferenceSystem.run_missing hs hdepth h
  · intro es s hs hkind
    have hf : es.field? ReferenceSystem.Kind.decoder "kind" = none := by rw [Entries.field?, hkind]; rfl
    constructor
    · refine ReferenceSystem.run_error hs fun k hk => ?_
      rw [hf] at hk
      cases hk
    · exact fun h => ReferenceSystem.run_missing_kind hs hkind fun e he => Tree.isReadable_mono hdepth (h e he)
  · intro es s hs h
    refine ReferenceSystem.run_error hs fun k hk honce => ?_
    have hkind : es.Once ["kind"] := fun n hn => honce n (List.mem_cons.mpr (.inl (List.mem_singleton.mp hn)))
    obtain ⟨k', hk', hrep⟩ := h.resolve_left (not_not_intro hkind)
    obtain rfl := Option.some.inj (hk.symm.trans hk')
    exact hrep fun n hn => honce n (List.mem_cons_of_mem _ hn)
  · exact fun n => Numeral.isSome_value?_of_le

/-- Members out of order, with others between them that hold known names inside, and a number next to the largest
double. -/
theorem decoding_knownFields_shuffled :
    let config : List (String × Tree) := [("a", .ofItems [.null, .ofMembers [("priority", .null)]]),
      ("priority", .ofInt (-1)), ("kind", .ofString "b"), ("namespace", .ofString "c")]
    let system : List (String × Tree) := [("code", .ofString "c"),
      ("vertical", .ofItems [.ofMembers [("code", .ofInt 7)]]), ("kind", .ofString "horizontal")]
    let s := "\x7b\"a\":[null,\x7b\"priority\":null\x7d],\"priority\":-1,\"kind\":\"b\",\"namespace\":\"c\"\x7d"
    let t := "\x7b\"code\":\"c\",\"vertical\":[\x7b\"code\":7\x7d],\"kind\":\"horizontal\"\x7d"
    let n : Numeral := ⟨false, ['1'], "797693134862315700".toList, some (false, "308".toList)⟩
    Entries.IsText (config.map fun m => (m.1, m.2.asRead)) s ∧
      ObserverConfig.Accepts (config.map fun m => (m.1, m.2.asRead)) ∧
      Entries.IsText (system.map fun m => (m.1, m.2.asRead)) t ∧
      ReferenceSystem.Accepts 99 .horizontal (system.map fun m => (m.1, m.2.asRead)) ∧
      (∃ c, ObserverConfig.decoder.run s = .ok c ∧ c.scope = "c" ∧ c.budget = ObserverConfig.defaultBudget) ∧
      (∃ r, ReferenceSystem.decoder.run t = .ok r ∧
        ReferenceSystem.decoder.run "\x7b\"kind\":\"horizontal\",\"code\":\"c\"\x7d" = .ok r) ∧
      n.value?.isSome = true := by
  intro config system s t n
  have hs : Entries.IsText (config.map fun m => (m.1, m.2.asRead)) s := by
    have hw : ∀ m ∈ config, m.2.IsWritable := by
      simp only [config, List.forall_mem_cons]
      refine ⟨.array ?_, .ofInt _, Tree.isWritable_ofString _, Tree.isWritable_ofString _, nofun⟩
      simp only [List.forall_mem_cons]
      exact ⟨.null, Tree.isWritable_ofMembers (by simp only [List.forall_mem_cons]; exact ⟨.null, nofun⟩), nofun⟩
    have he : (Tree.ofMembers config).text = s := by decide +kernel
    exact he ▸ Entries.isText_ofMembers hw
  have ht : Entries.IsText (system.map fun m => (m.1, m.2.asRead)) t := by
    have hw : ∀ m ∈ system, m.2.IsWritable := by
      simp only [system, List.forall_mem_cons]
      refine ⟨Tree.isWritable_ofString _, .array ?_, Tree.isWritable_ofString _, nofun⟩
      simp only [List.forall_mem_cons]
      exact ⟨Tree.isWritable_ofMembers (by simp only [List.forall_mem_cons]; exact ⟨.ofInt _, nofun⟩), nofun⟩
    have he : (Tree.ofMembers system).text = t := by decide +kernel
    exact he ▸ Entries.isText_ofMembers hw
  have ha : ObserverConfig.Accepts (config.map fun m => (m.1, m.2.asRead)) := ⟨by decide +kernel, by decide +kernel⟩
  have ha' : ReferenceSystem.Accepts 99 .horizontal (system.map fun m => (m.1, m.2.asRead)) :=
    ⟨by decide +kernel, by decide +kernel, by decide +kernel, by decide +kernel⟩
  obtain ⟨hconfig, -, hsystem, -, -, hnumeral⟩ := decoding_knownFields
  refine ⟨hs, ha, ht, ha', ?_, ?_, ?_⟩
  · obtain ⟨c, hc, -, hscope, -, hbudget, -⟩ :=
      (hconfig _ s hs ha).2.2.1 (Option.isSome_iff_ne_none.mp (by decide +kernel))
    have hscope' : Entries.field? ObserverConfig.scopeField (config.map fun m => (m.1, m.2.asRead)) "namespace" =
      some "c" := by decide +kernel
    have hbudget' : Entries.field? ObserverConfig.budgetField (config.map fun m => (m.1, m.2.asRead)) "densify_points" =
      none := by decide +kernel
    rw [hbudget'] at hbudget
    exact ⟨c, hc, Option.some.inj (hscope.symm.trans hscope'), hbudget⟩
  · obtain ⟨⟨-, hread⟩, hall, -⟩ := hsystem _ t .horizontal ht ha'
    obtain ⟨-, r, -, -, hr⟩ := hall (by
      simp only [ReferenceSystem.Kind.fields, List.forall_mem_singleton]
      exact Option.isSome_iff_ne_none.mp (by decide +kernel))
    have hw : ∀ m ∈ [("kind", Tree.ofString "horizontal"), ("code", .ofString "c")], m.2.IsWritable := by
      simp only [List.forall_mem_cons]
      exact ⟨Tree.isWritable_ofString _, Tree.isWritable_ofString _, nofun⟩
    have he : (Tree.ofMembers [("kind", Tree.ofString "horizontal"), ("code", .ofString "c")]).text =
      "\x7b\"kind\":\"horizontal\",\"code\":\"c\"\x7d" := by decide +kernel
    exact ⟨r, hr, (hread _ (he ▸ Entries.isText_ofMembers hw)).trans hr⟩
  · have hvalue : Numeral.digitsValue (n.whole ++ n.fraction) = 1797693134862315700 := by decide +kernel
    have hpower : n.power = (290 : ℕ) := by decide +kernel
    have hle : 1797693134862315700 * 10 ^ 290 ≤ (2 ^ 53 - 1) * 2 ^ 971 := by decide +kernel
    refine hnumeral n ?_
    rw [Numeral.size, hvalue, hpower, zpow_natCast, Double.largest_eq]
    refine le_of_eq_of_le ?_ (Nat.cast_le.mpr hle)
    rw [Nat.cast_mul, Nat.cast_pow, Nat.cast_ofNat, Nat.cast_ofNat]

end Json

end ExtentLedger
