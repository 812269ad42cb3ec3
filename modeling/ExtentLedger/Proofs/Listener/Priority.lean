import ExtentLedger.Listener.Session
import ExtentLedger.Proofs.Listener.FanOut

/-!
# Listeners by priority

A roster keeps its listeners in descending order of priority, those of equal priority in the order of their
registration, from one registration to the next. So whatever a host sends in the course of a session reaches the
listeners that are registered by then, each once, in that order, and all of them before anything else is sent.
-/

namespace ExtentLedger

variable {κ ι σ K : Type}

/-! ## Registration -/

section
variable {ls : κ → Listener σ K} {registered ranked : List κ}

/-- The listeners that the new one comes behind have at least its priority, and those behind it a lower one. -/
theorem descending_orderedInsert (h : ranked.Pairwise fun j k => (ls k).priority ≤ (ls j).priority) (k : κ) :
    (ranked.orderedInsert (fun a b => (ls b).priority < (ls a).priority) k).Pairwise
      fun j k => (ls k).priority ≤ (ls j).priority := by
  induction ranked with
  | nil => exact List.pairwise_singleton _ _
  | cons j js ih =>
    obtain ⟨hj, hjs⟩ := List.pairwise_cons.mp h
    rw [List.orderedInsert_cons]
    by_cases hlt : (ls j).priority < (ls k).priority
    · rw [if_pos hlt]
      refine List.pairwise_cons.mpr ⟨fun i hi => ?_, h⟩
      rcases List.mem_cons.mp hi with rfl | hi
      · exact Int32.le_of_lt hlt
      · exact Int32.le_trans (hj i hi) (Int32.le_of_lt hlt)
    · rw [if_neg hlt]
      refine List.pairwise_cons.mpr ⟨fun i hi => ?_, ih hjs⟩
      rcases (List.mem_orderedInsert _).mp hi with rfl | hi
      · exact Int32.not_lt.mp hlt
      · exact hj i hi

theorem filter_priority_orderedInsert (h : ranked.Pairwise fun j k => (ls k).priority ≤ (ls j).priority) (k : κ)
    (p : Int32) :
    (ranked.orderedInsert (fun a b => (ls b).priority < (ls a).priority) k).filter (fun i => (ls i).priority = p) =
      ranked.filter (fun i => (ls i).priority = p) ++ [k].filter fun i => (ls i).priority = p := by
  induction ranked with
  | nil => rfl
  | cons j js ih =>
    obtain ⟨hj, hjs⟩ := List.pairwise_cons.mp h
    rw [List.orderedInsert_cons]
    by_cases hlt : (ls j).priority < (ls k).priority
    · rw [if_pos hlt]
      by_cases hk : (ls k).priority = p
      · have hnone : (j :: js).filter (fun i => (ls i).priority = p) = [] := by
          rw [List.filter_eq_nil_iff]
          intro i hi hp
          have hle : (ls i).priority ≤ (ls j).priority := by
            rcases List.mem_cons.mp hi with rfl | hi
            · exact Int32.le_refl _
            · exact hj i hi
          have hlt := Int32.lt_of_le_of_lt hle hlt
          rw [of_decide_eq_true hp, hk] at hlt
          exact Int32.lt_irrefl hlt
        rw [List.filter_cons, hnone]
        simp [hk]
      · simp [hk]
    · rw [if_neg hlt, List.filter_cons, List.filter_cons, ih hjs]
      by_cases hp : (ls j).priority = p <;> simp [hp]

theorem Listener.Ranks.snoc (h : Ranks ls registered ranked) (k : κ) :
    Ranks ls (registered ++ [k]) (ranked.orderedInsert (fun a b => (ls b).priority < (ls a).priority) k) where
  perm := (List.perm_orderedInsert _ k ranked).trans
    ((h.perm.cons k).trans (List.perm_append_singleton k registered).symm)
  descending := descending_orderedInsert h.descending k
  stable p := by rw [filter_priority_orderedInsert h.descending, h.stable, List.filter_append]

theorem Listener.ranks_nil : Ranks ls [] [] := ⟨.nil, .nil, fun _ => rfl⟩

end

/-! ## Sessions -/

theorem Roster.send_eq (r : Roster σ K) (signal : Signal σ K) (s : Scene σ K) :
    r.send signal s = r.listeners.foldl (fun s l => l.receive signal s) s := by
  cases signal <;> rfl

variable [DecidableEq ι] {ls : κ → Listener σ K}

theorem Host.inContext_send (h : Host ι σ K) {r : Roster σ K} {ranked : List κ} (hr : r.listeners = ranked.map ls)
    (i : ι) (signal : Signal σ K) :
    h.inContext i (r.send signal) =
      (ranked.map fun k => (⟨k, i, signal⟩ : Delivery κ ι σ K)).foldl (Host.deliver ls) h := by
  rw [List.foldl_map]
  refine Eq.trans ?_ (foldl_inContext i (fun k => (ls k).receive signal) ranked h).symm
  exact congrArg (h.inContext i) (funext fun s => by rw [Roster.send_eq, hr, List.foldl_map])

namespace Session

/-- From a roster that ranks its listeners on, acts keep it so and come to the deliveries that they ought to. -/
theorem exists_delivers (acts : List (Act κ ι σ K)) {s : Session ι σ K} {registered ranked : List κ}
    (hranks : Listener.Ranks ls registered ranked) (hs : s.roster.listeners = ranked.map ls) :
    (∃ ranked, Listener.Ranks ls (registered ++ Act.registered acts) ranked ∧
      (run ls s acts).roster.listeners = ranked.map ls) ∧
    ∃ deliveries, Act.Delivers ls registered acts deliveries ∧
      (run ls s acts).host = deliveries.foldl (Host.deliver ls) s.host := by
  induction acts generalizing s registered ranked with
  | nil => exact ⟨⟨ranked, by simpa [Act.registered] using hranks, hs⟩, [], .nil _, rfl⟩
  | cons a acts ih =>
    cases a with
    | register k =>
      have hs' : (s.act ls (.register k)).roster.listeners =
          (ranked.orderedInsert (fun a b => (ls b).priority < (ls a).priority) k).map ls := by
        rw [← Roster.insert_map, ← hs]
        rfl
      obtain ⟨hroster, deliveries, hd, hhost⟩ := ih (hranks.snoc k) hs'
      rw [List.append_assoc] at hroster
      exact ⟨hroster, deliveries, .register hd, hhost⟩
    | send i signal =>
      obtain ⟨hroster, deliveries, hd, hhost⟩ := ih (s := s.act ls (.send i signal)) hranks hs
      refine ⟨hroster, _, .send hranks hd, ?_⟩
      rw [List.foldl_append, ← Host.inContext_send _ hs]
      exact hhost

theorem log_deliveries {ε : Type} {log : σ → List ε} {entries : κ → Signal σ K → List ε}
    (hlog : ∀ k signal s, log ((ls k).receive signal s).2 = log s.2 ++ entries k signal) (h : Host ι σ K)
    (deliveries : List (Delivery κ ι σ K)) :
    log (deliveries.foldl (Host.deliver ls) h).world =
      log h.world ++ deliveries.flatMap fun d => entries d.listener d.signal := by
  induction deliveries generalizing h with
  | nil => simp
  | cons d deliveries ih =>
    rw [List.foldl_cons, ih, List.flatMap_cons, ← List.append_assoc]
    exact congrArg (· ++ _) (hlog d.listener d.signal (h.contexts d.context, h.world))

/-- A signal is delivered once to each listener that is registered by then, in the order of their ranks, with nothing in
between. -/
theorem run_delivers (ls : κ → Listener σ K) (acts : List (Act κ ι σ K)) (h : Host ι σ K) :
    let s := run ls ⟨.empty, h⟩ acts
    (∃ ranked, Listener.Ranks ls (Act.registered acts) ranked ∧ s.roster.listeners = ranked.map ls) ∧
    ∃ deliveries, Act.Delivers ls [] acts deliveries ∧ s.host = deliveries.foldl (Host.deliver ls) h ∧
      ∀ (ε : Type) (log : σ → List ε) (entries : κ → Signal σ K → List ε),
        (∀ k signal s, log ((ls k).receive signal s).2 = log s.2 ++ entries k signal) →
        log s.host.world = log h.world ++ deliveries.flatMap fun d => entries d.listener d.signal := by
  intro s
  obtain ⟨hroster, deliveries, hd, hhost⟩ :=
    exists_delivers acts (s := ⟨.empty, h⟩) (Listener.ranks_nil : Listener.Ranks ls [] []) rfl
  refine ⟨hroster, deliveries, hd, hhost, fun ε log entries hlog => ?_⟩
  have hhost : s.host = deliveries.foldl (Host.deliver ls) h := hhost
  rw [hhost, log_deliveries hlog]

theorem run_delivers_late :
    let word (signal : Signal (List (Nat × String)) Rat) : String :=
      match signal with
      | .start => "start"
      | .change c => c.phase.name
      | .closing => "closing"
      | .finish committed => if committed then "committed" else "rolled back"
    let note (k : Nat) (signal : Signal (List (Nat × String)) Rat) (s : Scene (List (Nat × String)) Rat) :=
      (s.1, s.2 ++ [(k, word signal)])
    let ls (k : Nat) : Listener (List (Nat × String)) Rat :=
      ⟨"log", if k = 2 then 10 else 0, note k .start, fun c => note k (.change c), note k .closing,
        fun committed => note k (.finish committed)⟩
    let acts : List (Act Nat Unit (List (Nat × String)) Rat) :=
      [.register 0, .register 1, .send () .start, .register 2, .register 0,
        .send () (.change ⟨"a", .update, .preUpdate, .empty⟩), .send () (.finish true)]
    let s := run ls ⟨.empty, ⟨fun _ => .start ⟨0⟩, []⟩⟩ acts
    (∀ k signal s, ((ls k).receive signal s).2 = s.2 ++ [(k, word signal)]) ∧
      (∃ deliveries, Act.Delivers ls [] acts deliveries ∧
        s.host.world = deliveries.flatMap fun d => [(d.listener, word d.signal)]) ∧
      s.host.world = [(0, "start"), (1, "start"), (2, "PRE_UPDATE"), (0, "PRE_UPDATE"), (1, "PRE_UPDATE"),
        (0, "PRE_UPDATE"), (2, "committed"), (0, "committed"), (1, "committed"), (0, "committed")] := by
  intro word note ls acts s
  have hlog : ∀ k signal s, ((ls k).receive signal s).2 = s.2 ++ [(k, word signal)] := by
    intro k signal s
    cases signal <;> rfl
  obtain ⟨-, deliveries, hd, -, hl⟩ := run_delivers ls acts ⟨fun _ => .start ⟨0⟩, []⟩
  exact ⟨hlog, ⟨deliveries, hd, hl (Nat × String) id (fun k signal => [(k, word signal)]) hlog⟩, rfl⟩

end Session

end ExtentLedger
