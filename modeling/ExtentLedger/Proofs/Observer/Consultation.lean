import ExtentLedger.Proofs.Listener.Priority
import ExtentLedger.Proofs.Observer.Dispatch

/-!
# When collaborators are consulted

The calls that observers make in the course of a host's events are, event by event and observer by observer, just those
that each of them needs: none for what does not concern it, none behind an answer that leaves nothing to do, and none
for a commit before the commit.
-/

namespace ExtentLedger

variable {κ ι σ K : Type}

/-- What an observer asks when it is told something; the fits say how far it goes with a change, and with each pending
entity. -/
inductive Observer.Consults (o : Observer σ K) (t : Transaction K) : Hook σ K → List (Call K) → Prop
  | change {c : Change σ K} {h : Hearing K} : h.Fits o.config c → Consults o t (.change c) (h.calls c.source)
  | rollback : Consults o t (.finish false) []
  | unopened : t.page? o.config.scope = none → Consults o t (.finish true) []
  | commit {p : Page K} {dealt : List (Dealing K)} :
      t.page? o.config.scope = some p → dealt.map (fun d => (d.entity, d.extents)) = p.regions.toList →
        (dealt.map Dealing.entity).Pairwise (· < ·) → (∀ d ∈ dealt, d.fate.Fits) →
          Consults o t (.finish true) (dealt.flatMap Dealing.calls)

/-! ## One observer -/

namespace Observer

variable {o : Observer σ K} {t : Transaction K} {hook : Hook σ K} {calls : List (Call K)}

/-- The records are asked once at most, and only when something is affected. -/
theorem Consults.records {c : Change σ K} (h : o.Consults t (.change c) calls) :
    (calls.countP fun call => call.capability = .records) ≤ 1 ∧
      ∀ call ∈ calls, call.capability = .records →
        ∃ es, es.isEmpty = false ∧ Call.affected c.source (.value es) ∈ calls := by
  cases h with
  | @change _ h hf =>
    cases h with
    | ignored => simp [Hearing.calls]
    | resolved answer => simp [Hearing.calls, Call.capability]
    | measured es answer =>
      refine ⟨by simp [Hearing.calls, Call.capability], fun _ _ _ => ⟨es, hf.2, List.mem_cons_self⟩⟩

theorem Consults.isForCommit (h : o.Consults t hook calls) :
    ∀ call ∈ calls, call.capability.isForCommit = true ↔ hook = .finish true := by
  cases h with
  | @change c h hf =>
    intro call hc
    have hn := List.filter_eq_nil_iff.mp (Hearing.filter_calls h c.source) call hc
    exact ⟨fun h => absurd h hn, fun h => by cases h⟩
  | rollback => simp
  | unopened => simp
  | @commit p dealt =>
    intro call hc
    obtain ⟨d, -, hc⟩ := List.mem_flatMap.mp hc
    exact ⟨fun _ => rfl, fun _ => d.isForCommit_calls call hc⟩

variable [Journal σ K]

theorem consults (o : Observer σ K) (t : Transaction K) (hook : Hook σ K) (w : σ) :
    o.Consults t hook (o.calls hook (t, w)) := by
  cases hook with
  | change c => exact .change (fits_hear o c w)
  | finish committed =>
    cases committed with
    | false => exact .rollback
    | true =>
      rw [calls, dealings_true, Transaction.takePage?_eq]
      cases hp : t.page? o.config.scope with
      | none =>
        rw [Option.map_none, Option.elim_none, Std.ExtTreeMap.toList_eq_nil_iff.mpr rfl]
        exact .unopened hp
      | some p =>
        obtain ⟨hpending, hfits⟩ := dealAll_pending o p.regions.toList w
        refine .commit hp hpending ?_ hfits
        have := Regions.ascending_toList p.regions
        rw [← hpending, List.map_map] at this
        exact this

end Observer

/-! ## All observers of a host -/

variable [Journal σ K]

theorem ranks_byPriority (os : κ → Observer σ K) (ks : List κ) :
    Listener.Ranks (fun k => (os k).listener) ks (byPriority os ks) := by
  unfold byPriority
  induction ks using List.reverseRecOn with
  | nil => exact Listener.ranks_nil
  | append_singleton ks k ih =>
    rw [List.foldl_append]
    exact ih.snoc k

omit [Journal σ K] in
theorem Event.visits_traced (os : κ → Observer σ K) (e : Event κ ι σ K) :
    e.traced.visits (fun k => (os k).traced) = (e.visits os).map Visit.traced := by
  cases e with
  | direct v => rfl
  | fanOut ks i hook =>
    rw [visits, List.map_map]
    rfl

namespace Host

variable [DecidableEq ι] (os : κ → Observer σ K)

def course (h : Host ι σ K) (vs : List (Visit κ ι σ K)) : List (Visit κ ι σ K × Host ι σ K) :=
  timeline (fun h v => (h.visit os v).2) h vs

theorem course_cons (h : Host ι σ K) (v : Visit κ ι σ K) (vs : List (Visit κ ι σ K)) :
    h.course os (v :: vs) = (v, h) :: (h.visit os v).2.course os vs := rfl

theorem calls_visit (h : Host ι σ K) (v : Visit κ ι σ K) :
    (h.visit os v).1.calls = (os v.observer).calls v.hook (h.contexts v.context, h.world) := by
  rw [visit_eq]

theorem trace_visits : ∀ (vs : List (Visit κ ι σ K)) (h : Host ι σ K) (calls : List (Call K)),
    (Host.visits (fun k => (os k).traced) ⟨h.contexts, (calls, h.world)⟩ (vs.map Visit.traced)).2.world.1 =
      calls ++ (h.course os vs).flatMap fun x => (x.2.visit os x.1).1.calls
  | [], h, calls => by simp [course, timeline, visits]
  | v :: vs, h, calls => by
    have hv : (Host.visit (fun k => (os k).traced) ⟨h.contexts, (calls, h.world)⟩ v.traced).2 =
        ⟨(h.visit os v).2.contexts, (calls ++ (h.visit os v).1.calls, (h.visit os v).2.world)⟩ := by
      simp only [visit_eq, inContext, Visit.traced, Observer.told_traced]
    rw [List.map_cons, visits_cons, hv, trace_visits vs, course_cons, List.flatMap_cons, List.append_assoc]

/-- The calls of a run are those of one visit after another, and each observer asks just what it needs. -/
theorem run_consults (events : List (Event κ ι σ K)) (h : Host ι σ K) :
    let course := h.course os (events.flatMap (Event.visits os))
    (∀ ks, (Roster.ofObservers os ks).listeners = (byPriority os ks).map (fun k => (os k).listener) ∧
      Listener.Ranks (fun k => (os k).listener) ks (byPriority os ks)) ∧
    (h.traced.run (fun k => (os k).traced) (events.map Event.traced)).world.1 =
      course.flatMap (fun x => (x.2.visit os x.1).1.calls) ∧
    ∀ x ∈ course, let calls := (x.2.visit os x.1).1.calls
      (os x.1.observer).Consults (x.2.contexts x.1.context) x.1.hook calls ∧
        (∀ c, x.1.hook = .change c → (calls.countP fun call => call.capability = .records) ≤ 1 ∧
          ∀ call ∈ calls, call.capability = .records →
            ∃ es, es.isEmpty = false ∧ Call.affected c.source (.value es) ∈ calls) ∧
        ∀ call ∈ calls, call.capability.isForCommit = true ↔ x.1.hook = .finish true := by
  intro course
  refine ⟨fun ks => ⟨Roster.listeners_ofObservers os ks, ranks_byPriority os ks⟩, ?_, ?_⟩
  · have hvs : (events.map Event.traced).flatMap (Event.visits fun k => (os k).traced) =
        (events.flatMap (Event.visits os)).map Visit.traced := by
      simp only [List.flatMap_map, List.map_flatMap, Event.visits_traced]
    rw [run_eq_visits, hvs]
    exact (trace_visits os _ h []).trans (List.nil_append _)
  · intro x _ calls
    have hcalls : calls = _ := calls_visit os x.2 x.1
    have hc : (os x.1.observer).Consults (x.2.contexts x.1.context) x.1.hook calls :=
      hcalls ▸ (os x.1.observer).consults _ _ _
    refine ⟨hc, fun c hhook => ?_, hc.isForCommit⟩
    rw [hhook] at hc
    exact hc.records

theorem run_consults_first :
    let o (priority : Int32) : Observer (List (Notice Rat)) Rat :=
      ⟨{ ObserverConfig.ofScope "log" with priority },
        ⟨fun s => .always (.value (.ofList [s])), fun _ => .always (.failure (.resolution "gone"))⟩,
        fun _ es => .always (.value es.head?), fun _ _ => .crash none⟩
    let os (k : Bool) := if k then o 1 else o 0
    let c : Change (List (Notice Rat)) Rat := ⟨"a", .update, .preUpdate, .crash (some "broken")⟩
    let events : List (Event Bool Nat (List (Notice Rat)) Rat) :=
      [.fanOut [false, true] 0 (.change c), .direct ⟨true, 0, .finish true⟩]
    let v : Visit Bool Nat (List (Notice Rat)) Rat := ⟨true, 0, .change c⟩
    let h : Host Nat (List (Notice Rat)) Rat := ⟨fun _ => .start ⟨0⟩, []⟩
    let calls := (h.visit os v).1.calls
    (v, h) ∈ h.course os (events.flatMap (Event.visits os)) ∧ (os true).Consults (h.contexts 0) (.change c) calls ∧
      calls.length = 2 ∧ (calls.countP fun call => call.capability = .records) ≤ 1 := by
  intro o os c events v h calls
  have hv : (v, h) ∈ h.course os (events.flatMap (Event.visits os)) := List.mem_cons_self
  obtain ⟨hc, hr, -⟩ := (run_consults os events h).2.2 (v, h) hv
  exact ⟨hv, hc, rfl, (hr c rfl).1⟩

end Host

end ExtentLedger
