import ExtentLedger.Proofs.Observer.Collection
import ExtentLedger.Proofs.Observer.Separation
import ExtentLedger.Proofs.Observer.Waiting

/-!
# One dispatch in the life of a transaction

In the life of a transaction a scope is dispatched at most once, however many observers share it and however often they
are told of an end. Until something was noted every end is idle; the first commit after that deals with all that was noted;
from then on the page is closed, so that changes leave the transaction as it is and ends are idle again.
-/

namespace ExtentLedger

variable {κ σ K : Type}

/-! ## Turns in a scope -/

namespace Turn

variable (os : κ → Observer σ K) (scope : String)

def IsIn : Turn κ σ K → Prop
  | tell k _ => (os k).config.scope = scope
  | aside _ => False

instance : DecidablePred (IsIn (κ := κ) os scope)
  | tell k _ => inferInstanceAs (Decidable ((os k).config.scope = scope))
  | aside _ => inferInstanceAs (Decidable False)

def IsEnd (committed : Bool) (x : Turn κ σ K) : Prop :=
  ∃ k, x = tell k (.finish committed) ∧ (os k).config.scope = scope

def contribution? (x : Turn κ σ K × Scene σ K) : Option (Contribution K) :=
  match x.1 with
  | tell k (.change c) =>
    if (os k).config.scope = scope then ((os k).hear c x.2.2).1.contribution? else none
  | _ => none

def commitCalls [Journal σ K] (x : Turn κ σ K × Scene σ K) : List (Call K) :=
  if x.1.IsIn os scope then (x.1.calls os x.2).filter fun call => call.capability.isForCommit else []

structure IsIdle [Journal σ K] (x : Turn κ σ K × Scene σ K) : Prop where
  report : x.1.report os x.2 = some .blank
  calls : x.1.calls os x.2 = []
  transaction : (x.1.run os x.2).1 = x.2.1

end Turn

section
variable (os : κ → Observer σ K) (scope : String)

def contributions (course : List (Turn κ σ K × Scene σ K)) : List (Contribution K) :=
  course.filterMap (Turn.contribution? os scope)

variable [Journal σ K]

/-- The scope was never committed after something had been noted, and all its ends were idle. -/
structure Undispatched (course : List (Turn κ σ K × Scene σ K)) : Prop where
  uncommitted : course.Pairwise fun x y => (Turn.contribution? os scope x).isSome → ¬ y.1.IsEnd os scope true
  idle : ∀ x ∈ course, ∀ committed, x.1.IsEnd os scope committed → Turn.IsIdle os x

/-- The scope was dispatched at `x`, where all that had been noted before was dealt with, and never again. -/
structure DispatchedAt (before : List (Turn κ σ K × Scene σ K)) (x : Turn κ σ K × Scene σ K)
    (after : List (Turn κ σ K × Scene σ K)) (dealt : List (Dealing K)) : Prop where
  undispatched : Undispatched os scope before
  noted : contributions os scope before ≠ []
  commit : x.1.IsEnd os scope true
  calls : x.1.calls os x.2 = dealt.flatMap Dealing.calls
  settled : Contribution.Settled (contributions os scope before) dealt
  quiet : ∀ y ∈ after, y.1.IsIn os scope → (y.1.run os y.2).1 = y.2.1
  idle : ∀ y ∈ after, ∀ committed, y.1.IsEnd os scope committed → Turn.IsIdle os y

end

/-! ## Calls of a dealing -/

theorem Dealing.nodup_capability_calls (d : Dealing K) : (d.calls.map Call.capability).Nodup := by
  obtain ⟨entity, es, fate⟩ := d
  rcases fate with a | ⟨r, a⟩ | ⟨r, m, a⟩ <;> simp [calls, Call.capability]

theorem Dealing.isForCommit_calls (d : Dealing K) : ∀ call ∈ d.calls, call.capability.isForCommit = true := by
  obtain ⟨entity, es, fate⟩ := d
  rcases fate with a | ⟨r, a⟩ | ⟨r, m, a⟩ <;> simp [calls, Call.capability, Capability.isForCommit]

theorem Dealing.filter_calls (ds : List (Dealing K)) :
    (ds.flatMap calls).filter (fun call => call.capability.isForCommit) = ds.flatMap calls := by
  rw [List.filter_eq_self]
  intro call hc
  obtain ⟨d, -, hc⟩ := List.mem_flatMap.mp hc
  exact d.isForCommit_calls call hc

theorem Hearing.filter_calls (h : Hearing K) (source : String) :
    (h.calls source).filter (fun call => call.capability.isForCommit) = [] := by
  cases h <;> rfl

/-- Where the entities are different ones, no capability is called twice for one of them. -/
theorem Dealing.nodup_capability_of_entity {ds : List (Dealing K)} (hd : (ds.map entity).Nodup) (x : Entity) :
    (((ds.filter fun d => d.entity = x).flatMap calls).map Call.capability).Nodup := by
  induction ds with
  | nil => simp
  | cons d ds ih =>
    obtain ⟨hx, hd⟩ := List.nodup_cons.mp hd
    by_cases hdx : d.entity = x
    · have : ds.filter (fun d => d.entity = x) = [] := by
        rw [List.filter_eq_nil_iff]
        intro d' hd' h
        exact hx (List.mem_map.mpr ⟨d', hd', (of_decide_eq_true h).trans hdx.symm⟩)
      simpa [hdx, this] using d.nodup_capability_calls
    · simpa [hdx] using ih hd

theorem Contribution.Settled.nodup {cs : List (Contribution K)} {dealt : List (Dealing K)} (h : Settled cs dealt) :
    (dealt.map Dealing.entity).Nodup := by
  refine List.Pairwise.imp ?_ h.ascending
  intro a b hlt hab
  rw [hab] at hlt
  exact String.lt_irrefl b hlt

/-! ## One turn -/

namespace Turn

variable {os : κ → Observer σ K} {scope : String}

theorem isIn_of_isEnd {x : Turn κ σ K} {committed : Bool} (h : x.IsEnd os scope committed) : x.IsIn os scope := by
  obtain ⟨k, rfl, hk⟩ := h
  exact hk

theorem contribution?_of_not_isIn {x : Turn κ σ K × Scene σ K} (h : ¬ x.1.IsIn os scope) :
    contribution? os scope x = none := by
  obtain ⟨⟨k, c | b⟩ | a, s⟩ := x
  · exact if_neg h
  · rfl
  · rfl

theorem nonempty_of_contribution? {x : Turn κ σ K × Scene σ K} {c : Contribution K}
    (h : contribution? os scope x = some c) : c.entities.isEmpty = false := by
  obtain ⟨⟨k, d | b⟩ | a, s⟩ := x
  · unfold contribution? at h
    by_cases hk : (os k).config.scope = scope
    · simp only [hk, if_true] at h
      exact Observer.contribution?_fits (Observer.fits_hear (os k) d s.2) h
    · simp [hk] at h
  · cases h
  · cases h

variable [Journal σ K]

theorem calls_tell (k : κ) (hook : Hook σ K) (t : Transaction K) (w : σ) :
    (tell k hook).calls os (t, w) = (os k).calls hook (t, w) := by
  rw [calls, Observer.told_traced, List.nil_append]

theorem slot_run_of_not_isIn {x : Turn κ σ K} (h : ¬ x.IsIn os scope) (s : Scene σ K) :
    (x.run os s).1.slot scope = s.1.slot scope := by
  cases x with
  | tell k hook => exact Observer.slot_told_of_ne (os k) (fun e => h e.symm) hook s.1 s.2
  | aside a => exact Transaction.slot_of_aside a s scope

theorem isIdle_of {k : κ} {committed : Bool} {t : Transaction K} {w : σ}
    (hd : (os k).dealings committed t w = []) (ht : ((os k).onEnd committed (t, w)).2.1 = t) :
    IsIdle os (tell k (.finish committed), (t, w)) := by
  refine ⟨?_, ?_, ht⟩
  · have : (tell k (.finish committed) : Turn κ σ K).report os (t, w) = some ((os k).onEnd committed (t, w)).1 := rfl
    rw [this, Observer.report_onEnd, hd]
    rfl
  · rw [calls_tell, Observer.calls, hd]
    rfl

theorem isIdle_of_awaits {x : Turn κ σ K × Scene σ K} {cs : List (Contribution K)} (ht : x.2.1.Awaits scope cs)
    {committed : Bool} (hx : x.1.IsEnd os scope committed) (hcs : committed = true → cs = []) : IsIdle os x := by
  obtain ⟨x, t, w⟩ := x
  obtain ⟨k, rfl, rfl⟩ := hx
  cases committed with
  | false => exact isIdle_of rfl rfl
  | true =>
    -- Nothing was noted, so there is no page that the commit could find.
    have hp : t.page? (os k).config.scope = none := by
      rw [ht.page, hcs rfl]
      rfl
    refine isIdle_of ?_ ?_
    · rw [Observer.dealings_true, Transaction.takePage?_eq, hp]
      simp [Std.ExtTreeMap.toList_eq_nil_iff.mpr rfl, Observer.dealAll]
    · rw [Observer.fst_onEnd, hp]
      rfl

theorem awaits_run {x : Turn κ σ K × Scene σ K} {cs : List (Contribution K)} (ht : x.2.1.Awaits scope cs)
    (hx : x.1.IsEnd os scope true → cs = []) :
    (x.1.run os x.2).1.Awaits scope (cs ++ (contribution? os scope x).toList) := by
  by_cases hin : x.1.IsIn os scope
  · obtain ⟨⟨k, c | committed⟩ | a, t, w⟩ := x
    · cases hin
      have hc : contribution? os (os k).config.scope (tell k (.change c), (t, w)) = ((os k).hear c w).1.contribution? :=
        if_pos rfl
      rw [hc, run_change, Observer.onChange_eq]
      exact Hearing.awaits_enact (Observer.fits_hear (os k) c w) ht _
    · have hidle : IsIdle os (tell k (.finish committed), (t, w)) :=
        isIdle_of_awaits ht ⟨k, rfl, hin⟩ fun h => hx (h ▸ ⟨k, rfl, hin⟩)
      rw [hidle.transaction]
      simpa [contribution?] using ht
    · exact hin.elim
  · rw [contribution?_of_not_isIn hin, Option.toList_none, List.append_nil]
    exact ht.of_slot (slot_run_of_not_isIn hin x.2)

theorem quiet_of_dispatched {x : Turn κ σ K × Scene σ K} (ht : x.2.1.page? scope = some ⟨.dispatched, ∅⟩)
    (hx : x.1.IsIn os scope) :
    (x.1.run os x.2).1 = x.2.1 ∧ ∀ committed, x.1.IsEnd os scope committed → IsIdle os x := by
  obtain ⟨⟨k, c | committed⟩ | a, t, w⟩ := x
  · refine ⟨Observer.fst_onChange_of_not_notes fun h => ?_, fun committed h => ?_⟩
    · obtain ⟨es, e, h⟩ := h
      cases hx
      exact h.undispatched _ ht rfl
    · obtain ⟨k', h, -⟩ := h
      cases h
  · cases hx
    have hidle : IsIdle os (tell k (.finish committed), (t, w)) := by
      refine isIdle_of ?_ ?_
      · cases committed with
        | false => rfl
        | true =>
          -- The page is there, but what is taken from it is empty.
          rw [Observer.dealings_true, Transaction.takePage?_eq, ht]
          simp [Std.ExtTreeMap.toList_eq_nil_iff.mpr rfl, Observer.dealAll]
      · cases committed with
        | false => rfl
        | true =>
          rw [Observer.fst_onEnd, ht]
          exact Transaction.setPage_self ht
    exact ⟨hidle.transaction, fun _ _ => hidle⟩
  · exact hx.elim

theorem page?_run_of_dispatched {x : Turn κ σ K × Scene σ K} (ht : x.2.1.page? scope = some ⟨.dispatched, ∅⟩) :
    (x.1.run os x.2).1.page? scope = some ⟨.dispatched, ∅⟩ := by
  by_cases hx : x.1.IsIn os scope
  · rw [(quiet_of_dispatched ht hx).1, ht]
  · exact (congrArg Slot.page? (slot_run_of_not_isIn hx x.2)).trans ht

theorem settled_of_awaits {x : Turn κ σ K × Scene σ K} {cs : List (Contribution K)} (ht : x.2.1.Awaits scope cs)
    (hx : x.1.IsEnd os scope true) (hcs : cs ≠ []) (hn : ∀ c ∈ cs, c.entities.isEmpty = false) :
    ∃ dealt, x.1.calls os x.2 = dealt.flatMap Dealing.calls ∧ Contribution.Settled cs dealt ∧
      (x.1.run os x.2).1.page? scope = some ⟨.dispatched, ∅⟩ := by
  obtain ⟨x, t, w⟩ := x
  obtain ⟨k, rfl, rfl⟩ := hx
  obtain ⟨c, hc⟩ := List.exists_mem_of_ne_nil cs hcs
  have hp : t.page? (os k).config.scope = some ⟨.collecting, Contribution.regions cs⟩ := by
    rw [ht.page, Contribution.page?, Contribution.isEmpty_regions hc (hn c hc)]
    rfl
  refine ⟨(os k).dealings true t w, calls_tell k _ t w, (os k).settled_dealings ht w, ?_⟩
  rw [run_finish, Observer.fst_onEnd, hp]
  simp

theorem commitCalls_of_isIdle {x : Turn κ σ K × Scene σ K}
    (hx : ∀ committed, x.1.IsEnd os scope committed → IsIdle os x) : commitCalls os scope x = [] := by
  unfold commitCalls
  obtain ⟨⟨k, c | committed⟩ | a, t, w⟩ := x
  · rw [calls_tell, Observer.calls, Hearing.filter_calls]
    simp
  · by_cases hk : (os k).config.scope = scope
    · rw [(hx committed ⟨k, rfl, hk⟩).calls]
      simp
    · exact if_neg hk
  · exact if_neg id

end Turn

/-! ## A whole life -/

section
variable {os : κ → Observer σ K} {scope : String} {course : List (Turn κ σ K × Scene σ K)}

theorem nonempty_of_mem_contributions {c : Contribution K} (hc : c ∈ contributions os scope course) :
    c.entities.isEmpty = false := by
  obtain ⟨x, -, hx⟩ := List.mem_filterMap.mp hc
  exact Turn.nonempty_of_contribution? hx

variable [Journal σ K]

theorem Undispatched.commitCalls (h : Undispatched os scope course) :
    course.flatMap (Turn.commitCalls os scope) = [] :=
  List.flatMap_eq_nil_iff.mpr fun x hx => Turn.commitCalls_of_isIdle (h.idle x hx)

theorem DispatchedAt.commitCalls {before after : List (Turn κ σ K × Scene σ K)} {x : Turn κ σ K × Scene σ K}
    {dealt : List (Dealing K)} (h : DispatchedAt os scope before x after dealt) :
    (before ++ x :: after).flatMap (Turn.commitCalls os scope) = dealt.flatMap Dealing.calls := by
  have hx : Turn.commitCalls os scope x = dealt.flatMap Dealing.calls := by
    rw [Turn.commitCalls, if_pos (Turn.isIn_of_isEnd h.commit), h.calls, Dealing.filter_calls]
  have ha : after.flatMap (Turn.commitCalls os scope) = [] :=
    List.flatMap_eq_nil_iff.mpr fun y hy => Turn.commitCalls_of_isIdle (h.idle y hy)
  rw [List.flatMap_append, List.flatMap_cons, h.undispatched.commitCalls, hx, ha, List.nil_append, List.append_nil]

theorem Undispatched.snoc (h : Undispatched os scope course) {x : Turn κ σ K × Scene σ K}
    (ht : x.2.1.Awaits scope (contributions os scope course))
    (hx : x.1.IsEnd os scope true → contributions os scope course = []) : Undispatched os scope (course ++ [x]) := by
  constructor
  · refine List.pairwise_append.mpr ⟨h.uncommitted, List.pairwise_singleton _ _, fun y hy z hz hc hend => ?_⟩
    rw [List.mem_singleton.mp hz] at hend
    obtain ⟨c, hc⟩ := Option.isSome_iff_exists.mp hc
    have : c ∈ contributions os scope course := List.mem_filterMap.mpr ⟨y, hy, hc⟩
    rw [hx hend] at this
    cases this
  · intro y hy committed hend
    rcases List.mem_append.mp hy with hy | hy
    · exact h.idle y hy committed hend
    · rw [List.mem_singleton.mp hy] at hend ⊢
      exact Turn.isIdle_of_awaits ht hend fun e => hx (e ▸ hend)

theorem DispatchedAt.snoc {before after : List (Turn κ σ K × Scene σ K)} {x y : Turn κ σ K × Scene σ K}
    {dealt : List (Dealing K)} (h : DispatchedAt os scope before x after dealt)
    (ht : y.2.1.page? scope = some ⟨.dispatched, ∅⟩) : DispatchedAt os scope before x (after ++ [y]) dealt where
  undispatched := h.undispatched
  noted := h.noted
  commit := h.commit
  calls := h.calls
  settled := h.settled
  quiet := by
    intro z hz hin
    rcases List.mem_append.mp hz with hz | hz
    · exact h.quiet z hz hin
    · rw [List.mem_singleton.mp hz] at hin ⊢
      exact (Turn.quiet_of_dispatched ht hin).1
  idle := by
    intro z hz committed hend
    rcases List.mem_append.mp hz with hz | hz
    · exact h.idle z hz committed hend
    · rw [List.mem_singleton.mp hz] at hend ⊢
      exact (Turn.quiet_of_dispatched ht (Turn.isIn_of_isEnd hend)).2 committed hend

variable (os scope) in
/-- Either all that was noted still waits, or it was dispatched at some turn and the page is closed. -/
theorem undispatched_or_dispatchedAt {t : Transaction K} (ht : t.contains Transaction.ledgerKey = false) (w : σ)
    (turns : List (Turn κ σ K)) :
    let course := timeline (fun s x => Turn.run os x s) (t, w) turns
    let s := turns.foldl (fun s x => Turn.run os x s) (t, w)
    (Undispatched os scope course ∧ s.1.Awaits scope (contributions os scope course)) ∨
      ∃ before x after dealt, course = before ++ x :: after ∧ DispatchedAt os scope before x after dealt ∧
        s.1.page? scope = some ⟨.dispatched, ∅⟩ := by
  induction turns using List.reverseRecOn with
  | nil => exact .inl ⟨⟨.nil, fun _ h => nomatch h⟩, Transaction.awaits_of_absent ht scope⟩
  | append_singleton turns y ih =>
    intro course s
    simp only [course, s, timeline_snoc, List.foldl_append, List.foldl_cons, List.foldl_nil]
    generalize timeline (fun s x => Turn.run os x s) (t, w) turns = course at ih
    generalize turns.foldl (fun s x => Turn.run os x s) (t, w) = s at ih
    rcases ih with ⟨hu, ha⟩ | ⟨before, x, after, dealt, rfl, hd, hp⟩
    · -- Only the commit of what waits is the dispatch; any other turn leaves it waiting.
      by_cases hy : y.IsEnd os scope true ∧ contributions os scope course ≠ []
      · obtain ⟨dealt, hc, hs, hp⟩ :=
          Turn.settled_of_awaits (x := (y, s)) ha hy.1 hy.2 fun _ => nonempty_of_mem_contributions
        exact .inr ⟨course, (y, s), [], dealt, rfl, ⟨hu, hy.2, hy.1, hc, hs, by simp, by simp⟩, hp⟩
      · have hy : y.IsEnd os scope true → contributions os scope course = [] := by simpa using hy
        refine .inl ⟨hu.snoc ha hy, ?_⟩
        have := Turn.awaits_run (x := (y, s)) ha hy
        rw [contributions, List.filterMap_append]
        cases hc : Turn.contribution? os scope (y, s) <;> simpa [hc, contributions] using this
    · refine .inr ⟨before, x, after ++ [(y, s)], dealt, by simp, hd.snoc hp, ?_⟩
      exact Turn.page?_run_of_dispatched (x := (y, s)) hp

end

namespace Turn

variable [Journal σ K]

/-- What was noted in a scope is dealt with at one commit, with no capability called twice for an entity; nothing comes
of any other end. -/
theorem dispatch_once (os : κ → Observer σ K) {t : Transaction K} (ht : t.contains Transaction.ledgerKey = false)
    (w : σ) (turns : List (Turn κ σ K)) (scope : String) :
    let course := timeline (fun s x => run os x s) (t, w) turns
    ∃ dealt : List (Dealing K),
      course.flatMap (commitCalls os scope) = dealt.flatMap Dealing.calls ∧
      (∀ x, (((dealt.filter fun d => d.entity = x).flatMap Dealing.calls).map Call.capability).Nodup) ∧
      (Undispatched os scope course ∧ dealt = [] ∨
        ∃ before x after, course = before ++ x :: after ∧ DispatchedAt os scope before x after dealt) := by
  intro course
  rcases undispatched_or_dispatchedAt os scope ht w turns with
    ⟨hu, -⟩ | ⟨before, x, after, dealt, hc, hd, -⟩
  · exact ⟨[], hu.commitCalls, fun _ => List.nodup_nil, .inl ⟨hu, rfl⟩⟩
  · refine ⟨dealt, ?_, Dealing.nodup_capability_of_entity hd.settled.nodup, .inr ⟨before, x, after, hc, hd⟩⟩
    rw [show course = before ++ x :: after from hc, hd.commitCalls]

theorem dispatch_once_shared :
    let o (target : Outcome Fault ReferenceSystem) : Observer (List (Notice Rat)) Rat :=
      ⟨.ofScope "log", ⟨fun s => .always (.value (.ofList [s])), fun _ => .always target⟩,
        fun _ es => .always (.value es.head?), fun _ _ => .crash none⟩
    let os (k : Bool) := if k then o (.value (.horizontal "plane")) else o (.failure (.resolution "gone"))
    let e : Extent Rat := ⟨⟨⟨0, 1⟩, ⟨0, 1⟩⟩, none, .horizontal "plane"⟩
    let change : Hook (List (Notice Rat)) Rat := .change ⟨"a", .update, .preUpdate, .ofExtent e⟩
    let turns : List (Turn Bool (List (Notice Rat)) Rat) :=
      [.tell true (.finish true), .tell false change, .aside (.set .mark "seen" () (by decide)), .tell true change,
        .tell false (.finish false), .tell false (.finish true), .tell true change, .tell true (.finish true)]
    let t : Transaction Rat := .start ⟨0⟩
    let course := timeline (fun s x => run os x s) (t, []) turns
    t.contains Transaction.ledgerKey = false ∧
      ∃ dealt before x after, course = before ++ x :: after ∧ DispatchedAt os "log" before x after dealt := by
  intro o os e change turns t course
  have ht : t.contains Transaction.ledgerKey = false := by simp [t, Transaction.start, Transaction.contains]
  obtain ⟨dealt, -, -, ⟨hu, -⟩ | ⟨before, x, after, h⟩⟩ := dispatch_once os ht [] turns "log"
  · -- The second turn notes the change, and the sixth one commits.
    have hp := hu.uncommitted
    have hc : ∀ s, (contribution? os "log" (tell false change, s)).isSome = true := fun _ => rfl
    have hend : (tell false (.finish true) : Turn Bool (List (Notice Rat)) Rat).IsEnd os "log" true := ⟨false, rfl, rfl⟩
    exact (List.pairwise_iff_getElem.mp hp 1 5 (by decide) (by decide) (by decide) (hc _) hend).elim
  · exact ⟨ht, dealt, before, x, after, h⟩

end Turn

end ExtentLedger
