import ExtentLedger.Proofs.Observer.Watching
import ExtentLedger.Proofs.Transaction.Steps

/-!
# What is reported of failures

A failure is reported where it is met and nowhere else. Of a change there is one warning at most: the fault of the call
that failed, or why the transaction would not note the extent. Of a commit there is one warning for each entity in the
report that failed, in the order of the report.
-/

namespace ExtentLedger

variable {σ K ε α : Type}

/-! ## Failures -/

inductive Outcome.Fails (stage : String → ε) : Outcome ε α → ε → Prop
  | failure {e : ε} : Fails stage (.failure e) e
  | crash : Fails stage (.crash none) (stage "panicked")
  | crashWith {words : String} : Fails stage (.crash (some words)) (stage ("panicked: " ++ words))

def Call.Fails (f : Fault) : Call K → Prop
  | affected _ answer => answer.Fails .resolution f
  | records answer => answer.Fails .resolution f
  | target _ answer => answer.Fails .dispatch f
  | merge _ _ answer => answer.Fails .dispatch f
  | handle _ _ answer => answer.Fails .dispatch f

inductive Transaction.Refuses (t : Transaction K) (scope : String) : List Entity → Fault → Prop
  | blocked {entities : List Entity} {p : Property K} : t.properties[ledgerKey]? = some p → p.kind ≠ .ledger →
      Refuses t scope entities (.config ("transaction property '" ++ ledgerKey ++ "' holds a value of another type"))
  | dispatched {entity : Entity} {entities : List Entity} {p : Page K} : t.page? scope = some p →
      p.state = .dispatched → Refuses t scope (entity :: entities)
        (.dispatch ("cannot record dirty region for '" ++ entity ++ "': namespace already dispatched"))

/-- With these calls the change came to a fault: a call failed, or there was an extent that is refused. -/
def Observer.FailsToCollect (o : Observer σ K) (t : Transaction K) (c : Change σ K) (calls : List (Call K))
    (f : Fault) : Prop :=
  (∃ call ∈ calls, call.Fails f) ∨
    ∃ entities e, calls = [.affected c.source (.value entities), .records (.value (some e))] ∧
      t.Refuses o.config.scope entities.toList f

inductive Dealing.Reported : List (Dealing K) → List Entity → List (Notice K) → Prop
  | nil : Reported [] [] []
  | served {d : Dealing K} {ds failed warnings} : (∀ call ∈ d.calls, ∀ f, ¬ call.Fails f) →
      Reported ds failed warnings → Reported (d :: ds) failed warnings
  | failed {d : Dealing K} {call f ds failed warnings} : call ∈ d.calls → call.Fails f →
      Reported ds failed warnings → Reported (d :: ds) (d.entity :: failed) (.dispatchFailed d.entity f :: warnings)

/-- An observer that was told something made these calls; what it reports and of what it warns. -/
inductive Observer.Reports (o : Observer σ K) (t : Transaction K) :
    Hook σ K → List (Call K) → Option DispatchReport → List (Notice K) → Prop
  | change {c : Change σ K} {calls : List (Call K)} {fault? : Option Fault} :
      (∀ f, fault? = some f ↔ o.FailsToCollect t c calls f) →
        Reports o t (.change c) calls none (fault?.toList.map .collectFailed)
  | finish {committed : Bool} {dealt : List (Dealing K)} {r : DispatchReport} {warnings : List (Notice K)} :
      Dealing.Reported dealt r.failed warnings →
        Reports o t (.finish committed) (dealt.flatMap Dealing.calls) (some r) warnings

namespace Outcome

theorem error?_eq_some {stage : String → ε} {r : Outcome ε α} {e : ε} : r.error? stage = some e ↔ r.Fails stage e := by
  constructor
  · intro h
    rcases r with a | e | (_ | words) <;> cases h <;> constructor
  · intro h
    cases h <;> rfl

theorem not_fails_value {stage : String → ε} {a : α} {e : ε} : ¬ (value a : Outcome ε α).Fails stage e := nofun

end Outcome

namespace Hearing

theorem exists_fails {h : Hearing K} {source : String} {f : Fault} :
    (∃ call ∈ h.calls source, call.Fails f) ↔ h.fault? = some f := by
  cases h with
  | ignored => simp [calls, fault?]
  | resolved answer => simp [calls, fault?, Call.Fails, Outcome.error?_eq_some]
  | measured es answer => simp [calls, fault?, Call.Fails, Outcome.error?_eq_some, Outcome.not_fails_value]

theorem calls_eq_iff {h : Hearing K} {source : String} {es : EntitySet} {e : Extent K} :
    h.calls source = [.affected source (.value es), .records (.value (some e))] ↔
      h.contribution? = some ⟨es, e⟩ := by
  rcases h with _ | answer | ⟨es', answer⟩
  · simp [calls, contribution?]
  · simp [calls, contribution?]
  · rcases answer with (_ | e') | f | c <;> simp [calls, contribution?]

end Hearing

theorem Dealing.exists_fails {d : Dealing K} {f : Fault} :
    (∃ call ∈ d.calls, call.Fails f) ↔ d.fate.fault? = some f := by
  obtain ⟨entity, es, fate⟩ := d
  cases fate <;> simp [calls, Fate.fault?, Call.Fails, Outcome.error?_eq_some, Outcome.not_fails_value]

/-! ## Refusals -/

theorem Transaction.note_eq_error_iff {t : Transaction K} {scope : String} {es : List Entity} {e : Extent K}
    {f : Fault} : t.note scope es e = .error f ↔ t.Refuses scope es f := by
  cases hb : t.isBlocked with
  | true =>
    obtain ⟨p, hp, hk⟩ := isBlocked_iff.mp hb
    rw [note_of_blocked hb]
    constructor
    · intro h
      cases h
      exact .blocked hp hk
    · intro h
      cases h with
      | blocked => rfl
      | dispatched hq => simp [page?_of_blocked hb] at hq
  | false =>
    have hn : t.note scope es e = .error f ↔ ((t.page? scope).getD .blank).appendAll es e = .error f := by
      rw [note_of_free hb]
      cases ((t.page? scope).getD .blank).appendAll es e <;> simp [Except.map]
    rw [hn, Page.appendAll_eq_error]
    constructor
    · rintro ⟨hd, entity, rest, rfl, rfl⟩
      cases hp : t.page? scope with
      | none => simp [hp, Page.blank] at hd
      | some p => exact .dispatched hp (by simpa [hp] using hd)
    · intro h
      cases h with
      | blocked hp hk => simp [isBlocked_iff.mpr ⟨_, hp, hk⟩] at hb
      | @dispatched entity rest p hp hd => exact ⟨by simpa [hp] using hd, entity, rest, rfl, rfl⟩

/-! ## Warnings -/

theorem Hearing.fault?_of_contribution? {h : Hearing K} {d : Contribution K} (hd : h.contribution? = some d) :
    h.fault? = none := by
  rcases h with _ | answer | ⟨es, (_ | e) | f | c⟩
  · cases hd
  · cases hd
  · cases hd
  · rfl
  · cases hd
  · cases hd

theorem Hearing.exists_warning (o : Observer σ K) (t : Transaction K) (c : Change σ K) (h : Hearing K) :
    ∃ fault? : Option Fault,
      (h.notices o.config.scope t).filter Notice.isWarning = fault?.toList.map .collectFailed ∧
        ∀ f, fault? = some f ↔ o.FailsToCollect t c (h.calls c.source) f := by
  have hf : ∀ f, o.FailsToCollect t c (h.calls c.source) f ↔ h.fault? = some f ∨
      ∃ d, h.contribution? = some d ∧ t.note o.config.scope d.entities.toList d.extent = .error f := by
    intro f
    unfold Observer.FailsToCollect
    simp only [Hearing.exists_fails, Hearing.calls_eq_iff]
    refine or_congr_right ⟨fun h => ?_, fun h => ?_⟩
    · obtain ⟨es, e, hd, hr⟩ := h
      exact ⟨⟨es, e⟩, hd, Transaction.note_eq_error_iff.mpr hr⟩
    · obtain ⟨d, hd, hn⟩ := h
      exact ⟨d.entities, d.extent, hd, Transaction.note_eq_error_iff.mp hn⟩
  simp only [hf]
  unfold notices
  cases hd : h.contribution? with
  | none => exact ⟨h.fault?, by cases h.fault? <;> rfl, by simp⟩
  | some d =>
    -- What is noted was measured, so only the transaction can be in the way.
    rw [Hearing.fault?_of_contribution? hd]
    cases hn : t.note o.config.scope d.entities.toList d.extent with
    | ok t' => exact ⟨none, by simp [hn, Notice.isWarning], by simp [hn]⟩
    | error f => exact ⟨some f, by simp [hn, Notice.isWarning], by simp [hn]⟩

theorem Dealing.reported (ds : List (Dealing K)) :
    Reported ds (DispatchReport.ofDealings ds).failed (ds.flatMap notices) := by
  induction ds with
  | nil => exact .nil
  | cons d ds ih =>
    unfold DispatchReport.ofDealings at ih ⊢
    cases hd : d.fate.fault? with
    | none =>
      have hn : ∀ call ∈ d.calls, ∀ f, ¬ call.Fails f := by
        intro call hc f hf
        rw [Dealing.exists_fails.mp ⟨call, hc, hf⟩] at hd
        cases hd
      simpa [hd, notices] using ih.served hn
    | some f =>
      obtain ⟨call, hc, hf⟩ := Dealing.exists_fails.mpr hd
      simpa [hd, notices] using ih.failed hc hf

theorem Dealing.Reported.forall₂ {ds : List (Dealing K)} {failed : List Entity} {warnings : List (Notice K)}
    (h : Reported ds failed warnings) :
    List.Forall₂ (fun entity n => ∃ f, n = .dispatchFailed entity f) failed warnings := by
  induction h with
  | nil => exact .nil
  | served _ _ ih => exact ih
  | failed _ _ _ ih => exact .cons ⟨_, rfl⟩ ih

theorem Dealing.filter_notices (ds : List (Dealing K)) :
    (ds.flatMap notices).filter Notice.isWarning = ds.flatMap notices := by
  rw [List.filter_eq_self]
  intro n hn
  obtain ⟨d, -, hn⟩ := List.mem_flatMap.mp hn
  obtain ⟨f, -, rfl⟩ := List.mem_map.mp hn
  rfl

theorem Observer.Reports.forall₂ {o : Observer σ K} {t : Transaction K} {hook : Hook σ K} {calls : List (Call K)}
    {r : DispatchReport} {warnings : List (Notice K)} (h : o.Reports t hook calls (some r) warnings) :
    List.Forall₂ (fun entity n => ∃ f, n = .dispatchFailed entity f) r.failed warnings := by
  cases h with
  | finish hr => exact hr.forall₂

theorem Observer.reports [Journal σ K] (o : Observer σ K) (t : Transaction K) (hook : Hook σ K) (w : σ) :
    o.Reports t hook (o.calls hook (t, w)) (o.told hook (t, w)).1
      ((o.notices hook (t, w)).filter Notice.isWarning) := by
  cases hook with
  | change c =>
    rw [notices_change]
    obtain ⟨fault?, hw, hf⟩ := (o.hear c w).1.exists_warning o t c
    rw [hw]
    exact .change hf
  | finish committed =>
    have hr : (o.told (.finish committed) (t, w)).1 = some (.ofDealings (o.dealings committed t w)) :=
      congrArg some (o.report_onEnd committed t w)
    have hw : (o.notices (.finish committed) (t, w)).filter Notice.isWarning =
        (o.dealings committed t w).flatMap Dealing.notices := by
      rw [notices_finish, endNotices, List.filter_append, Dealing.filter_notices]
      split <;> simp [Notice.isWarning]
    rw [hr, hw]
    exact .finish (Dealing.reported _)

end ExtentLedger
