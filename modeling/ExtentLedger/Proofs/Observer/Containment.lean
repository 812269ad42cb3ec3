import ExtentLedger.Proofs.Observer.Consultation
import ExtentLedger.Proofs.Observer.Warnings

/-!
# Failures are contained

Whatever fails in a run of hooks, every hook comes to its end, the notices of the run are those of its hooks, and each
failure is reported once, where it was met. A crash is the same as the error that its stage makes of it: the run of the
tame collaborators differs in nothing but the answers themselves.
-/

namespace ExtentLedger

variable {κ ι σ K ε α : Type}

/-! ## Tame collaborators -/

@[simp] theorem Attempt.tame_apply (stage : String → ε) (x : Attempt σ ε α) (w : σ) :
    x.tame stage w = ((x w).1.tame stage, (x w).2) := rfl

@[simp] theorem Outcome.error?_tame (stage : String → ε) (r : Outcome ε α) :
    (r.tame stage).error? stage = r.error? stage := by
  cases r <;> rfl

/-! Watching sees no difference between a crash and an error. -/

theorem Observer.watched_tame (o : Observer σ K) : o.tame.watched = o.watched.tame := rfl

theorem Visit.watched_tame (v : Visit κ ι σ K) : v.tame.watched = v.watched.tame := by
  obtain ⟨k, i, c | committed⟩ := v <;> rfl

def Hearing.tame : Hearing K → Hearing K
  | ignored => ignored
  | resolved answer => resolved (answer.tame .resolution)
  | measured entities answer => measured entities (answer.tame .resolution)

def Fate.tame : Fate K → Fate K
  | targeted answer => targeted (answer.tame .dispatch)
  | merged target answer => merged target (answer.tame .dispatch)
  | handled target e answer => handled target e (answer.tame .dispatch)

def Dealing.tame (d : Dealing K) : Dealing K := { d with fate := d.fate.tame }

namespace Hearing

theorem calls_tame (h : Hearing K) (source : String) : h.tame.calls source = (h.calls source).map Call.tame := by
  cases h <;> rfl

theorem fault?_tame (h : Hearing K) : h.tame.fault? = h.fault? := by
  cases h <;> simp [tame, fault?]

theorem contribution?_tame (h : Hearing K) : h.tame.contribution? = h.contribution? := by
  rcases h with _ | answer | ⟨es, (_ | e) | f | c⟩ <;> rfl

theorem enact_tame [Journal σ K] (h : Hearing K) (scope : String) :
    (h.tame.enact scope : Scene σ K → Scene σ K) = h.enact scope := by
  unfold enact
  rw [contribution?_tame, fault?_tame]

end Hearing

namespace Fate

theorem fault?_tame (f : Fate K) : f.tame.fault? = f.fault? := by
  cases f <;> simp [tame, fault?]

theorem isIdle_tame (f : Fate K) : f.tame.isIdle = f.isIdle := by
  rcases f with _ | ⟨_, a | e | c⟩ | _ <;> rfl

theorem isDone_tame (f : Fate K) : f.tame.isDone = f.isDone := by
  rcases f with _ | _ | ⟨_, _, a | e | c⟩ <;> rfl

end Fate

theorem Dealing.calls_tame (d : Dealing K) : d.tame.calls = d.calls.map Call.tame := by
  obtain ⟨entity, es, fate⟩ := d
  cases fate <;> rfl

theorem Dealing.enact_tame [Journal σ K] (d : Dealing K) (w : σ) : d.tame.enact w = d.enact w := by
  unfold enact
  rw [show d.tame.fate.fault? = d.fate.fault? from d.fate.fault?_tame]
  rfl

theorem DispatchReport.ofDealings_tame (ds : List (Dealing K)) : ofDealings (ds.map Dealing.tame) = ofDealings ds := by
  unfold ofDealings
  simp only [List.countP_map, List.filter_map, List.map_map, Function.comp_def, Dealing.tame, Fate.fault?_tame,
    Fate.isDone_tame, Fate.isIdle_tame]

namespace Observer

theorem hear_tame (o : Observer σ K) (c : Change σ K) (w : σ) :
    o.tame.hear c.tame w = ((o.hear c w).1.tame, (o.hear c w).2) := by
  unfold hear
  by_cases hc : o.config.concerns c = true
  · rw [if_pos (show o.tame.config.concerns c.tame = true from hc), if_pos hc]
    simp only [tame, Change.tame, Attempt.tame_apply]
    rcases o.resolver.affected c.source w with ⟨es | e | b, w₁⟩
    · by_cases he : es.isEmpty = true <;> simp [he, Outcome.tame, Hearing.tame]
    · rfl
    · rfl
  · rw [if_neg (show ¬ o.tame.config.concerns c.tame = true from hc), if_neg hc]
    rfl

theorem deal_tame (o : Observer σ K) (entity : Entity) (es : List (Extent K)) (w : σ) :
    o.tame.deal entity es w = ((o.deal entity es w).1.tame, (o.deal entity es w).2) := by
  unfold deal
  simp only [tame, Attempt.tame_apply]
  rcases o.resolver.target entity w with ⟨r | e | b, w₁⟩
  · rcases hm : o.merger r es w₁ with ⟨(_ | m) | e | b, w₂⟩ <;> simp [hm, Outcome.tame, Fate.tame]
  · rfl
  · rfl

variable [Journal σ K]

theorem dealAll_tame (o : Observer σ K) : ∀ (l : List (Entity × List (Extent K))) (w : σ),
    o.tame.dealAll l w = ((o.dealAll l w).1.map Dealing.tame, (o.dealAll l w).2)
  | [], _ => rfl
  | (entity, es) :: l, w => by
    have he (f : Fate K) (w : σ) : Dealing.enact ⟨entity, es, f.tame⟩ w = Dealing.enact ⟨entity, es, f⟩ w :=
      Dealing.enact_tame ⟨entity, es, f⟩ w
    simp only [dealAll, deal_tame, he, dealAll_tame o l, List.map_cons]
    rfl

theorem dealings_tame (o : Observer σ K) (committed : Bool) (t : Transaction K) (w : σ) :
    o.tame.dealings committed t w = (o.dealings committed t w).map Dealing.tame := by
  cases committed with
  | false => rfl
  | true =>
    rw [dealings_true, dealings_true, dealAll_tame]
    rfl

theorem calls_tame (o : Observer σ K) (hook : Hook σ K) (s : Scene σ K) :
    o.tame.calls hook.tame s = (o.calls hook s).map Call.tame := by
  cases hook with
  | change c =>
    simp only [calls, Hook.tame, hear_tame, Hearing.calls_tame]
    rfl
  | finish committed =>
    simp only [calls, Hook.tame, dealings_tame, List.flatMap_map, List.map_flatMap, Dealing.calls_tame]

theorem told_tame (o : Observer σ K) (hook : Hook σ K) (s : Scene σ K) : o.tame.told hook.tame s = o.told hook s := by
  obtain ⟨t, w⟩ := s
  cases hook with
  | change c =>
    simp only [told, Hook.tame, onChange_eq, hear_tame, Hearing.enact_tame]
    rfl
  | finish committed =>
    simp only [told, Hook.tame, onEnd_eq, dealAll_tame, DispatchReport.ofDealings_tame]
    rfl

end Observer

/-! ## Whole runs -/

namespace Host

variable [DecidableEq ι] [Journal σ K] (os : κ → Observer σ K)

theorem visit_tame (h : Host ι σ K) (v : Visit κ ι σ K) :
    h.visit (fun k => (os k).tame) v.tame = ((h.visit os v).1.tame, (h.visit os v).2) := by
  simp only [visit_eq, Visit.tame, Observer.calls_tame, Observer.told_tame]
  rfl

theorem visits_tame : ∀ (vs : List (Visit κ ι σ K)) (h : Host ι σ K),
    h.visits (fun k => (os k).tame) (vs.map Visit.tame) = ((h.visits os vs).1.map Account.tame, (h.visits os vs).2)
  | [], _ => rfl
  | v :: vs, h => by
    simp only [List.map_cons, visits_cons, visit_tame, visits_tame vs]

theorem visits_watched : ∀ (vs : List (Visit κ ι σ K)) (h : Host ι σ K) (ns : List (Notice K)),
    Host.visits (fun k => (os k).watched) ⟨h.contexts, ⟨ns, h.world⟩⟩ (vs.map Visit.watched) =
      ((h.visits os vs).1, ⟨(h.visits os vs).2.contexts,
        ⟨ns ++ (h.course os vs).flatMap fun x => x.2.notices os x.1, (h.visits os vs).2.world⟩⟩)
  | [], h, ns => by simp [course, timeline, visits]
  | v :: vs, h, ns => by
    have hv : Host.visit (fun k => (os k).watched) ⟨h.contexts, ⟨ns, h.world⟩⟩ v.watched =
        ((h.visit os v).1, ⟨(h.visit os v).2.contexts, ⟨ns ++ h.notices os v, (h.visit os v).2.world⟩⟩) := by
      simp only [visit_eq, inContext, Visit.watched, Observer.told_watched, Observer.calls_watched]
      rfl
    rw [List.map_cons, visits_cons, hv, visits_watched vs, visits_cons, course_cons, List.flatMap_cons,
      List.append_assoc]

theorem map_fst_course : ∀ (vs : List (Visit κ ι σ K)) (h : Host ι σ K), (h.course os vs).map Prod.fst = vs
  | [], _ => rfl
  | v :: vs, h => by rw [course_cons, List.map_cons, map_fst_course vs]

theorem fst_visits : ∀ (vs : List (Visit κ ι σ K)) (h : Host ι σ K),
    (h.visits os vs).1 = (h.course os vs).map fun x => (x.2.visit os x.1).1
  | [], _ => rfl
  | v :: vs, h => by rw [visits_cons, course_cons, List.map_cons, fst_visits vs]

/-- Each hook of a run comes to its account, and where an answer breaks off the run goes on as after an error. -/
theorem visits_contain (h : Host ι σ K) (vs : List (Visit κ ι σ K)) :
    let run := h.visits os vs
    let course := h.course os vs
    let watched := h.watched.visits (fun k => (os k).watched) (vs.map Visit.watched)
    let tame := h.watched.visits (fun k => (os k).tame.watched) (vs.map fun v => v.tame.watched)
    (course.map Prod.fst = vs ∧ run.1 = course.map fun x => (x.2.visit os x.1).1) ∧
    watched = (run.1, ⟨run.2.contexts, ⟨course.flatMap fun x => x.2.notices os x.1, run.2.world⟩⟩) ∧
    tame = (watched.1.map Account.tame, watched.2) ∧
    ∀ x ∈ course, let account := (x.2.visit os x.1).1
      let warnings := (x.2.notices os x.1).filter Notice.isWarning
      (os x.1.observer).Reports (x.2.contexts x.1.context) x.1.hook account.calls account.report warnings ∧
        ∀ r, account.report = some r →
          List.Forall₂ (fun entity n => ∃ f, n = .dispatchFailed entity f) r.failed warnings := by
  intro run course watched tame
  refine ⟨⟨map_fst_course os vs h, fst_visits os vs h⟩, visits_watched os vs h [], ?_, fun x _ => ?_⟩
  · have hvs : (vs.map fun v => v.tame.watched) = (vs.map Visit.watched).map Visit.tame := by
      rw [List.map_map]
      exact List.map_congr_left fun v _ => v.watched_tame
    simp only [tame, hvs, Observer.watched_tame]
    exact visits_tame (fun k => (os k).watched) (vs.map Visit.watched) h.watched
  · intro account warnings
    have hr : (os x.1.observer).Reports (x.2.contexts x.1.context) x.1.hook account.calls account.report warnings := by
      simp only [account, visit_eq]
      exact (os x.1.observer).reports _ _ _
    exact ⟨hr, fun r h => (h ▸ hr).forall₂⟩

theorem visits_contain_broken :
    let o : Observer (List (Notice Rat)) Rat :=
      ⟨.ofScope "log", ⟨fun s => .always (if s = "lost" then .crash (some "no index") else .value (.ofList [s])),
        fun _ => .always (.value (.horizontal "plane"))⟩, fun _ es => .always (.value es.head?), fun _ _ => .crash none⟩
    let e : Extent Rat := ⟨⟨⟨0, 1⟩, ⟨0, 1⟩⟩, none, .horizontal "plane"⟩
    let change (source : String) : Hook (List (Notice Rat)) Rat := .change ⟨source, .update, .preUpdate, .ofExtent e⟩
    let lost : Visit Unit Nat (List (Notice Rat)) Rat := ⟨(), 0, change "lost"⟩
    let vs := [lost, ⟨(), 0, change "a"⟩, ⟨(), 0, .finish true⟩]
    let h : Host Nat (List (Notice Rat)) Rat := ⟨fun _ => .start ⟨0⟩, []⟩
    let course := h.course (fun _ => o) vs
    ((lost, h) ∈ course ∧ o.Reports (.start ⟨0⟩) lost.hook (h.visit (fun _ => o) lost).1.calls none
      [.collectFailed (.resolution "panicked: no index")]) ∧
    ∃ x ∈ course, ∃ r, (x.2.visit (fun _ => o) x.1).1.report = some r ∧ r.failed = ["a"] ∧
      List.Forall₂ (fun entity n => ∃ f, n = .dispatchFailed entity f) r.failed
        ((x.2.notices (fun _ => o) x.1).filter Notice.isWarning) := by
  intro o e change lost vs h course
  have hl : (lost, h) ∈ course := List.mem_cons_self
  have hx : course[2]? = some _ := rfl
  have hm := List.mem_of_getElem? hx
  refine ⟨⟨hl, ((visits_contain (fun _ => o) h vs).2.2.2 _ hl).1⟩, _, hm, _, rfl, ?_,
    ((visits_contain (fun _ => o) h vs).2.2.2 _ hm).2 _ rfl⟩
  decide +kernel

end Host

end ExtentLedger
