import RecoveryPlanner.Selection
set_option autoImplicit false

/-! Where two guards look at the same plan: planning against authorization, dispatch
against revalidation. -/

namespace RecoveryPlanner

structure TargetCurrent (ctx : PlannerContext) (request : RecoveryRequest)
    (c : RecoveryCandidate) : Prop where
  workload : request.workloadGeneration = ctx.workloadGeneration
  alive : c.targetWorker ∈ ctx.aliveWorkers
  boot : ctx.workerBoots.find? c.targetWorker = some c.targetBoot

namespace Impl

theorem planFor_current_iff (im : Impl) (request : RecoveryRequest) (now : Timestamp)
    (c : RecoveryCandidate) (e : PlanExplanation) :
    AuthorityCurrent ((im.planFor request now c).explained e) im.ctx ↔
      TargetCurrent im.ctx request c :=
  ⟨fun h => ⟨h.workload,h.alive,h.boot⟩,
   fun h => ⟨rfl,rfl,rfl,rfl,rfl,h.workload,h.alive,h.boot⟩⟩

theorem Planned.authorize_iff {im im' : Impl} {req : RecoveryRequest} {now now' : Timestamp}
    {p : RecoveryPlan} (h : Planned im im' req now p) :
    (∃ q, (im'.authorizePlan now' p).1 = .ok q) ↔ AuthorityCurrent p im.ctx := by
  have hv : validatePlanTransition p.state .authorized = true := by rw [h.fresh.state]; rfl
  unfold authorizePlan
  rw [h.find?_new,h.ctx,← planAuthorityCurrent_iff]
  cases hcur : planAuthorityCurrent p im.ctx with
  | true => simp [hcur,hv]
  | false => simp [hcur]

end Impl

def Authorizable (std : StdSort) (im : Impl) (now now' : Timestamp) (request : RecoveryRequest)
    (cs : List RecoveryCandidate) : Prop :=
  ∀ p, (im.plan std now request cs).1.outcome = .planFound →
    (im.plan std now request cs).1.plan = some p →
    (∃ q, ((im.plan std now request cs).2.authorizePlan now' p).1 = .ok q) ∧
    planAuthorityCurrent p (im.plan std now request cs).2.ctx = true

theorem Impl.plan_planned {std : StdSort} {im : Impl} {now : Timestamp}
    {request : RecoveryRequest} {cs : List RecoveryCandidate} {p : RecoveryPlan}
    (h : (im.plan std now request cs).1.plan = some p) :
    Planned im (im.plan std now request cs).2 request now p := by
  rcases im.plan_spec std now request cs with ⟨hn,_⟩ | ⟨q,hq,hpl⟩
  · exact absurd (hn.symm.trans h) (by simp)
  · obtain rfl := Option.some.inj (hq.symm.trans h)
    exact hpl

theorem authorizable_iff_best (std : StdSort) (im : Impl) (now now' : Timestamp)
    (request : RecoveryRequest) (cs : List RecoveryCandidate)
    (hE : cs.filter (eligible im.ctx request now) ≠ []) :
    Authorizable std im now now' request cs ↔ TargetCurrent im.ctx request
      (best std im.ctx request now cs (eligible im.ctx request now)) := by
  obtain ⟨ho,⟨e,hp⟩,_⟩ := im.plan_found std now request cs hE
  have hpl := Impl.plan_planned hp
  rw [← im.planFor_current_iff request now _ e]
  constructor
  · exact fun h => hpl.authorize_iff.mp (h _ ho hp).1
  · intro h p _ hp'
    obtain rfl := Option.some.inj (hp.symm.trans hp')
    refine ⟨hpl.authorize_iff.mpr h,?_⟩
    rw [hpl.ctx]
    exact (planAuthorityCurrent_iff _ _).mpr h

/-- However the sort breaks ties, a plan reported as found can be authorized at once exactly
when the request is of the current workload generation and every best eligible candidate
names a target worker that is alive under the boot it names. -/
theorem plan_authorizable_iff (im : Impl) (now now' : Timestamp) (request : RecoveryRequest)
    (cs : List RecoveryCandidate) :
    (∀ std : StdSort, Authorizable std im now now' request cs) ↔
    ∀ c, IsFirst (precedes request now) (cs.filter (eligible im.ctx request now)) c →
      TargetCurrent im.ctx request c := by
  constructor
  · intro h c hc
    have hE : cs.filter (eligible im.ctx request now) ≠ [] := List.ne_nil_of_mem hc.mem
    obtain ⟨std,hbest⟩ := exists_best hc
    exact hbest ▸ (authorizable_iff_best std im now now' request cs hE).mp (h std)
  · intro h std
    by_cases hE : cs.filter (eligible im.ctx request now) = []
    · exact fun p ho => absurd hE (Impl.plan_found_iff.mp ho)
    · exact (authorizable_iff_best std im now now' request cs hE).mpr (h _ (best_isFirst std hE))

def recomputingPlanner : Impl :=
  (run (Session.step .insertion) (Session.construct false)
    [.act (.registerWorker ⟨1⟩ ⟨1⟩),.act (.setRecomputeAvailable ⟨1⟩ true)]).node.impl

def orphanCandidate : RecoveryCandidate :=
  { Session.readyCandidate with
    strategy := .recompute
    targetWorker := ⟨2⟩
    cost := some { recomputeTime := some ⟨1⟩ } }

def FoundStale (im : Impl) (now : Timestamp) (request : RecoveryRequest)
    (cs : List RecoveryCandidate) : Prop :=
  ∃ p, (im.plan .insertion now request cs).1.outcome = .planFound ∧
    (im.plan .insertion now request cs).1.plan = some p ∧
    ((im.plan .insertion now request cs).2.authorizePlan now p).1 =
      .error ⟨.staleAuthority,text "plan authority is stale"⟩

theorem foundStale_of {im : Impl} {now : Timestamp} {request : RecoveryRequest}
    {cs : List RecoveryCandidate}
    (hfound : (im.plan .insertion now request cs).1.outcome = .planFound)
    (hstale : (im.plan .insertion now request cs).1.plan.map
      (fun p => planAuthorityCurrent p im.ctx) = some false) : FoundStale im now request cs := by
  obtain ⟨p,hp,hf⟩ := Option.map_eq_some_iff.mp hstale
  have hpl := Impl.plan_planned hp
  refine ⟨p,hfound,hp,?_⟩
  unfold Impl.authorizePlan
  rw [hpl.find?_new,hpl.ctx]
  simp [hf]

theorem plan_found_stale :
    FoundStale recomputingPlanner ⟨0⟩ { Session.requestNo 1 with workloadGeneration := ⟨2⟩ }
      [Session.readyCandidate] ∧
    FoundStale recomputingPlanner ⟨0⟩ (Session.requestNo 1) [orphanCandidate] :=
  ⟨foundStale_of (by decide +kernel) (by decide +kernel),
   foundStale_of (by decide +kernel) (by decide +kernel)⟩

namespace Impl

theorem revalidatePlan_ok_iff {im : Impl} {plan q : RecoveryPlan} :
    im.revalidatePlan plan = .ok q ↔ im.plans.find? plan.planId.value = some q ∧
      AuthorityCurrent q im.ctx ∧ q.deadline.outcome ≠ .violated := by
  unfold revalidatePlan
  cases hk : im.plans.find? plan.planId.value with
  | none => simp
  | some p =>
    simp only [Option.some.injEq,← planAuthorityCurrent_iff]
    cases hcur : planAuthorityCurrent p im.ctx with
    | false =>
      constructor
      · intro h
        exact absurd h (by simp)
      · rintro ⟨rfl,hc,_⟩
        rw [hcur] at hc
        exact absurd hc (by simp)
    | true =>
      by_cases hv : p.deadline.outcome = .violated
      · constructor
        · intro h
          exact absurd h (by simp [hv])
        · rintro ⟨rfl,_,hn⟩
          exact absurd hv hn
      · simp only [hv,Bool.not_true,Bool.false_eq_true,if_false,Except.ok.injEq]
        constructor
        · rintro rfl
          exact ⟨rfl,hcur,hv⟩
        · exact fun h => h.1

theorem dispatchBegin_ok_iff {im : Impl} {now : Timestamp} {plan : RecoveryPlan} :
    (∃ d, (im.dispatchBegin now plan).1 = .ok d) ↔
      ∃ p, im.plans.find? plan.planId.value = some p ∧ p.state = .authorized ∧
        AuthorityCurrent p im.ctx := by
  constructor
  · rintro ⟨d,hd⟩
    rcases im.dispatchBegin_spec now plan with ⟨e,h⟩ | ⟨p,hk,hs,hcur,_⟩
    · rw [h] at hd
      exact absurd hd (by simp)
    · exact ⟨p,hk,hs,hcur⟩
  · rintro ⟨p,hk,hs,hcur⟩
    have hcur := (planAuthorityCurrent_iff p im.ctx).mpr hcur
    have hv : validatePlanTransition .authorized .dispatched = true := rfl
    unfold dispatchBegin
    simp [hk,hcur,hs,hv]

end Impl

/-- The two guards agree on a plan: what can be dispatched revalidates, and what
revalidates is still PLANNED or AUTHORIZED. -/
structure GuardsAgree (im : Impl) (now : Timestamp) (plan : RecoveryPlan) : Prop where
  dispatch : (∃ d, (im.dispatchBegin now plan).1 = .ok d) → ∃ q, im.revalidatePlan plan = .ok q
  revalidate : ∀ q, im.revalidatePlan plan = .ok q → q.state = .planned ∨ q.state = .authorized

/-- Of the plans with a current fence, the AUTHORIZED ones are not marked VIOLATED, and the
ones that have left PLANNED and AUTHORIZED are. -/
structure MarkedByState (p : RecoveryPlan) : Prop where
  authorized : p.state = .authorized → p.deadline.outcome ≠ .violated
  left : p.state ≠ .planned → p.state ≠ .authorized → p.deadline.outcome = .violated

/-- Dispatch reads the state and not the verdict, revalidation the verdict and not the
state; so they agree exactly when the one follows the other. -/
theorem guardsAgree_iff_marked (im : Impl) (now : Timestamp) (plan : RecoveryPlan) :
    GuardsAgree im now plan ↔ ∀ p, im.plans.find? plan.planId.value = some p →
      AuthorityCurrent p im.ctx → MarkedByState p := by
  constructor
  · intro h p hk hcur
    refine ⟨fun hs => ?_,fun hp ha => ?_⟩
    · obtain ⟨q,hq⟩ := h.dispatch (Impl.dispatchBegin_ok_iff.mpr ⟨p,hk,hs,hcur⟩)
      obtain ⟨hk',_,hv⟩ := Impl.revalidatePlan_ok_iff.mp hq
      obtain rfl := Option.some.inj (hk.symm.trans hk')
      exact hv
    · by_contra hv
      rcases h.revalidate p (Impl.revalidatePlan_ok_iff.mpr ⟨hk,hcur,hv⟩) with hs | hs
      · exact hp hs
      · exact ha hs
  · intro h
    constructor
    · intro hd
      obtain ⟨p,hk,hs,hcur⟩ := Impl.dispatchBegin_ok_iff.mp hd
      exact ⟨p,Impl.revalidatePlan_ok_iff.mpr ⟨hk,hcur,(h p hk hcur).authorized hs⟩⟩
    · intro q hq
      obtain ⟨hk,hcur,hv⟩ := Impl.revalidatePlan_ok_iff.mp hq
      by_contra hs
      push Not at hs
      exact hv ((h q hk hcur).left hs.1 hs.2)

def tightRequest : RecoveryRequest :=
  { Session.requestNo 1 with maxRecoveryDuration := some ⟨0⟩ }

def slowCandidate : RecoveryCandidate :=
  { Session.readyCandidate with cost := some { expectedTime := some ⟨10⟩ } }

end RecoveryPlanner
