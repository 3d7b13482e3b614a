import RecoveryPlanner.Cancellation
import RecoveryPlanner.Completion
import RecoveryPlanner.WorldView
set_option autoImplicit false

/-! What holds of every plan with a current fence, call by call, and the calls that keep
dispatch and revalidation together. -/

namespace RecoveryPlanner

theorem AuthorityCurrent.of_fence {p p' : RecoveryPlan} {ctx : PlannerContext}
    (h : AuthorityCurrent p ctx) (hf : p'.fence = p.fence) : AuthorityCurrent p' ctx := by
  have hauth : p'.authority = p.authority := congrArg PlanFence.authority hf
  have hworker : p'.targetWorker = p.targetWorker := congrArg PlanFence.targetWorker hf
  have hboot : p'.targetBoot = p.targetBoot := congrArg PlanFence.targetBoot hf
  obtain ⟨h1,h2,h3,h4,h5,h6,h7,h8⟩ := h
  rw [← hauth] at h1 h2 h3 h4 h5 h6
  rw [← hworker] at h7 h8
  rw [← hboot] at h8
  exact ⟨h1,h2,h3,h4,h5,h6,h7,h8⟩

theorem Evolves.authorized {p p' : RecoveryPlan} (h : Evolves p p')
    (hs : p'.state = p.state ∨ p.state.inFlight = true) (ha : p'.state = .authorized) :
    p.state = .authorized := by
  rcases hs with hs | hf
  · exact hs.symm.trans ha
  · rcases h.state with hs | hv
    · exact hs.symm.trans ha
    · rw [ha,validate_authorized] at hv
      rcases hv with hs | hs
      · rw [hs] at hf
        exact absurd hf (by decide)
      · exact hs

/-- What survives that a plan is settled: it stays in its state, or leaves flight. -/
def Steady (Q : UInt64 → RecoveryPlan → Prop) : Prop :=
  ∀ k p p', Evolves p p' → p'.state = p.state ∨ p.state.inFlight = true → Q k p → Q k p'

namespace Impl

theorem settleReport_state (outcome : ExecutionOutcome) (p : RecoveryPlan) :
    (settleReport outcome p).state = p.state ∨ p.state.inFlight = true := by
  cases hf : p.state.inFlight with
  | true => exact .inr rfl
  | false =>
    have hno : ¬ (p.state = .dispatched ∨ p.state = .executing) := by
      rw [← inFlight_iff,hf]
      simp
    left
    cases outcome with
    | undeclared i => rfl
    | _ => simp [settleReport,validate_failed,validate_succeeded,hno]

theorem settleReceipt_state (status : DispatchStatus) (p : RecoveryPlan) :
    (settleReceipt status p).state = p.state ∨ p.state.inFlight = true := by
  cases hf : p.state.inFlight with
  | true => exact .inr rfl
  | false =>
    have hno : ¬ (p.state = .dispatched ∨ p.state = .executing) := by
      rw [← inFlight_iff,hf]
      simp
    have hd : p.state ≠ .dispatched := fun h => hno (.inl h)
    have hv : validatePlanTransition p.state .failed = false := by
      rw [← Bool.not_eq_true,validate_failed]
      exact hno
    left
    simp [settleReceipt,hv,hd]

/-- All plans with a current fence have a property, which may look at the id they are stored
under. -/
def AllCurrent (Q : UInt64 → RecoveryPlan → Prop) (im : Impl) : Prop :=
  ∀ k p, im.plans.find? k = some p → AuthorityCurrent p im.ctx → Q k p

variable {Q : UInt64 → RecoveryPlan → Prop} {im im' : Impl}

theorem allCurrent_of_empty (h : im.ctx.aliveWorkers = ∅) : im.AllCurrent Q := by
  intro k p _ hcur
  have halive := hcur.alive
  rw [h] at halive
  exact absurd halive (Finset.notMem_empty _)

theorem AllCurrent.mono (h : im.AllCurrent Q) (hplans : im'.plans = im.plans)
    (hctx : ∀ p, AuthorityCurrent p im'.ctx → AuthorityCurrent p im.ctx) : im'.AllCurrent Q :=
  fun k p hk hcur => h k p (hplans ▸ hk) (hctx p hcur)

theorem AllCurrent.put_iff (h : im.AllCurrent Q) (k : UInt64) {p p' : RecoveryPlan}
    (hf : p'.fence = p.fence) :
    (im.putPlan k p').AllCurrent Q ↔ (AuthorityCurrent p im.ctx → Q k p') := by
  constructor
  · intro hall hcur
    exact hall k p' (by simp [putPlan]) (hcur.of_fence hf)
  · intro hp j q hq hcur
    rw [putPlan,SortedMap.find?_insert] at hq
    split at hq
    · rename_i hj
      obtain rfl := Option.some.inj hq
      exact hj ▸ hp (hcur.of_fence hf.symm)
    · exact h j q hq hcur

theorem AllCurrent.settle (h : im.AllCurrent Q) (hQ : Steady Q) {k : UInt64}
    {p p' : RecoveryPlan} (hk : im.plans.find? k = some p) (he : Evolves p p')
    (hs : p'.state = p.state ∨ p.state.inFlight = true) : (im.putPlan k p').AllCurrent Q :=
  (h.put_iff k he.fence).mpr fun hcur => hQ k p p' he hs (h k p hk hcur)

theorem AllCurrent.reportExecution (h : im.AllCurrent Q) (hQ : Steady Q) (now : Timestamp)
    (r : ExecutionReport) : (im.reportExecution now r).AllCurrent Q := by
  unfold Impl.reportExecution
  cases hk : im.plans.find? r.planId.value with
  | none => exact h
  | some p =>
    dsimp only
    split
    · exact h
    · split
      · exact h
      · split
        · exact h
        · exact h.settle hQ hk (settleReport_evolves r.outcome p now)
            (settleReport_state r.outcome p)

theorem AllCurrent.dispatchEnd (h : im.AllCurrent Q) (hQ : Steady Q) (now : Timestamp)
    (planId : RecoveryPlanId) (status : DispatchStatus) :
    (im.dispatchEnd now planId status).2.AllCurrent Q := by
  unfold Impl.dispatchEnd
  cases hk : im.plans.find? planId.value with
  | none => exact h
  | some p =>
    exact h.settle hQ hk (settleReceipt_evolves status p now) (settleReceipt_state status p)

theorem supersede_fence (req : RecoveryRequest) (keep : RecoveryPlanId) (now : Timestamp)
    (p : RecoveryPlan) : (supersede req keep now p).fence = p.fence := by
  rcases supersede_evolves req keep now p with h | h
  · rw [h]
  · exact h.fence

theorem Planned.allCurrent_iff {req : RecoveryRequest} {now : Timestamp} {new : RecoveryPlan}
    (h : Planned im im' req now new) : im'.AllCurrent Q ↔
      (AuthorityCurrent new im.ctx → Q new.planId.value new) ∧
      ∀ k p, k ≠ new.planId.value → im.plans.find? k = some p → AuthorityCurrent p im.ctx →
        Q k (supersede req new.planId now p) := by
  have hfence := fun p => supersede_fence req new.planId now p
  constructor
  · intro hall
    refine ⟨fun hcur => hall _ new h.find?_new (h.ctx.symm ▸ hcur),fun k p hk hp hcur => ?_⟩
    have hold := h.find?_old hk
    rw [hp] at hold
    exact hall k _ hold (h.ctx.symm ▸ hcur.of_fence (hfence p))
  · rintro ⟨hnew,hold⟩ k q hq hcur
    rw [h.ctx] at hcur
    by_cases hk : k = new.planId.value
    · rw [hk,h.find?_new] at hq
      obtain rfl := Option.some.inj hq
      exact hk ▸ hnew hcur
    · rw [h.find?_old hk] at hq
      obtain ⟨p,hp,rfl⟩ := Option.map_eq_some_iff.mp hq
      exact hold k p hk hp (hcur.of_fence (hfence p).symm)

/-- The property holds of the plans whose fences the context makes current again. -/
def Revives (Q : UInt64 → RecoveryPlan → Prop) (im : Impl) (ctx : PlannerContext) : Prop :=
  ∀ k p, im.plans.find? k = some p → ¬ AuthorityCurrent p im.ctx → AuthorityCurrent p ctx → Q k p

theorem AllCurrent.revives_iff (h : im.AllCurrent Q) (hplans : im'.plans = im.plans) :
    im.Revives Q im'.ctx ↔ im'.AllCurrent Q := by
  unfold AllCurrent
  rw [hplans]
  constructor
  · intro hr k p hk hcur
    by_cases hold : AuthorityCurrent p im.ctx
    · exact h k p hk hold
    · exact hr k p hk hold hcur
  · exact fun hall k p hk _ hcur => hall k p hk hcur

/-- A load that gets past the header forgets who is alive, and no other load reaches the
plans. -/
theorem loadState_plans_or_alive (im : Impl) (disk : Disk) :
    (im.loadState disk).2.plans = im.plans ∨ (im.loadState disk).2.ctx.aliveWorkers = ∅ := by
  rcases im.loadState_cases disk with h | ⟨blob,_,_,h⟩
  · exact .inl (by rw [h])
  · rw [h]
    unfold applySnapshot applyBody applyWorkers
    dsimp only
    split
    · exact .inl rfl
    · split
      · exact .inl rfl
      · rw [(applyRequests_frame _ _).2]
        exact .inr rfl

theorem AllCurrent.loadState_iff (h : im.AllCurrent Q) (disk : Disk) :
    im.Revives Q (im.loadState disk).2.ctx ↔ (im.loadState disk).2.AllCurrent Q := by
  rcases im.loadState_plans_or_alive disk with hplans | halive
  · exact h.revives_iff hplans
  · refine iff_of_true (fun k p _ _ hcur => ?_) (allCurrent_of_empty halive)
    have halive' := hcur.alive
    rw [halive] at halive'
    exact absurd halive' (Finset.notMem_empty _)

end Impl

/-- The critical sections that settle plans at most, and make no fence current. -/
def Act.settles : Act → Bool
  | .revalidatePlan _ | .dispatchEnd _ _ _ | .reportExecution _ _ | .adapterTake _ _
  | .adapterDeliver _ _ | .unregisterWorker _ | .setResource _ _
  | .setRecomputeAvailable _ _ => true
  | _ => false

theorem Node.act_allCurrent {Q : UInt64 → RecoveryPlan → Prop} (hQ : Steady Q) (std : StdSort)
    {n : Node} (h : n.impl.AllCurrent Q) {a : Act} (ha : a.settles = true) :
    (n.act std a).impl.AllCurrent Q := by
  cases a with
  | revalidatePlan plan => exact h
  | dispatchEnd now call status =>
    simp only [act]
    split
    · exact h.dispatchEnd hQ now _ status
    · exact h
  | reportExecution now report => exact h.reportExecution hQ now report
  | adapterTake dispatchId outcome =>
    have hctx := n.act_ctx std (a := .adapterTake dispatchId outcome) rfl
    refine h.mono ?_ fun p hcur => hctx ▸ hcur
    simp only [act,Impl.adapterTake]
    cases n.impl.dispatchMeta.find? dispatchId.value <;> rfl
  | adapterDeliver now call =>
    simp only [act]
    split
    · exact h.reportExecution hQ now _
    · exact h
  | unregisterWorker w =>
    refine h.mono rfl fun p hcur => ?_
    obtain ⟨h1,h2,h3,h4,h5,h6,h7,h8⟩ := hcur
    exact ⟨h1,h2,h3,h4,h5,h6,Finset.mem_of_mem_erase h7,h8⟩
  | setResource kind amount =>
    refine h.mono rfl fun p hcur => ?_
    obtain ⟨h1,h2,h3,h4,h5,h6,h7,h8⟩ := hcur
    exact ⟨h1,h2,h3,h4,h5,h6,h7,h8⟩
  | setRecomputeAvailable gen available =>
    simp only [act,Impl.setRecomputeAvailable]
    split <;> refine h.mono rfl fun p hcur => ?_
    all_goals
      obtain ⟨h1,h2,h3,h4,h5,h6,h7,h8⟩ := hcur
      exact ⟨h1,h2,h3,h4,h5,h6,h7,h8⟩
  | _ => exact absurd ha (by simp [Act.settles])

theorem Evolves.deadline {p p' : RecoveryPlan} (h : Evolves p p') : p'.deadline = p.deadline := by
  cases h <;> rfl

theorem MarkedByState.steady : Steady fun _ => MarkedByState := by
  intro k p p' he hs hm
  have hd := congrArg DeadlineEvaluation.outcome he.deadline
  rcases hs with hs | hf
  · exact ⟨fun ha => by rw [hd]; exact hm.authorized (hs ▸ ha),
      fun hp ha => by rw [hd]; exact hm.left (hs ▸ hp) (hs ▸ ha)⟩
  · have hnot : p.state ≠ .planned ∧ p.state ≠ .authorized := by
      rcases inFlight_iff.mp hf with hs | hs <;> simp [hs]
    refine ⟨fun ha => ?_,fun _ _ => by rw [hd]; exact hm.left hnot.1 hnot.2⟩
    exact absurd (he.authorized (.inr hf) ha) hnot.2

theorem MarkedByState.withdrawn_iff {p p' : RecoveryPlan} (h : MarkedByState p)
    (hd : p'.deadline = p.deadline) (hp : p'.state ≠ .planned) (ha : p'.state ≠ .authorized) :
    MarkedByState p' ↔
      (p.state = .planned ∨ p.state = .authorized → p.deadline.outcome = .violated) := by
  constructor
  · intro h' _
    rw [← hd]
    exact h'.left hp ha
  · intro hw
    refine ⟨fun hs => absurd hs ha,fun _ _ => ?_⟩
    rw [hd]
    by_cases hs : p.state = .planned ∨ p.state = .authorized
    · exact hw hs
    · rw [not_or] at hs
      exact h.left hs.1 hs.2

namespace Impl

/-- All plans with a current fence are marked by their state. -/
def AllMarked (im : Impl) : Prop := im.AllCurrent fun _ => MarkedByState

theorem allMarked_iff (im : Impl) :
    im.AllMarked ↔ ∀ now plan, GuardsAgree im now plan := by
  constructor
  · exact fun h now plan => (guardsAgree_iff_marked im now plan).mpr fun p hk => h _ p hk
  · exact fun h k p hk => (guardsAgree_iff_marked im ⟨0⟩ { planId := ⟨k⟩ }).mp (h _ _) p hk

def Withdrawable (im : Impl) (k : UInt64) : Prop :=
  ∀ p, im.plans.find? k = some p → AuthorityCurrent p im.ctx →
    p.state = .planned ∨ p.state = .authorized → p.deadline.outcome = .violated

/-- A call that takes the plan out of PLANNED and AUTHORIZED, if it is there. -/
def Withdraws (im im' : Impl) (k : UInt64) : Prop :=
  (im' = im ∧ ∀ p, im.plans.find? k = some p → p.state ≠ .planned ∧ p.state ≠ .authorized) ∨
    ∃ p p', im.plans.find? k = some p ∧ Evolves p p' ∧ im' = im.putPlan k p' ∧
      p'.state ≠ .planned ∧ p'.state ≠ .authorized

theorem cancelPlan_withdraws (im : Impl) (now : Timestamp) (planId : RecoveryPlanId)
    (force : Bool) : Withdraws im (im.cancelPlan now planId force).2 planId.value := by
  rw [cancelPlan_eq]
  cases hk : im.plans.find? planId.value with
  | none => exact .inl ⟨rfl,fun p hp => absurd (hk.symm.trans hp) (by simp)⟩
  | some p =>
    by_cases hv : validatePlanTransition p.state .cancelled = true
    · exact .inr ⟨p,_,hk,.cancel p now hv,by simp [hv],by simp,by simp⟩
    · refine .inl ⟨by simp [hv],fun q hq => ?_⟩
      obtain rfl := Option.some.inj (hk.symm.trans hq)
      rw [validate_cancelled] at hv
      exact ⟨fun hs => hv (by simp [hs]),fun hs => hv (by simp [hs])⟩

theorem invalidatePlan_withdraws (im : Impl) (now : Timestamp) (planId : RecoveryPlanId) :
    Withdraws im (im.invalidatePlan now planId) planId.value := by
  unfold invalidatePlan
  cases hk : im.plans.find? planId.value with
  | none => exact .inl ⟨rfl,fun p hp => absurd (hk.symm.trans hp) (by simp)⟩
  | some p =>
    by_cases hv : validatePlanTransition p.state .invalidated = true
    · have hne : p.state ≠ .succeeded := fun hs => by
        rw [hs] at hv
        exact absurd hv (by decide)
      exact .inr ⟨p,_,hk,.invalidate p now hv,by simp [hv,hne],by simp,by simp⟩
    · refine .inl ⟨by simp [hv],fun q hq => ?_⟩
      obtain rfl := Option.some.inj (hk.symm.trans hq)
      rw [validate_invalidated] at hv
      exact ⟨fun hs => hv (by simp [hs]),fun hs => hv (by simp [hs])⟩

theorem Withdraws.allMarked {im im' : Impl} {k : UInt64} (hcall : Withdraws im im' k)
    (h : im.AllMarked) : im.Withdrawable k ↔ im'.AllMarked := by
  rcases hcall with ⟨rfl,hnot⟩ | ⟨p,p',hk,he,rfl,hp,ha⟩
  · refine iff_of_true (fun p hk _ hs => ?_) h
    exact absurd hs (not_or.mpr (hnot p hk))
  · rw [AllMarked,AllCurrent.put_iff h k he.fence]
    constructor
    · exact fun hw hcur => ((h k p hk hcur).withdrawn_iff he.deadline hp ha).mpr (hw p hk hcur)
    · intro hm q hq hcur
      obtain rfl := Option.some.inj (hk.symm.trans hq)
      exact ((h k p hk hcur).withdrawn_iff he.deadline hp ha).mp (hm hcur)

theorem authorizePlan_allMarked {im : Impl} (h : im.AllMarked) (now : Timestamp)
    (plan : RecoveryPlan) :
    (∀ p, im.plans.find? plan.planId.value = some p → AuthorityCurrent p im.ctx →
      p.state = .planned → p.deadline.outcome ≠ .violated) ↔
    (im.authorizePlan now plan).2.AllMarked := by
  unfold authorizePlan
  cases hk : im.plans.find? plan.planId.value with
  | none => exact iff_of_true (fun p hp => absurd hp (by simp)) h
  | some p =>
    simp only [Option.some.injEq,forall_eq',← planAuthorityCurrent_iff]
    by_cases hcur : planAuthorityCurrent p im.ctx = true
    · have hmark := h _ p hk ((planAuthorityCurrent_iff _ _).mp hcur)
      by_cases hv : validatePlanTransition p.state .authorized = true
      · have hput : (im.putPlan plan.planId.value
            { p with state := .authorized, updatedAt := now }).AllMarked ↔ _ :=
          AllCurrent.put_iff h _ (p := p) rfl
        simp only [hcur,hv,Bool.not_true,Bool.false_eq_true,if_false,forall_const,hput]
        constructor
        · intro hp _
          refine ⟨fun _ => ?_,fun _ ha => absurd rfl ha⟩
          exact (validate_authorized.mp hv).elim hp hmark.authorized
        · exact fun hm _ => (hm ((planAuthorityCurrent_iff _ _).mp hcur)).authorized rfl
      · have hnot := mt validate_authorized.mpr hv
        simp only [hcur,hv,Bool.not_true,Bool.false_eq_true,if_false,forall_const,Bool.not_false,
          if_true]
        exact iff_of_true (fun hs => absurd (.inl hs) hnot) h
    · simp only [hcur,Bool.not_false,if_true,Bool.false_eq_true,false_imp_iff,true_iff]
      exact h

theorem dispatchBegin_allMarked {im : Impl} (h : im.AllMarked) (now : Timestamp)
    (plan : RecoveryPlan) :
    (∀ p, im.plans.find? plan.planId.value = some p → AuthorityCurrent p im.ctx →
      p.state ≠ .authorized) ↔ (im.dispatchBegin now plan).2.AllMarked := by
  have hok := @dispatchBegin_ok_iff im now plan
  rcases im.dispatchBegin_spec now plan with ⟨e,heq⟩ | ⟨p,hk,hs,hcur,heq⟩
  · rw [heq]
    refine iff_of_true (fun p hk hcur hs => ?_) h
    obtain ⟨d,hd⟩ := hok.mpr ⟨p,hk,hs,hcur⟩
    rw [heq] at hd
    exact absurd hd (by simp)
  · -- The plan that goes out is not marked VIOLATED, and is not AUTHORIZED any more.
    refine iff_of_false (fun hno => hno p hk hcur hs) fun hall => ?_
    rw [heq] at hall
    have hm := hall plan.planId.value (p.dispatched now) (by simp [handOff,putPlan])
      (hcur.of_fence rfl)
    exact (h _ p hk hcur).authorized hs (hm.left (by simp [RecoveryPlan.dispatched])
      (by simp [RecoveryPlan.dispatched]))

theorem supersede_marked_iff {req : RecoveryRequest} {keep : RecoveryPlanId} {now : Timestamp}
    {p : RecoveryPlan} (h : MarkedByState p) (hkeep : p.planId ≠ keep) :
    MarkedByState (supersede req keep now p) ↔ (p.requestId = req.requestId →
      p.state = .planned ∨ p.state = .authorized → p.deadline.outcome = .violated) := by
  unfold supersede
  rw [if_neg hkeep]
  split
  · rename_i hcond
    simp only [Bool.and_eq_true,decide_eq_true_eq] at hcond
    have hiff : MarkedByState { p with state := .superseded, updatedAt := now } ↔ _ :=
      h.withdrawn_iff rfl (by simp) (by simp)
    rw [hiff]
    exact ⟨fun hw _ => hw,fun hw => hw hcond.1.1⟩
  · rename_i hcond
    refine iff_of_true h fun hreq hs => absurd ?_ hcond
    have hv := validate_superseded.mpr (hs.imp_right .inl)
    simp [hreq,hv,validate_not_terminal hv]

theorem plan_allMarked {im : Impl} (h : im.AllMarked) (hkeyed : Keyed im.plans) (std : StdSort)
    (now : Timestamp) (request : RecoveryRequest) (cs : List RecoveryCandidate) :
    (cs.filter (feasible im.ctx request) ≠ [] → ∀ k p, k ≠ im.nextPlanId →
      im.plans.find? k = some p → p.requestId = request.requestId → im.Withdrawable k) ↔
    (im.plan std now request cs).2.AllMarked := by
  rcases im.plan_spec std now request cs with ⟨hnone,hsame⟩ | ⟨new,hnew,hplan⟩
  · refine iff_of_true (fun hF => absurd (plan_eq_none_iff.mp hnone) hF) ?_
    exact h.mono hsame.plans fun p hcur => hsame.ctx ▸ hcur
  · have hF : cs.filter (feasible im.ctx request) ≠ [] := fun hF => by
      rw [plan_eq_none_iff.mpr hF] at hnew
      exact absurd hnew (by simp)
    have hid : new.planId.value = im.nextPlanId := congrArg Id.value hplan.fresh.planId
    have hs := hplan.fresh.state
    have hfresh : MarkedByState new :=
      ⟨fun ha => absurd (hs.symm.trans ha) (by simp),fun hp => absurd hs hp⟩
    have hmark : ∀ k p, k ≠ im.nextPlanId → im.plans.find? k = some p →
        AuthorityCurrent p im.ctx →
        (MarkedByState (supersede request new.planId now p) ↔ (p.requestId = request.requestId →
          p.state = .planned ∨ p.state = .authorized → p.deadline.outcome = .violated)) := by
      intro k p hk hp hcur
      refine supersede_marked_iff (h k p hp hcur) fun heq => hk ?_
      rw [← hkeyed k p hp,heq,hid]
    rw [AllMarked,hplan.allCurrent_iff,hid]
    constructor
    · intro hw
      refine ⟨fun _ => hfresh,fun k p hk hp hcur => (hmark k p hk hp hcur).mpr fun hreq => ?_⟩
      exact hw hF k p hk hp hreq p hp hcur
    · rintro ⟨_,hold⟩ _ k p hk hp hreq q hq hcur
      obtain rfl := Option.some.inj (hp.symm.trans hq)
      exact (hmark k p hk hp hcur).mp (hold k p hk hp hcur) hreq

end Impl

namespace Node

/-- The calls that keep the two guards together. None of them takes a plan whose fence is
current and that is not marked VIOLATED out of PLANNED and AUTHORIZED, so nothing is
dispatched; none authorizes a plan that is marked; and none makes a fence current again unless
the plan behind it is marked by its state. -/
def HoldsBack (n : Node) : Call → Prop
  | .act (.plan _ request cs) => cs.filter (feasible n.impl.ctx request) ≠ [] →
    ∀ k p, k ≠ n.impl.nextPlanId → n.impl.plans.find? k = some p →
      p.requestId = request.requestId → n.impl.Withdrawable k
  | .act (.authorizePlan _ plan) => ∀ p, n.impl.plans.find? plan.planId.value = some p →
    AuthorityCurrent p n.impl.ctx → p.state = .planned → p.deadline.outcome ≠ .violated
  | .act (.dispatchBegin _ plan) => ∀ p, n.impl.plans.find? plan.planId.value = some p →
    AuthorityCurrent p n.impl.ctx → p.state ≠ .authorized
  | .act (.cancelPlan _ planId _) => n.impl.Withdrawable planId.value
  | .act (.invalidatePlan _ planId) => n.impl.Withdrawable planId.value
  | .act (.registerWorker w boot) =>
    n.impl.Revives (fun _ => MarkedByState) (n.impl.ctx.registerWorker w boot)
  | .loadState disk =>
    n.impl.Revives (fun _ => MarkedByState) (n.impl.loadState disk).2.ctx
  | _ => True

theorem call_allMarked (std : StdSort) {n : Node} (ht : n.impl.Tidy) (h : n.impl.AllMarked)
    (c : Call) : n.HoldsBack c ↔ (n.call std c).impl.AllMarked := by
  cases c with
  | saveState => exact iff_of_true trivial h
  | loadState disk => exact h.loadState_iff disk
  | restartCoordinator clock reload =>
    exact iff_of_true trivial
      (Impl.allCurrent_of_empty (n.impl.restartReloading_restarted clock reload).alive)
  | act a =>
    cases a with
    | plan now request cs => exact Impl.plan_allMarked h ht.plansKeyed std now request cs
    | authorizePlan now plan => exact Impl.authorizePlan_allMarked h now plan
    | dispatchBegin now plan =>
      rw [HoldsBack,Impl.dispatchBegin_allMarked h now plan]
      simp only [call,act]
      split
      · rename_i heq
        rw [heq]
      · rename_i heq _
        rw [heq]
    | cancelPlan now planId force =>
      exact (n.impl.cancelPlan_withdraws now planId force).allMarked h
    | invalidatePlan now planId => exact (n.impl.invalidatePlan_withdraws now planId).allMarked h
    | registerWorker w boot =>
      exact @Impl.AllCurrent.revives_iff _ n.impl (n.impl.registerWorker w boot) h rfl
    | _ => exact iff_of_true trivial (act_allCurrent MarkedByState.steady std h rfl)

/-- Dispatch reads the state and not the verdict, revalidation the verdict and not the state.
In a run they agree on every plan in all states exactly when all of its calls hold back. -/
theorem run_guards_agree_iff (std : StdSort) (hasStore : Bool) (calls : List Call) :
    (∀ front, front <+: calls → ∀ now plan,
      GuardsAgree (run (call std) (construct hasStore) front).impl now plan) ↔
    Along HoldsBack (call std) (construct hasStore) calls := by
  simp only [← Impl.allMarked_iff]
  refine (along_iff_states (I := fun n : Node => n.impl.Tidy)
    (P := fun n : Node => n.impl.AllMarked) (fun n c ht => call_tidy std ht c)
    (fun n c ht h => call_allMarked std ht h c)
    (Impl.construct_tidy hasStore) ?_ calls).symm
  exact Impl.allCurrent_of_empty rfl

def tightCalls : List Call :=
  [.act (.registerWorker ⟨1⟩ ⟨1⟩),.act (.plan ⟨0⟩ tightRequest [slowCandidate]),
   .act (.authorizePlan ⟨0⟩ { planId := ⟨1⟩ })]

def cancelledCalls : List Call :=
  [.act (.registerWorker ⟨1⟩ ⟨1⟩),.act (.plan ⟨0⟩ (Session.requestNo 1) [Session.readyCandidate]),
   .act (.cancelPlan ⟨0⟩ ⟨1⟩ false)]

/-- The fallback plan is handed out and does not revalidate; the cancelled plan does. -/
theorem guards_disagree :
    let im := (run (call .insertion) (construct false) tightCalls).impl
    let im' := (run (call .insertion) (construct false) cancelledCalls).impl
    ((∃ d, (im.dispatchBegin ⟨0⟩ { planId := ⟨1⟩ }).1 = .ok d) ∧
      ¬ ∃ q, im.revalidatePlan { planId := ⟨1⟩ } = .ok q) ∧
    ∃ q, im'.revalidatePlan { planId := ⟨1⟩ } = .ok q ∧ q.state = .cancelled := by
  intro im im'
  have hp : (im.plans.find? 1).map (fun p =>
      (p.state,p.deadline.outcome,planAuthorityCurrent p im.ctx)) =
      some (.authorized,.violated,true) := by decide +kernel
  have hq : (im'.plans.find? 1).map (fun q =>
      (q.state,q.deadline.outcome,planAuthorityCurrent q im'.ctx)) =
      some (.cancelled,.noDeadline,true) := by decide +kernel
  obtain ⟨p,hk,hp⟩ := Option.map_eq_some_iff.mp hp
  obtain ⟨q,hk',hq⟩ := Option.map_eq_some_iff.mp hq
  simp only [Prod.mk.injEq] at hp hq
  obtain ⟨hs,hv,hcur⟩ := hp
  obtain ⟨hs',hv',hcur'⟩ := hq
  refine ⟨⟨?_,?_⟩,q,?_,hs'⟩
  · exact Impl.dispatchBegin_ok_iff.mpr ⟨p,hk,hs,(planAuthorityCurrent_iff _ _).mp hcur⟩
  · rintro ⟨r,hr⟩
    obtain ⟨hkr,_,hn⟩ := Impl.revalidatePlan_ok_iff.mp hr
    obtain rfl := Option.some.inj (hk.symm.trans hkr)
    exact hn hv
  · refine Impl.revalidatePlan_ok_iff.mpr ⟨hk',(planAuthorityCurrent_iff _ _).mp hcur',?_⟩
    rw [hv']
    simp

end Node

end RecoveryPlanner
