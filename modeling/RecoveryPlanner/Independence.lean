import RecoveryPlanner.Cancellation
import RecoveryPlanner.Revalidation
set_option autoImplicit false

/-! One plan among many. Between restarts the record of a plan is moved by what is said about
this plan and about the world, so the planner is a table of machines that share nothing but the
context. Only dispatch ids do not fit in, and a completion counts as the report it becomes. -/

namespace RecoveryPlanner

/-- What can happen to one plan, or to the world that it is checked against. -/
inductive PlanEvent where
  | authorize (now : Timestamp)
  | handOff (now : Timestamp)
  | receipt (now : Timestamp) (status : DispatchStatus)
  | report (now : Timestamp) (report : ExecutionReport)
  | cancel (now : Timestamp)
  | invalidate (now : Timestamp)
  | supersede (now : Timestamp)
  | world (a : Act)

def PlannerContext.told (ctx : PlannerContext) : Act → PlannerContext
  | .registerWorker w boot => ctx.registerWorker w boot
  | .unregisterWorker w => ctx.unregisterWorker w
  | .setResource kind amount =>
    { ctx with resourceAvailable := ctx.resourceAvailable.insert kind amount }
  | .setRecomputeAvailable gen true =>
    { ctx with
      recomputeLineageAvailable := insert gen ctx.recomputeLineageAvailable
      originalInputsAvailable := insert gen ctx.originalInputsAvailable }
  | .setRecomputeAvailable gen false =>
    { ctx with
      recomputeLineageAvailable := ctx.recomputeLineageAvailable.erase gen
      originalInputsAvailable := ctx.originalInputsAvailable.erase gen }
  | _ => ctx

def RecoveryPlan.moved (p : RecoveryPlan) (ctx : PlannerContext) : PlanEvent → RecoveryPlan
  | .authorize now =>
    if planAuthorityCurrent p ctx && validatePlanTransition p.state .authorized then
      { p with state := .authorized, updatedAt := now }
    else p
  | .handOff now => if planAuthorityCurrent p ctx && p.state = .authorized then p.dispatched now else p
  | .receipt now status => { Impl.settleReceipt status p with updatedAt := now }
  | .report now report =>
    if report.planGeneration = p.generation && report.reporterBoot = p.targetBoot &&
        !p.state.terminal then
      { Impl.settleReport report.outcome p with updatedAt := now }
    else p
  | .cancel now =>
    if validatePlanTransition p.state .cancelled then
      { p with state := .cancelled, executionOutcome := .cancelled, updatedAt := now }
    else p
  | .invalidate now =>
    if validatePlanTransition p.state .invalidated then
      { p with state := .invalidated, updatedAt := now }
    else p
  | .supersede now =>
    if validatePlanTransition p.state .superseded then
      { p with state := .superseded, updatedAt := now }
    else p
  | .world _ => p

/-- A planner that has this plan and no other. -/
structure PlanMachine where
  ctx : PlannerContext
  plan : RecoveryPlan

def PlanMachine.step (m : PlanMachine) (e : PlanEvent) : PlanMachine where
  ctx := match e with
    | .world a => m.ctx.told a
    | _ => m.ctx
  plan := m.plan.moved m.ctx e

theorem RecoveryPlan.moved_fence (p : RecoveryPlan) (ctx : PlannerContext) (e : PlanEvent) :
    (p.moved ctx e).fence = p.fence := by
  cases e with
  | receipt now status => exact (settleReceipt_evolves status p now).fence
  | report now report =>
    simp only [moved]
    split
    · exact (settleReport_evolves report.outcome p now).fence
    · rfl
  | world a => rfl
  | _ => simp only [moved]; split <;> rfl

namespace Impl

section Methods

variable (im : Impl) (now : Timestamp)

end Methods

end Impl

structure Follows (k : UInt64) (r : RecoveryRequestId) (im : Impl) (m : PlanMachine) : Prop where
  ctx : m.ctx = im.ctx
  plan : im.plans.find? k = some m.plan
  planId : m.plan.planId.value = k
  requestId : m.plan.requestId = r

namespace Follows

variable {k : UInt64} {r : RecoveryRequestId} {im im' : Impl} {m : PlanMachine}

theorem same (h : Follows k r im m) (hctx : im'.ctx = im.ctx) (hplans : im'.plans = im.plans) :
    Follows k r im' m :=
  ⟨h.ctx.trans hctx.symm,hplans ▸ h.plan,h.planId,h.requestId⟩

theorem moved (h : Follows k r im m) (e : PlanEvent) (hctx : (m.step e).ctx = im'.ctx)
    (hplan : im'.plans.find? k = some (m.plan.moved m.ctx e)) :
    Follows k r im' (m.step e) := by
  have hfence := m.plan.moved_fence m.ctx e
  refine ⟨hctx,hplan,?_,?_⟩
  · exact (congrArg (fun f : PlanFence => f.planId.value) hfence).trans h.planId
  · exact (congrArg PlanFence.requestId hfence).trans h.requestId

theorem world (h : Follows k r im m) {a : Act} (hctx : im'.ctx = im.ctx.told a)
    (hplans : im'.plans = im.plans) : Follows k r im' (run PlanMachine.step m [.world a]) := by
  refine h.moved (.world a) ?_ (hplans ▸ h.plan)
  show m.ctx.told a = im'.ctx
  rw [hctx,h.ctx]

theorem planned (h : Follows k r im m) (hnext : im.nextPlanId ≠ k) {request : RecoveryRequest}
    {now : Timestamp} {p : RecoveryPlan} (hp : Impl.Planned im im' request now p) :
    Follows k r im'
      (run PlanMachine.step m (if request.requestId = r then [.supersede now] else [])) := by
  have hother : k ≠ p.planId.value := by
    rw [hp.fresh.planId]
    exact Ne.symm hnext
  have hplan := hp.find?_old hother
  rw [h.plan,Option.map_some] at hplan
  have hid : m.plan.planId ≠ p.planId := by
    intro heq
    exact hother (h.planId.symm.trans (congrArg Id.value heq))
  rw [Impl.supersede,if_neg hid,h.requestId] at hplan
  by_cases hr : request.requestId = r
  · rw [if_pos hr]
    refine h.moved (.supersede now) (h.ctx.trans hp.ctx.symm) (hplan.trans (congrArg some ?_))
    simp only [RecoveryPlan.moved]
    cases hv : validatePlanTransition m.plan.state .superseded with
    | false => simp
    | true => simp [hr,h.requestId,validate_not_terminal hv]
  · rw [if_neg hr]
    rw [if_neg (by simp [Ne.symm hr])] at hplan
    exact ⟨h.ctx.trans hp.ctx.symm,hplan,h.planId,h.requestId⟩

end Follows

namespace Node

end Node

end RecoveryPlanner
