import RecoveryPlanner.Lifecycle
import RecoveryPlanner.Runs
set_option autoImplicit false

/-! One planner together with the calls that are under way on it: the executor
calls that `dispatch_plan` is waiting for, and the completions that have been taken
but not delivered. -/

namespace RecoveryPlanner

/-- What an observer of the planner writes down. A hand-off records the plan as it
was stored and the context it was checked against. -/
inductive Event where
  | created (p : RecoveryPlan)
  | handedOff (p : RecoveryPlan) (ctx : PlannerContext) (d : RecoveryDispatch)
  deriving DecidableEq

namespace Event

def key : Event → UInt64
  | .created p => p.planId.value
  | .handedOff p _ _ => p.planId.value

def isCreated : Event → Bool
  | .created _ => true
  | .handedOff _ _ _ => false

end Event

/-- The events about one id, newest first, back to its latest creation. -/
def lifeOf (k : UInt64) : List Event → List Event
  | [] => []
  | e :: es =>
    if e.key ≠ k then lifeOf k es
    else if e.isCreated then [e]
    else e :: lifeOf k es

def createdCount (log : List Event) : Nat := log.countP Event.isCreated

@[simp] theorem createdCount_created (p : RecoveryPlan) (log : List Event) :
    createdCount (.created p :: log) = createdCount log+1 :=
  List.countP_cons_of_pos rfl

@[simp] theorem createdCount_handedOff (p : RecoveryPlan) (ctx : PlannerContext)
    (d : RecoveryDispatch) (log : List Event) :
    createdCount (.handedOff p ctx d :: log) = createdCount log :=
  List.countP_cons_of_neg (by simp [Event.isCreated])

structure Node where
  impl : Impl
  /-- The plan ids of `dispatch_plan` calls between their two critical sections. -/
  awaiting : List RecoveryPlanId := []
  /-- The reports of `on_adapter_completion` calls between theirs. -/
  pending : List ExecutionReport := []
  log : List Event := []
  deriving DecidableEq

/-- The critical sections that do not touch the store. -/
inductive Act where
  | plan (now : Timestamp) (request : RecoveryRequest) (candidates : List RecoveryCandidate)
  | authorizePlan (now : Timestamp) (plan : RecoveryPlan)
  | revalidatePlan (plan : RecoveryPlan)
  | dispatchBegin (now : Timestamp) (plan : RecoveryPlan)
  | dispatchEnd (now : Timestamp) (call : Nat) (status : DispatchStatus)
  | reportExecution (now : Timestamp) (report : ExecutionReport)
  | adapterTake (dispatchId : DispatchId) (outcome : ExecutionOutcome)
  | adapterDeliver (now : Timestamp) (call : Nat)
  | cancelPlan (now : Timestamp) (planId : RecoveryPlanId) (force : Bool)
  | invalidatePlan (now : Timestamp) (planId : RecoveryPlanId)
  | registerWorker (w : WorkerId) (boot : WorkerBootId)
  | unregisterWorker (w : WorkerId)
  | setResource (kind : Str) (amount : UInt64)
  | setRecomputeAvailable (gen : WorkloadGeneration) (available : Bool)
  deriving DecidableEq

namespace Node

def construct (hasStore : Bool) : Node := { impl := .construct hasStore }

def act (std : StdSort) (n : Node) : Act → Node
  | .plan now request candidates =>
    let r := n.impl.plan std now request candidates
    { n with
      impl := r.2
      log := match r.1.plan with
        | some p => .created p :: n.log
        | none => n.log }
  | .authorizePlan now plan => { n with impl := (n.impl.authorizePlan now plan).2 }
  | .revalidatePlan _ => n
  | .dispatchBegin now plan =>
    match n.impl.plans.find? plan.planId.value,n.impl.dispatchBegin now plan with
    | some stored,(.ok d,im) =>
      { n with
        impl := im
        awaiting := n.awaiting ++ [plan.planId]
        log := .handedOff stored n.impl.ctx d :: n.log }
    | _,(_,im) => { n with impl := im }
  | .dispatchEnd now call status =>
    match n.awaiting[call]? with
    | some planId =>
      { n with
        impl := (n.impl.dispatchEnd now planId status).2
        awaiting := n.awaiting.eraseIdx call }
    | none => n
  | .reportExecution now report => { n with impl := n.impl.reportExecution now report }
  | .adapterTake dispatchId outcome =>
    match n.impl.adapterTake dispatchId outcome with
    | (some report,im) => { n with impl := im, pending := n.pending ++ [report] }
    | (none,im) => { n with impl := im }
  | .adapterDeliver now call =>
    match n.pending[call]? with
    | some report =>
      { n with
        impl := n.impl.reportExecution now report
        pending := n.pending.eraseIdx call }
    | none => n
  | .cancelPlan now planId force => { n with impl := (n.impl.cancelPlan now planId force).2 }
  | .invalidatePlan now planId => { n with impl := n.impl.invalidatePlan now planId }
  | .registerWorker w boot => { n with impl := n.impl.registerWorker w boot }
  | .unregisterWorker w => { n with impl := n.impl.unregisterWorker w }
  | .setResource kind amount => { n with impl := n.impl.setResource kind amount }
  | .setRecomputeAvailable gen available =>
    { n with impl := n.impl.setRecomputeAvailable gen available }

end Node

structure FreshPlan (im : Impl) (p : RecoveryPlan) : Prop where
  planId : p.planId = ⟨im.nextPlanId⟩
  generation : p.generation = ⟨im.nextGeneration⟩
  epoch : p.authority.coordinatorEpoch = im.ctx.epoch
  state : p.state = .planned
  outcome : p.executionOutcome = .unknown
  published : p.outcomePublished = false
  lastAttempt : p.lastAttempt.value = 0
  readable : p.Readable

theorem FreshPlan.sound {im : Impl} {p : RecoveryPlan} (h : FreshPlan im p) : RecordSound p := by
  obtain ⟨_,_,_,hs,ho,hp,ha,_⟩ := h
  constructor <;> simp [hs,ho,hp,ha]

theorem FreshPlan.explained {im : Impl} {p : RecoveryPlan} (h : FreshPlan im p)
    (e : PlanExplanation) : FreshPlan im { p with explanation := e } :=
  ⟨h.1,h.2,h.3,h.4,h.5,h.6,h.7,h.8⟩

namespace Impl

theorem buildPlan_fresh (im : Impl) (req : RecoveryRequest) (rc : RankedCandidate)
    (now : Timestamp) : FreshPlan im (im.buildPlan req rc now) :=
  ⟨rfl,rfl,rfl,rfl,rfl,rfl,rfl,buildPayload_short _,decisionDigest_short _ _ _⟩

/-- The planner after storing a new plan: the other plans of the request have been
superseded, and both counters have moved on. -/
structure Planned (im im' : Impl) (req : RecoveryRequest) (now : Timestamp)
    (p : RecoveryPlan) : Prop where
  fresh : FreshPlan im p
  requestId : p.requestId = req.requestId
  plans : im'.plans = (im.plans.insert p.planId.value p).mapValues
    (fun _ old => supersede req p.planId now old)
  nextPlanId : im'.nextPlanId = im.nextPlanId+1
  nextGeneration : im'.nextGeneration = im.nextGeneration+1
  ctx : im'.ctx = im.ctx
  dispatchMeta : im'.dispatchMeta = im.dispatchMeta
  hasStore : im'.hasStore = im.hasStore

structure Untouched (im im' : Impl) : Prop where
  plans : im'.plans = im.plans
  nextPlanId : im'.nextPlanId = im.nextPlanId
  nextGeneration : im'.nextGeneration = im.nextGeneration
  ctx : im'.ctx = im.ctx
  dispatchMeta : im'.dispatchMeta = im.dispatchMeta
  hasStore : im'.hasStore = im.hasStore

theorem plan_spec (std : StdSort) (im : Impl) (now : Timestamp) (req : RecoveryRequest)
    (candidates : List RecoveryCandidate) :
    ((im.plan std now req candidates).1.plan = none ∧
      Untouched im (im.plan std now req candidates).2) ∨
    ∃ p, (im.plan std now req candidates).1.plan = some p ∧
      Planned im (im.plan std now req candidates).2 req now p := by
  unfold Impl.plan
  split
  · exact .inl ⟨rfl,⟨rfl,rfl,rfl,rfl,rfl,rfl⟩⟩
  · dsimp only
    split
    · split
      · exact .inl ⟨rfl,⟨rfl,rfl,rfl,rfl,rfl,rfl⟩⟩
      · exact .inr ⟨_,rfl,⟨buildPlan_fresh _ _ _ _,rfl,rfl,rfl,rfl,rfl,rfl,rfl⟩⟩
    · exact .inr ⟨_,rfl,⟨(buildPlan_fresh _ _ _ _).explained _,rfl,rfl,rfl,rfl,rfl,rfl,rfl⟩⟩

/-- Either nothing happens or one stored record moves on. -/
inductive Settles (im : Impl) : Impl → Prop where
  | same : Settles im im
  | put {k : UInt64} {p p' : RecoveryPlan} (hk : im.plans.find? k = some p)
      (h : Evolves p p') : Settles im (im.putPlan k p')

theorem authorizePlan_settles (im : Impl) (now : Timestamp) (plan : RecoveryPlan) :
    Settles im (im.authorizePlan now plan).2 := by
  unfold authorizePlan
  cases hk : im.plans.find? plan.planId.value with
  | none => exact .same
  | some stored =>
    dsimp only
    split
    · exact .same
    · split
      · exact .same
      · rename_i hv
        exact .put hk (.authorize stored now (by simpa using hv))

theorem dispatchEnd_settles (im : Impl) (now : Timestamp) (planId : RecoveryPlanId)
    (status : DispatchStatus) : Settles im (im.dispatchEnd now planId status).2 := by
  unfold dispatchEnd
  cases hk : im.plans.find? planId.value with
  | none => exact .same
  | some stored => exact .put hk (settleReceipt_evolves status stored now)

theorem reportExecution_settles (im : Impl) (now : Timestamp) (report : ExecutionReport) :
    Settles im (im.reportExecution now report) := by
  unfold reportExecution
  cases hk : im.plans.find? report.planId.value with
  | none => exact .same
  | some p =>
    dsimp only
    split
    · exact .same
    · split
      · exact .same
      · split
        · exact .same
        · exact .put hk (settleReport_evolves report.outcome p now)

theorem cancelPlan_settles (im : Impl) (now : Timestamp) (planId : RecoveryPlanId)
    (force : Bool) : Settles im (im.cancelPlan now planId force).2 := by
  unfold cancelPlan
  cases hk : im.plans.find? planId.value with
  | none => exact .same
  | some p =>
    dsimp only
    repeat' split
    · exact .same
    · exact .same
    · exact .same
    · rename_i hv
      exact .put hk (.cancel p now hv)
    · exact .same

theorem invalidatePlan_settles (im : Impl) (now : Timestamp) (planId : RecoveryPlanId) :
    Settles im (im.invalidatePlan now planId) := by
  unfold invalidatePlan
  cases hk : im.plans.find? planId.value with
  | none => exact .same
  | some p =>
    dsimp only
    split
    · exact .same
    · split
      · rename_i hv
        exact .put hk (.invalidate p now hv)
      · exact .same

def handOff (im : Impl) (k : UInt64) (p : RecoveryPlan) (now : Timestamp) : Impl :=
  { im.putPlan k (p.dispatched now) with
    dispatchMeta := im.dispatchMeta.insert (p.lastAttempt.value+1)
      ⟨p.planId,p.generation,p.targetBoot⟩ }

theorem dispatchBegin_spec (im : Impl) (now : Timestamp) (plan : RecoveryPlan) :
    (∃ e, im.dispatchBegin now plan = (.error e,im)) ∨
    ∃ p, im.plans.find? plan.planId.value = some p ∧ p.state = .authorized ∧
      AuthorityCurrent p im.ctx ∧
      im.dispatchBegin now plan =
        (.ok (.ofPlan (p.dispatched now)),im.handOff plan.planId.value p now) := by
  unfold dispatchBegin
  cases hk : im.plans.find? plan.planId.value with
  | none => exact .inl ⟨_,rfl⟩
  | some p =>
    dsimp only
    split
    · exact .inl ⟨_,rfl⟩
    · rename_i hcur
      split
      · split
        · exact .inl ⟨_,rfl⟩
        · exact .inl ⟨_,rfl⟩
      · rename_i hs
        have hs : p.state = .authorized := by simpa using hs
        have hcur := (planAuthorityCurrent_iff p im.ctx).mp (by simpa using hcur)
        have hv : validatePlanTransition p.state .dispatched = true := by rw [hs]; rfl
        rw [if_neg (by simp [hv])]
        exact .inr ⟨p,rfl,hs,hcur,rfl⟩

end Impl

/-- The plan table, the counters and the epoch are as before. -/
structure SameTable (im im' : Impl) : Prop where
  plans : im'.plans = im.plans
  nextPlanId : im'.nextPlanId = im.nextPlanId
  nextGeneration : im'.nextGeneration = im.nextGeneration
  epoch : im'.ctx.epoch = im.ctx.epoch
  hasStore : im'.hasStore = im.hasStore

/-- What one critical section can do to the plans, and what is then written down. -/
inductive NodeStep (n n' : Node) : Prop where
  | quiet (same : SameTable n.impl n'.impl) (log : n'.log = n.log)
  | settles {k : UInt64} {p p' : RecoveryPlan} (hk : n.impl.plans.find? k = some p)
      (h : Evolves p p') (impl : n'.impl = n.impl.putPlan k p') (log : n'.log = n.log)
  | plans {req : RecoveryRequest} {now : Timestamp} {p : RecoveryPlan}
      (h : Impl.Planned n.impl n'.impl req now p) (log : n'.log = .created p :: n.log)
  | handsOff {k : UInt64} {p : RecoveryPlan} {now : Timestamp} {d : RecoveryDispatch}
      (hk : n.impl.plans.find? k = some p) (hs : p.state = .authorized)
      (hcur : AuthorityCurrent p n.impl.ctx) (impl : n'.impl = n.impl.handOff k p now)
      (log : n'.log = .handedOff p n.impl.ctx d :: n.log)

theorem SameTable.refl (im : Impl) : SameTable im im := ⟨rfl,rfl,rfl,rfl,rfl⟩

theorem Impl.Settles.step {n n' : Node} (h : n.impl.Settles n'.impl) (hl : n'.log = n.log) :
    NodeStep n n' := by
  generalize hi : n'.impl = im at h
  cases h with
  | same => exact .quiet (hi ▸ SameTable.refl _) hl
  | put hk he => exact .settles hk he hi hl

def Node.handOff (n : Node) (k : RecoveryPlanId) (p : RecoveryPlan) (now : Timestamp) : Node :=
  { n with
    impl := n.impl.handOff k.value p now
    awaiting := n.awaiting ++ [k]
    log := .handedOff p n.impl.ctx (.ofPlan (p.dispatched now)) :: n.log }

theorem Node.act_dispatchBegin (std : StdSort) (n : Node) (now : Timestamp)
    (plan : RecoveryPlan) :
    n.act std (.dispatchBegin now plan) = n ∨
    ∃ p, n.impl.plans.find? plan.planId.value = some p ∧ p.state = .authorized ∧
      AuthorityCurrent p n.impl.ctx ∧
      n.act std (.dispatchBegin now plan) = n.handOff plan.planId p now := by
  rcases n.impl.dispatchBegin_spec now plan with ⟨e,h⟩ | ⟨p,hk,hs,hcur,h⟩
  · left
    simp only [act,h]
    cases n.impl.plans.find? plan.planId.value <;> rfl
  · exact .inr ⟨p,hk,hs,hcur,by simp only [act,hk,h,handOff]⟩

theorem Node.act_step (std : StdSort) (n : Node) (a : Act) : NodeStep n (n.act std a) := by
  cases a with
  | plan now request candidates =>
    rcases n.impl.plan_spec std now request candidates with ⟨hn,h⟩ | ⟨p,hp,h⟩
    · refine .quiet ⟨h.plans,h.nextPlanId,h.nextGeneration,by rw [act,h.ctx],h.hasStore⟩ ?_
      simp only [act,hn]
    · exact .plans h (by simp only [act,hp])
  | authorizePlan now plan => exact (n.impl.authorizePlan_settles now plan).step rfl
  | revalidatePlan plan => exact .quiet (.refl _) rfl
  | dispatchBegin now plan =>
    rcases n.act_dispatchBegin std now plan with h | ⟨p,hk,hs,hcur,h⟩
    · rw [h]
      exact .quiet (.refl _) rfl
    · rw [h]
      exact .handsOff hk hs hcur rfl rfl
  | dispatchEnd now call status =>
    simp only [act]
    split
    · exact (n.impl.dispatchEnd_settles now _ status).step rfl
    · exact .quiet (.refl _) rfl
  | reportExecution now report => exact (n.impl.reportExecution_settles now report).step rfl
  | adapterTake dispatchId outcome =>
    simp only [act,Impl.adapterTake]
    cases n.impl.dispatchMeta.find? dispatchId.value with
    | none => exact .quiet (.refl _) rfl
    | some m => exact .quiet ⟨rfl,rfl,rfl,rfl,rfl⟩ rfl
  | adapterDeliver now call =>
    simp only [act]
    split
    · exact (n.impl.reportExecution_settles now _).step rfl
    · exact .quiet (.refl _) rfl
  | cancelPlan now planId force => exact (n.impl.cancelPlan_settles now planId force).step rfl
  | invalidatePlan now planId => exact (n.impl.invalidatePlan_settles now planId).step rfl
  | registerWorker w boot => exact .quiet ⟨rfl,rfl,rfl,rfl,rfl⟩ rfl
  | unregisterWorker w => exact .quiet ⟨rfl,rfl,rfl,rfl,rfl⟩ rfl
  | setResource kind amount => exact .quiet ⟨rfl,rfl,rfl,rfl,rfl⟩ rfl
  | setRecomputeAvailable gen available =>
    refine .quiet ?_ rfl
    simp only [act,Impl.setRecomputeAvailable]
    split <;> exact ⟨rfl,rfl,rfl,rfl,rfl⟩

def Act.logs : Act → Bool
  | .plan _ _ _ | .dispatchBegin _ _ => true
  | _ => false

theorem Node.act_log (std : StdSort) (n : Node) {a : Act} (h : a.logs = false) :
    (n.act std a).log = n.log := by
  cases a with
  | plan now request candidates => exact absurd h (by simp [Act.logs])
  | dispatchBegin now plan => exact absurd h (by simp [Act.logs])
  | dispatchEnd now call status =>
    simp only [act]
    split <;> rfl
  | adapterTake dispatchId outcome =>
    simp only [act]
    split <;> rfl
  | adapterDeliver now call =>
    simp only [act]
    split <;> rfl
  | _ => rfl

theorem Node.act_not_handedOff {std : StdSort} {n : Node} {a : Act}
    (h : ∀ now plan, a ≠ .dispatchBegin now plan) (p : RecoveryPlan) (ctx : PlannerContext)
    (d : RecoveryDispatch) : (n.act std a).log ≠ .handedOff p ctx d :: n.log := by
  have hlen : n.log ≠ .handedOff p ctx d :: n.log := fun heq => by
    simpa using congrArg List.length heq
  cases hl : a.logs with
  | false =>
    rw [n.act_log std hl]
    exact hlen
  | true =>
    cases a with
    | plan now request candidates =>
      simp only [act]
      split
      · simp
      · exact hlen
    | dispatchBegin now plan => exact absurd rfl (h now plan)
    | _ => exact absurd hl (by simp [Act.logs])

theorem Node.act_not_created {std : StdSort} {n : Node} {a : Act}
    (h : ∀ now req candidates, a = .plan now req candidates →
      (n.impl.plan std now req candidates).1.plan = none) (p : RecoveryPlan) :
    (n.act std a).log ≠ .created p :: n.log := by
  have hlen : n.log ≠ .created p :: n.log := fun heq => by
    simpa using congrArg List.length heq
  cases hl : a.logs with
  | false =>
    rw [n.act_log std hl]
    exact hlen
  | true =>
    cases a with
    | plan now request candidates =>
      simp only [act,h now request candidates rfl]
      exact hlen
    | dispatchBegin now plan =>
      simp only [act]
      split
      · simp
      · exact hlen
    | _ => exact absurd hl (by simp [Act.logs])

/-- What one step of the system does to the record stored under one id, and what the
observer writes down about it. -/
inductive RecordChange (n n' : Node) (k : UInt64) : Prop where
  | same (plan : n'.impl.plans.find? k = n.impl.plans.find? k)
      (life : lifeOf k n'.log = lifeOf k n.log)
  | created {p : RecoveryPlan} (fresh : FreshPlan n.impl p) (key : k = n.impl.nextPlanId)
      (plan : n'.impl.plans.find? k = some p) (log : n'.log = .created p :: n.log)
  | evolved {p p' : RecoveryPlan} (before : n.impl.plans.find? k = some p) (h : Evolves p p')
      (plan : n'.impl.plans.find? k = some p') (life : lifeOf k n'.log = lifeOf k n.log)
  | handedOff {p : RecoveryPlan} {now : Timestamp} {d : RecoveryDispatch}
      (before : n.impl.plans.find? k = some p) (hs : p.state = .authorized)
      (hcur : AuthorityCurrent p n.impl.ctx)
      (plan : n'.impl.plans.find? k = some (p.dispatched now))
      (life : lifeOf k n'.log = .handedOff p n.impl.ctx d :: lifeOf k n.log)

theorem lifeOf_other {k : UInt64} {e : Event} (h : e.key ≠ k) (es : List Event) :
    lifeOf k (e :: es) = lifeOf k es := by
  simp [lifeOf,h]

theorem lifeOf_created (p : RecoveryPlan) (es : List Event) :
    lifeOf p.planId.value (.created p :: es) = [.created p] := by
  simp [lifeOf,Event.key,Event.isCreated]

theorem lifeOf_handedOff (p : RecoveryPlan) (ctx : PlannerContext) (d : RecoveryDispatch)
    (es : List Event) :
    lifeOf p.planId.value (.handedOff p ctx d :: es) =
      .handedOff p ctx d :: lifeOf p.planId.value es := by
  simp [lifeOf,Event.key,Event.isCreated]

theorem Impl.Planned.find?_new {im im' : Impl} {req : RecoveryRequest} {now : Timestamp}
    {p : RecoveryPlan} (h : Planned im im' req now p) :
    im'.plans.find? p.planId.value = some p := by
  rw [h.plans]
  simp [Impl.supersede]

theorem Impl.Planned.find?_old {im im' : Impl} {req : RecoveryRequest} {now : Timestamp}
    {p : RecoveryPlan} (h : Planned im im' req now p) {k : UInt64} (hk : k ≠ p.planId.value) :
    im'.plans.find? k = (im.plans.find? k).map (Impl.supersede req p.planId now) := by
  rw [h.plans]
  simp [hk]

theorem NodeStep.record {n n' : Node} (h : NodeStep n n') (hs : Impl.Keyed n.impl.plans)
    (k : UInt64) : RecordChange n n' k := by
  cases h with
  | quiet same log => exact .same (by rw [same.plans]) (by rw [log])
  | settles hk he impl log =>
    rename_i j p p'
    by_cases hj : k = j
    · exact .evolved (hj ▸ hk) he (by simp [impl,Impl.putPlan,hj]) (by rw [log])
    · exact .same (by simp [impl,Impl.putPlan,hj]) (by rw [log])
  | plans h log =>
    rename_i req now p
    by_cases hk : k = p.planId.value
    · exact .created h.fresh (by rw [hk,h.fresh.planId]) (hk ▸ h.find?_new) log
    · have hold := h.find?_old hk
      have hlife : lifeOf k n'.log = lifeOf k n.log := by
        rw [log,lifeOf_other (fun heq => hk heq.symm)]
      cases hf : n.impl.plans.find? k with
      | none =>
        rw [hf] at hold
        exact .same (by rw [hold,hf]; rfl) hlife
      | some q =>
        rw [hf] at hold
        rcases supersede_evolves req p.planId now q with he | he
        · exact .same (by rw [hold,hf]; exact congrArg some he) hlife
        · exact .evolved hf he hold hlife
  | handsOff hk hst hcur impl log =>
    rename_i j p now d
    have hkey := hs j p hk
    by_cases hj : k = j
    · subst hj
      have hplan : n'.impl.plans.find? k = some (p.dispatched now) := by
        simp [impl,Impl.handOff,Impl.putPlan]
      have hlife : lifeOf k n'.log = .handedOff p n.impl.ctx d :: lifeOf k n.log := by
        rw [log,← hkey]
        exact lifeOf_handedOff p _ d _
      exact .handedOff hk hst hcur hplan hlife
    · refine .same (by simp [impl,Impl.handOff,Impl.putPlan,hj]) ?_
      have hne : (Event.handedOff p n.impl.ctx d).key ≠ k := fun heq => hj (heq.symm.trans hkey)
      rw [log,lifeOf_other hne]

theorem RecordChange.keyed {n n' : Node} {k : UInt64} (h : RecordChange n n' k)
    (hn : Impl.Keyed n.impl.plans) {p' : RecoveryPlan}
    (hp' : n'.impl.plans.find? k = some p') : p'.planId.value = k := by
  cases h with
  | same plan life => exact hn k p' (plan.symm.trans hp')
  | created fresh key plan log =>
    obtain rfl := Option.some.inj (plan.symm.trans hp')
    rw [key,fresh.planId]
  | evolved before h plan life =>
    obtain rfl := Option.some.inj (plan.symm.trans hp')
    have hid := congrArg PlanFence.planId h.fence
    exact (congrArg Id.value hid).trans (hn k _ before)
  | handedOff before hs hcur plan life =>
    obtain rfl := Option.some.inj (plan.symm.trans hp')
    have hid := hn k _ before
    exact hid

theorem NodeStep.keyed {n n' : Node} (h : NodeStep n n') (hn : Impl.Keyed n.impl.plans) :
    Impl.Keyed n'.impl.plans :=
  fun k _ hp' => (h.record hn k).keyed hn hp'

theorem FreshPlan.wellKept {im : Impl} {p : RecoveryPlan} (h : FreshPlan im p) :
    WellKept im.nextPlanId p :=
  ⟨h.sound,h.readable,by rw [h.planId]⟩

theorem RecordChange.wellKept {n n' : Node} {k : UInt64} (h : RecordChange n n' k)
    (hn : n.impl.WellKept) {p' : RecoveryPlan} (hp' : n'.impl.plans.find? k = some p') :
    WellKept k p' := by
  cases h with
  | same plan life => exact hn k p' (by rw [← plan]; exact hp')
  | created fresh key plan log =>
    obtain rfl := Option.some.inj (plan.symm.trans hp')
    rw [key]
    exact fresh.wellKept
  | evolved before h plan life =>
    obtain rfl := Option.some.inj (plan.symm.trans hp')
    exact h.wellKept (hn k _ before)
  | handedOff before hs hcur plan life =>
    obtain rfl := Option.some.inj (plan.symm.trans hp')
    exact (hn k _ before).dispatched hs _

theorem NodeStep.wellKept {n n' : Node} (h : NodeStep n n') (hn : n.impl.WellKept) :
    n'.impl.WellKept :=
  fun k _ hp' => (h.record hn.plansSound.keyed k).wellKept hn hp'

/-- The id counter follows the number of plans created, and no stored id is ahead
of it. -/
structure Numbered (n : Node) : Prop where
  next : n.impl.nextPlanId.toNat = (createdCount n.log+1)%2^64
  below : ∀ k p, n.impl.plans.find? k = some p → k.toNat ≤ createdCount n.log

theorem NodeStep.count {n n' : Node} (h : NodeStep n n') :
    (n'.impl.nextPlanId = n.impl.nextPlanId ∧ createdCount n'.log = createdCount n.log) ∨
    (n'.impl.nextPlanId = n.impl.nextPlanId+1 ∧ createdCount n'.log = createdCount n.log+1) := by
  cases h with
  | quiet same log => exact .inl ⟨same.nextPlanId,by rw [log]⟩
  | settles hk he impl log => exact .inl ⟨by rw [impl]; rfl,by rw [log]⟩
  | plans h log => exact .inr ⟨h.nextPlanId,by rw [log]; simp⟩
  | handsOff hk hs hcur impl log =>
    exact .inl ⟨by rw [impl]; rfl,by rw [log]; simp⟩

theorem NodeStep.count_le {n n' : Node} (h : NodeStep n n') :
    createdCount n.log ≤ createdCount n'.log := by
  rcases h.count with h | h <;> omega

theorem NodeStep.next {n n' : Node} (h : NodeStep n n')
    (hn : n.impl.nextPlanId.toNat = (createdCount n.log+1)%2^64) :
    n'.impl.nextPlanId.toNat = (createdCount n'.log+1)%2^64 := by
  rcases h.count with ⟨hid,hc⟩ | ⟨hid,hc⟩
  · rw [hid,hc]
    exact hn
  · have hadd : (n.impl.nextPlanId+1).toNat = (n.impl.nextPlanId.toNat+1)%2^64 :=
      UInt64.toNat_add _ _
    rw [hid,hc,hadd]
    omega

theorem NodeStep.created_mem {n n' : Node} (h : NodeStep n n') {p : RecoveryPlan}
    (hp : .created p ∈ n'.log) :
    .created p ∈ n.log ∨ (n'.log = .created p :: n.log ∧ FreshPlan n.impl p) := by
  cases h with
  | quiet same log => exact .inl (log ▸ hp)
  | settles hk he impl log => exact .inl (log ▸ hp)
  | plans h log =>
    rw [log] at hp
    rcases List.mem_cons.mp hp with heq | hp
    · cases heq
      exact .inr ⟨log,h.fresh⟩
    · exact .inl hp
  | handsOff hk hs hcur impl log =>
    rw [log] at hp
    exact .inl ((List.mem_cons.mp hp).resolve_left (by simp))

theorem NodeStep.numbered {n n' : Node} (h : NodeStep n n') (hw : n.impl.WellKept)
    (hn : Numbered n) : Numbered n' := by
  refine ⟨h.next hn.next,fun k p' hp' => ?_⟩
  have hle := h.count_le
  cases h.record hw.plansSound.keyed k with
  | same plan life => exact (hn.below k p' (by rw [← plan]; exact hp')).trans hle
  | created fresh key plan log =>
    -- Only a new plan brings a new id, and it is the counter's.
    have hmod := Nat.mod_le (createdCount n.log+1) (2^64)
    have hc : createdCount n'.log = createdCount n.log+1 := by rw [log]; simp
    rw [key,hn.next,hc]
    exact hmod
  | evolved before h plan life => exact (hn.below k _ before).trans hle
  | handedOff before hs hcur plan life => exact (hn.below k _ before).trans hle

end RecoveryPlanner
