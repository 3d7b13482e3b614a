import RecoveryPlanner.Digest
import RecoveryPlanner.Economics
set_option autoImplicit false

/-! The plan record, its authority fence and its guarded lifecycle (`plan.hpp`,
`plan.cpp`). -/

namespace RecoveryPlanner

inductive PlanLifecycleState where
  | requested | evaluating | planned | authorized | dispatched | executing | succeeded
  | failed | superseded | cancelled | expired | invalidated
  | undeclared (i : Fin 244)
  deriving DecidableEq, Repr

namespace PlanLifecycleState

def toByte : PlanLifecycleState → UInt8
  | .requested => 0
  | .evaluating => 1
  | .planned => 2
  | .authorized => 3
  | .dispatched => 4
  | .executing => 5
  | .succeeded => 6
  | .failed => 7
  | .superseded => 8
  | .cancelled => 9
  | .expired => 10
  | .invalidated => 11
  | .undeclared i => (12+i.val).toUInt8

def ofByte (b : UInt8) : PlanLifecycleState :=
  match b.toNat with
  | 0 => .requested
  | 1 => .evaluating
  | 2 => .planned
  | 3 => .authorized
  | 4 => .dispatched
  | 5 => .executing
  | 6 => .succeeded
  | 7 => .failed
  | 8 => .superseded
  | 9 => .cancelled
  | 10 => .expired
  | 11 => .invalidated
  | n => if h : n-12 < 244 then .undeclared ⟨n-12,h⟩ else .planned

theorem ofByte_toByte (s : PlanLifecycleState) : ofByte s.toByte = s := by
  cases s with
  | undeclared i => revert i; decide +kernel
  | _ => rfl

theorem toByte_ofByte (b : UInt8) : (ofByte b).toByte = b := by
  have h : ∀ i : Fin 256, (ofByte (UInt8.ofFin i)).toByte = UInt8.ofFin i := by decide +kernel
  simpa using h b.toFin

def declared : PlanLifecycleState → Bool
  | .undeclared _ => false
  | _ => true

/-- The test for a terminal state, which the source spells out at every use. -/
def terminal : PlanLifecycleState → Bool
  | .succeeded | .failed | .cancelled | .expired | .invalidated | .superseded => true
  | _ => false

def inFlight : PlanLifecycleState → Bool
  | .dispatched | .executing => true
  | _ => false

end PlanLifecycleState

open PlanLifecycleState in
/-- A terminal state has no way out; any other state may stay where it is. -/
def validatePlanTransition (src dst : PlanLifecycleState) : Bool :=
  if src.terminal then false
  else if dst = src then true
  else match src with
    | .requested => dst = evaluating || dst = planned || dst = cancelled || dst = invalidated
    | .evaluating => dst = planned || dst = cancelled || dst = invalidated
    | .planned => dst = authorized || dst = cancelled || dst = invalidated || dst = expired ||
        dst = superseded
    | .authorized => dst = dispatched || dst = cancelled || dst = invalidated || dst = expired ||
        dst = superseded
    | .dispatched => dst = executing || dst = failed || dst = succeeded || dst = invalidated ||
        dst = superseded
    | .executing => dst = succeeded || dst = failed || dst = invalidated || dst = superseded
    | _ => false

structure PlanAuthority where
  coordinatorEpoch : CoordinatorEpoch := default
  plannerBoot : PlannerBootId := default
  requestId : RecoveryRequestId := default
  planGeneration : RecoveryPlanGeneration := default
  candidateGeneration : CandidateGeneration := default
  targetBoot : WorkerBootId := default
  engineIncarnation : EngineIncarnationId := default
  stateGeneration : StateGeneration := default
  compatibilityGeneration : CompatibilityGeneration := default
  resourceGeneration : ResourceGeneration := default
  policyGeneration : PolicyGeneration := default
  topologyGeneration : TopologyGeneration := default
  workloadGeneration : WorkloadGeneration := default
  deriving DecidableEq, Repr

structure RankFactor where
  name : Str
  value : Str
  priority : UInt64
  deriving DecidableEq, Repr

structure RejectedAlternative where
  candidateId : CandidateId
  strategy : RecoveryStrategy
  feasibility : FeasibilityResult
  reasons : List Str
  deriving DecidableEq, Repr

abbrev WhatWouldChange := List (Str × Str)

structure PlanExplanation where
  selectedStrategy : RecoveryStrategy := .restart
  selectedCandidate : CandidateId := default
  selectedCandidateGeneration : CandidateGeneration := default
  rankFactors : List RankFactor := []
  bindingConstraints : List ConstraintViolation := []
  feasibilityReasons : List Str := []
  deadlineSlack : Option Duration := none
  preservedProgress : Option ProgressUnits := none
  lostProgress : Option ProgressUnits := none
  cost : Option CostUnits := none
  readiness : CandidateReadiness := .unknown
  compatibility : CompatibilityResult := .unknown
  resourceStatus : ResourceStatus := .unknown
  uncertainty : Confidence := .none
  authority : PlanAuthority := {}
  rejectedAlternatives : List RejectedAlternative := []
  missingEvidence : List Str := []
  whatWouldChange : WhatWouldChange := []
  deriving DecidableEq, Repr

structure RecoveryPlan where
  planId : RecoveryPlanId := default
  generation : RecoveryPlanGeneration := default
  requestId : RecoveryRequestId := default
  workload : WorkloadId := default
  strategy : RecoveryStrategy := .restart
  candidateId : CandidateId := default
  candidateGeneration : CandidateGeneration := default
  targetWorker : WorkerId := default
  targetBoot : WorkerBootId := default
  targetEngine : EngineId := default
  engineIncarnation : EngineIncarnationId := default
  stateSource : StateId := default
  stateGeneration : StateGeneration := default
  checkpointSource : CheckpointId := default
  authority : PlanAuthority := {}
  state : PlanLifecycleState := .planned
  economics : RecoveryEconomics := {}
  deadline : DeadlineEvaluation := {}
  explanation : PlanExplanation := {}
  dispatchPayload : Str := []
  createdAt : Timestamp := default
  updatedAt : Timestamp := default
  lastAttempt : AttemptId := default
  executionOutcome : ExecutionOutcome := .unknown
  outcomePublished : Bool := false
  decisionDigest : Str := []
  deriving DecidableEq, Repr

/-- The fields no operation rewrites once a plan is built: its identity, its
target and its authority. -/
structure PlanFence where
  planId : RecoveryPlanId
  generation : RecoveryPlanGeneration
  requestId : RecoveryRequestId
  workload : WorkloadId
  strategy : RecoveryStrategy
  candidateId : CandidateId
  candidateGeneration : CandidateGeneration
  targetWorker : WorkerId
  targetBoot : WorkerBootId
  targetEngine : EngineId
  engineIncarnation : EngineIncarnationId
  stateSource : StateId
  stateGeneration : StateGeneration
  checkpointSource : CheckpointId
  authority : PlanAuthority
  deriving DecidableEq, Repr

def RecoveryPlan.fence (p : RecoveryPlan) : PlanFence :=
  ⟨p.planId,p.generation,p.requestId,p.workload,p.strategy,p.candidateId,p.candidateGeneration,
   p.targetWorker,p.targetBoot,p.targetEngine,p.engineIncarnation,p.stateSource,
   p.stateGeneration,p.checkpointSource,p.authority⟩

def planAuthorityCurrent (plan : RecoveryPlan) (ctx : PlannerContext) : Bool :=
  let a := plan.authority
  if a.coordinatorEpoch ≠ ctx.epoch then false
  else if a.policyGeneration ≠ ctx.policyGeneration then false
  else if a.compatibilityGeneration ≠ ctx.compatibilityGeneration then false
  else if a.resourceGeneration ≠ ctx.resourceGeneration then false
  else if a.topologyGeneration ≠ ctx.topologyGeneration then false
  else if a.workloadGeneration ≠ ctx.workloadGeneration then false
  else if !ctx.workerIsCurrent plan.targetWorker then false
  else if !ctx.workerBootMatches plan.targetWorker plan.targetBoot then false
  else true

structure AuthorityCurrent (plan : RecoveryPlan) (ctx : PlannerContext) : Prop where
  epoch : plan.authority.coordinatorEpoch = ctx.epoch
  policy : plan.authority.policyGeneration = ctx.policyGeneration
  compatibility : plan.authority.compatibilityGeneration = ctx.compatibilityGeneration
  resource : plan.authority.resourceGeneration = ctx.resourceGeneration
  topology : plan.authority.topologyGeneration = ctx.topologyGeneration
  workload : plan.authority.workloadGeneration = ctx.workloadGeneration
  alive : plan.targetWorker ∈ ctx.aliveWorkers
  boot : ctx.workerBoots.find? plan.targetWorker = some plan.targetBoot

theorem workerBootMatches_iff (ctx : PlannerContext) (w : WorkerId) (b : WorkerBootId) :
    ctx.workerBootMatches w b = true ↔ ctx.workerBoots.find? w = some b := by
  unfold PlannerContext.workerBootMatches
  cases h : ctx.workerBoots.find? w with
  | none => simp
  | some b' => simp

theorem planAuthorityCurrent_iff (plan : RecoveryPlan) (ctx : PlannerContext) :
    planAuthorityCurrent plan ctx = true ↔ AuthorityCurrent plan ctx := by
  simp only [planAuthorityCurrent,PlannerContext.workerIsCurrent,Bool.if_false_left,
    Bool.if_true_right,Bool.and_eq_true,Bool.not_eq_true',decide_eq_false_iff_not,not_not,
    ne_eq,Bool.or_false]
  constructor
  · rintro ⟨h1,h2,h3,h4,h5,h6,h7,h8⟩
    exact ⟨h1,h2,h3,h4,h5,h6,by simpa using h7,
      (workerBootMatches_iff ctx _ _).mp (by simpa using h8)⟩
  · rintro ⟨h1,h2,h3,h4,h5,h6,h7,h8⟩
    exact ⟨h1,h2,h3,h4,h5,h6,by simpa using h7,by
      simpa using (workerBootMatches_iff ctx plan.targetWorker plan.targetBoot).mpr h8⟩

end RecoveryPlanner
