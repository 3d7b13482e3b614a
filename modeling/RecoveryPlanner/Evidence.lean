import Mathlib.Data.Finset.Insert
import Mathlib.Data.List.Basic
import RecoveryPlanner.SortedMap
import RecoveryPlanner.Types
set_option autoImplicit false

/-! Evidence records, candidates, requests and the planner's world view. Fields
that no function of the planner reads are left out. -/

namespace RecoveryPlanner

inductive StateIntegrity where
  | valid | corrupt | uncertain | notVerified | unknown
  deriving DecidableEq, Repr

inductive CompatibilityResult where
  | exact | compatible | compatibleWithAdaptation | conditional | incompatible | unknown
  | insufficientEvidence
  deriving DecidableEq, Repr

def CompatibilityResult.toString : CompatibilityResult → Str
  | .exact => text "EXACT"
  | .compatible => text "COMPATIBLE"
  | .compatibleWithAdaptation => text "COMPATIBLE_WITH_ADAPTATION"
  | .conditional => text "CONDITIONAL"
  | .incompatible => text "INCOMPATIBLE"
  | .unknown => text "UNKNOWN"
  | .insufficientEvidence => text "INSUFFICIENT_EVIDENCE"

inductive CandidateReadiness where
  | ready | notReady | warming | unknown
  deriving DecidableEq, Repr

inductive ResourceStatus where
  | available | unavailable | contended | unknown
  deriving DecidableEq, Repr

structure EvidenceMeta where
  provenance : EvidenceProvenance := .unknown
  freshness : Freshness := .unknown
  confidence : Confidence := .none
  deriving DecidableEq, Repr

/-- As written: only a record that is not CURRENT is marked. -/
def EvidenceMeta.markRevalidationRequired (m : EvidenceMeta) : EvidenceMeta :=
  if m.freshness ≠ .current then { m with freshness := .revalidationRequired } else m

structure StateEvidence where
  evidenceMeta : EvidenceMeta := {}
  stateId : StateId := default
  stateGeneration : StateGeneration := default
  workloadGeneration : WorkloadGeneration := default
  integrity : StateIntegrity := .unknown
  isDurable : Bool := false
  deriving DecidableEq, Repr

structure CompatibilityEvidence where
  evidenceMeta : EvidenceMeta := {}
  compatibilityGeneration : CompatibilityGeneration := default
  result : CompatibilityResult := .unknown
  subjectIdentity : Str := []
  stateFormat : Str := []
  reason : Str := []
  deriving DecidableEq, Repr

structure AvailabilityEvidence where
  evidenceMeta : EvidenceMeta := {}
  worker : WorkerId := default
  boot : WorkerBootId := default
  engineIncarnation : EngineIncarnationId := default
  isAlive : Bool := false
  readiness : CandidateReadiness := .unknown
  deriving DecidableEq, Repr

structure ResourceEvidence where
  evidenceMeta : EvidenceMeta := {}
  generation : ResourceGeneration := default
  resourceKind : Str := []
  required : Option UInt64 := none
  available : Option UInt64 := none
  status : ResourceStatus := .unknown
  deriving DecidableEq, Repr

structure TopologyEvidence where
  evidenceMeta : EvidenceMeta := {}
  generation : TopologyGeneration := default
  pathPossible : Bool := false
  source : Str := []
  destination : Str := []
  deriving DecidableEq, Repr

structure TransferEvidence where
  evidenceMeta : EvidenceMeta := {}
  deriving DecidableEq, Repr

structure CheckpointEvidence where
  evidenceMeta : EvidenceMeta := {}
  stateGeneration : StateGeneration := default
  age : Duration := default
  deriving DecidableEq, Repr

structure ShadowEvidence where
  evidenceMeta : EvidenceMeta := {}
  lag : Duration := default
  readiness : CandidateReadiness := .unknown
  compatibility : CompatibilityResult := .unknown
  deriving DecidableEq, Repr

structure ProgressEvidence where
  evidenceMeta : EvidenceMeta := {}
  committed : ProgressUnits := default
  durable : ProgressUnits := default
  recoverable : ProgressUnits := default
  recomputable : ProgressUnits := default
  lost : ProgressUnits := default
  total : Option ProgressUnits := none
  deriving DecidableEq, Repr

structure CostEvidence where
  evidenceMeta : EvidenceMeta := {}
  expectedTime : Option Duration := none
  restoreTime : Option Duration := none
  restartTime : Option Duration := none
  transferTime : Option Duration := none
  recomputeTime : Option Duration := none
  bytesTransferred : Option ByteCount := none
  bytesRead : Option ByteCount := none
  bytesMaterialized : Option ByteCount := none
  costUnits : Option CostUnits := none
  expectedLostProgress : Option ProgressUnits := none
  expectedPreservedProgress : Option ProgressUnits := none
  checkpointAge : Option Duration := none
  failoverDomainRisk : UInt8 := 0
  deriving DecidableEq, Repr

structure AuthorityEvidence where
  evidenceMeta : EvidenceMeta := {}
  coordinatorEpoch : CoordinatorEpoch := default
  policyGeneration : PolicyGeneration := default
  deriving DecidableEq, Repr

/-- An empty optional is absent evidence. -/
structure RecoveryCandidate where
  candidateId : CandidateId := default
  generation : CandidateGeneration := default
  strategy : RecoveryStrategy := .restart
  targetWorker : WorkerId := default
  targetBoot : WorkerBootId := default
  targetEngine : EngineId := default
  targetEngineIncarnation : EngineIncarnationId := default
  sourceWorker : WorkerId := default
  stateSource : StateId := default
  stateGeneration : StateGeneration := default
  checkpointSource : CheckpointId := default
  state : Option StateEvidence := none
  compatibility : Option CompatibilityEvidence := none
  availability : Option AvailabilityEvidence := none
  resource : Option ResourceEvidence := none
  topology : Option TopologyEvidence := none
  transfer : Option TransferEvidence := none
  checkpoint : Option CheckpointEvidence := none
  shadow : Option ShadowEvidence := none
  progress : Option ProgressEvidence := none
  cost : Option CostEvidence := none
  authority : Option AuthorityEvidence := none
  deriving DecidableEq, Repr

structure RecoveryRequest where
  requestId : RecoveryRequestId := default
  workload : WorkloadId := default
  workloadGeneration : WorkloadGeneration := default
  execution : ExecutionId := default
  executionGeneration : ExecutionGeneration := default
  failure : FailureId := default
  reason : Str := []
  priorProgress : ProgressEvidence := {}
  recoveryDeadline : Option Timestamp := none
  maxRecoveryDuration : Option Duration := none
  maxToleratedProgressLoss : Option ProgressUnits := none
  preferredStrategies : List RecoveryStrategy := []
  forbiddenStrategies : List RecoveryStrategy := []
  stateRequirements : List Str := []
  placementConstraints : List Str := []
  compatibilityRequirements : List Str := []
  coordinatorEpoch : CoordinatorEpoch := default
  policyGeneration : PolicyGeneration := default
  topologyGeneration : TopologyGeneration := default
  requestedAt : Timestamp := default
  valuePriorities : List (Str × UInt64) := []
  deriving DecidableEq, Repr

structure PlannerContext where
  epoch : CoordinatorEpoch := default
  plannerBoot : PlannerBootId := default
  workloadGeneration : WorkloadGeneration := default
  policyGeneration : PolicyGeneration := default
  compatibilityGeneration : CompatibilityGeneration := default
  resourceGeneration : ResourceGeneration := default
  topologyGeneration : TopologyGeneration := default
  workerBoots : SortedMap WorkerId WorkerBootId := .empty
  aliveWorkers : Finset WorkerId := ∅
  resourceAvailable : SortedMap Str UInt64 := .empty
  compatibilityTable : SortedMap Str (Finset Str) := .empty
  recomputeLineageAvailable : Finset WorkloadGeneration := ∅
  originalInputsAvailable : Finset WorkloadGeneration := ∅
  deriving DecidableEq

def PlannerContext.workerIsCurrent (ctx : PlannerContext) (w : WorkerId) : Bool :=
  w ∈ ctx.aliveWorkers

def PlannerContext.workerBootMatches (ctx : PlannerContext) (w : WorkerId)
    (boot : WorkerBootId) : Bool :=
  match ctx.workerBoots.find? w with
  | some b => b = boot
  | none => false

def PlannerContext.resourceSufficient (ctx : PlannerContext) (kind : Str)
    (required : UInt64) : Bool :=
  match ctx.resourceAvailable.find? kind with
  | some amount => required ≤ amount
  | none => false

def PlannerContext.isCompatible (ctx : PlannerContext) (subject target : Str) : Bool :=
  match ctx.compatibilityTable.find? subject with
  | some targets => target ∈ targets
  | none => false

def PlannerContext.recomputeAvailable (ctx : PlannerContext) (gen : WorkloadGeneration) : Bool :=
  gen ∈ ctx.recomputeLineageAvailable && gen ∈ ctx.originalInputsAvailable

def PlannerContext.registerWorker (ctx : PlannerContext) (w : WorkerId) (boot : WorkerBootId) :
    PlannerContext :=
  { ctx with
    workerBoots := ctx.workerBoots.insert w boot
    aliveWorkers := insert w ctx.aliveWorkers }

/-- The boot registration stays; only liveness is withdrawn. -/
def PlannerContext.unregisterWorker (ctx : PlannerContext) (w : WorkerId) : PlannerContext :=
  { ctx with aliveWorkers := ctx.aliveWorkers.erase w }

end RecoveryPlanner
