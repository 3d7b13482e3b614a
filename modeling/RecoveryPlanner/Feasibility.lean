import RecoveryPlanner.Evidence
set_option autoImplicit false

/-! The feasibility evaluator of `feasibility.cpp`. -/

namespace RecoveryPlanner

inductive FeasibilityResult where
  | feasible | infeasible | defer | revalidationRequired | insufficientEvidence
  deriving DecidableEq, Repr

def FeasibilityResult.toString : FeasibilityResult → Str
  | .feasible => text "FEASIBLE"
  | .infeasible => text "INFEASIBLE"
  | .defer => text "DEFER"
  | .revalidationRequired => text "REVALIDATION_REQUIRED"
  | .insufficientEvidence => text "INSUFFICIENT_EVIDENCE"

inductive RejectionReason where
  | none | staleAuthority | invalidStateIntegrity | incompatible | targetUnavailable
  | invalidCandidateGeneration | insufficientResources | expiredState | stateTooOld
  | deadlineImpossible | forbiddenStrategy | missingEvidence | targetIncarnationMismatch
  | readinessFailed | topologyImpossible | incompatibleCheckpoint | invalidMigrationRelation
  | shadowNotCurrent | noRecomputeLineage | ambiguousUnsafe | resourceGenerationStale
  | compatibilityGenerationStale | policyGenerationStale | workloadGenerationStale
  | invalidStrategy | stateGenerationStale
  deriving DecidableEq, Repr

def RejectionReason.toString : RejectionReason → Str
  | .none => text "none"
  | .staleAuthority => text "stale_authority"
  | .invalidStateIntegrity => text "invalid_state_integrity"
  | .incompatible => text "incompatible"
  | .targetUnavailable => text "target_unavailable"
  | .invalidCandidateGeneration => text "invalid_candidate_generation"
  | .insufficientResources => text "insufficient_resources"
  | .expiredState => text "expired_state"
  | .stateTooOld => text "state_too_old"
  | .deadlineImpossible => text "deadline_impossible"
  | .forbiddenStrategy => text "forbidden_strategy"
  | .missingEvidence => text "missing_evidence"
  | .targetIncarnationMismatch => text "target_incarnation_mismatch"
  | .readinessFailed => text "readiness_failed"
  | .topologyImpossible => text "topology_impossible"
  | .incompatibleCheckpoint => text "incompatible_checkpoint"
  | .invalidMigrationRelation => text "invalid_migration_relation"
  | .shadowNotCurrent => text "shadow_not_current"
  | .noRecomputeLineage => text "no_recompute_lineage"
  | .ambiguousUnsafe => text "ambiguous_unsafe"
  | .resourceGenerationStale => text "resource_generation_stale"
  | .compatibilityGenerationStale => text "compatibility_generation_stale"
  | .policyGenerationStale => text "policy_generation_stale"
  | .workloadGenerationStale => text "workload_generation_stale"
  | .invalidStrategy => text "invalid_strategy"
  | .stateGenerationStale => text "state_generation_stale"

structure ConstraintViolation where
  reason : RejectionReason := .none
  detail : Str := []
  deriving DecidableEq, Repr

structure FeasibilityEvaluation where
  result : FeasibilityResult := .insufficientEvidence
  violations : List ConstraintViolation := []
  deriving DecidableEq, Repr

def FeasibilityEvaluation.isFeasible (ev : FeasibilityEvaluation) : Bool :=
  ev.result = .feasible

def FeasibilityEvaluation.blocked (ev : FeasibilityEvaluation) : Bool :=
  ev.result = .infeasible

/-- The four flags and the violations collected while a candidate is examined. -/
structure FeasFlags where
  infeasible : Bool := false
  insufficient : Bool := false
  revalidation : Bool := false
  defer : Bool := false
  violations : List ConstraintViolation := []
  deriving DecidableEq, Repr

namespace FeasFlags

def note (f : FeasFlags) (reason : RejectionReason) (detail : Str) : FeasFlags :=
  { f with violations := f.violations ++ [⟨reason,detail⟩] }

def hard (f : FeasFlags) (reason : RejectionReason) (detail : Str) : FeasFlags :=
  { f.note reason detail with infeasible := true }

def hardIf (c : Bool) (reason : RejectionReason) (detail : Str) (f : FeasFlags) : FeasFlags :=
  if c then f.hard reason detail else f

def insufficientIf (c : Bool) (f : FeasFlags) : FeasFlags :=
  if c then { f with insufficient := true } else f

def revalidationIf (c : Bool) (f : FeasFlags) : FeasFlags :=
  if c then { f with revalidation := true } else f

def deferIf (c : Bool) (f : FeasFlags) : FeasFlags :=
  if c then { f with defer := true } else f

end FeasFlags

def revalidationNeeded (m : EvidenceMeta) : Bool := m.freshness = .revalidationRequired

def staleOrExpired (m : EvidenceMeta) : Bool := m.freshness = .stale || m.freshness = .expired

/-- Step 2: identity, generation and strategy sanity. -/
def checkIdentity (c : RecoveryCandidate) (f : FeasFlags) : FeasFlags :=
  f.hardIf (!c.candidateId.isValid || !c.generation.isValid) .invalidCandidateGeneration
      (text "candidate identity or generation is null")
    |>.hardIf (RecoveryStrategy.recompute.toNat < c.strategy.toNat) .invalidStrategy
      (text "candidate strategy value is out of range")

/-- Step 3: authority fencing and workload generation. -/
def checkAuthority (c : RecoveryCandidate) (request : RecoveryRequest) (ctx : PlannerContext)
    (f : FeasFlags) : FeasFlags :=
  let f := match c.authority with
    | some a =>
      f.hardIf (a.coordinatorEpoch ≠ ctx.epoch) .staleAuthority
          (text "candidate observed under epoch " ++ decimal a.coordinatorEpoch.value.toNat ++
            text " but current epoch is " ++ decimal ctx.epoch.value.toNat)
        |>.hardIf (a.policyGeneration ≠ ctx.policyGeneration) .policyGenerationStale
          (text "candidate policy generation does not match current policy generation")
    | none => f.insufficientIf true
  match c.state with
  | some st =>
    f.hardIf (st.workloadGeneration ≠ request.workloadGeneration &&
        st.workloadGeneration.isValid) .workloadGenerationStale
      (text "candidate state belongs to a different workload generation")
  | none => f

/-- Step 4: state integrity, freshness and generation lineage. -/
def checkState (c : RecoveryCandidate) (f : FeasFlags) : FeasFlags :=
  let f := match c.state with
    | some st =>
      f.hardIf (st.integrity = .corrupt) .invalidStateIntegrity
          (text "state integrity is CORRUPT")
        |>.hardIf (st.evidenceMeta.freshness = .expired) .expiredState
          (text "state evidence is EXPIRED")
        |>.insufficientIf (staleOrExpired st.evidenceMeta)
        |>.revalidationIf (revalidationNeeded st.evidenceMeta)
        |>.insufficientIf (st.integrity = .uncertain || st.integrity = .notVerified ||
          st.integrity = .unknown)
    | none => f.insufficientIf true
  let f := match c.state with
    | some st => f.hardIf (st.stateGeneration ≠ c.stateGeneration) .stateGenerationStale
        (text "candidate state generation does not match its state evidence")
    | none => f
  match c.checkpoint with
  | some ck => f.hardIf (ck.stateGeneration ≠ c.stateGeneration) .stateGenerationStale
      (text "checkpoint state generation does not match the candidate state generation")
  | none => f

/-- Step 5: compatibility evidence, then the reference table. -/
def checkCompatibility (c : RecoveryCandidate) (request : RecoveryRequest)
    (ctx : PlannerContext) (f : FeasFlags) : FeasFlags :=
  match c.compatibility with
  | some co =>
    let f := f.hardIf (co.result = .incompatible) .incompatible
        (if co.reason.isEmpty then text "candidate is incompatible" else co.reason)
      |>.hardIf (co.compatibilityGeneration ≠ ctx.compatibilityGeneration)
        .compatibilityGenerationStale (text "compatibility generation does not match current")
      |>.insufficientIf (co.result = .unknown || co.result = .insufficientEvidence)
      |>.revalidationIf (revalidationNeeded co.evidenceMeta)
    let target := if co.stateFormat.isEmpty then text "unqualified" else co.stateFormat
    f.hardIf (!co.subjectIdentity.isEmpty &&
        (ctx.compatibilityTable.find? co.subjectIdentity).isSome &&
        !ctx.isCompatible co.subjectIdentity target) .incompatible
      (text "reference compatibility: subject '" ++ co.subjectIdentity ++
        text "' incompatible with '" ++ target ++ text "'")
  | none => f.insufficientIf (!request.compatibilityRequirements.isEmpty)

/-- Step 6: target availability; a recompute needs no live target. -/
def checkAvailability (c : RecoveryCandidate) (ctx : PlannerContext) (f : FeasFlags) :
    FeasFlags :=
  if c.strategy = .recompute then f
  else match c.availability with
    | some av =>
      f.hardIf (!av.isAlive || !ctx.workerIsCurrent av.worker) .targetUnavailable
          (text "target worker is not alive/current")
        |>.hardIf (!ctx.workerBootMatches av.worker av.boot) .targetIncarnationMismatch
          (text "target boot id does not match current worker boot")
        |>.hardIf (av.readiness = .notReady) .readinessFailed
          (text "target readiness is NOT_READY")
        |>.deferIf (av.readiness = .warming)
        |>.insufficientIf (av.readiness = .unknown)
        |>.insufficientIf (staleOrExpired av.evidenceMeta)
        |>.revalidationIf (revalidationNeeded av.evidenceMeta)
    | none => f.insufficientIf true

/-- The planner's own resource view is consulted only while nothing has made the
candidate infeasible. -/
def bindResource (rs : ResourceEvidence) (required : UInt64) (ctx : PlannerContext)
    (f : FeasFlags) : FeasFlags :=
  if !rs.resourceKind.isEmpty && !ctx.resourceSufficient rs.resourceKind required &&
      !f.infeasible then
    (f.note .insufficientResources (text "planner current resource view does not guarantee '" ++
      rs.resourceKind ++ text "'")).insufficientIf true
  else f

/-- Step 7: resources. -/
def checkResource (c : RecoveryCandidate) (ctx : PlannerContext) (f : FeasFlags) : FeasFlags :=
  match c.resource with
  | some rs =>
    let f := f.hardIf (rs.status = .unavailable) .insufficientResources
      (text "required resource '" ++ rs.resourceKind ++ text "' is UNAVAILABLE")
    let f := match rs.required,rs.available with
      | some required,some available =>
        f.hardIf (available < required) .insufficientResources
          (text "required " ++ decimal required.toNat ++ text " but only " ++
            decimal available.toNat ++ text " available for '" ++ rs.resourceKind ++ text "'")
      | _,_ => f
    let f := f.hardIf (rs.generation ≠ ctx.resourceGeneration) .resourceGenerationStale
      (text "resource generation does not match current")
    let f := match rs.required,rs.available with
      | some _,none => f.insufficientIf true
      | some required,some _ => bindResource rs required ctx f
      | none,_ => f
    f.insufficientIf (rs.status = .unknown)
      |>.revalidationIf (revalidationNeeded rs.evidenceMeta)
      |>.insufficientIf (staleOrExpired rs.evidenceMeta)
  | none => f.insufficientIf true

/-- Steps 8 and 9: topology and the source/destination relation of a migration. -/
def checkMigration (c : RecoveryCandidate) (ctx : PlannerContext) (f : FeasFlags) : FeasFlags :=
  if c.strategy ≠ .migrate then f
  else
    let f := match c.topology with
      | some tp =>
        f.hardIf (!tp.pathPossible) .topologyImpossible
            (text "migration path from '" ++ tp.source ++ text "' to '" ++ tp.destination ++
              text "' is impossible")
          |>.hardIf (tp.generation ≠ ctx.topologyGeneration) .topologyImpossible
            (text "topology generation is stale")
      | none => f.insufficientIf true
    let f := f.hardIf (!c.sourceWorker.isValid || c.sourceWorker = c.targetWorker)
      .invalidMigrationRelation
      (text "migration requires a valid source worker distinct from the target")
    let f := match c.state with
      | some st => f.insufficientIf (!st.isDurable)
      | none => (f.insufficientIf true).note .missingEvidence
          (text "migration requires portable durable state")
    match c.transfer with
    | some _ => f
    | none => (f.note .missingEvidence (text "migration requires transfer evidence")).insufficientIf
        true

/-- Step 10: shadow promotion. -/
def checkShadow (c : RecoveryCandidate) (f : FeasFlags) : FeasFlags :=
  if c.strategy ≠ .shadowPromote then f
  else match c.shadow with
    | some sh =>
      f.hardIf (sh.readiness ≠ .ready) .readinessFailed (text "shadow is not READY")
        |>.hardIf (0 < sh.lag.value && (2^40 : Int) < sh.lag.value.toInt) .shadowNotCurrent
          (text "shadow lag too large")
        |>.hardIf (sh.compatibility = .incompatible) .incompatible
          (text "shadow state is incompatible")
    | none => f.insufficientIf true

/-- Steps 11 and 12: recomputation and rehydration. -/
def checkRecompute (c : RecoveryCandidate) (request : RecoveryRequest) (ctx : PlannerContext)
    (f : FeasFlags) : FeasFlags :=
  let f := if c.strategy = .recompute then
      f.hardIf (!ctx.recomputeAvailable request.workloadGeneration) .noRecomputeLineage
          (text ("no authoritative lineage/inputs available for recomputation for this " ++
            "workload generation"))
        |>.insufficientIf ((c.cost.bind CostEvidence.recomputeTime).isNone)
    else f
  f.insufficientIf (c.strategy = .rehydrate && c.state.isNone)

/-- Step 13: the most severe flag decides. -/
def FeasFlags.aggregate (f : FeasFlags) : FeasibilityEvaluation where
  result :=
    if f.infeasible then .infeasible
    else if f.insufficient then .insufficientEvidence
    else if f.revalidation then .revalidationRequired
    else if f.defer then .defer
    else .feasible
  violations := f.violations

def evaluateFeasibility (c : RecoveryCandidate) (request : RecoveryRequest)
    (ctx : PlannerContext) : FeasibilityEvaluation :=
  -- A forbidden strategy is rejected before anything else is looked at.
  if c.strategy ∈ request.forbiddenStrategies then
    (({} : FeasFlags).hard .forbiddenStrategy
      (text "strategy " ++ c.strategy.toString ++ text " is forbidden by the request")).aggregate
  else
    checkIdentity c {}
      |> checkAuthority c request ctx
      |> checkState c
      |> checkCompatibility c request ctx
      |> checkAvailability c ctx
      |> checkResource c ctx
      |> checkMigration c ctx
      |> checkShadow c
      |> checkRecompute c request ctx
      |>.aggregate

end RecoveryPlanner
