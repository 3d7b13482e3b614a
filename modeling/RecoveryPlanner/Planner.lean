import RecoveryPlanner.Plan
import RecoveryPlanner.StdSort
set_option autoImplicit false

/-! The decision layer: planning and the fenced plan lifecycle of `planner.cpp`.
Every method is one critical section; the clock reading it takes is an argument.
A method that throws returns the error beside the state it leaves. -/

namespace RecoveryPlanner

inductive PlanOutcome where
  | planFound | noValidPlan | noDeadlineFeasiblePlan | noCandidates | revalidationRequired
  deriving DecidableEq, Repr

def PlanOutcome.toString : PlanOutcome → Str
  | .planFound => text "PLAN_FOUND"
  | .noValidPlan => text "NO_VALID_PLAN"
  | .noDeadlineFeasiblePlan => text "NO_DEADLINE_FEASIBLE_PLAN"
  | .noCandidates => text "NO_CANDIDATES"
  | .revalidationRequired => text "REVALIDATION_REQUIRED"

structure RankedCandidate where
  candidate : RecoveryCandidate := {}
  feasibility : FeasibilityEvaluation := {}
  economics : RecoveryEconomics := {}
  deadline : DeadlineEvaluation := {}
  rank : Int32 := 0
  feasibleRank : Int32 := 0
  deriving DecidableEq, Repr

structure RecoveryDecision where
  outcome : PlanOutcome := .noValidPlan
  plan : Option RecoveryPlan := none
  ranked : List RankedCandidate := []
  reasons : List Str := []
  summary : Str := []
  deriving DecidableEq, Repr

/-- The fields of an execution report that the planner reads. -/
structure ExecutionReport where
  dispatch : DispatchId := default
  planId : RecoveryPlanId := default
  planGeneration : RecoveryPlanGeneration := default
  reporterBoot : WorkerBootId := default
  outcome : ExecutionOutcome := .unknown
  deriving DecidableEq, Repr

structure RecoveryDispatch where
  dispatchId : DispatchId
  planId : RecoveryPlanId
  planGeneration : RecoveryPlanGeneration
  requestId : RecoveryRequestId
  strategy : RecoveryStrategy
  targetWorker : WorkerId
  targetBoot : WorkerBootId
  engineIncarnation : EngineIncarnationId
  stateSource : StateId
  stateGeneration : StateGeneration
  attempt : AttemptId
  payload : Str
  deriving DecidableEq, Repr

def RecoveryDispatch.ofPlan (p : RecoveryPlan) : RecoveryDispatch where
  dispatchId := ⟨p.lastAttempt.value⟩
  planId := p.planId
  planGeneration := p.generation
  requestId := p.requestId
  strategy := p.strategy
  targetWorker := p.targetWorker
  targetBoot := p.targetBoot
  engineIncarnation := p.engineIncarnation
  stateSource := p.stateSource
  stateGeneration := p.stateGeneration
  attempt := p.lastAttempt
  payload := p.dispatchPayload

structure DispatchMeta where
  planId : RecoveryPlanId
  generation : RecoveryPlanGeneration
  targetBoot : WorkerBootId
  deriving DecidableEq, Repr

/-- The planner's own state. `hasStore` says whether a store was passed to the
constructor; its contents live outside. -/
structure Impl where
  ctx : PlannerContext
  plans : SortedMap UInt64 RecoveryPlan := .empty
  requests : SortedMap UInt64 RecoveryRequest := .empty
  dispatchMeta : SortedMap UInt64 DispatchMeta := .empty
  history : List Str := []
  nextPlanId : UInt64 := 1
  nextGeneration : UInt64 := 1
  hasStore : Bool := false
  deriving DecidableEq

def Impl.construct (hasStore : Bool) : Impl where
  ctx :=
    { epoch := ⟨1⟩
      plannerBoot := ⟨1⟩
      workloadGeneration := ⟨1⟩
      policyGeneration := ⟨1⟩
      compatibilityGeneration := ⟨1⟩
      resourceGeneration := ⟨1⟩
      topologyGeneration := ⟨1⟩ }
  hasStore := hasStore

def valueOr {α : Type} (v : Option α) (shown : α → Str) (fallback : Str) : Str :=
  match v with
  | some x => shown x
  | none => fallback

def buildPayload (c : RecoveryCandidate) : Str :=
  c.strategy.toString ++ text "|worker=" ++ decimal c.targetWorker.value.toNat ++
    text "|boot=" ++ decimal c.targetBoot.value.toNat ++
    text "|state=" ++ decimal c.stateSource.value.toNat ++
    text "|state_gen=" ++ decimal c.stateGeneration.value.toNat

/-- The plan's own id and generation are left out of the pre-image on purpose. -/
def decisionDigest (req : RecoveryRequest) (plan : RecoveryPlan) (ctx : PlannerContext) : Str :=
  hexEncode (sha256 (ByteWriter.u64 req.requestId.value ++ ByteWriter.u64 req.workload.value ++
    ByteWriter.u64 req.workloadGeneration.value ++ ByteWriter.u64 req.execution.value ++
    ByteWriter.u64 req.failure.value ++ ByteWriter.u64 ctx.epoch.value ++
    ByteWriter.u8 plan.strategy.toByte ++ ByteWriter.u64 plan.candidateId.value ++
    ByteWriter.u64 plan.candidateGeneration.value ++ ByteWriter.u64 plan.targetWorker.value ++
    ByteWriter.u64 plan.targetBoot.value ++ ByteWriter.u64 plan.stateSource.value ++
    ByteWriter.u64 plan.stateGeneration.value ++
    ByteWriter.u64 plan.authority.policyGeneration.value ++
    ByteWriter.u64 plan.authority.compatibilityGeneration.value ++
    ByteWriter.u64 plan.authority.resourceGeneration.value))

def changeConditions (sel : RecoveryStrategy) (rc : RankedCandidate) : WhatWouldChange :=
  let alt := rc.candidate.strategy
  match rc.feasibility.result with
  | .defer =>
    [(if alt = .shadowPromote then text "the shadow/warm candidate becomes READY"
      else alt.toString ++ text " target becomes READY",
      alt.toString ++ text " may overtake " ++ sel.toString)]
  | .insufficientEvidence =>
    [(text "missing evidence for " ++ alt.toString ++ text " is supplied",
      alt.toString ++ text " may become feasible and preferred")]
  | .infeasible =>
    match rc.feasibility.violations with
    | [] => []
    | v :: _ =>
      [(alt.toString ++ text " resolves its constraint (" ++ v.reason.toString ++ text ")",
        alt.toString ++ text " may become feasible")]
  | .revalidationRequired =>
    [(alt.toString ++ text " evidence is revalidated as current",
      alt.toString ++ text " may become feasible")]
  | .feasible =>
    if alt = .restore || alt = .recompute || alt = .shadowPromote || alt = .migrate then
      [(text "a " ++ alt.toString ++ text " path with better economics appears",
        alt.toString ++ text " may overtake " ++ sel.toString)]
    else []

def deadlineConditions (deadline : DeadlineEvaluation) (economics : RecoveryEconomics) :
    WhatWouldChange :=
  (match deadline.outcome,deadline.slack,economics.expectedTime with
    | .hardFeasible,some slack,some _ =>
      if slack.value < 0 then []
      else [(text "the recovery deadline increases",
        text "a lower-risk but slower candidate may become preferred")]
    | _,_,_ => []) ++
  (if deadline.outcome = .violated then
    [(text "the recovery deadline is relaxed or the candidate speeds up",
      text "the selected fallback plan may become deadline-feasible")]
   else [])

/-- Sorted by the condition text alone. -/
def computeWhatWouldChange (std : StdSort) (ranked : List RankedCandidate)
    (plan : RecoveryPlan) : WhatWouldChange :=
  std.sort (fun a b => decide (a.1 < b.1))
    (((ranked.filter (fun rc => rc.candidate.candidateId ≠ plan.candidateId)).flatMap
      (changeConditions plan.strategy)) ++ deadlineConditions plan.deadline plan.economics)

def rankFactors (e : RecoveryEconomics) : List RankFactor :=
  [⟨text "expected_time",
      valueOr e.expectedTime (fun d => decimalInt d.value.toInt) (text "unknown"),1⟩,
   ⟨text "expected_lost_progress",
      valueOr e.expectedLostProgress (fun d => decimal d.value.toNat) (text "unknown"),2⟩,
   ⟨text "cost_units",
      valueOr e.costUnits (fun d => decimal d.value.toNat) (text "unknown"),3⟩,
   ⟨text "failover_domain_risk",decimal e.failoverDomainRisk.toNat,4⟩,
   ⟨text "confidence",decimal e.confidence.basisPoints.toNat,5⟩]

def feasibilityReasons (rc : RankedCandidate) : List Str :=
  let c := rc.candidate
  (if rc.feasibility.isFeasible then [c.strategy.toString ++ text " is feasible"] else []) ++
  (match c.availability with
    | some av => [text "target worker " ++ decimal av.worker.value.toNat ++
        text " is READY under boot " ++ decimal av.boot.value.toNat]
    | none => []) ++
  (match c.compatibility with
    | some co => [text "compatibility=" ++ co.result.toString]
    | none => []) ++
  (match c.resource with
    | some rs => [text "resource '" ++ rs.resourceKind ++ text "' is " ++
        (if rs.status = .available then text "available" else text "not available")]
    | none => [])

def rejectedAlternative (rc : RankedCandidate) : RejectedAlternative where
  candidateId := rc.candidate.candidateId
  strategy := rc.candidate.strategy
  feasibility := rc.feasibility.result
  reasons := [match rc.feasibility.blocked,rc.feasibility.violations with
    | true,v :: _ => v.reason.toString
    | _,_ => rc.feasibility.result.toString]

def buildExplanation (std : StdSort) (ctx : PlannerContext) (ranked : List RankedCandidate)
    (selected : Nat) : PlanExplanation :=
  let rc := ranked.getD selected {}
  let c := rc.candidate
  { selectedStrategy := c.strategy
    selectedCandidate := c.candidateId
    selectedCandidateGeneration := c.generation
    rankFactors := rankFactors rc.economics
    bindingConstraints := rc.feasibility.violations ++
      (if rc.deadline.outcome = .violated then
        [⟨.deadlineImpossible,text "selected fallback plan violates the recovery deadline"⟩]
       else [])
    feasibilityReasons := feasibilityReasons rc
    deadlineSlack := rc.deadline.slack
    preservedProgress := rc.economics.expectedPreservedProgress
    lostProgress := rc.economics.expectedLostProgress
    cost := rc.economics.costUnits
    readiness := match c.availability with
      | some av => av.readiness
      | none => .unknown
    compatibility := match c.compatibility with
      | some co => co.result
      | none => .unknown
    resourceStatus := match c.resource with
      | some rs => rs.status
      | none => .unknown
    uncertainty := match c.authority with
      | some a => a.evidenceMeta.confidence
      | none => .none
    authority := { coordinatorEpoch := ctx.epoch, policyGeneration := ctx.policyGeneration }
    rejectedAlternatives := (ranked.eraseIdx selected).map rejectedAlternative
    missingEvidence :=
      (if c.state.isNone then [text "state evidence"] else []) ++
      (if c.availability.isNone then [text "availability evidence"] else []) ++
      (if c.resource.isNone then [text "resource evidence"] else []) ++
      (if c.compatibility.isNone then [text "compatibility evidence"] else [])
    whatWouldChange := computeWhatWouldChange std ranked
      { strategy := c.strategy, candidateId := c.candidateId, deadline := rc.deadline
        economics := rc.economics } }

def rankCandidates (ctx : PlannerContext) (request : RecoveryRequest) (now : Timestamp)
    (candidates : List RecoveryCandidate) : List RankedCandidate :=
  candidates.zipIdx.map (fun ci =>
    { candidate := ci.1
      feasibility := evaluateFeasibility ci.1 request ctx
      economics := computeEconomics ci.1 request now
      deadline := evaluateDeadline ci.1 request now
      rank := (ci.2+1).toInt32 })

def feasibleIndices (ranked : List RankedCandidate) : List Nat :=
  (List.range ranked.length).filter (fun i => (ranked.getD i {}).feasibility.isFeasible)

def RecoveryRequest.hardDeadline (request : RecoveryRequest) : Bool :=
  request.recoveryDeadline.isSome || request.maxRecoveryDuration.isSome

def RecoveryRequest.hardProgress (request : RecoveryRequest) : Bool :=
  request.maxToleratedProgressLoss.isSome

def eligibleIndices (request : RecoveryRequest) (ranked : List RankedCandidate) : List Nat :=
  (feasibleIndices ranked).filter (fun i =>
    (!request.hardDeadline || (ranked.getD i {}).deadline.outcome = .hardFeasible) &&
    (!request.hardProgress || (ranked.getD i {}).economics.progressLossWithinTolerance))

def rankFeasible (std : StdSort) (ranked : List RankedCandidate) (idx : List Nat) : List Nat :=
  std.sort (fun a b => candidatePrecedes (ranked.getD a {}).candidate (ranked.getD b {}).candidate
    (ranked.getD a {}).economics (ranked.getD b {}).economics) idx

def assignRanks (order : List Nat) (ranked : List RankedCandidate) : List RankedCandidate :=
  order.zipIdx.foldl (fun rs ik =>
    rs.modify ik.1 (fun rc => { rc with feasibleRank := (ik.2+1).toInt32 })) ranked

namespace Impl

def buildPlan (im : Impl) (req : RecoveryRequest) (rc : RankedCandidate) (now : Timestamp) :
    RecoveryPlan :=
  let c := rc.candidate
  let p : RecoveryPlan :=
    { planId := ⟨im.nextPlanId⟩
      generation := ⟨im.nextGeneration⟩
      requestId := req.requestId
      workload := req.workload
      strategy := c.strategy
      candidateId := c.candidateId
      candidateGeneration := c.generation
      targetWorker := c.targetWorker
      targetBoot := c.targetBoot
      targetEngine := c.targetEngine
      engineIncarnation := c.targetEngineIncarnation
      stateSource := c.stateSource
      stateGeneration := c.stateGeneration
      checkpointSource := c.checkpointSource
      authority :=
        { coordinatorEpoch := im.ctx.epoch
          plannerBoot := im.ctx.plannerBoot
          requestId := req.requestId
          planGeneration := ⟨im.nextGeneration⟩
          candidateGeneration := c.generation
          targetBoot := c.targetBoot
          engineIncarnation := c.targetEngineIncarnation
          stateGeneration := c.stateGeneration
          compatibilityGeneration := im.ctx.compatibilityGeneration
          resourceGeneration := im.ctx.resourceGeneration
          policyGeneration := im.ctx.policyGeneration
          topologyGeneration := im.ctx.topologyGeneration
          workloadGeneration := req.workloadGeneration }
      state := .planned
      economics := rc.economics
      deadline := rc.deadline
      dispatchPayload := buildPayload c
      createdAt := now
      updatedAt := now }
  { p with decisionDigest := decisionDigest req p im.ctx }

/-- Store a freshly built plan under the id and generation it drew from the
counters, which wrap at 2^64. -/
def storePlan (im : Impl) (p : RecoveryPlan) : Impl :=
  { im with
    plans := im.plans.insert p.planId.value p
    nextPlanId := im.nextPlanId+1
    nextGeneration := im.nextGeneration+1 }

def supersede (req : RecoveryRequest) (keep : RecoveryPlanId) (now : Timestamp)
    (old : RecoveryPlan) : RecoveryPlan :=
  if old.planId = keep then old
  else if old.requestId = req.requestId && !old.state.terminal &&
      validatePlanTransition old.state .superseded then
    { old with state := .superseded, updatedAt := now }
  else old

def supersedeOlder (im : Impl) (req : RecoveryRequest) (keep : RecoveryPlanId)
    (now : Timestamp) : Impl :=
  { im with plans := im.plans.mapValues (fun _ old => supersede req keep now old) }

def recordHistory (im : Impl) (req : RecoveryRequest) (d : RecoveryDecision) : Impl :=
  { im with history := im.history ++
      [text "req=" ++ decimal req.requestId.value.toNat ++
        text " workload=" ++ decimal req.workload.value.toNat ++
        text " outcome=" ++ d.outcome.toString ++
        (match d.plan with
          | some p => text " plan=" ++ decimal p.planId.value.toNat ++
              text " strategy=" ++ p.strategy.toString ++
              text " candidate=" ++ decimal p.candidateId.value.toNat ++
              text " digest=" ++ p.decisionDigest
          | none => [])] }

def plan (std : StdSort) (im : Impl) (now : Timestamp) (request : RecoveryRequest)
    (candidates : List RecoveryCandidate) : RecoveryDecision × Impl :=
  if candidates.isEmpty then
    ({ outcome := .noCandidates, reasons := [text "no recovery candidates were supplied"] },im)
  else
    let ranked := rankCandidates im.ctx request now candidates
    let feasible := feasibleIndices ranked
    let eligible := eligibleIndices request ranked
    if eligible.isEmpty then
      if feasible.isEmpty then
        let d : RecoveryDecision :=
          { outcome := .noValidPlan, ranked := ranked
            reasons := [text "no candidate is feasible under current evidence"] }
        (d,im.recordHistory request d)
      else
        -- The best fallback; neither its request nor an explanation is stored.
        let order := rankFeasible std ranked feasible
        let ranked := assignRanks order ranked
        let p := im.buildPlan request (ranked.getD (order.headD 0) {}) now
        let d : RecoveryDecision :=
          { outcome := if request.hardDeadline then .noDeadlineFeasiblePlan else .noValidPlan
            plan := some p
            ranked := ranked
            reasons := [if request.hardDeadline then
                text "no candidate satisfies the recovery deadline"
              else text "no candidate satisfies the hard constraints"] }
        (d,((im.storePlan p).supersedeOlder request p.planId now).recordHistory request d)
    else
      let order := rankFeasible std ranked eligible
      let ranked := assignRanks order ranked
      let best := order.headD 0
      let p := { im.buildPlan request (ranked.getD best {}) now with
        explanation := buildExplanation std im.ctx ranked best }
      let d : RecoveryDecision :=
        { outcome := .planFound
          plan := some p
          ranked := ranked
          summary := text "selected " ++ p.strategy.toString ++ text " on candidate " ++
            decimal p.candidateId.value.toNat
          reasons := [text "deterministic ranking selected " ++ p.strategy.toString] }
      let im := im.storePlan p
      let im := { im with requests := im.requests.insert request.requestId.value request }
      (d,(im.supersedeOlder request p.planId now).recordHistory request d)

def putPlan (im : Impl) (k : UInt64) (p : RecoveryPlan) : Impl :=
  { im with plans := im.plans.insert k p }

def authorizePlan (im : Impl) (now : Timestamp) (plan : RecoveryPlan) :
    Except RecoveryError RecoveryPlan × Impl :=
  match im.plans.find? plan.planId.value with
  | none => (.error ⟨.notFound,text "plan not found"⟩,im)
  | some stored =>
    if !planAuthorityCurrent stored im.ctx then
      (.error ⟨.staleAuthority,text "plan authority is stale"⟩,im)
    else if !validatePlanTransition stored.state .authorized then
      (.error ⟨.invalidInput,text "cannot authorize from current lifecycle state"⟩,im)
    else
      let stored := { stored with state := .authorized, updatedAt := now }
      (.ok stored,im.putPlan plan.planId.value stored)

def revalidatePlan (im : Impl) (plan : RecoveryPlan) : Except RecoveryError RecoveryPlan :=
  match im.plans.find? plan.planId.value with
  | none => .error ⟨.notFound,text "plan not found"⟩
  | some stored =>
    if !planAuthorityCurrent stored im.ctx then
      .error ⟨.staleAuthority,text "revalidation failed: plan authority is stale"⟩
    else if stored.deadline.outcome = .violated then
      .error ⟨.staleAuthority,text "revalidation failed: deadline no longer viable"⟩
    else .ok stored

/-- The first critical section of `dispatch_plan`. The dispatch id is the plan's
own attempt count, and it keys a map shared by all plans. -/
def dispatchBegin (im : Impl) (now : Timestamp) (plan : RecoveryPlan) :
    Except RecoveryError RecoveryDispatch × Impl :=
  match im.plans.find? plan.planId.value with
  | none => (.error ⟨.notFound,text "plan not found"⟩,im)
  | some stored =>
    if !planAuthorityCurrent stored im.ctx then
      (.error ⟨.staleAuthority,text "plan authority is stale at dispatch"⟩,im)
    else if stored.state ≠ .authorized then
      if stored.state.terminal then
        (.error ⟨.staleAuthority,text "plan is no longer executable (stale/terminal)"⟩,im)
      else (.error ⟨.invalidInput,text "plan must be AUTHORIZED before dispatch"⟩,im)
    else if !validatePlanTransition stored.state .dispatched then
      (.error ⟨.invalidInput,text "cannot dispatch from current state"⟩,im)
    else
      let stored := { stored with
        updatedAt := now
        lastAttempt := ⟨stored.lastAttempt.value+1⟩
        state := .dispatched }
      let dispatch := RecoveryDispatch.ofPlan stored
      (.ok dispatch,
        { im.putPlan plan.planId.value stored with
          dispatchMeta := im.dispatchMeta.insert dispatch.dispatchId.value
            ⟨stored.planId,stored.generation,stored.targetBoot⟩ })

def settleReceipt (status : DispatchStatus) (stored : RecoveryPlan) : RecoveryPlan :=
  if stored.state = .dispatched && status = .dispatched then
    if validatePlanTransition stored.state .executing then { stored with state := .executing }
    else stored
  else if status ≠ .dispatched then
    if validatePlanTransition stored.state .failed then { stored with state := .failed }
    else stored
  else stored

def dispatchEnd (im : Impl) (now : Timestamp) (planId : RecoveryPlanId)
    (status : DispatchStatus) : Except RecoveryError RecoveryPlan × Impl :=
  match im.plans.find? planId.value with
  | none => (.error ⟨.notFound,text "plan not found"⟩,im)
  | some stored =>
    let stored := { settleReceipt status stored with updatedAt := now }
    (.ok stored,im.putPlan planId.value stored)

def settleReport (outcome : ExecutionOutcome) (p : RecoveryPlan) : RecoveryPlan :=
  match outcome with
  | .succeeded =>
    if validatePlanTransition p.state .succeeded then
      { p with state := .succeeded, executionOutcome := .succeeded, outcomePublished := true }
    else p
  | .failed =>
    if validatePlanTransition p.state .failed then
      { p with state := .failed, executionOutcome := .failed, outcomePublished := true }
    else p
  | .ambiguous | .unknown | .cancelled =>
    if validatePlanTransition p.state .failed then
      { p with state := .failed, executionOutcome := outcome, outcomePublished := false }
    else p
  | .undeclared _ => p

def reportExecution (im : Impl) (now : Timestamp) (report : ExecutionReport) : Impl :=
  match im.plans.find? report.planId.value with
  | none => im
  | some p =>
    if report.planGeneration ≠ p.generation then im
    else if report.reporterBoot ≠ p.targetBoot then im
    else if p.state.terminal then im
    else im.putPlan report.planId.value
      { settleReport report.outcome p with updatedAt := now }

/-- The first critical section of `on_adapter_completion`: resolve the dispatch id
and drop its metadata. The report is delivered after the lock is released. -/
def adapterTake (im : Impl) (dispatchId : DispatchId) (outcome : ExecutionOutcome) :
    Option ExecutionReport × Impl :=
  match im.dispatchMeta.find? dispatchId.value with
  | none => (none,im)
  | some m =>
    (some ⟨dispatchId,m.planId,m.generation,m.targetBoot,outcome⟩,
      { im with dispatchMeta := im.dispatchMeta.erase dispatchId.value })

def onAdapterCompletion (im : Impl) (now : Timestamp) (dispatchId : DispatchId)
    (outcome : ExecutionOutcome) : Impl :=
  match im.adapterTake dispatchId outcome with
  | (none,im) => im
  | (some report,im) => im.reportExecution now report

def cancelPlan (im : Impl) (now : Timestamp) (planId : RecoveryPlanId) (force : Bool) :
    Bool × Impl :=
  match im.plans.find? planId.value with
  | none => (false,im)
  | some p =>
    if p.state = .succeeded then (false,im)
    else if p.state.inFlight && !force then (false,im)
    else if p.state.inFlight && force && p.outcomePublished then (false,im)
    else if validatePlanTransition p.state .cancelled then
      (true,im.putPlan planId.value
        { p with state := .cancelled, executionOutcome := .cancelled, updatedAt := now })
    else (false,im)

def invalidatePlan (im : Impl) (now : Timestamp) (planId : RecoveryPlanId) : Impl :=
  match im.plans.find? planId.value with
  | none => im
  | some p =>
    if p.state = .succeeded then im
    else if validatePlanTransition p.state .invalidated then
      im.putPlan planId.value { p with state := .invalidated, updatedAt := now }
    else im

def registerWorker (im : Impl) (w : WorkerId) (boot : WorkerBootId) : Impl :=
  { im with ctx := im.ctx.registerWorker w boot }

def unregisterWorker (im : Impl) (w : WorkerId) : Impl :=
  { im with ctx := im.ctx.unregisterWorker w }

def setResource (im : Impl) (kind : Str) (amount : UInt64) : Impl :=
  { im with ctx := { im.ctx with
      resourceAvailable := im.ctx.resourceAvailable.insert kind amount } }

def setRecomputeAvailable (im : Impl) (gen : WorkloadGeneration) (available : Bool) : Impl :=
  if available then
    { im with ctx := { im.ctx with
        recomputeLineageAvailable := insert gen im.ctx.recomputeLineageAvailable
        originalInputsAvailable := insert gen im.ctx.originalInputsAvailable } }
  else
    { im with ctx := { im.ctx with
        recomputeLineageAvailable := im.ctx.recomputeLineageAvailable.erase gen
        originalInputsAvailable := im.ctx.originalInputsAvailable.erase gen } }

end Impl

end RecoveryPlanner
