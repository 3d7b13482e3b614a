import RecoveryPlanner.FileStore
import RecoveryPlanner.Planner
set_option autoImplicit false

/-! The durable snapshot of `planner.cpp`: its encoder, the decoder that writes
into the live state as it reads, and the operations built on them. -/

namespace RecoveryPlanner

open ByteWriter in
def encodeFlagged {α : Type} (enc : α → Bytes) : Option α → Bytes
  | some v => u8 1 ++ enc v
  | none => u8 0

/-- The element count is narrowed to 32 bits; the elements are all written. -/
def encodeList {α : Type} (enc : α → Bytes) (xs : List α) : Bytes :=
  ByteWriter.u32 xs.length.toUInt32 ++ xs.flatMap enc

open ByteWriter in
def encodeWorker (kv : WorkerId × WorkerBootId) : Bytes := u64 kv.1.value ++ u64 kv.2.value

open ByteWriter in
def encodeRequest (r : RecoveryRequest) : Bytes :=
  u64 r.requestId.value ++ u64 r.workload.value ++ u64 r.workloadGeneration.value ++
  u64 r.execution.value ++ u64 r.executionGeneration.value ++ u64 r.failure.value ++
  cstring r.reason ++
  encodeFlagged (fun t => i64 t.value) r.recoveryDeadline ++
  encodeFlagged (fun t => i64 t.value) r.maxRecoveryDuration ++
  encodeFlagged (fun t => u64 t.value) r.maxToleratedProgressLoss ++
  encodeList (fun s => u8 s.toByte) r.preferredStrategies ++
  encodeList (fun s => u8 s.toByte) r.forbiddenStrategies ++
  u64 r.coordinatorEpoch.value ++ u64 r.policyGeneration.value ++
  u64 r.topologyGeneration.value ++ i64 r.requestedAt.value ++
  encodeList cstring r.stateRequirements ++
  encodeList cstring r.placementConstraints ++
  encodeList cstring r.compatibilityRequirements

open ByteWriter in
def encodeAuthority (a : PlanAuthority) : Bytes :=
  u64 a.coordinatorEpoch.value ++ u64 a.plannerBoot.value ++ u64 a.requestId.value ++
  u64 a.planGeneration.value ++ u64 a.candidateGeneration.value ++ u64 a.targetBoot.value ++
  u64 a.engineIncarnation.value ++ u64 a.stateGeneration.value ++
  u64 a.compatibilityGeneration.value ++ u64 a.resourceGeneration.value ++
  u64 a.policyGeneration.value ++ u64 a.topologyGeneration.value ++
  u64 a.workloadGeneration.value

open ByteWriter in
def encodePlan (p : RecoveryPlan) : Bytes :=
  u64 p.planId.value ++ u64 p.generation.value ++ u64 p.requestId.value ++
  u64 p.workload.value ++ u8 p.strategy.toByte ++ u64 p.candidateId.value ++
  u64 p.candidateGeneration.value ++ u64 p.targetWorker.value ++ u64 p.targetBoot.value ++
  u64 p.targetEngine.value ++ u64 p.engineIncarnation.value ++ u64 p.stateSource.value ++
  u64 p.stateGeneration.value ++ u64 p.checkpointSource.value ++
  encodeAuthority p.authority ++
  u8 p.state.toByte ++ u8 p.executionOutcome.toByte ++
  u8 (if p.outcomePublished then 1 else 0) ++
  i64 p.createdAt.value ++ i64 p.updatedAt.value ++ u64 p.lastAttempt.value ++
  cstring p.dispatchPayload ++ cstring p.decisionDigest

open ByteWriter in
def encodeHeader (ctx : PlannerContext) : Bytes :=
  u64 ctx.epoch.value ++ u64 ctx.plannerBoot.value ++ u64 ctx.workloadGeneration.value ++
  u64 ctx.policyGeneration.value ++ u64 ctx.compatibilityGeneration.value ++
  u64 ctx.resourceGeneration.value ++ u64 ctx.topologyGeneration.value

def Impl.encodeSnapshot (im : Impl) : Bytes :=
  ByteWriter.u32 kPersistenceFormatVersion ++ encodeHeader im.ctx ++
  encodeList encodeWorker im.ctx.workerBoots.entries ++
  encodeList encodeRequest im.requests.values ++
  encodeList encodePlan im.plans.values ++
  encodeList ByteWriter.cstring im.history

open ByteReader in
def readFlagged {α : Type} (p : Scan UInt8 α) : Scan UInt8 (Option α) := do
  let flag ← u8
  if flag ≠ 0 then
    let v ← p
    pure (some v)
  else pure none

open ByteReader in
def readList {α : Type} (p : Scan UInt8 α) : Scan UInt8 (List α) := do
  let n ← u32
  Scan.times p n.toNat

open ByteReader in
def readWorker : Scan UInt8 (WorkerId × WorkerBootId) := do
  let w ← u64
  let b ← u64
  pure (⟨w⟩,⟨b⟩)

open ByteReader in
def readRequest : Scan UInt8 RecoveryRequest := do
  let requestId ← u64
  let workload ← u64
  let workloadGeneration ← u64
  let execution ← u64
  let executionGeneration ← u64
  let failure ← u64
  let reason ← cstring
  let recoveryDeadline ← readFlagged i64
  let maxRecoveryDuration ← readFlagged i64
  let maxToleratedProgressLoss ← readFlagged u64
  let preferredStrategies ← readList u8
  let forbiddenStrategies ← readList u8
  let coordinatorEpoch ← u64
  let policyGeneration ← u64
  let topologyGeneration ← u64
  let requestedAt ← i64
  let stateRequirements ← readList cstring
  let placementConstraints ← readList cstring
  let compatibilityRequirements ← readList cstring
  pure
    { requestId := ⟨requestId⟩
      workload := ⟨workload⟩
      workloadGeneration := ⟨workloadGeneration⟩
      execution := ⟨execution⟩
      executionGeneration := ⟨executionGeneration⟩
      failure := ⟨failure⟩
      reason := reason
      recoveryDeadline := recoveryDeadline.map .mk
      maxRecoveryDuration := maxRecoveryDuration.map .mk
      maxToleratedProgressLoss := maxToleratedProgressLoss.map .mk
      preferredStrategies := preferredStrategies.map .ofByte
      forbiddenStrategies := forbiddenStrategies.map .ofByte
      coordinatorEpoch := ⟨coordinatorEpoch⟩
      policyGeneration := ⟨policyGeneration⟩
      topologyGeneration := ⟨topologyGeneration⟩
      requestedAt := ⟨requestedAt⟩
      stateRequirements := stateRequirements
      placementConstraints := placementConstraints
      compatibilityRequirements := compatibilityRequirements }

open ByteReader in
def readAuthority : Scan UInt8 PlanAuthority := do
  let coordinatorEpoch ← u64
  let plannerBoot ← u64
  let requestId ← u64
  let planGeneration ← u64
  let candidateGeneration ← u64
  let targetBoot ← u64
  let engineIncarnation ← u64
  let stateGeneration ← u64
  let compatibilityGeneration ← u64
  let resourceGeneration ← u64
  let policyGeneration ← u64
  let topologyGeneration ← u64
  let workloadGeneration ← u64
  pure ⟨⟨coordinatorEpoch⟩,⟨plannerBoot⟩,⟨requestId⟩,⟨planGeneration⟩,⟨candidateGeneration⟩,
    ⟨targetBoot⟩,⟨engineIncarnation⟩,⟨stateGeneration⟩,⟨compatibilityGeneration⟩,
    ⟨resourceGeneration⟩,⟨policyGeneration⟩,⟨topologyGeneration⟩,⟨workloadGeneration⟩⟩

open ByteReader in
def readPlan : Scan UInt8 RecoveryPlan := do
  let planId ← u64
  let generation ← u64
  let requestId ← u64
  let workload ← u64
  let strategy ← u8
  let candidateId ← u64
  let candidateGeneration ← u64
  let targetWorker ← u64
  let targetBoot ← u64
  let targetEngine ← u64
  let engineIncarnation ← u64
  let stateSource ← u64
  let stateGeneration ← u64
  let checkpointSource ← u64
  let authority ← readAuthority
  let state ← u8
  let executionOutcome ← u8
  let outcomePublished ← u8
  let createdAt ← i64
  let updatedAt ← i64
  let lastAttempt ← u64
  let dispatchPayload ← cstring
  let decisionDigest ← cstring
  pure
    { planId := ⟨planId⟩
      generation := ⟨generation⟩
      requestId := ⟨requestId⟩
      workload := ⟨workload⟩
      strategy := .ofByte strategy
      candidateId := ⟨candidateId⟩
      candidateGeneration := ⟨candidateGeneration⟩
      targetWorker := ⟨targetWorker⟩
      targetBoot := ⟨targetBoot⟩
      targetEngine := ⟨targetEngine⟩
      engineIncarnation := ⟨engineIncarnation⟩
      stateSource := ⟨stateSource⟩
      stateGeneration := ⟨stateGeneration⟩
      checkpointSource := ⟨checkpointSource⟩
      authority := authority
      state := .ofByte state
      executionOutcome := .ofByte executionOutcome
      outcomePublished := outcomePublished ≠ 0
      createdAt := ⟨createdAt⟩
      updatedAt := ⟨updatedAt⟩
      lastAttempt := ⟨lastAttempt⟩
      dispatchPayload := dispatchPayload
      decisionDigest := decisionDigest }

structure SnapshotHeader where
  epoch : CoordinatorEpoch
  plannerBoot : PlannerBootId
  workloadGeneration : WorkloadGeneration
  policyGeneration : PolicyGeneration
  compatibilityGeneration : CompatibilityGeneration
  resourceGeneration : ResourceGeneration
  topologyGeneration : TopologyGeneration
  deriving DecidableEq, Repr

open ByteReader in
def readHeader : Scan UInt8 SnapshotHeader := do
  let epoch ← u64
  let plannerBoot ← u64
  let workloadGeneration ← u64
  let policyGeneration ← u64
  let compatibilityGeneration ← u64
  let resourceGeneration ← u64
  let topologyGeneration ← u64
  pure ⟨⟨epoch⟩,⟨plannerBoot⟩,⟨workloadGeneration⟩,⟨policyGeneration⟩,
    ⟨compatibilityGeneration⟩,⟨resourceGeneration⟩,⟨topologyGeneration⟩⟩

def PlannerContext.installHeader (ctx : PlannerContext) (preserveEpochBoot : Bool)
    (h : SnapshotHeader) : PlannerContext :=
  { ctx with
    epoch := if preserveEpochBoot then ctx.epoch else h.epoch
    plannerBoot := if preserveEpochBoot then ctx.plannerBoot else h.plannerBoot
    workloadGeneration := h.workloadGeneration
    policyGeneration := h.policyGeneration
    compatibilityGeneration := h.compatibilityGeneration
    resourceGeneration := h.resourceGeneration
    topologyGeneration := h.topologyGeneration }

def workerTable (ws : List (WorkerId × WorkerBootId)) : SortedMap WorkerId WorkerBootId :=
  ws.foldl (fun m kv => m.insert kv.1 kv.2) .empty

def PlannerContext.installWorkers (ctx : PlannerContext)
    (ws : List (WorkerId × WorkerBootId)) : PlannerContext :=
  { ctx with workerBoots := workerTable ws, aliveWorkers := ∅ }

def putRequest (m : SortedMap UInt64 RecoveryRequest) (q : RecoveryRequest) :
    SortedMap UInt64 RecoveryRequest :=
  m.insert q.requestId.value q

def putDecoded (m : SortedMap UInt64 RecoveryPlan) (p : RecoveryPlan) :
    SortedMap UInt64 RecoveryPlan :=
  m.insert p.planId.value p

namespace Impl

def applyHistory (im : Impl) (r : ByteReader) : Bool × Impl :=
  let h := readList ByteReader.cstring r
  (h.2.ok,{ im with history := h.1 })

/-- The plan section: the table is emptied before its replacements are read. -/
def applyPlans (im : Impl) (r : ByteReader) : Bool × Impl :=
  let n := ByteReader.u32 r
  let ps := Scan.collect readPlan putDecoded n.1.toNat .empty n.2
  let im := { im with plans := ps.1.2 }
  if ps.1.1 then im.applyHistory ps.2 else (false,im)

def applyRequests (im : Impl) (r : ByteReader) : Bool × Impl :=
  let n := ByteReader.u32 r
  let qs := Scan.collect readRequest putRequest n.1.toNat .empty n.2
  let im := { im with requests := qs.1.2 }
  if qs.1.1 then im.applyPlans qs.2 else (false,im)

/-- The worker section, which is not checked before the requests are read. -/
def applyWorkers (im : Impl) (r : ByteReader) : Bool × Impl :=
  let ws := readList readWorker r
  { im with ctx := im.ctx.installWorkers ws.1 }.applyRequests ws.2

def applyBody (im : Impl) (preserveEpochBoot : Bool) (r : ByteReader) : Bool × Impl :=
  let h := readHeader r
  let im := { im with ctx := im.ctx.installHeader preserveEpochBoot h.1 }
  if !h.2.ok then (false,im) else im.applyWorkers h.2

def applySnapshot (im : Impl) (bytes : Bytes) (preserveEpochBoot : Bool) : Bool × Impl :=
  let ver := ByteReader.u32 ⟨bytes,0,false⟩
  if ver.1 ≠ kPersistenceFormatVersion || !ver.2.ok then (false,im)
  else im.applyBody preserveEpochBoot ver.2

abbrev Disk := Option Bytes

def saveState (im : Impl) (disk : Disk) : Bool × Disk :=
  if !im.hasStore then (false,disk) else (true,some im.encodeSnapshot)

/-- The decoder's verdict is dropped. -/
def loadLocked (im : Impl) (disk : Disk) : Impl :=
  match disk with
  | none => im
  | some blob => (im.applySnapshot blob false).2

def loadState (im : Impl) (disk : Disk) : Bool × Impl :=
  if !im.hasStore then (false,im) else (true,im.loadLocked disk)

/-- The new epoch and boot, with the dynamic evidence dropped. -/
def advanceEpoch (im : Impl) : Impl :=
  { im with ctx := { im.ctx with
      epoch := im.ctx.epoch.next
      plannerBoot := im.ctx.plannerBoot.next
      aliveWorkers := ∅
      resourceAvailable := .empty
      recomputeLineageAvailable := ∅
      originalInputsAvailable := ∅ } }

/-- What the restart loop does to one plan; the transition table is not asked. -/
def retire (now : Timestamp) (p : RecoveryPlan) : RecoveryPlan :=
  if p.state.terminal then p else { p with state := .invalidated, updatedAt := now }

def retirePlans (im : Impl) (clock : UInt64 → Timestamp) : Impl :=
  { im with plans := im.plans.mapValues (fun k p => retire (clock k) p) }

def recordRestart (im : Impl) : Impl :=
  { im with history := im.history ++
      [text "coordinator restart; epoch=" ++ decimal im.ctx.epoch.value.toNat ++
        text " boot=" ++ decimal im.ctx.plannerBoot.value.toNat] }

/-- `clock k` is the reading taken when the loop reaches plan `k`, and `reload` what
the store returns after the snapshot has been saved. -/
def restartReloading (im : Impl) (clock : UInt64 → Timestamp) (reload : Disk) : Impl :=
  let next := im.advanceEpoch
  let reloaded := match im.hasStore,reload with
    | true,some blob => (next.applySnapshot blob true).2
    | _,_ => next
  (reloaded.retirePlans clock).recordRestart

def restartCoordinator (im : Impl) (clock : UInt64 → Timestamp) (disk : Disk) : Impl × Disk :=
  let saved := (im.saveState disk).2
  (im.restartReloading clock saved,saved)

end Impl

end RecoveryPlanner
