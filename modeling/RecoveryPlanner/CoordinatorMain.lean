import RecoveryPlanner.Fencing
import RecoveryPlanner.MsgBuffer
import RecoveryPlanner.ReferenceExecutor
import RecoveryPlanner.WorkerProcess
set_option autoImplicit false

/-! The process of `coordinator_main.cpp`: it lets two workers register, kills the first of them
and drives the recovery of its work through a planner of its own. It looks at the types of the
messages it is sent and not at who sent them. -/

namespace RecoveryPlanner

open Proto

def kWorkerA : UInt64 := 1
def kBootA : UInt64 := 1000
def kWorkerB : UInt64 := 2
def kBootB : UInt64 := 2000
def kBootC : UInt64 := 3000

def currentMeta (provenance : EvidenceProvenance) : EvidenceMeta :=
  { provenance := provenance, freshness := .current }

def scenarioCost (strategy : RecoveryStrategy) (scenario : Str) : CostEvidence :=
  let cost : CostEvidence :=
    { evidenceMeta := currentMeta .estimated
      expectedLostProgress := some ⟨0⟩
      expectedPreservedProgress := some ⟨kProgress⟩
      bytesTransferred := some ⟨4096⟩
      bytesRead := some ⟨4096⟩
      bytesMaterialized := some ⟨4096⟩ }
  match strategy with
  | .restore =>
    let time : Option Duration :=
      some (if scenario = text "RECOMPUTE" then ⟨500000⟩ else ⟨3000⟩)
    { cost with expectedTime := time, restoreTime := time }
  | .recompute =>
    { cost with
      expectedTime := some ⟨1000⟩
      recomputeTime := some ⟨1000⟩
      expectedPreservedProgress :=
        some (if scenario = text "RESTORE" then ⟨kProgress-10⟩ else ⟨kProgress⟩) }
  | .shadowPromote => { cost with expectedTime := some ⟨50⟩ }
  | .restart =>
    { cost with
      expectedTime := some ⟨500⟩
      restartTime := some ⟨500⟩
      expectedLostProgress := some ⟨kProgress⟩
      expectedPreservedProgress := some ⟨0⟩ }
  | _ => cost

def buildCandidate (strategy : RecoveryStrategy) (id : UInt64) (scenario : Str)
    (targetWorker : WorkerId := ⟨kWorkerB⟩) (targetBoot : WorkerBootId := ⟨kBootB⟩)
    (feasible : Bool := true) : RecoveryCandidate where
  candidateId := ⟨id⟩
  generation := ⟨id⟩
  strategy := strategy
  targetWorker := targetWorker
  targetBoot := targetBoot
  targetEngine := ⟨1⟩
  targetEngineIncarnation := ⟨1⟩
  sourceWorker := ⟨kWorkerA⟩
  stateSource := ⟨5000⟩
  stateGeneration := ⟨1⟩
  checkpointSource := ⟨9000⟩
  state := some
    { evidenceMeta := { currentMeta .measured with confidence := ⟨10000⟩ }
      stateId := ⟨5000⟩
      stateGeneration := ⟨1⟩
      workloadGeneration := ⟨1⟩
      integrity := .valid
      isDurable := true }
  compatibility := some
    { evidenceMeta := currentMeta .reported
      compatibilityGeneration := ⟨1⟩
      result := .exact
      subjectIdentity := text "workload:v1"
      stateFormat := text "workerB" }
  availability := some
    { evidenceMeta := currentMeta .measured
      worker := targetWorker
      boot := targetBoot
      engineIncarnation := ⟨1⟩
      isAlive := true
      readiness := if feasible then .ready else .notReady }
  resource := some
    { evidenceMeta := currentMeta .measured
      generation := ⟨1⟩
      resourceKind := text "gpu_mem"
      required := some 512
      available := some 100000
      status := .available }
  topology := some
    { evidenceMeta := currentMeta .measured
      generation := ⟨1⟩
      pathPossible := true
      source := text "workerA"
      destination := text "workerB" }
  shadow := some
    { evidenceMeta := currentMeta .measured
      lag := ⟨25⟩
      readiness := if scenario = text "SHADOW" then .ready else .notReady
      compatibility := .exact }
  cost := some (scenarioCost strategy scenario)
  authority := some
    { evidenceMeta := { currentMeta .measured with confidence := ⟨10000⟩ }
      coordinatorEpoch := ⟨1⟩
      policyGeneration := ⟨1⟩ }

/-- How the process ends, if it does: a RecoveryError that nobody catches or another exception
ends it too. -/
inductive ProcessEnd where
  | exit (code : Nat)
  | aborts (e : RecoveryError)
  | terminates (what : Str)
  | waits
  deriving DecidableEq

/-- `recv` of the coordinator: what it leaves in the message, whether it works or not. -/
def recvMsg (l : Link) (call : RecvCall) (m : Msg) : Except ProcessEnd (Msg × Link) :=
  match l.recv call with
  | (.waits,_) => .error .waits
  | (.throws what,_) => .error (.terminates what)
  | (.failed,l) => .ok (m,l)
  | (.payload p,l) => .ok (((decodeInto p.val m).map Prod.snd).getD m,l)

/-- `send` of the coordinator, whose result nobody looks at. -/
def sendMsg (l : Link) (works : Bool) (m : Msg) : Link := (l.send works (encode m)).2

inductive DispatchResult where
  | returns (p : RecoveryPlan)
  | throws (e : RecoveryError)
  | breaks (what : Str)
  | waits
  deriving DecidableEq

/-- `dispatch_plan` with the network executor while nobody else calls the planner. -/
def Impl.dispatchOver (im : Impl) (now : Timestamp) (plan : RecoveryPlan) (l : Link)
    (calls : SocketCalls) : DispatchResult × Impl × Link :=
  match im.dispatchBegin now plan with
  | (.error e,im) => (.throws e,im,l)
  | (.ok d,im) =>
    match networkDispatch l calls now d with
    | (.waits,l) => (.waits,im,l)
    | (.throws what,l) => (.breaks what,im,l)
    | (.returns x,l) =>
      let im := match x.completion with
        | none => im
        | some c => im.onAdapterCompletion now d.dispatchId c.outcome
      match im.dispatchEnd now plan.planId x.receipt.status with
      | (.error e,im) => (.throws e,im,l)
      | (.ok p,im) => (.returns p,im,l)

structure Driven where
  auth : RecoveryPlan
  dispatched : RecoveryPlan
  planner : Impl
  link : Link

/-- The calls that both proofs make on their planners, at time 0: plan, check the strategy,
authorize and dispatch. The codes are those for no plan, another strategy and no success. -/
def drive (std : StdSort) (planner : Impl) (req : RecoveryRequest)
    (candidates : List RecoveryCandidate) (expected : RecoveryStrategy)
    (noPlan otherStrategy noSuccess : Nat) (l : Link) (calls : SocketCalls) :
    Except ProcessEnd Driven :=
  match planner.plan std ⟨0⟩ req candidates with
  | (decision,planner) =>
    match decision.plan with
    | none => .error (.exit noPlan)
    | some p =>
      if p.strategy ≠ expected then .error (.exit otherStrategy)
      else
        match planner.authorizePlan ⟨0⟩ p with
        | (.error e,_) => .error (.aborts e)
        | (.ok auth,planner) =>
          match planner.dispatchOver ⟨0⟩ auth l calls with
          | (.throws e,_,_) => .error (.aborts e)
          | (.breaks what,_,_) => .error (.terminates what)
          | (.waits,_,_) => .error .waits
          | (.returns dispatched,planner,l) =>
            if dispatched.state ≠ .succeeded then .error (.exit noSuccess)
            else .ok ⟨auth,dispatched,planner,l⟩

def proofRequest (reason : Str) : RecoveryRequest where
  requestId := ⟨1⟩
  workload := ⟨1⟩
  workloadGeneration := ⟨1⟩
  execution := ⟨1⟩
  executionGeneration := ⟨1⟩
  failure := ⟨1⟩
  reason := reason
  coordinatorEpoch := ⟨1⟩
  policyGeneration := ⟨1⟩
  topologyGeneration := ⟨1⟩
  requestedAt := ⟨0⟩

def Impl.stillSucceeded (planner : Impl) (planId : RecoveryPlanId) : Bool :=
  planner.plans.values.all (fun p => !(p.planId = planId && p.state ≠ .succeeded))

/-- An accepted connection, and whether the process that is to be killed is behind it. -/
structure Peer where
  link : Link
  doomed : Bool
  deriving DecidableEq

def Peer.afterKill (p : Peer) : Link :=
  if p.doomed then { p.link with running := false } else p.link

/-- What the operating system and the network do in a run of the RESTORE, RECOMPUTE or SHADOW
proof, call by call. A missing connection is an `accept` that failed. -/
structure Host where
  binds : Bool := true
  spawnsA : Bool := true
  spawnsB : Bool := true
  first : Option Peer
  second : Option Peer
  registersA : RecvCall := .works
  registersB : RecvCall := .works
  runsA : Bool := true
  doneA : RecvCall := .works
  runsB : Bool := true
  doneB : RecvCall := .works
  dispatch : SocketCalls := {}

def runMsg (work : UInt64) : Msg := { type := .run, a := work, b := kProgress }

/-- Up to the death of worker A; what is left is the connection that was accepted second. -/
def Host.welcome (h : Host) (scenario : Str) : Except ProcessEnd Link :=
  if !h.binds then .error (.exit 2)
  else if !h.spawnsA then .error (.exit 3)
  else if !h.spawnsB then .error (.exit 4)
  else
    match h.first,h.second with
    | some ca,some cb => do
      let (regA,la) ← recvMsg ca.link h.registersA {}
      let (regB,lb) ← recvMsg cb.link h.registersB {}
      if regA.type ≠ .register ∨ regB.type ≠ .register then .error (.exit 6)
      else do
        let (doneA,_) ← recvMsg (sendMsg la h.runsA (runMsg 1)) h.doneA {}
        if doneA.type ≠ .workDone then .error (.exit 7)
        else if scenario = text "SHADOW" then do
          let (_,lb) ← recvMsg (sendMsg lb h.runsB (runMsg 2)) h.doneB {}
          .ok ({ cb with link := lb } : Peer).afterKill
        else .ok ({ cb with link := lb } : Peer).afterKill
    | _,_ => .error (.exit 5)

def proofPlanner : Impl :=
  (((Impl.construct true).registerWorker ⟨kWorkerB⟩ ⟨kBootB⟩).setResource (text "gpu_mem")
    100000).setRecomputeAvailable ⟨1⟩ true

def scenarioRequest (scenario : Str) : RecoveryRequest :=
  { proofRequest (text "primary worker lost") with
    recoveryDeadline := if scenario = text "RECOMPUTE" then some ⟨10000⟩ else none }

def scenarioCandidates (scenario : Str) : List RecoveryCandidate :=
  [buildCandidate .restore 11 scenario,buildCandidate .recompute 12 scenario,
   buildCandidate .shadowPromote 13 scenario,buildCandidate .restart 14 scenario]

def expectedStrategy (scenario : Str) : RecoveryStrategy :=
  if scenario = text "RESTORE" then .restore
  else if scenario = text "RECOMPUTE" then .recompute
  else .shadowPromote

def staleReport (planner : Impl) (dispatched : RecoveryPlan) : Impl :=
  planner.reportExecution ⟨0⟩
    { planId := dispatched.planId, planGeneration := dispatched.generation
      reporterBoot := ⟨kBootA⟩, outcome := .succeeded }

/-- `main` for any scenario but RESTART, and whether it prints that the stale report was
rejected, which does not show in the exit code. -/
def runScenario (std : StdSort) (scenario : Str) (h : Host) : ProcessEnd × Option Bool :=
  match h.welcome scenario with
  | .error e => (e,none)
  | .ok cb =>
    match drive std proofPlanner (scenarioRequest scenario) (scenarioCandidates scenario)
      (expectedStrategy scenario) 8 9 10 cb h.dispatch with
    | .error e => (e,none)
    | .ok d => (.exit 0,some ((staleReport d.planner d.dispatched).stillSucceeded
        d.dispatched.planId))

/-- What happens to a run of the RESTART proof. The second worker is started when the first is
dead. -/
structure RestartHost where
  binds : Bool := true
  spawnsA : Bool := true
  first : Option Link
  registersA : RecvCall := .works
  runsA : Bool := true
  doneA : RecvCall := .works
  spawnsC : Bool := true
  fresh : Option Link
  registersC : RecvCall := .works
  dispatch : SocketCalls := {}
  again : SocketCalls := {}

def RestartHost.welcome (h : RestartHost) : Except ProcessEnd Link :=
  if !h.binds then .error (.exit 2)
  else if !h.spawnsA then .error (.exit 3)
  else
    match h.first with
    | none => .error (.exit 4)
    | some ca => do
      let (regA,la) ← recvMsg ca h.registersA {}
      if regA.type ≠ .register then .error (.exit 5)
      else do
        let (doneA,_) ← recvMsg (sendMsg la h.runsA (runMsg 1)) h.doneA {}
        if doneA.type ≠ .workDone then .error (.exit 6)
        else if !h.spawnsC then .error (.exit 7)
        else
          match h.fresh with
          | none => .error (.exit 8)
          | some cc => do
            let (regC,lc) ← recvMsg cc h.registersC {}
            if regC.type ≠ .register ∨ regC.a ≠ kWorkerA ∨ regC.b ≠ kBootC then .error (.exit 9)
            else .ok lc

def restartPlanner : Impl :=
  ((Impl.construct true).registerWorker ⟨kWorkerA⟩ ⟨kBootC⟩).setResource (text "gpu_mem") 100000

def restartRequest : RecoveryRequest :=
  proofRequest (text "primary worker lost; no usable recovery state")

def restartCandidates : List RecoveryCandidate :=
  [buildCandidate .restore 11 (text "RESTART") ⟨kWorkerA⟩ ⟨kBootA⟩ false,
   buildCandidate .recompute 12 (text "RESTART") ⟨kWorkerA⟩ ⟨kBootA⟩ false,
   buildCandidate .shadowPromote 13 (text "RESTART") ⟨kWorkerA⟩ ⟨kBootA⟩ false,
   buildCandidate .restart 14 (text "RESTART") ⟨kWorkerA⟩ ⟨kBootC⟩ true]

/-- The stale traffic at the end: a report under the old boot, a completion of a dispatch that
was never made, the plan dispatched again and a late failure. Only a RecoveryError of the
dispatch is caught. -/
def staleTraffic (d : Driven) (again : SocketCalls) : ProcessEnd :=
  let dispatched := d.dispatched
  let planner := staleReport d.planner dispatched
  let bootRejected := planner.stillSucceeded dispatched.planId
  let planner := planner.onAdapterCompletion ⟨0⟩ ⟨999999⟩ .succeeded
  let attemptRejected := planner.stillSucceeded dispatched.planId
  match planner.dispatchOver ⟨0⟩ d.auth d.link again with
  | (.waits,_,_) => .waits
  | (.breaks what,_,_) => .terminates what
  | (r,planner,_) =>
    let dispatchRejected := match r with
      | .throws _ => true
      | _ => false
    let planner := planner.reportExecution ⟨0⟩
      { planId := dispatched.planId, planGeneration := dispatched.generation
        reporterBoot := ⟨kBootC⟩, outcome := .failed }
    let completionRejected := planner.stillSucceeded dispatched.planId
    if !bootRejected || !attemptRejected || !dispatchRejected || !completionRejected then .exit 13
    else .exit 0

def runRestartProof (std : StdSort) (h : RestartHost) : ProcessEnd :=
  match h.welcome with
  | .error e => e
  | .ok cc =>
    match drive std restartPlanner restartRequest restartCandidates .restart 10 11 12 cc
      h.dispatch with
    | .error e => e
    | .ok d => staleTraffic d h.again

/-- The scenario that the arguments name, the last one if there are several. -/
def scenarioOf (scenario : Str) : List Str → Str
  | flag :: value :: rest =>
    if flag = text "--scenario" then scenarioOf value rest
    else scenarioOf scenario (value :: rest)
  | _ => scenario

def coordinatorMain (std : StdSort) (args : List Str) (h : Host) (r : RestartHost) : ProcessEnd :=
  let scenario := scenarioOf (text "RESTORE") args
  if scenario = text "RESTART" then runRestartProof std r else (runScenario std scenario h).1

/-! The dispatch over a connection. -/

def Link.Confirms (l : Link) (calls : SocketCalls) : Prop :=
  calls.sends = true ∧ calls.receives = .works ∧
    match l.queue with
    | [] => l.running = true
    | resp :: _ => ∃ c, accept resp.val = some c ∧ c.outcome = .succeeded

theorem accept_outcome {resp : Bytes} {c : Completion} (h : accept resp = some c) :
    c.outcome = .succeeded ∨ c.outcome = .failed := by
  unfold accept at h
  split at h
  · exact nomatch h
  · split at h
    · exact nomatch h
    · obtain rfl := Option.some.inj h
      dsimp only
      split
      · exact .inl rfl
      · exact .inr rfl

theorem networkDispatch_receipt {l : Link} {calls : SocketCalls} {now : Timestamp}
    {d : RecoveryDispatch} {x : Executed} (h : (networkDispatch l calls now d).1 = .returns x) :
    match x.completion with
    | none => x.receipt.status ≠ .dispatched
    | some c => x.receipt.status = .dispatched ∧ (c.outcome = .succeeded ∨ c.outcome = .failed) := by
  unfold networkDispatch at h
  split at h
  · obtain rfl := ExecutorEnd.returns.inj h
    exact nofun
  · split at h
    · exact nomatch h
    · exact nomatch h
    · obtain rfl := ExecutorEnd.returns.inj h
      exact nofun
    · split at h
      · obtain rfl := ExecutorEnd.returns.inj h
        exact nofun
      · rename_i c hacc
        obtain rfl := ExecutorEnd.returns.inj h
        exact ⟨rfl,accept_outcome hacc⟩

theorem Link.recv_throws {l : Link} {call : RecvCall} {what : Str}
    (h : (l.recv call).1 = .throws what) : call = .garbled what := by
  cases call with
  | works =>
    unfold recv at h
    cases hq : l.queue with
    | nil => cases hr : l.running <;> simp [hq,hr] at h
    | cons p ps => simp [hq] at h
  | fails => exact nomatch h
  | garbled what' => rw [Received.throws.inj h]

theorem networkDispatch_throws {l : Link} {calls : SocketCalls} {now : Timestamp}
    {d : RecoveryDispatch} {what : Str} (h : (networkDispatch l calls now d).1 = .throws what) :
    calls.receives = .garbled what := by
  unfold networkDispatch at h
  split at h
  · exact nomatch h
  · split at h
    · exact nomatch h
    · rename_i l' _ hrecv
      obtain rfl := ExecutorEnd.throws.inj h
      exact Link.recv_throws (congrArg Prod.fst hrecv)
    · exact nomatch h
    · split at h <;> exact nomatch h

theorem Link.confirms_iff {l : Link} {calls : SocketCalls} {now : Timestamp}
    {d : RecoveryDispatch} (h : d.payload.length ≤ 4096) :
    l.Confirms calls ↔ ∃ x c, (networkDispatch l calls now d).1 = .returns x ∧
      x.completion = some c ∧ c.outcome = .succeeded := by
  have hreports := @networkDispatch_reports l calls now d h
  constructor
  · rintro ⟨hs,hr,hq⟩
    cases hqueue : l.queue with
    | nil =>
      rw [hqueue] at hq
      simp only [hqueue] at hreports
      obtain ⟨x,hx,hc⟩ := (hreports _).mpr ⟨hs,hr,hq,rfl⟩
      exact ⟨x,_,hx,hc,rfl⟩
    | cons resp queue =>
      rw [hqueue] at hq
      simp only [hqueue] at hreports
      obtain ⟨c,hacc,ho⟩ := hq
      obtain ⟨x,hx,hc⟩ := (hreports c).mpr ⟨hs,hr,hacc⟩
      exact ⟨x,c,hx,hc,ho⟩
  · rintro ⟨x,c,hx,hc,ho⟩
    obtain ⟨hs,hr,hq⟩ := (hreports c).mp ⟨x,hx,hc⟩
    refine ⟨hs,hr,?_⟩
    cases hqueue : l.queue with
    | nil =>
      rw [hqueue] at hq
      exact hq.1
    | cons resp queue =>
      rw [hqueue] at hq
      exact ⟨c,hq,ho⟩

/-- One dispatch of an AUTHORIZED plan on a planner with no other dispatch about: the plan
becomes SUCCEEDED exactly on a confirmation, and is returned as it is then stored. -/
theorem Impl.dispatchOver_spec {im : Impl} {plan p : RecoveryPlan} (hmeta : im.dispatchMeta = .empty)
    (hk : im.plans.find? plan.planId.value = some p) (hid : p.planId = plan.planId)
    (hs : p.state = .authorized) (hcur : AuthorityCurrent p im.ctx)
    (hpay : p.dispatchPayload.length ≤ 4096) (now : Timestamp) (l : Link) (calls : SocketCalls) :
    (l.Confirms calls ∧ ∃ l', im.dispatchOver now plan l calls =
      (.returns (p.completed now now .succeeded),
        im.putPlan plan.planId.value (p.completed now now .succeeded),l')) ∨
    (¬ l.Confirms calls ∧ ((im.dispatchOver now plan l calls).1 = .waits ∨
      (∃ what, calls.receives = .garbled what ∧
        (im.dispatchOver now plan l calls).1 = .breaks what) ∨
      ∃ q, (im.dispatchOver now plan l calls).1 = .returns q ∧ q.state = .failed)) := by
  have hbegin : im.dispatchBegin now plan =
      (.ok (.ofPlan (p.dispatched now)),im.handOff plan.planId.value p now) := by
    rcases im.dispatchBegin_spec now plan with ⟨e,he⟩ | ⟨p',hk',_,_,hd⟩
    · obtain ⟨d,hd⟩ := Impl.dispatchBegin_ok_iff.mpr ⟨p,hk,hs,hcur⟩
      rw [he] at hd
      exact nomatch hd
    · obtain rfl := Option.some.inj (hk.symm.trans hk')
      exact hd
  have hiff := @Link.confirms_iff l calls now (.ofPlan (p.dispatched now)) hpay
  have hreceipt := @networkDispatch_receipt l calls now (.ofPlan (p.dispatched now))
  have hthrows := @networkDispatch_throws l calls now (.ofPlan (p.dispatched now))
  simp only [dispatchOver,hbegin]
  cases hx : networkDispatch l calls now (.ofPlan (p.dispatched now)) with
  | mk x l' =>
    rw [hx] at hiff hreceipt hthrows
    cases x with
    | waits =>
      refine .inr ⟨fun h => ?_,.inl rfl⟩
      obtain ⟨x,_,hx,_⟩ := hiff.mp h
      exact nomatch hx
    | throws what =>
      refine .inr ⟨fun h => ?_,.inr (.inl ⟨what,hthrows rfl,rfl⟩)⟩
      obtain ⟨x,_,hx,_⟩ := hiff.mp h
      exact nomatch hx
    | returns x =>
      have hreceipt := hreceipt rfl
      cases hc : x.completion with
      | none =>
        rw [hc] at hreceipt
        refine .inr ⟨fun h => ?_,.inr (.inr ?_)⟩
        · obtain ⟨_,c,hx,hc',_⟩ := hiff.mp h
          obtain rfl := ExecutorEnd.returns.inj hx
          exact nomatch hc.symm.trans hc'
        · have hk' : (im.handOff plan.planId.value p now).plans.find? plan.planId.value =
              some (p.dispatched now) := by
            show (im.plans.insert _ _).find? _ = _
            rw [SortedMap.find?_insert,if_pos rfl]
          simp only [hc,dispatchEnd_eq hk']
          refine ⟨_,rfl,?_⟩
          have hv : validatePlanTransition (p.dispatched now).state .failed = true := rfl
          simp [settleReceipt,hreceipt,hv]
      | some c =>
        rw [hc] at hreceipt
        obtain ⟨hstatus,ho⟩ := hreceipt
        have hdecl : c.outcome.declared = true := by rcases ho with ho | ho <;> rw [ho] <;> rfl
        have hdone : (im.handOff plan.planId.value p now).onAdapterCompletion now
            (RecoveryDispatch.ofPlan (p.dispatched now)).dispatchId c.outcome =
            (im.putPlan plan.planId.value (p.dispatched now)).reportExecution now
              ⟨⟨p.lastAttempt.value+1⟩,p.planId,p.generation,p.targetBoot,c.outcome⟩ := by
          have htaken := @handOff_taken im plan.planId.value p now hmeta c.outcome
          unfold onAdapterCompletion
          rw [show (RecoveryDispatch.ofPlan (p.dispatched now)).dispatchId =
            ⟨p.lastAttempt.value+1⟩ from rfl,htaken]
        simp only [hc,hdone,hstatus,handOff_completed hid now now now _ hdecl]
        rcases ho with ho | ho
        · refine .inl ⟨hiff.mpr ⟨x,c,rfl,hc,ho⟩,l',?_⟩
          rw [ho]
        · refine .inr ⟨fun h => ?_,.inr (.inr ⟨_,rfl,?_⟩)⟩
          · obtain ⟨_,c',hx,hc',ho'⟩ := hiff.mp h
            obtain rfl := ExecutorEnd.returns.inj hx
            obtain rfl := Option.some.inj (hc.symm.trans hc')
            rw [ho] at ho'
            exact nomatch ho'
          · rw [ho]
            rfl

theorem best_eq {std : StdSort} {ctx : PlannerContext} {request : RecoveryRequest}
    {now : Timestamp} {cs : List RecoveryCandidate} {keep : RecoveryCandidate → Bool}
    {c : RecoveryCandidate} (hc : c ∈ cs.filter keep)
    (h : ∀ x ∈ cs.filter keep, x = c ∨ precedes request now c x = true) :
    best std ctx request now cs keep = c := by
  have hfirst := @best_isFirst ctx request now cs keep std (List.ne_nil_of_mem hc)
  rcases h _ hfirst.mem with heq | hlt
  · exact heq
  · rw [hfirst.first c hc] at hlt
    exact nomatch hlt

/-- The process comes to no exit: it waits for ever, or a malformed frame ends it that `Came`
tells of. -/
def Halts (Came : Str → Prop) : ProcessEnd → Prop
  | .waits => True
  | .terminates what => Came what
  | _ => False

theorem Halts.imp {Came Came' : Str → Prop} (h : ∀ what, Came what → Came' what)
    {e : ProcessEnd} (he : Halts Came e) : Halts Came' e := by
  cases e with
  | terminates what => exact h what he
  | _ => exact he

structure Driven.Succeeded (d : Driven) (boot : WorkerBootId) : Prop where
  planId : d.auth.planId = d.dispatched.planId
  stored : d.planner.plans.find? d.auth.planId.value = some d.dispatched
  state : d.dispatched.state = .succeeded
  boot : d.dispatched.targetBoot = boot
  keyed : Impl.Keyed d.planner.plans
  metas : d.planner.dispatchMeta = .empty

/-- A planner without any plans yet, one candidate that precedes the others and the strategy
expected of it: all that can go wrong is the dispatch. -/
theorem drive_spec (std : StdSort) {planner : Impl} {req : RecoveryRequest}
    {cs : List RecoveryCandidate} {c : RecoveryCandidate} (hplans : planner.plans = .empty)
    (hmeta : planner.dispatchMeta = .empty)
    (hmem : c ∈ cs.filter (eligible planner.ctx req ⟨0⟩))
    (hfirst : ∀ x ∈ cs.filter (eligible planner.ctx req ⟨0⟩), x = c ∨ precedes req ⟨0⟩ c x = true)
    (hcur : TargetCurrent planner.ctx req c) (noPlan otherStrategy noSuccess : Nat)
    (expected : RecoveryStrategy) (l : Link) (calls : SocketCalls) :
    let r := drive std planner req cs expected noPlan otherStrategy noSuccess l calls
    if c.strategy ≠ expected then r = .error (.exit otherStrategy)
    else (l.Confirms calls ∧ ∃ d, r = .ok d ∧ d.Succeeded c.targetBoot) ∨
      (¬ l.Confirms calls ∧ ∃ e, r = .error e ∧
        (e = .exit noSuccess ∨ Halts (fun what => calls.receives = .garbled what) e)) := by
  intro r
  have hE := List.ne_nil_of_mem hmem
  obtain ⟨_,⟨e,hp⟩,_⟩ := planner.plan_found std ⟨0⟩ req cs hE
  rw [best_eq hmem hfirst] at hp
  have hpl := Impl.plan_planned hp
  have hfence := (planner.planFor_current_iff req ⟨0⟩ c e).mpr hcur
  have hstrategy : ((planner.planFor req ⟨0⟩ c).explained e).strategy = c.strategy := rfl
  have hboot : ((planner.planFor req ⟨0⟩ c).explained e).targetBoot = c.targetBoot := rfl
  have hpay : ((planner.planFor req ⟨0⟩ c).explained e).dispatchPayload.length ≤ 4096 :=
    (buildPayload_plain c).shortStr_iff.mp (buildPayload_short c)
  generalize (planner.planFor req ⟨0⟩ c).explained e = p at hp hpl hfence hstrategy hboot hpay
  have hr : r = drive std planner req cs expected noPlan otherStrategy noSuccess l calls := rfl
  generalize hplan : planner.plan std ⟨0⟩ req cs = planned at hp hpl
  obtain ⟨decision,im⟩ := planned
  simp only [drive,hplan,show decision.plan = some p from hp,hstrategy] at hr
  split
  · rename_i hne
    rw [hr,if_pos hne]
  · rename_i heq
    rw [if_neg heq] at hr
    set auth : RecoveryPlan := { p with state := .authorized, updatedAt := ⟨0⟩ } with hauth
    have hcurrent : planAuthorityCurrent p im.ctx = true := by
      rw [hpl.ctx]
      exact (planAuthorityCurrent_iff _ _).mpr hfence
    have hv : validatePlanTransition p.state .authorized = true := by rw [hpl.fresh.state]; rfl
    have hok : im.authorizePlan ⟨0⟩ p = (.ok auth,im.putPlan p.planId.value auth) := by
      unfold Impl.authorizePlan
      simp [hpl.find?_new,hcurrent,hv,hauth]
    have hkeyed : Impl.Keyed (im.putPlan p.planId.value auth).plans := by
      intro k q hq
      have hq : (im.plans.insert p.planId.value auth).find? k = some q := hq
      rw [SortedMap.find?_insert] at hq
      split at hq
      · rename_i hk
        obtain rfl := Option.some.inj hq
        exact hk.symm
      · rename_i hk
        rw [hpl.find?_old hk,hplans,SortedMap.find?_empty] at hq
        exact nomatch hq
    have hkauth : (im.putPlan p.planId.value auth).plans.find? auth.planId.value = some auth := by
      show (im.plans.insert _ _).find? _ = _
      rw [SortedMap.find?_insert,if_pos rfl]
    have hmeta' : (im.putPlan p.planId.value auth).dispatchMeta = .empty :=
      hpl.dispatchMeta.trans hmeta
    have hcur' : AuthorityCurrent auth (im.putPlan p.planId.value auth).ctx := by
      show AuthorityCurrent auth im.ctx
      rw [hpl.ctx]
      exact ⟨hfence.1,hfence.2,hfence.3,hfence.4,hfence.5,hfence.6,hfence.7,hfence.8⟩
    simp only [hok] at hr
    rcases Impl.dispatchOver_spec hmeta' hkauth rfl rfl hcur' hpay ⟨0⟩ l calls with
      ⟨hconf,l',hd⟩ | ⟨hconf,hd | ⟨what,hcame,hd⟩ | ⟨q,hd,hq⟩⟩
    · rw [hd] at hr
      refine .inl ⟨hconf,_,hr,rfl,?_,rfl,hboot,?_,hmeta'⟩
      · show (SortedMap.insert _ _ _).find? _ = _
        rw [SortedMap.find?_insert,if_pos rfl]
      · intro k q hq
        have hq : ((im.putPlan p.planId.value auth).plans.insert auth.planId.value
          (auth.completed ⟨0⟩ ⟨0⟩ .succeeded)).find? k = some q := hq
        rw [SortedMap.find?_insert] at hq
        split at hq
        · rename_i hk
          obtain rfl := Option.some.inj hq
          exact hk.symm
        · exact hkeyed k q hq
    · refine .inr ⟨hconf,.waits,?_,.inr trivial⟩
      generalize (im.putPlan p.planId.value auth).dispatchOver ⟨0⟩ auth l calls = x at hd hr
      obtain ⟨x,im',l'⟩ := x
      obtain rfl : x = .waits := hd
      exact hr
    · refine .inr ⟨hconf,.terminates what,?_,.inr hcame⟩
      generalize (im.putPlan p.planId.value auth).dispatchOver ⟨0⟩ auth l calls = x at hd hr
      obtain ⟨x,im',l'⟩ := x
      obtain rfl : x = .breaks what := hd
      exact hr
    · refine .inr ⟨hconf,.exit noSuccess,?_,.inl rfl⟩
      generalize (im.putPlan p.planId.value auth).dispatchOver ⟨0⟩ auth l calls = x at hd hr
      obtain ⟨x,im',l'⟩ := x
      obtain rfl : x = .returns q := hd
      simpa [hq] using hr

namespace Driven

variable {d : Driven} {boot : WorkerBootId}

theorem Succeeded.reportExecution (h : d.Succeeded boot) (now : Timestamp) {r : ExecutionReport}
    (hr : r.planId = d.dispatched.planId) : d.planner.reportExecution now r = d.planner := by
  have hstored := h.stored
  rw [h.planId] at hstored
  unfold Impl.reportExecution
  simp [hr,hstored,h.state,PlanLifecycleState.terminal]

theorem Succeeded.stillSucceeded (h : d.Succeeded boot) :
    d.planner.stillSucceeded d.dispatched.planId = true := by
  refine List.all_eq_true.mpr fun p hp => ?_
  obtain ⟨k,hk⟩ := d.planner.plans.mem_values.mp hp
  by_cases hid : p.planId = d.dispatched.planId
  · have hkey : k = d.auth.planId.value := by rw [← h.keyed k p hk,hid,h.planId]
    rw [hkey,h.stored] at hk
    obtain rfl := Option.some.inj hk
    simp [h.state]
  · simp [hid]

theorem Succeeded.staleTraffic (h : d.Succeeded boot) (again : SocketCalls) :
    RecoveryPlanner.staleTraffic d again = .exit 0 := by
  have hboot : staleReport d.planner d.dispatched = d.planner := h.reportExecution _ rfl
  have hattempt : d.planner.onAdapterCompletion ⟨0⟩ ⟨999999⟩ .succeeded = d.planner :=
    Impl.onAdapterCompletion_unknown (by rw [h.metas]; rfl) _ _
  have hthrown : ∃ e, d.planner.dispatchOver ⟨0⟩ d.auth d.link again =
      (.throws e,d.planner,d.link) := by
    rcases d.planner.dispatchBegin_spec ⟨0⟩ d.auth with ⟨e,he⟩ | ⟨p,hk,hs,_⟩
    · exact ⟨e,by rw [Impl.dispatchOver,he]⟩
    · rw [h.stored] at hk
      obtain rfl := Option.some.inj hk
      rw [h.state] at hs
      exact nomatch hs
  obtain ⟨e,hthrown⟩ := hthrown
  have hlate : d.planner.reportExecution ⟨0⟩
      { planId := d.dispatched.planId, planGeneration := d.dispatched.generation
        reporterBoot := ⟨kBootC⟩, outcome := .failed } = d.planner := h.reportExecution _ rfl
  simp only [RecoveryPlanner.staleTraffic,hboot,hattempt,hthrown,hlate,h.stillSucceeded]
  rfl

end Driven

def Ends {ε α : Type} (P : ε → Prop) (Q : α → Prop) : Except ε α → Prop
  | .error e => P e
  | .ok a => Q a

section Ends

variable {ε α β : Type} {P : ε → Prop} {Q : α → Prop}

theorem Ends.of_error {x : Except ε α} (h : Ends P Q x) {e : ε} (he : x = .error e) : P e := by
  rw [he] at h
  exact h

theorem Ends.of_ok {x : Except ε α} (h : Ends P Q x) {a : α} (ha : x = .ok a) : Q a := by
  rw [ha] at h
  exact h

theorem Ends.bind {R : β → Prop} {x : Except ε β} {f : β → Except ε α} (hx : Ends P R x)
    (hf : ∀ b, R b → Ends P Q (f b)) : Ends P Q (x >>= f) := by
  cases x with
  | error e => exact hx
  | ok b => exact hf b hx

theorem Ends.ite {c : Prop} [Decidable c] {x y : Except ε α} (hx : Ends P Q x)
    (hy : Ends P Q y) : Ends P Q (if c then x else y) := by
  split
  · exact hx
  · exact hy

end Ends

theorem recvMsg_ends {l : Link} {call : RecvCall} {m : Msg} :
    Ends (Halts (fun what => call = .garbled what)) (fun _ => True) (recvMsg l call m) := by
  unfold recvMsg
  split
  · trivial
  · rename_i hrecv
    exact Link.recv_throws (congrArg Prod.fst hrecv)
  · trivial
  · trivial

def Admission (first last : Nat) (Came : Str → Prop) : ProcessEnd → Prop
  | .waits => True
  | .terminates what => Came what
  | .exit n => first ≤ n ∧ n ≤ last
  | .aborts _ => False

theorem recvMsg_admission {l : Link} {call : RecvCall} {m : Msg} {Came : Str → Prop}
    (h : ∀ what, call = .garbled what → Came what) (first last : Nat) :
    Ends (Admission first last Came) (fun _ => True) (recvMsg l call m) := by
  have hends := @recvMsg_ends l call m
  cases hr : recvMsg l call m with
  | error e =>
    have he := hends.of_error hr
    cases e with
    | waits => trivial
    | terminates what => exact h what he
    | exit n => exact he.elim
    | aborts e => exact he.elim
  | ok r => trivial

def Host.Garbles (h : Host) (what : Str) : Prop :=
  h.registersA = .garbled what ∨ h.registersB = .garbled what ∨ h.doneA = .garbled what ∨
    h.doneB = .garbled what ∨ h.dispatch.receives = .garbled what

def RestartHost.Garbles (h : RestartHost) (what : Str) : Prop :=
  h.registersA = .garbled what ∨ h.doneA = .garbled what ∨ h.registersC = .garbled what ∨
    h.dispatch.receives = .garbled what

theorem Host.welcome_ends (h : Host) (scenario : Str) :
    Ends (Admission 2 7 h.Garbles) (fun _ => True) (h.welcome scenario) := by
  have exits : ∀ {α : Type} (n : Nat), 2 ≤ n → n ≤ 7 →
      Ends (Admission 2 7 h.Garbles) (fun _ => True) (.error (.exit n) : Except ProcessEnd α) :=
    fun n h1 h2 => ⟨h1,h2⟩
  have receives : ∀ {l : Link} {call : RecvCall} {m : Msg},
      (∀ what, call = .garbled what → h.Garbles what) →
      Ends (Admission 2 7 h.Garbles) (fun _ => True) (recvMsg l call m) :=
    fun hcall => recvMsg_admission hcall 2 7
  refine .ite (exits 2 (by decide) (by decide)) (.ite (exits 3 (by decide) (by decide))
    (.ite (exits 4 (by decide) (by decide)) ?_))
  split
  · refine .bind (receives fun _ hc => .inl hc) fun a _ =>
      .bind (receives fun _ hc => .inr (.inl hc)) fun b _ =>
      .ite (exits 6 (by decide) (by decide))
        (.bind (receives fun _ hc => .inr (.inr (.inl hc))) fun c _ =>
          .ite (exits 7 (by decide) (by decide)) (.ite ?_ trivial))
    exact .bind (receives fun _ hc => .inr (.inr (.inr (.inl hc)))) fun _ _ => trivial
  · exact exits 5 (by decide) (by decide)

theorem RestartHost.welcome_ends (h : RestartHost) :
    Ends (Admission 2 9 h.Garbles) (fun _ => True) h.welcome := by
  have exits : ∀ {α : Type} (n : Nat), 2 ≤ n → n ≤ 9 →
      Ends (Admission 2 9 h.Garbles) (fun _ => True) (.error (.exit n) : Except ProcessEnd α) :=
    fun n h1 h2 => ⟨h1,h2⟩
  have receives : ∀ {l : Link} {call : RecvCall} {m : Msg},
      (∀ what, call = .garbled what → h.Garbles what) →
      Ends (Admission 2 9 h.Garbles) (fun _ => True) (recvMsg l call m) :=
    fun hcall => recvMsg_admission hcall 2 9
  refine .ite (exits 2 (by decide) (by decide)) (.ite (exits 3 (by decide) (by decide)) ?_)
  split
  · exact exits 4 (by decide) (by decide)
  · refine .bind (receives fun _ hc => .inl hc) fun a _ => .ite (exits 5 (by decide) (by decide))
      (.bind (receives fun _ hc => .inr (.inl hc)) fun b _ =>
        .ite (exits 6 (by decide) (by decide)) (.ite (exits 7 (by decide) (by decide)) ?_))
    split
    · exact exits 8 (by decide) (by decide)
    · exact .bind (receives fun _ hc => .inr (.inr (.inl hc))) fun c _ =>
        .ite (exits 9 (by decide) (by decide)) trivial

structure Picked (planner : Impl) (req : RecoveryRequest) (cs : List RecoveryCandidate)
    (c : RecoveryCandidate) : Prop where
  mem : c ∈ cs.filter (eligible planner.ctx req ⟨0⟩)
  first : ∀ x ∈ cs.filter (eligible planner.ctx req ⟨0⟩), x = c ∨ precedes req ⟨0⟩ c x = true
  current : TargetCurrent planner.ctx req c

def KnownScenario (s : Str) : Prop :=
  s = text "RESTORE" ∨ s = text "RECOMPUTE" ∨ s = text "SHADOW"

theorem scenario_known {s : Str} (h : KnownScenario s) :
    ∃ c, Picked proofPlanner (scenarioRequest s) (scenarioCandidates s) c ∧
      c.strategy = expectedStrategy s ∧ c.targetBoot = ⟨kBootB⟩ := by
  rcases h with rfl | rfl | rfl
  · exact ⟨buildCandidate .restore 11 (text "RESTORE"),⟨by decide +kernel,by decide +kernel,
      by decide +kernel,by decide +kernel,by decide +kernel⟩,by decide +kernel,rfl⟩
  · exact ⟨buildCandidate .recompute 12 (text "RECOMPUTE"),⟨by decide +kernel,by decide +kernel,
      by decide +kernel,by decide +kernel,by decide +kernel⟩,by decide +kernel,rfl⟩
  · exact ⟨buildCandidate .shadowPromote 13 (text "SHADOW"),⟨by decide +kernel,by decide +kernel,
      by decide +kernel,by decide +kernel,by decide +kernel⟩,by decide +kernel,rfl⟩

/-- A name that `main` does not know reads like no name at all: the shadow is not ready, and
recomputing is faster than restoring. -/
theorem scenario_unknown {s : Str} (h : ¬ KnownScenario s) :
    ∃ c, Picked proofPlanner (scenarioRequest s) (scenarioCandidates s) c ∧
      c.strategy ≠ expectedStrategy s := by
  simp only [KnownScenario,not_or] at h
  obtain ⟨hrestore,hrecompute,hshadow⟩ := h
  have hreq : scenarioRequest s = scenarioRequest [] := by
    rw [scenarioRequest,if_neg hrecompute]
    rfl
  have hcost (strategy : RecoveryStrategy) : scenarioCost strategy s = scenarioCost strategy [] := by
    cases strategy <;> simp only [scenarioCost,if_neg hrestore,if_neg hrecompute] <;> rfl
  have hbuild (strategy : RecoveryStrategy) (id : UInt64) :
      buildCandidate strategy id s = buildCandidate strategy id [] := by
    rw [buildCandidate,hcost,if_neg hshadow]
    rfl
  have hcs : scenarioCandidates s = scenarioCandidates [] := by
    simp only [scenarioCandidates,hbuild]
  have hexp : expectedStrategy s = .shadowPromote := by
    rw [expectedStrategy,if_neg hrestore,if_neg hrecompute]
  rw [hreq,hcs,hexp]
  exact ⟨buildCandidate .recompute 12 [],⟨by decide +kernel,by decide +kernel,
    by decide +kernel,by decide +kernel,by decide +kernel⟩,by decide +kernel⟩

theorem restart_picked : Picked restartPlanner restartRequest restartCandidates
    (buildCandidate .restart 14 (text "RESTART") ⟨kWorkerA⟩ ⟨kBootC⟩ true) :=
  ⟨by decide +kernel,by decide +kernel,by decide +kernel,by decide +kernel,by decide +kernel⟩

theorem scenario_ends (std : StdSort) (scenario : Str) (h : Host) :
    (∃ e, h.welcome scenario = .error e ∧ runScenario std scenario h = (e,none)) ∨
    ∃ cb, h.welcome scenario = .ok cb ∧
      ((¬ KnownScenario scenario ∧ runScenario std scenario h = (.exit 9,none)) ∨
       (KnownScenario scenario ∧ cb.Confirms h.dispatch ∧
        runScenario std scenario h = (.exit 0,some true)) ∨
       (KnownScenario scenario ∧ ¬ cb.Confirms h.dispatch ∧
        ∃ e, runScenario std scenario h = (e,none) ∧ (e = .exit 10 ∨ Halts h.Garbles e))) := by
  unfold runScenario
  cases hwel : h.welcome scenario with
  | error e => exact .inl ⟨e,rfl,rfl⟩
  | ok cb =>
    refine .inr ⟨cb,rfl,?_⟩
    by_cases hk : KnownScenario scenario
    · obtain ⟨c,hc,hs,_⟩ := scenario_known hk
      have hd := drive_spec std rfl rfl hc.mem hc.first hc.current 8 9 10
        (expectedStrategy scenario) cb h.dispatch
      rw [if_neg (not_not.mpr hs)] at hd
      rcases hd with ⟨hconf,d,hd,hsucc⟩ | ⟨hconf,e,hd,he⟩
      · have hstale : staleReport d.planner d.dispatched = d.planner :=
          hsucc.reportExecution _ rfl
        exact .inr (.inl ⟨hk,hconf,by simp [hd,hstale,hsucc.stillSucceeded]⟩)
      · exact .inr (.inr ⟨hk,hconf,e,by simp [hd],he.imp_right (Halts.imp fun _ hc =>
          .inr (.inr (.inr (.inr hc))))⟩)
    · obtain ⟨c,hc,hs⟩ := scenario_unknown hk
      have hd := drive_spec std rfl rfl hc.mem hc.first hc.current 8 9 10
        (expectedStrategy scenario) cb h.dispatch
      rw [if_pos hs] at hd
      exact .inl ⟨hk,by simp [hd]⟩

theorem scenario_succeeds {std : StdSort} {scenario : Str} {h : Host} :
    (runScenario std scenario h).1 = .exit 0 ↔ KnownScenario scenario ∧
      ∃ cb, h.welcome scenario = .ok cb ∧ cb.Confirms h.dispatch := by
  rcases scenario_ends std scenario h with ⟨e,hwel,hrun⟩ | ⟨cb,hwel,⟨hk,hrun⟩ |
    ⟨hk,hconf,hrun⟩ | ⟨hk,hconf,e,hrun,he⟩⟩
  · have he := (h.welcome_ends scenario).of_error hwel
    rw [hrun,hwel]
    refine iff_of_false (fun h0 => ?_) (by simp)
    have h0 : e = .exit 0 := h0
    rw [h0] at he
    exact absurd he.1 (by decide)
  · simp [hrun,hk]
  · simp [hrun,hk,hwel,hconf]
  · have hne : e ≠ .exit 0 := by
      rintro rfl
      exact he.elim nofun id
    simp [hrun,hwel,hconf,hne]

/-- Whoever is at the other ends and whatever the sockets do: the coordinator succeeds exactly
with a scenario that it knows and a worker that confirms, it never fails to find a plan, an
unknown name is not noticed before the planner has chosen another strategy, and no exception
leaves it but the one that a malformed frame raises. -/
theorem runScenario_exits (std : StdSort) (scenario : Str) (h : Host) :
    ((runScenario std scenario h).1 = .exit 0 ↔ KnownScenario scenario ∧
      ∃ cb, h.welcome scenario = .ok cb ∧ cb.Confirms h.dispatch) ∧
    ((runScenario std scenario h).1 = .exit 9 ↔ ¬ KnownScenario scenario ∧
      ∃ cb, h.welcome scenario = .ok cb) ∧
    ((runScenario std scenario h).1 = .exit 0 → (runScenario std scenario h).2 = some true) ∧
    (runScenario std scenario h).1 ≠ .exit 8 ∧
    (∀ e, (runScenario std scenario h).1 ≠ .aborts e) ∧
    ∀ what, (runScenario std scenario h).1 = .terminates what → h.Garbles what := by
  refine ⟨scenario_succeeds,?_⟩
  rcases scenario_ends std scenario h with ⟨e,hwel,hrun⟩ | ⟨cb,hwel,⟨hk,hrun⟩ |
    ⟨hk,hconf,hrun⟩ | ⟨hk,hconf,e,hrun,he⟩⟩
  · have he := (h.welcome_ends scenario).of_error hwel
    rw [hrun,hwel]
    cases e with
    | exit n =>
      obtain ⟨h2,h7⟩ : 2 ≤ n ∧ n ≤ 7 := he
      have h0 : n ≠ 0 := by omega
      have h8 : n ≠ 8 := by omega
      have h9 : n ≠ 9 := by omega
      simp [h0,h8,h9]
    | terminates what =>
      have hcame : h.Garbles what := he
      simp [hcame]
    | aborts e => exact he.elim
    | waits => simp
  · simp [hrun,hk,hwel]
  · simp [hrun,hk]
  · rcases he with rfl | he
    · simp [hrun,hk]
    · cases e with
      | exit n => exact he.elim
      | aborts e => exact he.elim
      | waits => simp [hrun,hk]
      | terminates what =>
        have hcame : h.Garbles what := he
        simp [hrun,hk,hcame]

theorem restart_ends (std : StdSort) (h : RestartHost) :
    (∃ e, h.welcome = .error e ∧ runRestartProof std h = e) ∨
    ∃ cc, h.welcome = .ok cc ∧ ((cc.Confirms h.dispatch ∧ runRestartProof std h = .exit 0) ∨
      (¬ cc.Confirms h.dispatch ∧
        (runRestartProof std h = .exit 12 ∨ Halts h.Garbles (runRestartProof std h)))) := by
  unfold runRestartProof
  cases hwel : h.welcome with
  | error e => exact .inl ⟨e,rfl,rfl⟩
  | ok cc =>
    refine .inr ⟨cc,rfl,?_⟩
    have hc := restart_picked
    have hd := drive_spec std rfl rfl hc.mem hc.first hc.current 10 11 12 .restart cc h.dispatch
    have hs : (buildCandidate .restart 14 (text "RESTART") ⟨kWorkerA⟩ ⟨kBootC⟩ true).strategy =
        .restart := rfl
    rw [if_neg (not_not.mpr hs)] at hd
    rcases hd with ⟨hconf,d,hd,hsucc⟩ | ⟨hconf,e,hd,he⟩
    · exact .inl ⟨hconf,by simp [hd,hsucc.staleTraffic]⟩
    · simp only [hd]
      exact .inr ⟨hconf,he.imp_right (Halts.imp fun _ hc => .inr (.inr (.inr hc)))⟩

theorem restart_succeeds {std : StdSort} {h : RestartHost} :
    runRestartProof std h = .exit 0 ↔ ∃ cc, h.welcome = .ok cc ∧ cc.Confirms h.dispatch := by
  rcases restart_ends std h with ⟨e,hwel,hrun⟩ | ⟨cc,hwel,⟨hconf,hrun⟩ | ⟨hconf,hrun⟩⟩
  · have he := h.welcome_ends.of_error hwel
    rw [hrun,hwel]
    refine iff_of_false (fun h0 => ?_) (by simp)
    rw [h0] at he
    exact absurd he.1 (by decide)
  · simp [hrun,hwel,hconf]
  · refine iff_of_false (fun h0 => ?_) (by simp [hwel,hconf])
    rw [h0] at hrun
    exact hrun.elim nofun id

/-- The RESTART proof succeeds exactly when the worker that registered as the fresh incarnation
confirms. Its other checks never fail: a plan is found, it is the restart, and the stale traffic
is turned away. Here too only a malformed frame raises an exception. -/
theorem runRestartProof_exits (std : StdSort) (h : RestartHost) :
    (runRestartProof std h = .exit 0 ↔ ∃ cc, h.welcome = .ok cc ∧ cc.Confirms h.dispatch) ∧
    runRestartProof std h ≠ .exit 10 ∧ runRestartProof std h ≠ .exit 11 ∧
    runRestartProof std h ≠ .exit 13 ∧ (∀ e, runRestartProof std h ≠ .aborts e) ∧
    ∀ what, runRestartProof std h = .terminates what → h.Garbles what := by
  refine ⟨restart_succeeds,?_⟩
  rcases restart_ends std h with ⟨e,hwel,hrun⟩ | ⟨cc,hwel,⟨hconf,hrun⟩ | ⟨hconf,hrun | hrun⟩⟩
  · have he := h.welcome_ends.of_error hwel
    rw [hrun]
    cases e with
    | exit n =>
      obtain ⟨h2,h9⟩ : 2 ≤ n ∧ n ≤ 9 := he
      have h10 : n ≠ 10 := by omega
      have h11 : n ≠ 11 := by omega
      have h13 : n ≠ 13 := by omega
      simp [h10,h11,h13]
    | terminates what =>
      have hcame : h.Garbles what := he
      simp [hcame]
    | aborts e => exact he.elim
    | waits => simp
  · simp [hrun]
  · simp [hrun]
  · cases hend : runRestartProof std h with
    | exit n => exact (hend ▸ hrun).elim
    | aborts e => exact (hend ▸ hrun).elim
    | waits => simp
    | terminates what =>
      rw [hend] at hrun
      have hcame : h.Garbles what := hrun
      simp [hcame]

/-! Which of the two workers is accepted first. -/

namespace Link

structure Holds (l : Link) (ms : List Msg) : Prop where
  payloads : l.queue.map Subtype.val = ms.map encode
  bounded : ∀ m ∈ ms, m.Bounded

def Silent (l : Link) : Prop := ∀ p ∈ l.queue, accept p.val = none

theorem Holds.silent {l : Link} {ms : List Msg} (h : l.Holds ms)
    (hms : ∀ m ∈ ms, m.type ≠ .complete) : l.Silent := by
  intro p hp
  have hp := List.mem_map_of_mem (f := Subtype.val) hp
  rw [h.payloads] at hp
  obtain ⟨m,hm,heq⟩ := List.mem_map.mp hp
  rw [← heq]
  exact accept_other (hms m hm)

theorem reply_holds {l : Link} {ms : List Msg} (h : l.Holds ms) {m : Msg} (hm : m.Bounded)
    (hf : Framable (encode m)) : (l.reply m).Holds (ms ++ [m]) := by
  have hreply : l.reply m = { l with queue := l.queue ++ [⟨encode m,hf⟩] } := dif_pos hf
  rw [hreply]
  refine ⟨by simp [h.payloads],fun m' hm' => ?_⟩
  rcases List.mem_append.mp hm' with hm' | hm'
  · exact h.bounded m' hm'
  · obtain rfl := List.mem_singleton.mp hm'
    exact hm

theorem connect_holds (w : Worker) (hrole : w.role.length ≤ 4096) :
    (connect w).Holds [w.registration] := by
  have hs1 : w.registration.s1.length ≤ 4096 := hrole
  have hs2 : w.registration.s2.length = 0 := rfl
  have hb : w.registration.blob.length = 0 := rfl
  have hmax : kStrMax.toNat = 65536 ∧ kMaxFramePayload.toNat = 2^20 := by decide
  have hnone : ({ worker := w } : Link).Holds [] := ⟨rfl,by simp⟩
  refine reply_holds hnone ⟨by omega,by omega,by omega⟩ ?_
  rw [Framable,encode_length]
  omega

theorem recvMsg_silent {l : Link} (h : l.Silent) (call : RecvCall) (m : Msg) :
    Ends (fun _ => True) (fun r => r.2.Silent) (recvMsg l call m) := by
  unfold recvMsg
  cases call with
  | fails => exact h
  | garbled what => trivial
  | works =>
    cases hq : l.queue with
    | nil => cases hr : l.running <;> simp [recv,hq,hr,Ends,h]
    | cons q qs =>
      rw [recv_cons hq]
      exact fun p hp => h p (hq ▸ List.mem_cons_of_mem q hp)

theorem recvMsg_ok {l : Link} {m : Msg} {ms : List Msg} (h : l.Holds (m :: ms)) :
    ∃ l', recvMsg l .works {} = .ok (m,l') ∧ l'.Holds ms ∧ l'.running = l.running ∧
      l'.worker = l.worker := by
  cases hq : l.queue with
  | nil =>
    have hp := h.payloads
    rw [hq] at hp
    exact nomatch hp
  | cons p ps =>
    have hp := h.payloads
    rw [hq,List.map_cons,List.map_cons,List.cons.injEq] at hp
    refine ⟨{ l with queue := ps },?_,⟨hp.2,fun m' hm' => h.bounded m' (List.mem_cons_of_mem m hm')⟩,
      rfl,rfl⟩
    have hdec := (decodeInto_accepts p.val {} m).mpr
      (by rw [hp.1]; exact decode_encode (h.bounded m List.mem_cons_self))
    unfold recvMsg
    rw [recv_cons hq]
    simp only [hdec]
    rfl

theorem recvMsg_waits {l : Link} (h : l.Holds []) (hr : l.running = true) (m : Msg) :
    recvMsg l .works m = .error .waits := by
  have hq : l.queue = [] := List.map_eq_nil_iff.mp h.payloads
  simp [recvMsg,recv,hq,hr]

theorem recvMsg_fails (l : Link) (m : Msg) : recvMsg l .fails m = .ok (m,l) := rfl

theorem recvMsg_garbled (l : Link) (what : Str) (m : Msg) :
    recvMsg l (.garbled what) m = .error (.terminates what) := rfl

theorem sendMsg_run (l : Link) (work : UInt64) : sendMsg l true (runMsg work) =
    if l.running = true then l.reply (l.worker.workDone (runMsg work)) else l := by
  have hmax : kMaxFramePayload.toNat = 2^20 := by decide
  have hb : (runMsg work).Bounded := ⟨Nat.zero_le _,Nat.zero_le _,Nat.zero_le _⟩
  have hlen : ¬ kMaxFramePayload.toNat < (encode (runMsg work)).length := by
    rw [encode_length]
    show ¬ _ < 45+0+0+0
    omega
  have hsend : sendMsg l true (runMsg work) = l.turn (encode (runMsg work)) := by
    unfold sendMsg send
    rw [if_neg hlen,if_pos rfl]
  rw [hsend,turn,decode_encode hb]
  cases l.running <;> rfl

theorem workDone_holds {l : Link} {ms : List Msg} (h : l.Holds ms) (hr : l.running = true)
    (hrole : l.worker.role.length ≤ 4096) (work : UInt64) :
    (sendMsg l true (runMsg work)).Holds (ms ++ [l.worker.workDone (runMsg work)]) ∧
      (sendMsg l true (runMsg work)).running = true := by
  have hmax : kStrMax.toNat = 65536 ∧ kBlobMax.toNat = 2^20 ∧ kMaxFramePayload.toNat = 2^20 := by
    decide
  have hs1 : (l.worker.workDone (runMsg work)).s1.length ≤ 4096 := hrole
  have hs2 : (l.worker.workDone (runMsg work)).s2.length = 0 := rfl
  have hblob : (l.worker.workDone (runMsg work)).blob.length = 32 := rfl
  have hdone : (l.worker.workDone (runMsg work)).Bounded := ⟨by omega,by omega,by omega⟩
  have hf : Framable (encode (l.worker.workDone (runMsg work))) := by
    rw [Framable,encode_length]
    omega
  rw [sendMsg_run,if_pos hr]
  exact ⟨reply_holds h hdone hf,by rw [reply_running]; exact hr⟩

theorem sendMsg_fails (l : Link) (m : Msg) : sendMsg l false m = l := by
  unfold sendMsg send
  split <;> rfl

theorem sendMsg_silent {l : Link} (h : l.Silent) (works : Bool) (work : UInt64) :
    (sendMsg l works (runMsg work)).Silent := by
  cases works with
  | false =>
    rw [sendMsg_fails]
    exact h
  | true =>
    rw [sendMsg_run]
    split
    · unfold reply
      split
      · intro p hp
        rcases List.mem_append.mp hp with hp | hp
        · exact h p hp
        · obtain rfl := List.mem_singleton.mp hp
          exact accept_other nofun
      · exact h
    · exact h

theorem not_confirms {l : Link} (h : l.Silent) (hr : l.running = false ∨ l.queue ≠ [])
    (calls : SocketCalls) : ¬ l.Confirms calls := by
  rintro ⟨_,_,hq⟩
  cases hqueue : l.queue with
  | nil =>
    rw [hqueue] at hq
    rcases hr with hr | hr
    · rw [hr] at hq
      exact nomatch hq
    · exact hr hqueue
  | cons p ps =>
    rw [hqueue] at hq
    obtain ⟨c,hc,_⟩ := hq
    rw [h p (hqueue ▸ List.mem_cons_self)] at hc
    exact nomatch hc

end Link

def workerA : Worker := ⟨kWorkerA,kBootA,1,text "primary"⟩
def workerB : Worker := ⟨kWorkerB,kBootB,1,text "target"⟩

def peerA : Peer := ⟨.connect workerA,true⟩
def peerB : Peer := ⟨.connect workerB,false⟩

namespace Host

/-- All that has to work where the workers are accepted in the order in which they were started.
The shadow may be left alone, but not half. -/
structure Works (h : Host) (scenario : Str) : Prop where
  binds : h.binds = true
  spawns : h.spawnsA = true ∧ h.spawnsB = true
  registers : h.registersA = .works ∧ h.registersB = .works
  work : h.runsA = true ∧ h.doneA = .works
  shadow : scenario = text "SHADOW" → h.doneB = if h.runsB then .works else .fails
  dispatch : h.dispatch.sends = true ∧ h.dispatch.receives = .works

theorem admit_doomed (h : Host) (scenario : Str) {p : Peer} (hp : h.second = some p)
    (hd : p.doomed = true) (hs : p.link.Silent) :
    Ends (fun _ => True) (fun cb => cb.running = false ∧ cb.Silent) (h.welcome scenario) := by
  have hkill : ∀ l : Link, l.Silent → ({ p with link := l } : Peer).afterKill.running = false ∧
      ({ p with link := l } : Peer).afterKill.Silent := by
    intro l hl
    rw [Peer.afterKill,if_pos hd]
    exact ⟨rfl,hl⟩
  have hany : ∀ {l : Link} {call : RecvCall} {m : Msg},
      Ends (fun _ => True) (fun _ => True) (recvMsg l call m) := by
    intro l call m
    unfold recvMsg
    split <;> trivial
  refine .ite trivial (.ite trivial (.ite trivial ?_))
  rw [hp]
  split
  · rename_i ca cb hfirst hsecond
    obtain rfl := Option.some.inj hsecond
    refine .bind hany fun a _ => .bind (Link.recvMsg_silent hs _ _) fun b hb =>
      .ite trivial (.bind hany fun c _ => .ite trivial (.ite ?_ (hkill b.2 hb)))
    exact .bind (Link.recvMsg_silent (Link.sendMsg_silent hb _ _) _ _) fun r hr => hkill r.2 hr
  · trivial

theorem confirms_drained {l : Link} (h : l.Holds []) (hr : l.running = true) (calls : SocketCalls) :
    l.Confirms calls ↔ calls.sends = true ∧ calls.receives = .works := by
  have hq : l.queue = [] := List.map_eq_nil_iff.mp h.payloads
  unfold Link.Confirms
  rw [hq]
  simp [hr]

theorem admit_ordered (h : Host) (scenario : Str) (h1 : h.first = some peerA)
    (h2 : h.second = some peerB) :
    (∃ cb, h.welcome scenario = .ok cb ∧ cb.Confirms h.dispatch) ↔ h.Works scenario := by
  have hA : peerA.link.Holds [workerA.registration] := Link.connect_holds workerA (by decide)
  have hB : peerB.link.Holds [workerB.registration] := Link.connect_holds workerB (by decide)
  have hrunA : peerA.link.running = true := Link.reply_running _ _
  have hrunB : peerB.link.running = true := Link.reply_running _ _
  have hroleA : peerA.link.worker.role.length ≤ 4096 := by
    rw [show peerA.link.worker = workerA from Link.reply_worker _ _]
    decide
  have hroleB : peerB.link.worker.role.length ≤ 4096 := by
    rw [show peerB.link.worker = workerB from Link.reply_worker _ _]
    decide
  have hkill : ∀ l : Link, ({ peerB with link := l } : Peer).afterKill = l := fun _ => rfl
  unfold welcome
  rw [h1,h2]
  simp only [hkill]
  generalize peerA.link = la at hA hrunA hroleA
  generalize peerB.link = lb at hB hrunB hroleB
  by_cases hb : h.binds = true; swap
  · exact iff_of_false (by simp [hb]) fun w => hb w.binds
  by_cases hsa : h.spawnsA = true; swap
  · exact iff_of_false (by simp [hb,hsa]) fun w => hsa w.spawns.1
  by_cases hsb : h.spawnsB = true; swap
  · exact iff_of_false (by simp [hb,hsa,hsb]) fun w => hsb w.spawns.2
  simp only [hb,hsa,hsb]
  obtain ⟨la',hrecvA,hA',hrunA',hworkA'⟩ := Link.recvMsg_ok hA
  obtain ⟨lb',hrecvB,hB',hrunB',hworkB'⟩ := Link.recvMsg_ok hB
  -- A registration that is not received leaves a message of no type.
  by_cases hra : h.registersA = .works; swap
  · refine iff_of_false ?_ fun w => hra w.registers.1
    cases hrega : h.registersA with
    | works => exact absurd hrega hra
    | garbled what => simp [Link.recvMsg_garbled,bind,Except.bind]
    | fails =>
      cases hregb : h.registersB <;>
        simp [Link.recvMsg_fails,Link.recvMsg_garbled,hrecvB,bind,Except.bind]
  by_cases hrb : h.registersB = .works; swap
  · refine iff_of_false ?_ fun w => hrb w.registers.2
    cases hregb : h.registersB with
    | works => exact absurd hregb hrb
    | garbled what => simp [hra,hrecvA,Link.recvMsg_garbled,bind,Except.bind]
    | fails => simp [hra,hrecvA,Link.recvMsg_fails,bind,Except.bind]
  have htypeA : workerA.registration.type = .register := rfl
  have htypeB : workerB.registration.type = .register := rfl
  simp only [hra,hrb,hrecvA,hrecvB,bind,Except.bind,htypeA,htypeB]
  by_cases hda : h.doneA = .works; swap
  · refine iff_of_false ?_ fun w => hda w.work.2
    cases hdonea : h.doneA with
    | works => exact absurd hdonea hda
    | garbled what => simp [Link.recvMsg_garbled]
    | fails => simp [Link.recvMsg_fails]
  by_cases hxa : h.runsA = true; swap
  · refine iff_of_false ?_ fun w => hxa w.work.1
    simp [hda,hxa,Link.sendMsg_fails,Link.recvMsg_waits hA' (hrunA'.trans hrunA)]
  obtain ⟨hdone,_⟩ := Link.workDone_holds hA' (hrunA'.trans hrunA) (hworkA' ▸ hroleA) 1
  obtain ⟨_,hrecvDone,_⟩ := Link.recvMsg_ok hdone
  have htypeDone : (la'.worker.workDone (runMsg 1)).type = .workDone := rfl
  simp only [hda,hxa,hrecvDone,htypeDone]
  have hrunB' := hrunB'.trans hrunB
  have hworks : h.Works scenario ↔ (scenario = text "SHADOW" →
      h.doneB = if h.runsB then .works else .fails) ∧
      h.dispatch.sends = true ∧ h.dispatch.receives = .works :=
    ⟨fun w => ⟨w.shadow,w.dispatch⟩,fun w => ⟨hb,⟨hsa,hsb⟩,⟨hra,hrb⟩,⟨hxa,hda⟩,w.1,w.2⟩⟩
  rw [hworks]
  by_cases hshadow : scenario = text "SHADOW"; swap
  · simp [hshadow,confirms_drained hB' hrunB']
  obtain ⟨hsynced,hrunS⟩ := Link.workDone_holds hB' hrunB' (hworkB' ▸ hroleB) 2
  obtain ⟨lb'',hrecvS,hB'',hrun'',_⟩ := Link.recvMsg_ok hsynced
  cases hrunsB : h.runsB with
  | true =>
    cases hdoneB : h.doneB with
    | works => simp [hshadow,hrecvS,confirms_drained hB'' (hrun''.trans hrunS)]
    | garbled what => simp [hshadow,Link.recvMsg_garbled]
    | fails =>
      -- The WORK_DONE is not read and is taken for the answer to the dispatch.
      have hne : ¬ (sendMsg lb' true (runMsg 2)).Confirms h.dispatch := by
        refine Link.not_confirms (hsynced.silent ?_) (.inr fun hq => ?_) _
        · intro m hm
          obtain rfl := List.mem_singleton.mp hm
          exact nofun
        · have hp := hsynced.payloads
          rw [hq] at hp
          exact nomatch hp
      simp [hshadow,Link.recvMsg_fails,hne]
  | false =>
    cases hdoneB : h.doneB with
    | works => simp [hshadow,Link.sendMsg_fails,Link.recvMsg_waits hB' hrunB']
    | garbled what => simp [hshadow,Link.recvMsg_garbled]
    | fails =>
      simp [hshadow,Link.sendMsg_fails,Link.recvMsg_fails,confirms_drained hB' hrunB']

def accepting (h : Host) (swapped : Bool) : Host :=
  if swapped then { h with first := some peerB, second := some peerA }
  else { h with first := some peerA, second := some peerB }

theorem accepting_succeeds {std : StdSort} {scenario : Str} {h : Host} {swapped : Bool} :
    (runScenario std scenario (h.accepting swapped)).1 = .exit 0 ↔
      swapped = false ∧ KnownScenario scenario ∧ (h.accepting swapped).Works scenario := by
  rw [scenario_succeeds]
  cases swapped with
  | true =>
    refine iff_of_false ?_ (fun h => nomatch h.1)
    rintro ⟨_,cb,hwel,hconf⟩
    have hsilent : peerA.link.Silent :=
      (Link.connect_holds workerA (by decide)).silent fun m hm => by
        obtain rfl := List.mem_singleton.mp hm
        exact nofun
    have hdoomed := ((h.accepting true).admit_doomed scenario rfl rfl hsilent).of_ok hwel
    exact Link.not_confirms hdoomed.2 (.inl hdoomed.1) _ hconf
  | false =>
    rw [admit_ordered (h.accepting false) scenario rfl rfl]
    simp

end Host

/-- With the two workers that it starts: the coordinator reports success in the scenarios that it
knows, where all calls work, as long as the worker that it is going to kill connects first. The
connections are told apart by that order alone. -/
theorem coordinatorMain_order (std : StdSort) (args : List Str) (h : Host) (r : RestartHost)
    (swapped : Bool) :
    let scenario := scenarioOf (text "RESTORE") args
    coordinatorMain std args (h.accepting swapped) r = .exit 0 ↔
      if scenario = text "RESTART" then ∃ cc, r.welcome = .ok cc ∧ cc.Confirms r.dispatch
      else swapped = false ∧ KnownScenario scenario ∧ (h.accepting swapped).Works scenario := by
  intro scenario
  unfold coordinatorMain
  by_cases hs : scenarioOf (text "RESTORE") args = text "RESTART"
  · rw [if_pos hs,if_pos hs]
    exact restart_succeeds
  · rw [if_neg hs,if_neg hs]
    exact Host.accepting_succeeds

end RecoveryPlanner
