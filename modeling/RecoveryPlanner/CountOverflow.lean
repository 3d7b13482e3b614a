import RecoveryPlanner.Reload
set_option autoImplicit false

/-! A list of 2^32 elements is written behind a count of zero. Its elements are then
read as whatever the decoder expects next, so a request with that many preferred
strategies carries a ledger of its own choice into the next reload. -/

namespace RecoveryPlanner

/-- The zeros that stand for the rest of a request: one count, four words, three
counts. -/
def blankTail : Bytes := List.replicate 48 0

/-- The request as the decoder sees it when `blankTail` follows the empty count. -/
def RecoveryRequest.blank (q : RecoveryRequest) : RecoveryRequest :=
  { q with
    preferredStrategies := []
    forbiddenStrategies := []
    coordinatorEpoch := ⟨0⟩
    policyGeneration := ⟨0⟩
    topologyGeneration := ⟨0⟩
    requestedAt := ⟨0⟩
    stateRequirements := []
    placementConstraints := []
    compatibilityRequirements := [] }

/-- `payload` behind the blank tail, filled up to 2^32 strategies. -/
def RecoveryRequest.carrying (q : RecoveryRequest) (payload : Bytes) : RecoveryRequest :=
  { q with preferredStrategies :=
      (blankTail ++ (payload ++ List.replicate (2^32-48-payload.length) 0)).map .ofByte }

theorem encodeList_strategies (bs : Bytes) :
    encodeList (fun s : RecoveryStrategy => ByteWriter.u8 s.toByte) (bs.map .ofByte) =
      ByteWriter.u32 bs.length.toUInt32 ++ bs := by
  have hflat : (bs.map RecoveryStrategy.ofByte).flatMap (fun s => ByteWriter.u8 s.toByte) = bs := by
    induction bs with
    | nil => rfl
    | cons b bs ih =>
      rw [List.map_cons,List.flatMap_cons,ih,RecoveryStrategy.toByte_ofByte]
      rfl
  rw [encodeList,hflat,List.length_map]

theorem encodeList_singleton {α : Type} (enc : α → Bytes) (x : α) :
    encodeList enc [x] = ByteWriter.u32 1 ++ enc x := by
  simp [encodeList]

open ByteWriter in
def RecoveryRequest.front (r : RecoveryRequest) : Bytes :=
  u64 r.requestId.value ++ u64 r.workload.value ++ u64 r.workloadGeneration.value ++
  u64 r.execution.value ++ u64 r.executionGeneration.value ++ u64 r.failure.value ++
  cstring r.reason ++
  encodeFlagged (fun t => i64 t.value) r.recoveryDeadline ++
  encodeFlagged (fun t => i64 t.value) r.maxRecoveryDuration ++
  encodeFlagged (fun t => u64 t.value) r.maxToleratedProgressLoss

def RecoveryRequest.back (r : RecoveryRequest) : Bytes :=
  encodeList (fun s => ByteWriter.u8 s.toByte) r.forbiddenStrategies ++
  (ByteWriter.u64 r.coordinatorEpoch.value ++ (ByteWriter.u64 r.policyGeneration.value ++
  (ByteWriter.u64 r.topologyGeneration.value ++ (ByteWriter.i64 r.requestedAt.value ++
  (encodeList ByteWriter.cstring r.stateRequirements ++
  (encodeList ByteWriter.cstring r.placementConstraints ++
    encodeList ByteWriter.cstring r.compatibilityRequirements))))))

theorem encodeRequest_eq (r : RecoveryRequest) :
    encodeRequest r = r.front ++
      (encodeList (fun s => ByteWriter.u8 s.toByte) r.preferredStrategies ++ r.back) := by
  unfold encodeRequest RecoveryRequest.front RecoveryRequest.back
  simp only [List.append_assoc]

theorem encodeRequest_blank (q : RecoveryRequest) :
    encodeRequest q.blank = q.front ++ (ByteWriter.u32 0 ++ blankTail) := by
  have htail : encodeList (fun s => ByteWriter.u8 s.toByte) q.blank.preferredStrategies ++
      q.blank.back = ByteWriter.u32 0 ++ blankTail := by
    show encodeList (fun s : RecoveryStrategy => ByteWriter.u8 s.toByte) [] ++
      RecoveryRequest.back (RecoveryRequest.blank {}) = _
    decide
  rw [encodeRequest_eq,htail]
  rfl

theorem encodeRequest_carrying (q : RecoveryRequest) {payload : Bytes}
    (h : payload.length+48 ≤ 2^32) :
    ∃ tail, encodeRequest (q.carrying payload) = encodeRequest q.blank ++ (payload ++ tail) := by
  have hlen : (blankTail ++ (payload ++ List.replicate (2^32-48-payload.length) 0)).length
      = 2^32 := by
    have hb : blankTail.length = 48 := by decide
    rw [List.length_append,List.length_append,List.length_replicate,hb]
    omega
  have hcount : (2^32 : Nat).toUInt32 = 0 := by decide
  have hlist := encodeList_strategies
    (blankTail ++ (payload ++ List.replicate (2^32-48-payload.length) 0))
  rw [hlen,hcount] at hlist
  have hprefs : (q.carrying payload).preferredStrategies =
    (blankTail ++ (payload ++ List.replicate (2^32-48-payload.length) 0)).map .ofByte := rfl
  have hfront : (q.carrying payload).front = q.front := rfl
  generalize List.replicate (2^32-48-payload.length) (0 : UInt8) = filler at hlist hprefs
  refine ⟨filler ++ (q.carrying payload).back,?_⟩
  rw [encodeRequest_eq,hfront,hprefs,hlist,encodeRequest_blank]
  simp only [List.append_assoc]

/-- The planner whose snapshot `im` is taken for when its only request carries the
ledger of `plans`. -/
def Impl.forged (im : Impl) (q : RecoveryRequest) (plans : SortedMap UInt64 RecoveryPlan) : Impl :=
  { im with
    requests := SortedMap.empty.insert q.requestId.value q.blank
    plans := plans
    history := [] }

def forgedLedger (plans : SortedMap UInt64 RecoveryPlan) : Bytes :=
  encodeList encodePlan plans.values ++ encodeList ByteWriter.cstring []

theorem Impl.encodeSnapshot_forged {im : Impl} {q : RecoveryRequest}
    {plans : SortedMap UInt64 RecoveryPlan} (h : (forgedLedger plans).length+48 ≤ 2^32)
    (hq : im.requests.values = [q.carrying (forgedLedger plans)]) :
    ∃ tail, im.encodeSnapshot = (im.forged q plans).encodeSnapshot ++ tail := by
  obtain ⟨tail,ht⟩ := encodeRequest_carrying q h
  refine ⟨tail ++ im.encodeLedger,?_⟩
  have hreq : (im.forged q plans).requests.values = [q.blank] := rfl
  have hledger : (im.forged q plans).encodeLedger = forgedLedger plans := rfl
  have hctx : (im.forged q plans).ctx = im.ctx := rfl
  rw [Impl.encodeSnapshot_eq,Impl.encodeSnapshot_eq,hledger,Impl.encodePreamble,
    Impl.encodePreamble,hq,hreq,hctx,encodeList_singleton,encodeList_singleton,ht]
  simp only [List.append_assoc]

/-- A reload of such a snapshot installs the carried plans. -/
theorem Impl.applySnapshot_forged (target : Impl) {im : Impl} {q : RecoveryRequest}
    {plans : SortedMap UInt64 RecoveryPlan} (h : (forgedLedger plans).length+48 ≤ 2^32)
    (hq : im.requests.values = [q.carrying (forgedLedger plans)])
    (hr : (im.forged q plans).RoundTrips) (preserveEpochBoot : Bool) :
    (target.applySnapshot im.encodeSnapshot preserveEpochBoot).2.plans =
      (plans.values.map RecoveryPlan.durable).foldl putDecoded .empty := by
  obtain ⟨tail,ht⟩ := Impl.encodeSnapshot_forged h hq
  have hdec := (Impl.decodeSnapshot_encode hr.fits tail).1 hr.readable
  rw [← ht] at hdec
  rw [(target.applySnapshot_decoded im.encodeSnapshot preserveEpochBoot).1 _ hdec]
  rfl

theorem Impl.forged_roundTrips {im : Impl} {q : RecoveryRequest}
    {plans : SortedMap UInt64 RecoveryPlan} (hw : im.ctx.workerBoots.entries.length < 2^32)
    (hreason : ShortStr q.reason) (hcount : plans.values.length < 2^32)
    (hplans : ∀ p ∈ plans.values, p.Readable) : (im.forged q plans).RoundTrips := by
  have hreq : (im.forged q plans).requests.values = [q.blank] := rfl
  refine ⟨⟨hw,?_,?_⟩,?_,hcount,hplans,by simp [Impl.forged],by simp [Impl.forged]⟩
  · rw [hreq]
    simp
  · intro r hr
    rw [hreq,List.mem_singleton] at hr
    rw [hr]
    constructor <;> simp [RecoveryRequest.blank]
  · intro r hr
    rw [hreq,List.mem_singleton] at hr
    rw [hr]
    constructor
    · exact hreason
    · simp [RecoveryRequest.blank]
    · simp [RecoveryRequest.blank]
    · simp [RecoveryRequest.blank]

theorem Impl.restart_forged {im : Impl} {q : RecoveryRequest}
    {plans : SortedMap UInt64 RecoveryPlan} (clock : UInt64 → Timestamp) (disk : Disk)
    (hstore : im.hasStore = true) (h : (forgedLedger plans).length+48 ≤ 2^32)
    (hq : im.requests.values = [q.carrying (forgedLedger plans)])
    (hr : (im.forged q plans).RoundTrips) :
    (im.restartCoordinator clock disk).1.plans =
      ((plans.values.map RecoveryPlan.durable).foldl putDecoded .empty).mapValues
        (fun k p => retire (clock k) p) := by
  have hsave : (im.saveState disk).2 = some im.encodeSnapshot := by simp [Impl.saveState,hstore]
  have happ := Impl.applySnapshot_forged im.advanceEpoch h hq hr true
  show (im.restartReloading clock (im.saveState disk).2).plans = _
  rw [hsave,Impl.restartReloading_some hstore,← happ]
  rfl

theorem Impl.loadState_forged {target im : Impl} {q : RecoveryRequest}
    {plans : SortedMap UInt64 RecoveryPlan} (hstore : target.hasStore = true)
    (h : (forgedLedger plans).length+48 ≤ 2^32)
    (hq : im.requests.values = [q.carrying (forgedLedger plans)])
    (hr : (im.forged q plans).RoundTrips) :
    (target.loadState (some im.encodeSnapshot)).2.plans =
      (plans.values.map RecoveryPlan.durable).foldl putDecoded .empty := by
  rw [Impl.loadState_some hstore]
  exact Impl.applySnapshot_forged target h hq hr false

end RecoveryPlanner
