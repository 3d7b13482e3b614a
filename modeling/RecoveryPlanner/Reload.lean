import RecoveryPlanner.SnapshotLoad
set_option autoImplicit false

/-! A snapshot written by one planner and read by another. -/

namespace RecoveryPlanner

open Scan ByteReader

def RecoveryPlan.Readable (p : RecoveryPlan) : Prop :=
  ShortStr p.dispatchPayload ∧ ShortStr p.decisionDigest

theorem RecoveryPlan.Readable.durable {p : RecoveryPlan} (h : p.Readable) :
    p.durable.Readable := by
  simpa [RecoveryPlan.Readable,RecoveryPlan.durable,ShortStr] using h

structure Impl.CountsFit (im : Impl) : Prop where
  workers : im.ctx.workerBoots.entries.length < 2^32
  requests : im.requests.values.length < 2^32
  request : ∀ q ∈ im.requests.values, q.CountsFit

instance (im : Impl) : Decidable im.CountsFit :=
  decidable_of_iff (im.ctx.workerBoots.entries.length < 2^32 ∧
      im.requests.values.length < 2^32 ∧ ∀ q ∈ im.requests.values, q.CountsFit)
    ⟨fun h => ⟨h.1,h.2.1,h.2.2⟩,fun h => ⟨h.1,h.2,h.3⟩⟩

/-- The plans that the narrowed count covers. -/
def Impl.countedPlans (im : Impl) : List RecoveryPlan :=
  im.plans.values.take im.plans.values.length.toUInt32.toNat

theorem Impl.mem_countedPlans {im : Impl} {p : RecoveryPlan} (h : p ∈ im.countedPlans) :
    ∃ k, im.plans.find? k = some p :=
  im.plans.mem_values.mp (List.mem_of_mem_take h)

def PlannerContext.header (ctx : PlannerContext) : SnapshotHeader :=
  ⟨ctx.epoch,ctx.plannerBoot,ctx.workloadGeneration,ctx.policyGeneration,
    ctx.compatibilityGeneration,ctx.resourceGeneration,ctx.topologyGeneration⟩

def Impl.encodePreamble (im : Impl) : Bytes :=
  encodeHeader im.ctx ++ (encodeList encodeWorker im.ctx.workerBoots.entries ++
    encodeList encodeRequest im.requests.values)

def Impl.encodeLedger (im : Impl) : Bytes :=
  encodeList encodePlan im.plans.values ++ encodeList ByteWriter.cstring im.history

theorem Impl.encodeSnapshot_eq (im : Impl) :
    im.encodeSnapshot =
      ByteWriter.u32 kPersistenceFormatVersion ++ (im.encodePreamble ++ im.encodeLedger) := by
  simp only [Impl.encodeSnapshot,Impl.encodePreamble,Impl.encodeLedger,List.append_assoc]

theorem encodeList_take {α : Type} (enc : α → Bytes) (xs : List α) :
    encodeList enc xs = ByteWriter.u32 xs.length.toUInt32 ++
      ((xs.take xs.length.toUInt32.toNat).flatMap enc ++
        (xs.drop xs.length.toUInt32.toNat).flatMap enc) := by
  rw [← List.flatMap_append,List.take_append_drop]
  rfl

theorem length_counted {α : Type} (xs : List α) :
    (xs.take xs.length.toUInt32.toNat).length = xs.length.toUInt32.toNat := by
  simp [Nat.mod_le]

theorem decodes_counted {α β : Type} {p : Scan UInt8 α} (enc : β → Bytes) (dec : β → α)
    (guard : β → Prop) (hp : Sticky p) (xs : List β)
    (h : ∀ x ∈ xs, Decodes p (enc x) (guard x) (dec x)) :
    let ys := xs.take xs.length.toUInt32.toNat
    Decodes (readList p) (ByteWriter.u32 xs.length.toUInt32 ++ ys.flatMap enc)
      (∀ x ∈ ys, guard x) (ys.map dec) := by
  intro ys
  have ht := Decodes.times hp enc dec guard ys (fun x hx => h x (List.mem_of_mem_take hx))
  rw [length_counted] at ht
  exact (decodes_u32 xs.length.toUInt32).andThen (f := fun n => Scan.times p n.toNat) ht

theorem decodes_workers {im : Impl} (h : im.CountsFit) :
    Decodes (readList readWorker) (encodeList encodeWorker im.ctx.workerBoots.entries) True
      im.ctx.workerBoots.entries := by
  have hw := decodes_list encodeWorker id (fun _ => True) sticky_readWorker h.workers
    (fun kv _ => decodes_worker kv)
  rw [List.map_id] at hw
  exact hw.congr (by simp)

theorem decodes_requests {im : Impl} (h : im.CountsFit) :
    Decodes (readList readRequest) (encodeList encodeRequest im.requests.values)
      (∀ q ∈ im.requests.values, q.Readable)
      (im.requests.values.map RecoveryRequest.durable) :=
  decodes_list encodeRequest RecoveryRequest.durable RecoveryRequest.Readable
    sticky_readRequest h.requests (fun q hq => decodes_request (h.request q hq))

namespace Impl

def contextFrom (im src : Impl) (preserveEpochBoot : Bool) : PlannerContext :=
  (im.ctx.installHeader preserveEpochBoot src.ctx.header).installWorkers
    src.ctx.workerBoots.entries

def durableRequests (im : Impl) : SortedMap UInt64 RecoveryRequest :=
  (im.requests.values.map RecoveryRequest.durable).foldl putRequest .empty

theorem applyRequests_unreadable {im src : Impl} {r : ByteReader} {tail : Bytes}
    (h : src.CountsFit) (hf : r.failed = false)
    (hr : r.rest = encodeList encodeRequest src.requests.values ++ tail)
    (hq : ¬ ∀ q ∈ src.requests.values, q.Readable) :
    (im.applyRequests r).2 = { im with
      requests := (collect readRequest putRequest (u32 r).1.toNat .empty (u32 r).2).1.2 } := by
  have hlist := (decodes_requests h r tail hf hr).2 hq
  have hn := (decodes_u32 src.requests.values.length.toUInt32 r _ hf
    (by rw [hr,encodeList,List.append_assoc])).1 trivial
  have hlist : (times readRequest (u32 r).1.toNat (u32 r).2).2.failed = true := hlist
  have hstop := collect_stops putRequest (u32 r).1.toNat .empty (u32 r).2
    (by rw [hn]; exact hf) hlist
  simp [applyRequests,hstop.1]

theorem applyBody_encode (im : Impl) {src : Impl} {r : ByteReader} {tail : Bytes} (h : src.CountsFit)
    (preserveEpochBoot : Bool) (hf : r.failed = false)
    (hr : r.rest = src.encodePreamble ++ tail) :
    ((∀ q ∈ src.requests.values, q.Readable) → im.applyBody preserveEpochBoot r =
      { im with
        ctx := im.contextFrom src preserveEpochBoot
        requests := src.durableRequests }.applyPlans (r.advance src.encodePreamble.length)) ∧
    ((¬ ∀ q ∈ src.requests.values, q.Readable) →
      ∃ n c, (im.applyBody preserveEpochBoot r).2 = { im with
        ctx := im.contextFrom src preserveEpochBoot
        requests := (collect readRequest putRequest n .empty c).1.2 }) := by
  -- The cursors behind the header and behind the workers.
  have hh := (decodes_header src.ctx r _ hf (by
    rw [hr,encodePreamble,List.append_assoc])).1 trivial
  have hr1 : (r.advance (encodeHeader src.ctx).length).rest =
      encodeList encodeWorker src.ctx.workerBoots.entries ++
        (encodeList encodeRequest src.requests.values ++ tail) := by
    rw [Cursor.advance_rest,hr,encodePreamble,List.append_assoc,List.drop_left,List.append_assoc]
  have hw := (decodes_workers h (r.advance (encodeHeader src.ctx).length) _ hf hr1).1 trivial
  have hr2 : ((r.advance (encodeHeader src.ctx).length).advance
      (encodeList encodeWorker src.ctx.workerBoots.entries).length).rest =
      encodeList encodeRequest src.requests.values ++ tail := by
    rw [Cursor.advance_rest,hr1,List.drop_left]
  have hbody : im.applyBody preserveEpochBoot r =
      { im with ctx := im.contextFrom src preserveEpochBoot }.applyRequests
        ((r.advance (encodeHeader src.ctx).length).advance
          (encodeList encodeWorker src.ctx.workerBoots.entries).length) := by
    have hok : r.failed = false := hf
    simp only [applyBody,hh,Cursor.ok,Cursor.advance_failed,hok,Bool.not_false,Bool.not_true,
      Bool.false_eq_true,if_false,applyWorkers,hw]
    rfl
  rw [hbody]
  have hq := decodes_requests h ((r.advance (encodeHeader src.ctx).length).advance
    (encodeList encodeWorker src.ctx.workerBoots.entries).length) tail hf hr2
  refine ⟨fun hread => ?_,fun hread => ⟨_,_,applyRequests_unreadable h hf hr2 hread⟩⟩
  rw [applyRequests_ok _ _ (by rw [hq.1 hread]; exact hf),hq.1 hread,Cursor.advance_advance,
    Cursor.advance_advance,encodePreamble,List.length_append,List.length_append]
  rfl

def durablePlans (im : Impl) : SortedMap UInt64 RecoveryPlan :=
  (im.countedPlans.map RecoveryPlan.durable).foldl putDecoded .empty

def Keyed (plans : SortedMap UInt64 RecoveryPlan) : Prop :=
  ∀ k p, plans.find? k = some p → p.planId.value = k

structure PlansSound (plans : SortedMap UInt64 RecoveryPlan) : Prop where
  keyed : Keyed plans
  readable : ∀ k p, plans.find? k = some p → p.Readable

theorem find?_durablePlans {im : Impl} (h : PlansSound im.plans) {k : UInt64}
    {p : RecoveryPlan} (hp : im.durablePlans.find? k = some p) :
    ∃ q, im.plans.find? k = some q ∧ p = q.durable := by
  have hfind : (SortedMap.insertAll (fun p : RecoveryPlan => p.planId.value) .empty
      (im.countedPlans.map RecoveryPlan.durable)).find? k = some p := hp
  rcases SortedMap.find?_insertAll hfind with hnone | ⟨hmem,hkey⟩
  · simp at hnone
  · obtain ⟨q,hq,rfl⟩ := List.mem_map.mp hmem
    obtain ⟨j,hj⟩ := mem_countedPlans hq
    have hkj : j = k := (h.keyed j q hj).symm.trans hkey
    exact ⟨q,hkj ▸ hj,rfl⟩

theorem applyPlans_encode (im : Impl) {src : Impl} {r : ByteReader} {tail : Bytes}
    (h : PlansSound src.plans) (hf : r.failed = false)
    (hr : r.rest = encodeList encodePlan src.plans.values ++ tail) :
    (im.applyPlans r).2.plans = src.durablePlans ∧ (im.applyPlans r).2.ctx = im.ctx := by
  have hread : ∀ p ∈ src.countedPlans, p.Readable := by
    intro p hp
    obtain ⟨k,hk⟩ := mem_countedPlans hp
    exact h.readable k p hk
  have hps := (decodes_counted encodePlan RecoveryPlan.durable RecoveryPlan.Readable
    sticky_readPlan src.plans.values (fun p _ => decodes_plan p) r _ hf
    (by rw [hr,encodeList_take]; simp only [List.append_assoc]; rfl)).1 hread
  rw [applyPlans_ok _ _ (by rw [hps]; exact hf),hps]
  exact ⟨rfl,rfl⟩

theorem applySnapshot_current {im : Impl} {bytes : Bytes} {preserveEpochBoot : Bool}
    {r : ByteReader} (h : u32 ⟨bytes,0,false⟩ = (kPersistenceFormatVersion,r))
    (hr : r.failed = false) :
    im.applySnapshot bytes preserveEpochBoot = im.applyBody preserveEpochBoot r := by
  simp [applySnapshot,h,Cursor.ok,hr]

theorem applySnapshot_body (im src : Impl) (preserveEpochBoot : Bool) :
    ∃ r : ByteReader, r.failed = false ∧ r.rest = src.encodePreamble ++ src.encodeLedger ∧
      im.applySnapshot src.encodeSnapshot preserveEpochBoot =
        im.applyBody preserveEpochBoot r := by
  let r : ByteReader := ⟨src.encodeSnapshot,0,false⟩
  have hr : r.rest = ByteWriter.u32 kPersistenceFormatVersion ++
      (src.encodePreamble ++ src.encodeLedger) := by
    simp only [r,Cursor.rest,List.drop_zero,encodeSnapshot_eq]
  have hver := (decodes_u32 kPersistenceFormatVersion r _ rfl hr).1 trivial
  refine ⟨r.advance (ByteWriter.u32 kPersistenceFormatVersion).length,rfl,?_,
    applySnapshot_current hver rfl⟩
  rw [Cursor.advance_rest,hr,List.drop_left]

/-- A request that is too long ends the load before the plans and the history. -/
theorem applySnapshot_unreadable (im : Impl) {src : Impl} (h : src.CountsFit)
    (hq : ¬ ∀ q ∈ src.requests.values, q.Readable) (preserveEpochBoot : Bool) :
    ∃ n c, (im.applySnapshot src.encodeSnapshot preserveEpochBoot).2 = { im with
      ctx := im.contextFrom src preserveEpochBoot
      requests := (collect readRequest putRequest n .empty c).1.2 } := by
  obtain ⟨r,hf,hr,happ⟩ := im.applySnapshot_body src preserveEpochBoot
  rw [happ]
  exact (applyBody_encode im h preserveEpochBoot hf hr).2 hq

theorem applySnapshot_readable (im : Impl) {src : Impl} (h : src.CountsFit)
    (hp : PlansSound src.plans) (hq : ∀ q ∈ src.requests.values, q.Readable)
    (preserveEpochBoot : Bool) :
    (im.applySnapshot src.encodeSnapshot preserveEpochBoot).2.ctx =
      im.contextFrom src preserveEpochBoot ∧
    (im.applySnapshot src.encodeSnapshot preserveEpochBoot).2.plans = src.durablePlans := by
  obtain ⟨r,hf,hr,happ⟩ := im.applySnapshot_body src preserveEpochBoot
  have hr1 : (r.advance src.encodePreamble.length).rest =
      encodeList encodePlan src.plans.values ++ encodeList ByteWriter.cstring src.history := by
    rw [Cursor.advance_rest,hr,List.drop_left,encodeLedger]
  have hf1 : (r.advance src.encodePreamble.length).failed = false := hf
  have hplans := applyPlans_encode
    { im with ctx := im.contextFrom src preserveEpochBoot, requests := src.durableRequests }
    hp hf1 hr1
  rw [happ,(applyBody_encode im h preserveEpochBoot hf hr).1 hq]
  exact ⟨hplans.2,hplans.1⟩

/-- Reading a snapshot of `src`: the context is taken over, and the plans either
stay as they were or become those of `src`. -/
theorem applySnapshot_encode (im : Impl) {src : Impl} (h : src.CountsFit)
    (hp : PlansSound src.plans) (preserveEpochBoot : Bool) :
    (im.applySnapshot src.encodeSnapshot preserveEpochBoot).2.ctx =
      im.contextFrom src preserveEpochBoot ∧
    ((im.applySnapshot src.encodeSnapshot preserveEpochBoot).2.plans = im.plans ∨
      (im.applySnapshot src.encodeSnapshot preserveEpochBoot).2.plans =
        src.durablePlans) := by
  by_cases hread : ∀ q ∈ src.requests.values, q.Readable
  · have happ := im.applySnapshot_readable h hp hread preserveEpochBoot
    exact ⟨happ.1,.inr happ.2⟩
  · obtain ⟨n,c,heq⟩ := im.applySnapshot_unreadable h hread preserveEpochBoot
    rw [heq]
    exact ⟨rfl,.inl rfl⟩

structure SameFrame (im im' : Impl) : Prop where
  dispatchMeta : im'.dispatchMeta = im.dispatchMeta
  nextPlanId : im'.nextPlanId = im.nextPlanId
  nextGeneration : im'.nextGeneration = im.nextGeneration
  hasStore : im'.hasStore = im.hasStore

theorem applyPlans_frame (im : Impl) (r : ByteReader) :
    SameFrame im (im.applyPlans r).2 ∧ (im.applyPlans r).2.ctx = im.ctx := by
  unfold applyPlans applyHistory
  dsimp only
  split <;> exact ⟨⟨rfl,rfl,rfl,rfl⟩,rfl⟩

theorem applyRequests_frame (im : Impl) (r : ByteReader) :
    SameFrame im (im.applyRequests r).2 ∧ (im.applyRequests r).2.ctx = im.ctx := by
  unfold applyRequests
  dsimp only
  split
  · obtain ⟨⟨h1,h2,h3,h4⟩,h5⟩ := applyPlans_frame _ _
    exact ⟨⟨h1,h2,h3,h4⟩,h5⟩
  · exact ⟨⟨rfl,rfl,rfl,rfl⟩,rfl⟩

theorem applyBody_frame (im : Impl) (preserveEpochBoot : Bool) (r : ByteReader) :
    SameFrame im (im.applyBody preserveEpochBoot r).2 := by
  unfold applyBody applyWorkers
  dsimp only
  split
  · exact ⟨rfl,rfl,rfl,rfl⟩
  · obtain ⟨⟨h1,h2,h3,h4⟩,_⟩ := applyRequests_frame _ _
    exact ⟨h1,h2,h3,h4⟩

theorem applySnapshot_frame (im : Impl) (bytes : Bytes) (preserveEpochBoot : Bool) :
    SameFrame im (im.applySnapshot bytes preserveEpochBoot).2 := by
  unfold applySnapshot
  dsimp only
  split
  · exact ⟨rfl,rfl,rfl,rfl⟩
  · exact im.applyBody_frame preserveEpochBoot _

theorem applySnapshot_header (im src : Impl) (preserveEpochBoot : Bool) :
    ∃ r, im.applySnapshot src.encodeSnapshot preserveEpochBoot =
      { im with ctx := im.ctx.installHeader preserveEpochBoot src.ctx.header }.applyWorkers r := by
  obtain ⟨r,hf,hr,happ⟩ := im.applySnapshot_body src preserveEpochBoot
  rw [encodePreamble,List.append_assoc] at hr
  have hh := (decodes_header src.ctx r _ hf hr).1 trivial
  refine ⟨r.advance (encodeHeader src.ctx).length,happ.trans ?_⟩
  simp only [applyBody,hh,Cursor.ok,Cursor.advance_failed,hf,Bool.not_false,Bool.not_true,
    Bool.false_eq_true,if_false]
  rfl

/-- The epoch survives even where the rest of the snapshot does not. -/
theorem applySnapshot_epoch (im src : Impl) (preserveEpochBoot : Bool) :
    (im.applySnapshot src.encodeSnapshot preserveEpochBoot).2.ctx.epoch =
      if preserveEpochBoot then im.ctx.epoch else src.ctx.epoch := by
  obtain ⟨r,h⟩ := im.applySnapshot_header src preserveEpochBoot
  rw [h,applyWorkers,(applyRequests_frame _ _).2]
  rfl

/-- Everything the planner holds fits the format. -/
structure RoundTrips (im : Impl) : Prop where
  counts : im.CountsFit
  requests : ∀ q ∈ im.requests.values, q.Readable
  planCount : im.plans.values.length < 2^32
  plans : ∀ p ∈ im.plans.values, p.Readable
  historyCount : im.history.length < 2^32
  history : ∀ s ∈ im.history, ShortStr s

def durableSnapshot (im : Impl) : Snapshot :=
  ⟨im.ctx.header,im.ctx.workerBoots.entries,im.requests.values.map RecoveryRequest.durable,
    im.plans.values.map RecoveryPlan.durable,im.history.map cut⟩

structure Fits (im : Impl) : Prop where
  counts : im.CountsFit
  plans : im.plans.values.length < 2^32
  history : im.history.length < 2^32

structure Readable (im : Impl) : Prop where
  requests : ∀ q ∈ im.requests.values, q.Readable
  plans : ∀ p ∈ im.plans.values, p.Readable
  history : ∀ s ∈ im.history, ShortStr s

theorem RoundTrips.fits {im : Impl} (h : im.RoundTrips) : im.Fits :=
  ⟨h.counts,h.planCount,h.historyCount⟩

theorem RoundTrips.readable {im : Impl} (h : im.RoundTrips) : im.Readable :=
  ⟨h.requests,h.plans,h.history⟩

theorem readable_iff (im : Impl) : im.Readable ↔
    (∀ q ∈ im.requests.values, q.Readable) ∧ (∀ p ∈ im.plans.values, p.Readable) ∧
      ∀ s ∈ im.history, ShortStr s :=
  ⟨fun h => ⟨h.1,h.2,h.3⟩,fun h => ⟨h.1,h.2.1,h.2.2⟩⟩

theorem decodes_snapshot {im : Impl} (h : im.Fits) :
    Decodes readSnapshot (im.encodePreamble ++ im.encodeLedger) im.Readable
      im.durableSnapshot := by
  have hplans := decodes_list encodePlan RecoveryPlan.durable RecoveryPlan.Readable
    sticky_readPlan h.plans (fun p _ => decodes_plan p)
  unfold encodePreamble encodeLedger readSnapshot
  simp only [List.append_assoc]
  refine Decodes.congr ?_ im.readable_iff.symm
  refine (decodes_header im.ctx).andThen ?_
  refine (decodes_workers h.counts).andThen ?_
  refine (decodes_requests h.counts).bind (fun _ => ?_) ?_
  · refine (sticky_readList sticky_readPlan).bind fun _ => ?_
    exact (sticky_readList sticky_cstring).bind fun _ => sticky_pure _
  refine hplans.bind (fun _ => (sticky_readList sticky_cstring).bind fun _ => sticky_pure _) ?_
  exact (decodes_strings h.history).map rfl

/-- The round trip, whatever follows the snapshot in the buffer: it succeeds when every
string is short enough, and only then. -/
theorem decodeSnapshot_encode {im : Impl} (h : im.Fits) (tail : Bytes) :
    (im.Readable → decodeSnapshot (im.encodeSnapshot ++ tail) = some im.durableSnapshot) ∧
    (¬ im.Readable → decodeSnapshot (im.encodeSnapshot ++ tail) = none) := by
  let r : ByteReader := ⟨im.encodeSnapshot ++ tail,0,false⟩
  have hr : r.rest = ByteWriter.u32 kPersistenceFormatVersion ++
      (im.encodePreamble ++ im.encodeLedger ++ tail) := by
    simp only [r,Cursor.rest,List.drop_zero,encodeSnapshot_eq,List.append_assoc]
  have hver := (decodes_u32 kPersistenceFormatVersion r _ rfl hr).1 trivial
  have hr1 : (r.advance (ByteWriter.u32 kPersistenceFormatVersion).length).rest =
      im.encodePreamble ++ im.encodeLedger ++ tail := by
    rw [Cursor.advance_rest,hr,List.drop_left]
  have hs := decodes_snapshot h _ tail rfl hr1
  have hver : u32 ⟨im.encodeSnapshot ++ tail,0,false⟩ = _ := hver
  constructor
  · intro hread
    simp [decodeSnapshot,hver,hs.1 hread,Cursor.ok,r]
  · intro hread
    simp [decodeSnapshot,hver,hs.2 hread,Cursor.ok]

/-- Whether the decoder gets as far as the plans, which it then replaces. -/
def reachesPlans (bytes : Bytes) : Bool :=
  let ver := u32 ⟨bytes,0,false⟩
  let h := readHeader ver.2
  let ws := readList readWorker h.2
  let n := u32 ws.2
  ver.1 = kPersistenceFormatVersion && ver.2.ok && h.2.ok &&
    (collect readRequest putRequest n.1.toNat .empty n.2).1.1

theorem reachesPlans_own {im : Impl} (h : im.CountsFit)
    (hq : ∀ q ∈ im.requests.values, q.Readable) : reachesPlans im.encodeSnapshot = true := by
  let r : ByteReader := ⟨im.encodeSnapshot,0,false⟩
  have hr : r.rest = ByteWriter.u32 kPersistenceFormatVersion ++ (encodeHeader im.ctx ++
      (encodeList encodeWorker im.ctx.workerBoots.entries ++
        (encodeList encodeRequest im.requests.values ++ im.encodeLedger))) := by
    simp only [r,Cursor.rest,List.drop_zero,encodeSnapshot_eq,encodePreamble,List.append_assoc]
  have hver := (decodes_u32 kPersistenceFormatVersion r _ rfl hr).1 trivial
  have hr1 := Cursor.advance_rest r (ByteWriter.u32 kPersistenceFormatVersion).length
  rw [hr,List.drop_left] at hr1
  have hh := (decodes_header im.ctx _ _ rfl hr1).1 trivial
  have hr2 := Cursor.advance_rest (r.advance (ByteWriter.u32 kPersistenceFormatVersion).length)
    (encodeHeader im.ctx).length
  rw [hr1,List.drop_left] at hr2
  have hw := (decodes_workers h _ _ rfl hr2).1 trivial
  have hr3 := Cursor.advance_rest ((r.advance
    (ByteWriter.u32 kPersistenceFormatVersion).length).advance (encodeHeader im.ctx).length)
    (encodeList encodeWorker im.ctx.workerBoots.entries).length
  rw [hr2,List.drop_left] at hr3
  have hreq := (decodes_requests h _ _ rfl hr3).1 hq
  have hc := collect_readList sticky_readRequest putRequest .empty _ (by rw [hreq]; rfl)
  have hver : u32 ⟨im.encodeSnapshot,0,false⟩ = _ := hver
  simp only [reachesPlans,hver,hh,hw,hc]
  rfl

theorem applyRequests_stopped {im : Impl} {r : ByteReader}
    (h : (collect readRequest putRequest (u32 r).1.toNat .empty (u32 r).2).1.1 = false) :
    (im.applyRequests r).2.plans = im.plans := by
  simp [applyRequests,h]

theorem applySnapshot_unreached (im : Impl) {bytes : Bytes} (preserveEpochBoot : Bool)
    (h : reachesPlans bytes = false) :
    (im.applySnapshot bytes preserveEpochBoot).2.plans = im.plans := by
  unfold reachesPlans at h
  unfold applySnapshot
  generalize u32 ⟨bytes,0,false⟩ = ver at h ⊢
  dsimp only at h ⊢
  split
  · rfl
  · rename_i hver
    unfold applyBody
    dsimp only
    split
    · rfl
    · rename_i hok
      simp only [Bool.or_eq_true,decide_eq_true_eq,not_or,Bool.not_eq_true',not_not,
        Bool.not_eq_false,ne_eq] at hver hok
      simp only [hver.1,hver.2,hok,decide_true,Bool.true_and] at h
      exact applyRequests_stopped h

theorem putDecoded_keyed (m : SortedMap UInt64 RecoveryPlan) (q : RecoveryPlan)
    (h : Keyed m) : Keyed (putDecoded m q) := by
  intro k p hp
  rw [putDecoded,SortedMap.find?_insert] at hp
  split at hp
  · rename_i hk
    rw [← Option.some.inj hp]
    exact hk.symm
  · exact h k p hp

theorem applyPlans_table (im : Impl) (r : ByteReader) :
    (im.applyPlans r).2.plans =
      (collect readPlan putDecoded (u32 r).1.toNat .empty (u32 r).2).1.2 := by
  unfold applyPlans
  dsimp only
  split <;> rfl

theorem applyRequests_keyed {im : Impl} (h : Keyed im.plans) (r : ByteReader) :
    Keyed (im.applyRequests r).2.plans := by
  have hempty : Keyed .empty := fun k p hp => absurd hp (by simp)
  unfold applyRequests
  dsimp only
  split
  · rw [applyPlans_table]
    exact collect_preserves putDecoded_keyed _ _ _ hempty
  · exact h

/-- Whatever the bytes, the table that comes out of them is keyed. -/
theorem applySnapshot_keyed (im : Impl) (h : Keyed im.plans) (bytes : Bytes)
    (preserveEpochBoot : Bool) : Keyed (im.applySnapshot bytes preserveEpochBoot).2.plans := by
  unfold applySnapshot
  dsimp only
  split
  · exact h
  · unfold applyBody applyWorkers
    dsimp only
    split
    · exact h
    · apply applyRequests_keyed
      exact h

theorem loadState_storeless {im : Impl} (h : im.hasStore = false) (disk : Disk) :
    (im.loadState disk).2 = im := by
  simp [loadState,h]

theorem loadState_none (im : Impl) : (im.loadState none).2 = im := by
  unfold loadState loadLocked
  split <;> rfl

theorem loadState_some {im : Impl} (h : im.hasStore = true) (blob : Bytes) :
    (im.loadState (some blob)).2 = (im.applySnapshot blob false).2 := by
  simp [loadState,loadLocked,h]

theorem loadState_cases (im : Impl) (disk : Disk) :
    (im.loadState disk).2 = im ∨ ∃ blob, im.hasStore = true ∧ disk = some blob ∧
      (im.loadState disk).2 = (im.applySnapshot blob false).2 := by
  cases hstore : im.hasStore with
  | false => exact .inl (loadState_storeless hstore disk)
  | true =>
    cases disk with
    | none => exact .inl im.loadState_none
    | some blob => exact .inr ⟨blob,rfl,rfl,loadState_some hstore blob⟩

theorem loadState_frame (im : Impl) (disk : Disk) : SameFrame im (im.loadState disk).2 := by
  rcases im.loadState_cases disk with h | ⟨blob,_,_,h⟩
  · rw [h]
    exact ⟨rfl,rfl,rfl,rfl⟩
  · rw [h]
    exact im.applySnapshot_frame blob false

theorem restartReloading_storeless {im : Impl} (h : im.hasStore = false)
    (clock : UInt64 → Timestamp) (reload : Disk) :
    im.restartReloading clock reload = (im.advanceEpoch.retirePlans clock).recordRestart := by
  simp [restartReloading,h]

theorem restartReloading_some {im : Impl} (h : im.hasStore = true) (clock : UInt64 → Timestamp)
    (blob : Bytes) :
    im.restartReloading clock (some blob) =
      ((im.advanceEpoch.applySnapshot blob true).2.retirePlans clock).recordRestart := by
  simp [restartReloading,h]

theorem retirePlans_ctx (im : Impl) (clock : UInt64 → Timestamp) :
    (im.retirePlans clock).recordRestart.ctx = im.ctx := rfl

/-- The epoch after a restart is the next one, whatever snapshot was reloaded. -/
theorem restartReloading_epoch {im : Impl} (h : im.hasStore = true)
    (clock : UInt64 → Timestamp) (src : Impl) :
    (im.restartReloading clock (some src.encodeSnapshot)).ctx.epoch = im.ctx.epoch.next := by
  rw [restartReloading_some h,retirePlans_ctx,applySnapshot_epoch]
  rfl

theorem restartReloading_none (im : Impl) (clock : UInt64 → Timestamp) :
    im.restartReloading clock none = (im.advanceEpoch.retirePlans clock).recordRestart := by
  cases hstore : im.hasStore with
  | false => exact restartReloading_storeless hstore clock none
  | true => simp [restartReloading,hstore]

theorem restartReloading_cases (im : Impl) (clock : UInt64 → Timestamp) (reload : Disk) :
    im.restartReloading clock reload = (im.advanceEpoch.retirePlans clock).recordRestart ∨
    ∃ blob, im.hasStore = true ∧ reload = some blob ∧ im.restartReloading clock reload =
      ((im.advanceEpoch.applySnapshot blob true).2.retirePlans clock).recordRestart := by
  cases hstore : im.hasStore with
  | false => exact .inl (restartReloading_storeless hstore clock reload)
  | true =>
    cases reload with
    | none => exact .inl (im.restartReloading_none clock)
    | some blob => exact .inr ⟨blob,rfl,rfl,restartReloading_some hstore clock blob⟩

theorem restartReloading_frame (im : Impl) (clock : UInt64 → Timestamp) (reload : Disk) :
    SameFrame im (im.restartReloading clock reload) := by
  rcases im.restartReloading_cases clock reload with h | ⟨blob,_,_,h⟩
  · rw [h]
    exact ⟨rfl,rfl,rfl,rfl⟩
  · rw [h]
    obtain ⟨h1,h2,h3,h4⟩ := im.advanceEpoch.applySnapshot_frame blob true
    exact ⟨h1,h2,h3,h4⟩

theorem find?_retirePlans {im : Impl} {clock : UInt64 → Timestamp} {k : UInt64}
    {p : RecoveryPlan} (h : (im.retirePlans clock).recordRestart.plans.find? k = some p) :
    ∃ q, im.plans.find? k = some q ∧ p = retire (clock k) q := by
  have h : (im.plans.mapValues (fun k p => retire (clock k) p)).find? k = some p := h
  rw [SortedMap.find?_mapValues,Option.map_eq_some_iff] at h
  obtain ⟨q,hq,rfl⟩ := h
  exact ⟨q,hq,rfl⟩

theorem loadState_table (im : Impl) {src : Impl} (h : src.CountsFit)
    (hp : PlansSound src.plans) :
    (im.loadState (some src.encodeSnapshot)).2.plans = im.plans ∨
      (im.loadState (some src.encodeSnapshot)).2.plans = src.durablePlans := by
  cases hstore : im.hasStore with
  | false =>
    rw [loadState_storeless hstore]
    exact .inl rfl
  | true =>
    rw [loadState_some hstore]
    exact (applySnapshot_encode im h hp false).2

theorem restartReloading_plans (im : Impl) {src : Impl} (clock : UInt64 → Timestamp)
    (h : im.hasStore = true → src.CountsFit) (hp : PlansSound src.plans) {k : UInt64}
    {p : RecoveryPlan}
    (hk : (im.restartReloading clock (some src.encodeSnapshot)).plans.find? k = some p) :
    ∃ q, p = retire (clock k) q ∧
      (im.plans.find? k = some q ∨ ∃ r, src.plans.find? k = some r ∧ q = r.durable) := by
  cases hstore : im.hasStore with
  | false =>
    rw [restartReloading_storeless hstore] at hk
    obtain ⟨q,hq,rfl⟩ := find?_retirePlans hk
    exact ⟨q,rfl,.inl hq⟩
  | true =>
    rw [restartReloading_some hstore] at hk
    obtain ⟨q,hq,rfl⟩ := find?_retirePlans hk
    have happ := (applySnapshot_encode im.advanceEpoch (h hstore) hp true).2
    rcases happ with happ | happ
    · rw [happ] at hq
      exact ⟨q,rfl,.inl hq⟩
    · rw [happ] at hq
      exact ⟨q,rfl,.inr (find?_durablePlans hp hq)⟩

theorem retirePlans_keyed (im : Impl) (h : Keyed im.plans) (clock : UInt64 → Timestamp) :
    Keyed (im.retirePlans clock).recordRestart.plans := by
  intro k p hk
  obtain ⟨q,hq,rfl⟩ := find?_retirePlans hk
  have hid : (retire (clock k) q).planId = q.planId := by
    unfold retire
    split <;> rfl
  rw [hid]
  exact h k q hq

theorem restartReloading_keyed {im : Impl} (h : Keyed im.plans)
    (clock : UInt64 → Timestamp) (reload : Disk) :
    Keyed (im.restartReloading clock reload).plans := by
  rcases im.restartReloading_cases clock reload with heq | ⟨blob,_,_,heq⟩
  · rw [heq]
    exact retirePlans_keyed im.advanceEpoch h clock
  · rw [heq]
    exact retirePlans_keyed _ (applySnapshot_keyed im.advanceEpoch h blob true) clock

theorem loadState_keyed {im : Impl} (h : Keyed im.plans) (disk : Disk) :
    Keyed (im.loadState disk).2.plans := by
  rcases im.loadState_cases disk with heq | ⟨blob,_,_,heq⟩
  · rw [heq]
    exact h
  · rw [heq]
    exact applySnapshot_keyed im h blob false

end Impl

end RecoveryPlanner
