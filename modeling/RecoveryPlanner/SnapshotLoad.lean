import RecoveryPlanner.SnapshotCodec
set_option autoImplicit false

/-! What the planner holds after it has read a snapshot: the decoder that writes
into the live state compared with one that only reads. -/

namespace RecoveryPlanner

open Scan ByteReader

structure Snapshot where
  header : SnapshotHeader
  workers : List (WorkerId × WorkerBootId)
  requests : List RecoveryRequest
  plans : List RecoveryPlan
  history : List Str
  deriving DecidableEq, Repr

def readSnapshot : Scan UInt8 Snapshot := do
  let header ← readHeader
  let workers ← readList readWorker
  let requests ← readList readRequest
  let plans ← readList readPlan
  let history ← readList cstring
  pure ⟨header,workers,requests,plans,history⟩

def decodeSnapshot (bytes : Bytes) : Option Snapshot :=
  let ver := u32 ⟨bytes,0,false⟩
  if ver.1 ≠ kPersistenceFormatVersion || !ver.2.ok then none
  else
    let s := readSnapshot ver.2
    if s.2.ok then some s.1 else none

def Impl.install (im : Impl) (preserveEpochBoot : Bool) (s : Snapshot) : Impl :=
  { im with
    ctx := (im.ctx.installHeader preserveEpochBoot s.header).installWorkers s.workers
    requests := s.requests.foldl putRequest .empty
    plans := s.plans.foldl putDecoded .empty
    history := s.history }

theorem readSnapshot_apply (r : ByteReader) :
    readSnapshot r =
      let h := readHeader r
      let ws := readList readWorker h.2
      let qs := readList readRequest ws.2
      let ps := readList readPlan qs.2
      let hs := readList cstring ps.2
      (⟨h.1,ws.1,qs.1,ps.1,hs.1⟩,hs.2) := by
  simp only [readSnapshot,bind_apply,pure_apply]

theorem collect_readList {α μ : Type} {p : Scan UInt8 α} (hp : Sticky p) (put : μ → α → μ)
    (m : μ) (r : ByteReader) (h : (readList p r).2.failed = false) :
    collect p put (u32 r).1.toNat m (u32 r).2 =
      ((true,(readList p r).1.foldl put m),(readList p r).2) :=
  collect_of_times hp put _ m _ h

theorem collect_readList_failed {α μ : Type} {p : Scan UInt8 α} (hp : Sticky p)
    (put : μ → α → μ) (m : μ) (r : ByteReader) (h : (readList p r).2.failed = true) :
    (collect p put (u32 r).1.toNat m (u32 r).2).1.1 = false ∨
      (collect p put (u32 r).1.toNat m (u32 r).2).2.failed = true := by
  by_cases hn : (u32 r).2.failed = true
  · exact .inr (hp.collect put _ m _ hn)
  · have hn : (u32 r).2.failed = false := by simpa using hn
    exact .inl (collect_stops put _ m (u32 r).2 hn h).1

namespace Impl

theorem applyHistory_failed (im : Impl) {r : ByteReader} (h : r.failed = true) :
    (im.applyHistory r).1 = false := by
  have hs := sticky_readList sticky_cstring r h
  simp [applyHistory,Cursor.ok,hs]

theorem applyPlans_ok (im : Impl) (r : ByteReader) (h : (readList readPlan r).2.failed = false) :
    im.applyPlans r =
      { im with plans := (readList readPlan r).1.foldl putDecoded .empty }.applyHistory
        (readList readPlan r).2 := by
  have hc := collect_readList sticky_readPlan putDecoded .empty r h
  simp [applyPlans,hc]

theorem applyPlans_failed (im : Impl) {r : ByteReader}
    (h : (readList readPlan r).2.failed = true) : (im.applyPlans r).1 = false := by
  simp only [applyPlans]
  split
  · rename_i hrun
    rcases collect_readList_failed sticky_readPlan putDecoded .empty r h with hc | hc
    · rw [hc] at hrun
      exact absurd hrun (by simp)
    · exact applyHistory_failed _ hc
  · rfl

theorem applyRequests_ok (im : Impl) (r : ByteReader)
    (h : (readList readRequest r).2.failed = false) :
    im.applyRequests r =
      { im with requests := (readList readRequest r).1.foldl putRequest .empty }.applyPlans
        (readList readRequest r).2 := by
  have hc := collect_readList sticky_readRequest putRequest .empty r h
  simp [applyRequests,hc]

theorem applyRequests_failed (im : Impl) {r : ByteReader}
    (h : (readList readRequest r).2.failed = true) : (im.applyRequests r).1 = false := by
  simp only [applyRequests]
  split
  · rename_i hrun
    rcases collect_readList_failed sticky_readRequest putRequest .empty r h with hc | hc
    · rw [hc] at hrun
      exact absurd hrun (by simp)
    · exact applyPlans_failed _ (sticky_readList sticky_readPlan _ hc)
  · rfl

/-- The part after the header, against the reader that only reads. -/
theorem applyWorkers_eq (im : Impl) (r : ByteReader) :
    let ws := readList readWorker r
    let qs := readList readRequest ws.2
    let ps := readList readPlan qs.2
    let hs := readList cstring ps.2
    (hs.2.failed = false → im.applyWorkers r =
      (true,{ im with
        ctx := im.ctx.installWorkers ws.1
        requests := qs.1.foldl putRequest .empty
        plans := ps.1.foldl putDecoded .empty
        history := hs.1 })) ∧
    (hs.2.failed = true → (im.applyWorkers r).1 = false) := by
  intro ws qs ps hs
  by_cases hq : qs.2.failed = true
  · have hp : ps.2.failed = true := sticky_readList sticky_readPlan _ hq
    have hh : hs.2.failed = true := sticky_readList sticky_cstring _ hp
    refine ⟨fun h => ?_,fun _ => applyRequests_failed _ hq⟩
    rw [hh] at h
    exact absurd h (by simp)
  have hq : qs.2.failed = false := by simpa using hq
  have hreq := applyRequests_ok { im with ctx := im.ctx.installWorkers ws.1 } ws.2 hq
  by_cases hp : ps.2.failed = true
  · have hh : hs.2.failed = true := sticky_readList sticky_cstring _ hp
    refine ⟨fun h => ?_,fun _ => ?_⟩
    · rw [hh] at h
      exact absurd h (by simp)
    · rw [applyWorkers,hreq]
      exact applyPlans_failed _ hp
  have hp : ps.2.failed = false := by simpa using hp
  rw [applyWorkers,hreq,applyPlans_ok _ _ hp]
  exact ⟨fun h => by simp [applyHistory,Cursor.ok,hs,ps,qs,ws,h],
    fun h => by simp [applyHistory,Cursor.ok,hs,ps,qs,ws,h]⟩

/-- Accepted exactly when the reader gets to the end, and then installed as read. -/
theorem applyBody_decoded (im : Impl) (preserveEpochBoot : Bool) (r : ByteReader) :
    ((readSnapshot r).2.failed = false →
      im.applyBody preserveEpochBoot r = (true,im.install preserveEpochBoot (readSnapshot r).1)) ∧
    ((readSnapshot r).2.failed = true → (im.applyBody preserveEpochBoot r).1 = false) := by
  by_cases hh : (readHeader r).2.failed = true
  · have hs := sticky_readList sticky_cstring _ (sticky_readList sticky_readPlan _
      (sticky_readList sticky_readRequest _ (sticky_readList sticky_readWorker _ hh)))
    have hs : (readSnapshot r).2.failed = true := by
      simpa only [readSnapshot_apply] using hs
    simp [applyBody,Cursor.ok,hh,hs]
  · have hb : im.applyBody preserveEpochBoot r =
        { im with ctx := im.ctx.installHeader preserveEpochBoot (readHeader r).1 }.applyWorkers
          (readHeader r).2 := by
      simp [applyBody,Cursor.ok,hh]
    have hw := applyWorkers_eq
      { im with ctx := im.ctx.installHeader preserveEpochBoot (readHeader r).1 } (readHeader r).2
    simpa only [hb,readSnapshot_apply,install] using hw

theorem applySnapshot_decoded (im : Impl) (bytes : Bytes) (preserveEpochBoot : Bool) :
    (∀ s, decodeSnapshot bytes = some s →
      im.applySnapshot bytes preserveEpochBoot = (true,im.install preserveEpochBoot s)) ∧
    (decodeSnapshot bytes = none → (im.applySnapshot bytes preserveEpochBoot).1 = false) := by
  unfold decodeSnapshot applySnapshot
  generalize u32 ⟨bytes,0,false⟩ = ver
  have hb := im.applyBody_decoded preserveEpochBoot ver.2
  dsimp only
  split
  · simp
  · by_cases hr : (readSnapshot ver.2).2.failed = true
    · simpa [Cursor.ok,hr] using hb.2 hr
    · have hr : (readSnapshot ver.2).2.failed = false := by simpa using hr
      simp [Cursor.ok,hr,hb.1 hr]

/-- A load that takes all of a valid snapshot or nothing, and says which. -/
def LoadAtomic (im : Impl) (disk : Disk) : Prop :=
  (∃ bytes s, disk = some bytes ∧ decodeSnapshot bytes = some s ∧
    im.loadState disk = (true,im.install false s)) ∨
  im.loadState disk = (false,im)

/-- With a store the flag is always `true`, so only a valid snapshot will do. -/
theorem LoadAtomic.decoded {im : Impl} {disk : Disk} (h : im.LoadAtomic disk)
    (hstore : im.hasStore = true) :
    ∃ bytes, disk = some bytes ∧ (decodeSnapshot bytes).isSome = true := by
  rcases h with ⟨bytes,s,hd,hs,_⟩ | h
  · exact ⟨bytes,hd,by rw [hs]; rfl⟩
  · have hflag : (im.loadState disk).1 = false := by rw [h]
    simp [loadState,hstore] at hflag

theorem loadAtomic_iff (im : Impl) (disk : Disk) :
    im.LoadAtomic disk ↔
      im.hasStore = false ∨ ∃ bytes, disk = some bytes ∧ (decodeSnapshot bytes).isSome = true := by
  constructor
  · intro h
    cases hstore : im.hasStore with
    | false => exact .inl rfl
    | true => exact .inr (h.decoded hstore)
  · intro h
    by_cases hstore : im.hasStore = true
    · rw [hstore] at h
      obtain ⟨bytes,rfl,hsome⟩ := h.resolve_left (by simp)
      obtain ⟨s,hs⟩ := Option.isSome_iff_exists.mp hsome
      have happ := (im.applySnapshot_decoded bytes false).1 s hs
      exact .inl ⟨bytes,s,rfl,hs,by simp [loadState,hstore,loadLocked,happ]⟩
    · exact .inr (by simp [loadState,hstore])

def registeredPlanner : Impl := (Impl.construct true).registerWorker ⟨1⟩ ⟨1⟩

/-- Its snapshot, cut off behind the header: the worker is forgotten and the
caller is told that the load went well. -/
theorem loadState_truncated :
    ¬ registeredPlanner.LoadAtomic (some (registeredPlanner.encodeSnapshot.take 60)) ∧
    (registeredPlanner.loadState (some (registeredPlanner.encodeSnapshot.take 60))).1 = true ∧
    (registeredPlanner.loadState (some (registeredPlanner.encodeSnapshot.take 60))).2.ctx.workerBoots
      = .empty ∧
    registeredPlanner.ctx.workerBoots ≠ .empty := by
  refine ⟨fun h => ?_,rfl,by decide +kernel,by decide +kernel⟩
  obtain ⟨bytes,hb,hs⟩ := h.decoded rfl
  obtain rfl := Option.some.inj hb
  exact absurd hs (by decide +kernel)

end Impl

end RecoveryPlanner
