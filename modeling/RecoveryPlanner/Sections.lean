import RecoveryPlanner.SnapshotLoad
set_option autoImplicit false

/-! The sections of a snapshot as the decoder gets to them. Each one replaces a table of the
planner as soon as it is read, whatever becomes of the rest. -/

namespace RecoveryPlanner

open Scan ByteReader

def headerAt (bytes : Bytes) : Option ByteReader :=
  let ver := u32 ⟨bytes,0,false⟩
  if ver.1 ≠ kPersistenceFormatVersion || !ver.2.ok then none else some ver.2

/-- Behind a complete header. -/
def workersAt (bytes : Bytes) : Option ByteReader :=
  (headerAt bytes).bind fun c => if (readHeader c).2.ok then some (readHeader c).2 else none

/-- Behind the workers, complete or not. -/
def requestsAt (bytes : Bytes) : Option ByteReader :=
  (workersAt bytes).map fun c => (readList readWorker c).2

def requestLoop : Scan UInt8 (Bool × SortedMap UInt64 RecoveryRequest) := fun c =>
  collect readRequest putRequest (u32 c).1.toNat .empty (u32 c).2

def planLoop : Scan UInt8 (Bool × SortedMap UInt64 RecoveryPlan) := fun c =>
  collect readPlan putDecoded (u32 c).1.toNat .empty (u32 c).2

def plansAt (bytes : Bytes) : Option ByteReader :=
  (requestsAt bytes).bind fun c => if (requestLoop c).1.1 then some (requestLoop c).2 else none

def historyAt (bytes : Bytes) : Option ByteReader :=
  (plansAt bytes).bind fun c => if (planLoop c).1.1 then some (planLoop c).2 else none

def workersIn (bytes : Bytes) : Option (SortedMap WorkerId WorkerBootId) :=
  (workersAt bytes).map fun c => workerTable (readList readWorker c).1

def requestsIn (bytes : Bytes) : Option (SortedMap UInt64 RecoveryRequest) :=
  (requestsAt bytes).map fun c => (requestLoop c).1.2

def plansIn (bytes : Bytes) : Option (SortedMap UInt64 RecoveryPlan) :=
  (plansAt bytes).map fun c => (planLoop c).1.2

def historyIn (bytes : Bytes) : Option (List Str) :=
  (historyAt bytes).map fun c => (readList cstring c).1

namespace Impl

/-- What is in a section replaces the planner's own table; a section that is not reached
leaves it alone. -/
structure TakesSections (im im' : Impl) (bytes : Bytes) : Prop where
  workers : im'.ctx.workerBoots = (workersIn bytes).getD im.ctx.workerBoots
  requests : im'.requests = (requestsIn bytes).getD im.requests
  plans : im'.plans = (plansIn bytes).getD im.plans
  history : im'.history = (historyIn bytes).getD im.history

theorem applyPlans_eq (im : Impl) (c : ByteReader) :
    (im.applyPlans c).2 =
      if (planLoop c).1.1 then
        { im with plans := (planLoop c).1.2, history := (readList cstring (planLoop c).2).1 }
      else { im with plans := (planLoop c).1.2 } := by
  unfold applyPlans applyHistory planLoop
  dsimp only
  split <;> rfl

theorem applyRequests_eq (im : Impl) (c : ByteReader) :
    (im.applyRequests c).2 =
      if (requestLoop c).1.1 then
        ({ im with requests := (requestLoop c).1.2 }.applyPlans (requestLoop c).2).2
      else { im with requests := (requestLoop c).1.2 } := by
  unfold applyRequests requestLoop
  dsimp only
  split <;> rfl

theorem applyRequests_sections (im : Impl) {bytes : Bytes} {c : ByteReader}
    (h : requestsAt bytes = some c) :
    (im.applyRequests c).2.ctx = im.ctx ∧
    (im.applyRequests c).2.requests = (requestsIn bytes).getD im.requests ∧
    (im.applyRequests c).2.plans = (plansIn bytes).getD im.plans ∧
    (im.applyRequests c).2.history = (historyIn bytes).getD im.history := by
  rw [applyRequests_eq]
  by_cases hq : (requestLoop c).1.1 = true
  · rw [if_pos hq,applyPlans_eq]
    by_cases hp : (planLoop (requestLoop c).2).1.1 = true
    · simp [requestsIn,plansIn,historyIn,plansAt,historyAt,h,hq,hp]
    · simp [requestsIn,plansIn,historyIn,plansAt,historyAt,h,hq,hp]
  · simp [requestsIn,plansIn,historyIn,plansAt,historyAt,h,hq]

theorem unread_sections {bytes : Bytes} (h : workersAt bytes = none) :
    workersIn bytes = none ∧ requestsIn bytes = none ∧ plansIn bytes = none ∧
      historyIn bytes = none := by
  simp [workersIn,requestsIn,plansIn,historyIn,historyAt,plansAt,requestsAt,h]

theorem applySnapshot_headerAt (im : Impl) (bytes : Bytes) (preserveEpochBoot : Bool) :
    (headerAt bytes = none ∧ im.applySnapshot bytes preserveEpochBoot = (false,im)) ∨
    ∃ c, headerAt bytes = some c ∧
      im.applySnapshot bytes preserveEpochBoot = im.applyBody preserveEpochBoot c := by
  unfold headerAt applySnapshot
  dsimp only
  split
  · exact .inl ⟨rfl,rfl⟩
  · exact .inr ⟨_,rfl,rfl⟩

theorem applySnapshot_sections (im : Impl) (bytes : Bytes) (preserveEpochBoot : Bool) :
    TakesSections im (im.applySnapshot bytes preserveEpochBoot).2 bytes := by
  rcases im.applySnapshot_headerAt bytes preserveEpochBoot with ⟨hhead,heq⟩ | ⟨c,hhead,heq⟩
  · obtain ⟨hw,hq,hp,hh⟩ := unread_sections (by simp [workersAt,hhead] : workersAt bytes = none)
    rw [heq]
    exact ⟨by rw [hw]; rfl,by rw [hq]; rfl,by rw [hp]; rfl,by rw [hh]; rfl⟩
  · rw [heq,applyBody]
    cases hok : (readHeader c).2.ok with
    | false =>
      have hnone : workersAt bytes = none := by simp [workersAt,hhead,hok]
      obtain ⟨hw,hq,hp,hh⟩ := unread_sections hnone
      exact ⟨by rw [hw]; rfl,by rw [hq]; rfl,by rw [hp]; rfl,by rw [hh]; rfl⟩
    | true =>
      have hworkers : workersAt bytes = some (readHeader c).2 := by simp [workersAt,hhead,hok]
      have hrequests : requestsAt bytes = some (readList readWorker (readHeader c).2).2 := by
        simp [requestsAt,hworkers]
      obtain ⟨hctx,hq,hp,hh⟩ := applyRequests_sections
        { im with
          ctx := (im.ctx.installHeader preserveEpochBoot (readHeader c).1).installWorkers
            (readList readWorker (readHeader c).2).1 } hrequests
      simp only [Bool.not_true,Bool.false_eq_true,if_false,applyWorkers]
      refine ⟨?_,hq,hp,hh⟩
      rw [hctx,workersIn,hworkers]
      rfl

end Impl

end RecoveryPlanner
