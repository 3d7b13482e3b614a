import RecoveryPlanner.Canonical
import RecoveryPlanner.Sections
set_option autoImplicit false

/-! How much a snapshot can make the planner build. The checked loops stop where the bytes
end; the lists in a request and the history go on to the count that was declared. -/

namespace RecoveryPlanner

open Scan ByteReader

def RecoveryRequest.vectors (q : RecoveryRequest) : List Nat :=
  [q.preferredStrategies.length,q.forbiddenStrategies.length,q.stateRequirements.length,
    q.placementConstraints.length,q.compatibilityRequirements.length]

def requestsBegun (bytes : Bytes) : List ByteReader :=
  match requestsAt bytes with
  | none => []
  | some c => attempts readRequest (u32 c).1.toNat (u32 c).2

namespace Impl

def emptied (im : Impl) : Impl :=
  { im with
    ctx := { im.ctx with workerBoots := .empty }
    requests := .empty
    plans := .empty
    history := [] }

/-- Nothing that is put into a table or into a list of a request has more entries than the
input has bytes. -/
structure EntriesWithin (im : Impl) (bytes : Bytes) (preserveEpochBoot : Bool) : Prop where
  workers : (im.emptied.applySnapshot bytes preserveEpochBoot).2.ctx.workerBoots.entries.length ≤
    bytes.length
  requests : (im.emptied.applySnapshot bytes preserveEpochBoot).2.requests.entries.length ≤
    bytes.length
  plans : (im.emptied.applySnapshot bytes preserveEpochBoot).2.plans.entries.length ≤ bytes.length
  history : (im.emptied.applySnapshot bytes preserveEpochBoot).2.history.length ≤ bytes.length
  vectors : ∀ c ∈ requestsBegun bytes, ∀ n ∈ (readRequest c).1.vectors, n ≤ bytes.length

structure PutsEntries (im : Impl) (bytes : Bytes) (preserveEpochBoot : Bool) : Prop where
  workers : (im.applySnapshot bytes preserveEpochBoot).2.ctx.workerBoots = im.ctx.workerBoots ∨
    (im.applySnapshot bytes preserveEpochBoot).2.ctx.workerBoots =
      (im.emptied.applySnapshot bytes preserveEpochBoot).2.ctx.workerBoots
  requests : (im.applySnapshot bytes preserveEpochBoot).2.requests = im.requests ∨
    (im.applySnapshot bytes preserveEpochBoot).2.requests =
      (im.emptied.applySnapshot bytes preserveEpochBoot).2.requests
  plans : (im.applySnapshot bytes preserveEpochBoot).2.plans = im.plans ∨
    (im.applySnapshot bytes preserveEpochBoot).2.plans =
      (im.emptied.applySnapshot bytes preserveEpochBoot).2.plans
  history : (im.applySnapshot bytes preserveEpochBoot).2.history = im.history ∨
    (im.applySnapshot bytes preserveEpochBoot).2.history =
      (im.emptied.applySnapshot bytes preserveEpochBoot).2.history

end Impl

/-- No count that the decoder meets for a list of a request or for the history exceeds the
number of bytes. -/
def CountsWithin (bytes : Bytes) : Prop :=
  (∀ c ∈ requestsBegun bytes, ∀ n ∈ (requestLayout c).counts, n ≤ bytes.length) ∧
  ∀ c, historyAt bytes = some c → (u32 c).1.toNat ≤ bytes.length

theorem readRequest_vectors (c : ByteReader) :
    (readRequest c).1.vectors = (requestLayout c).counts := by
  unfold readRequest
  simp only [bind_apply,pure_apply,requestLayout,times_after,times_none,
    RecoveryRequest.vectors,List.length_map,readList_length]

theorem onward_worker : Onward readWorker :=
  (onward_window _ _ _).bind fun _ => (onward_window _ _ _).bind fun _ => onward_pure _

theorem readWorker_failed {c : ByteReader} (h : c.failed = true) :
    (readWorker c).1 = (⟨0⟩,⟨0⟩) ∧ (readWorker c).2.failed = true := by
  have hhas : c.has 8 = false := by simp [Cursor.has,h]
  have hfail : c.fail.has 8 = false := by simp [Cursor.has]
  simp only [readWorker,bind_apply,pure_apply,u64,window,hhas,hfail,Bool.false_eq_true,if_false]
  trivial

theorem times_readWorker_failed (n : Nat) {c : ByteReader} (h : c.failed = true) :
    (times readWorker n c).1 = List.replicate n (⟨0⟩,⟨0⟩) := by
  induction n generalizing c with
  | zero => rfl
  | succ n ih =>
    obtain ⟨hval,hfail⟩ := readWorker_failed h
    change (readWorker c).1 :: (times readWorker n (readWorker c).2).1 = _
    rw [hval,ih hfail,List.replicate_succ]

theorem foldl_insert_replicate (n : Nat) (w : WorkerId) (b : WorkerBootId)
    (m : SortedMap WorkerId WorkerBootId) :
    ((List.replicate n (w,b)).foldl (fun m kv => m.insert kv.1 kv.2) m).entries.length ≤
      m.entries.length+1 := by
  have hagain : (List.replicate n (w,b)).foldl (fun m kv => m.insert kv.1 kv.2) (m.insert w b) =
      m.insert w b := by
    induction n with
    | zero => rfl
    | succ n ih =>
      have hsame : (m.insert w b).insert w b = m.insert w b :=
        SortedMap.insert_self (by simp)
      rw [List.replicate_succ,List.foldl_cons,hsame,ih]
  cases n with
  | zero => exact Nat.le_succ _
  | succ n =>
    have hsame : (m.insert w b).insert w b = m.insert w b := SortedMap.insert_self (by simp)
    rw [List.replicate_succ,List.foldl_cons,hsame] at hagain
    rw [List.replicate_succ,List.foldl_cons,hagain]
    exact SortedMap.insertEntry_length_le w b m.entries

theorem encodeWorker_length (kv : WorkerId × WorkerBootId) : (encodeWorker kv).length = 16 := by
  simp [encodeWorker,ByteWriter.u64,bigEndian_length]

/-- The unchecked worker loop goes on after the bytes end, but only with zeros: beyond what
is read there is one entry that is cut off and one for worker 0. -/
theorem workers_size (n : Nat) {c : ByteReader} (h : c.failed = false)
    (m : SortedMap WorkerId WorkerBootId) :
    ((times readWorker n c).1.foldl (fun m kv => m.insert kv.1 kv.2) m).entries.length ≤
      m.entries.length+c.rest.length+2 := by
  induction n generalizing c m with
  | zero => exact Nat.le_trans (Nat.le_add_right _ _) (Nat.le_add_right _ _)
  | succ n ih =>
    have hone := SortedMap.insertEntry_length_le (readWorker c).1.1 (readWorker c).1.2 m.entries
    change ((times readWorker n (readWorker c).2).1.foldl (fun m kv => m.insert kv.1 kv.2)
      (m.insert (readWorker c).1.1 (readWorker c).1.2)).entries.length ≤ _
    have hone : (m.insert (readWorker c).1.1 (readWorker c).1.2).entries.length ≤
        m.entries.length+1 := hone
    cases hf : (readWorker c).2.failed with
    | true =>
      rw [times_readWorker_failed n hf]
      have hzeros := foldl_insert_replicate n ⟨0⟩ ⟨0⟩
        (m.insert (readWorker c).1.1 (readWorker c).1.2)
      omega
    | false =>
      have hlen := rewrites_worker.length hf
      rw [encodeWorker_length] at hlen
      have ih := ih hf (m.insert (readWorker c).1.1 (readWorker c).1.2)
      omega

theorem encodeRequest_pos (q : RecoveryRequest) : 0 < (encodeRequest q).length := by
  unfold encodeRequest
  simp only [List.length_append,ByteWriter.u64,bigEndian_length]
  omega

theorem encodePlan_pos (p : RecoveryPlan) : 0 < (encodePlan p).length := by
  unfold encodePlan
  simp only [List.length_append,ByteWriter.u64,bigEndian_length]
  omega

theorem readRequest_consumes {c : ByteReader} (h : (readRequest c).2.failed = false) :
    (readRequest c).2.rest.length < c.rest.length := by
  have hlen := rewrites_request.length h
  have hpos := encodeRequest_pos (readRequest c).1
  omega

theorem readPlan_consumes {c : ByteReader} (h : (readPlan c).2.failed = false) :
    (readPlan c).2.rest.length < c.rest.length := by
  have hlen := rewrites_plan.length h
  have hpos := encodePlan_pos (readPlan c).1
  omega

theorem collect_entries {α : Type} {p : Scan UInt8 α}
    {put : SortedMap UInt64 α → α → SortedMap UInt64 α}
    (hput : ∀ m x, (put m x).entries.length ≤ m.entries.length+1)
    (hp : ∀ c, (p c).2.failed = false → (p c).2.rest.length < c.rest.length) (c : ByteReader) :
    (collect p put (u32 c).1.toNat .empty (u32 c).2).1.2.entries.length ≤ c.rest.length := by
  have hsize := collect_size (fun m : SortedMap UInt64 α => m.entries.length) hput hp
    (u32 c).1.toNat .empty (u32 c).2
  have hback : (u32 c).2.rest.length ≤ c.rest.length := onward_window _ _ _ c
  have hempty : (SortedMap.empty : SortedMap UInt64 α).entries.length = 0 := rfl
  omega

theorem collect_rest {α μ : Type} {p : Scan UInt8 α} {put : μ → α → μ} {m : μ}
    (hp : ∀ c, (p c).2.failed = false → (p c).2.rest.length < c.rest.length) {c : ByteReader}
    (h : (collect p put (u32 c).1.toNat m (u32 c).2).1.1 = true) :
    (collect p put (u32 c).1.toNat m (u32 c).2).2.rest.length ≤ c.rest.length :=
  Nat.le_trans (collect_onward (fun c hc => Nat.le_of_lt (hp c hc)) _ _ _ h)
    (onward_window _ _ _ c)

theorem headerAt_spec {bytes : Bytes} {c : ByteReader} (h : headerAt bytes = some c) :
    (u32 ⟨bytes,0,false⟩).2 = c ∧ c.failed = false := by
  unfold headerAt at h
  dsimp only at h
  split at h
  · exact absurd h (by simp)
  · rename_i hver
    obtain rfl := Option.some.inj h
    simp only [Bool.or_eq_true,not_or,Cursor.ok,Bool.not_not] at hver
    exact ⟨rfl,by simpa using hver.2⟩

theorem workersAt_spec {bytes : Bytes} {c : ByteReader} (h : workersAt bytes = some c) :
    ∃ r, headerAt bytes = some r ∧ (readHeader r).2 = c ∧ c.failed = false := by
  rw [workersAt,Option.bind_eq_some_iff] at h
  obtain ⟨r,hr,h⟩ := h
  split at h
  · rename_i hok
    obtain rfl := Option.some.inj h
    exact ⟨r,hr,rfl,by simpa [Cursor.ok] using hok⟩
  · exact absurd h (by simp)

theorem encodeHeader_length (ctx : PlannerContext) : (encodeHeader ctx).length = 56 := by
  simp [encodeHeader,ByteWriter.u64,bigEndian_length]

theorem workersAt_rest {bytes : Bytes} {c : ByteReader} (h : workersAt bytes = some c) :
    c.failed = false ∧ c.rest.length+60 = bytes.length := by
  obtain ⟨r,hr,rfl,hok⟩ := workersAt_spec h
  obtain ⟨rfl,hver⟩ := headerAt_spec hr
  have hword := rewrites_u32.length hver
  have hhead := rewrites_header.length hok
  rw [SnapshotHeader.encode,encodeHeader_length] at hhead
  have hfour : (ByteWriter.u32 (u32 ⟨bytes,0,false⟩).1).length = 4 := bigEndian_length 4 _
  have hall : (Cursor.rest ⟨bytes,0,false⟩).length = bytes.length := rfl
  exact ⟨hok,by omega⟩

theorem requestsAt_rest {bytes : Bytes} {c : ByteReader} (h : requestsAt bytes = some c) :
    c.rest.length ≤ bytes.length := by
  rw [requestsAt,Option.map_eq_some_iff] at h
  obtain ⟨r,hr,rfl⟩ := h
  have hstart := workersAt_rest hr
  have hback : (readList readWorker r).2.rest.length ≤ r.rest.length :=
    (show Onward (readList readWorker) from
      (onward_window _ _ _).bind fun n => onward_worker.times n.toNat) r
  omega

theorem plansAt_rest {bytes : Bytes} {c : ByteReader} (h : plansAt bytes = some c) :
    c.rest.length ≤ bytes.length := by
  rw [plansAt,Option.bind_eq_some_iff] at h
  obtain ⟨r,hr,h⟩ := h
  split at h
  · rename_i hran
    obtain rfl := Option.some.inj h
    exact (collect_rest (fun _ => readRequest_consumes) hran).trans (requestsAt_rest hr)
  · exact absurd h (by simp)

theorem workersIn_size {bytes : Bytes} {m : SortedMap WorkerId WorkerBootId}
    (h : workersIn bytes = some m) : m.entries.length ≤ bytes.length := by
  rw [workersIn,Option.map_eq_some_iff] at h
  obtain ⟨c,hc,rfl⟩ := h
  obtain ⟨hok,hrest⟩ := workersAt_rest hc
  have hsize : (workerTable (readList readWorker c).1).entries.length ≤ (u32 c).2.rest.length+2 := by
    change (workerTable (times readWorker (u32 c).1.toNat (u32 c).2).1).entries.length ≤ _
    unfold workerTable
    cases hn : (u32 c).2.failed with
    | true =>
      rw [times_readWorker_failed _ hn]
      exact (foldl_insert_replicate _ ⟨0⟩ ⟨0⟩ .empty).trans (by simp [SortedMap.empty])
    | false =>
      have h := workers_size (u32 c).1.toNat hn .empty
      rw [SortedMap.empty,List.length_nil,Nat.zero_add] at h
      exact h
  have hback : (u32 c).2.rest.length ≤ c.rest.length := onward_window _ _ _ c
  omega

theorem requestsIn_size {bytes : Bytes} {m : SortedMap UInt64 RecoveryRequest}
    (h : requestsIn bytes = some m) : m.entries.length ≤ bytes.length := by
  rw [requestsIn,Option.map_eq_some_iff] at h
  obtain ⟨c,hc,rfl⟩ := h
  refine Nat.le_trans ?_ (requestsAt_rest hc)
  unfold requestLoop
  exact collect_entries (fun m q => SortedMap.insertEntry_length_le _ _ m.entries)
    (fun _ => readRequest_consumes) c

theorem plansIn_size {bytes : Bytes} {m : SortedMap UInt64 RecoveryPlan}
    (h : plansIn bytes = some m) : m.entries.length ≤ bytes.length := by
  rw [plansIn,Option.map_eq_some_iff] at h
  obtain ⟨c,hc,rfl⟩ := h
  refine Nat.le_trans ?_ (plansAt_rest hc)
  unfold planLoop
  exact collect_entries (fun m p => SortedMap.insertEntry_length_le _ _ m.entries)
    (fun _ => readPlan_consumes) c

theorem historyIn_length {bytes : Bytes} : ((historyIn bytes).getD []).length ≤ bytes.length ↔
    ∀ c, historyAt bytes = some c → (u32 c).1.toNat ≤ bytes.length := by
  rw [historyIn]
  cases historyAt bytes with
  | none => simp
  | some c => simp [readList_length]

theorem getD_puts {α : Type} (o : Option α) (x y : α) : o.getD x = x ∨ o.getD x = o.getD y := by
  cases o with
  | none => exact .inl rfl
  | some m => exact .inr rfl

theorem getD_empty_le {κ α : Type} [LinearOrder κ] {o : Option (SortedMap κ α)} {n : Nat}
    (h : ∀ m, o = some m → m.entries.length ≤ n) : (o.getD .empty).entries.length ≤ n := by
  cases o with
  | none => exact Nat.zero_le n
  | some m => exact h m rfl

namespace Impl

theorem putsEntries (im : Impl) (bytes : Bytes) (preserveEpochBoot : Bool) :
    im.PutsEntries bytes preserveEpochBoot := by
  have h := im.applySnapshot_sections bytes preserveEpochBoot
  have he := im.emptied.applySnapshot_sections bytes preserveEpochBoot
  constructor
  · rw [h.workers,he.workers]
    exact getD_puts _ _ _
  · rw [h.requests,he.requests]
    exact getD_puts _ _ _
  · rw [h.plans,he.plans]
    exact getD_puts _ _ _
  · rw [h.history,he.history]
    exact getD_puts _ _ _

/-- The three tables never have more entries than the input has bytes; the lists of the
requests and the history do not exactly when none of their counts is larger than that. -/
theorem entries_within_iff (im : Impl) (bytes : Bytes) (preserveEpochBoot : Bool) :
    im.PutsEntries bytes preserveEpochBoot ∧
    (im.EntriesWithin bytes preserveEpochBoot ↔ CountsWithin bytes) := by
  refine ⟨im.putsEntries bytes preserveEpochBoot,?_⟩
  have he := im.emptied.applySnapshot_sections bytes preserveEpochBoot
  have hhistory : (im.emptied.applySnapshot bytes preserveEpochBoot).2.history =
      (historyIn bytes).getD [] := he.history
  constructor
  · intro h
    refine ⟨fun c hc => ?_,?_⟩
    · rw [← readRequest_vectors]
      exact h.vectors c hc
    · rw [← historyIn_length,← hhistory]
      exact h.history
  · rintro ⟨hvectors,hcount⟩
    refine ⟨?_,?_,?_,?_,?_⟩
    · rw [he.workers]
      exact getD_empty_le fun _ => workersIn_size
    · rw [he.requests]
      exact getD_empty_le fun _ => requestsIn_size
    · rw [he.plans]
      exact getD_empty_le fun _ => plansIn_size
    · rw [hhistory]
      exact historyIn_length.mpr hcount
    · intro c hc
      rw [readRequest_vectors]
      exact hvectors c hc

/-- A version word, an empty header, no workers, requests and plans, and a history of 77
entries that are not there: 76 bytes. -/
def hollowSnapshot : Bytes :=
  ByteWriter.u32 kPersistenceFormatVersion ++ encodeHeader {} ++ ByteWriter.u32 0 ++
    ByteWriter.u32 0 ++ ByteWriter.u32 0 ++ ByteWriter.u32 77

theorem hollow_history :
    hollowSnapshot.length = 76 ∧
    ((Impl.construct true).applySnapshot hollowSnapshot false).1 = false ∧
    ((Impl.construct true).applySnapshot hollowSnapshot false).2.history.length = 77 ∧
    ¬ (Impl.construct true).EntriesWithin hollowSnapshot false := by
  refine ⟨by decide +kernel,by decide +kernel,by decide +kernel,fun h => ?_⟩
  exact absurd h.history (by decide +kernel)

end Impl

end RecoveryPlanner
