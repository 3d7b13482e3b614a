import RecoveryPlanner.Reload
set_option autoImplicit false

/-! What the snapshot decoder accepts, against what the encoder writes for it. -/

namespace RecoveryPlanner

open Scan ByteReader

/-- The parts of a request record that its contents do not show: the three presence flags as
they stand, and the five element counts. -/
structure RequestLayout where
  flags : List UInt8
  counts : List Nat

def requestLayout (c : ByteReader) : RequestLayout :=
  let deadline := (cstring (times u64 6 c).2).2
  let duration := (readFlagged i64 deadline).2
  let loss := (readFlagged i64 duration).2
  let preferred := (readFlagged u64 loss).2
  let forbidden := (readList u8 preferred).2
  let requirements := (i64 (times u64 3 (readList u8 forbidden).2).2).2
  let constraints := (readList cstring requirements).2
  let compatibility := (readList cstring constraints).2
  { flags := [(u8 deadline).1,(u8 duration).1,(u8 loss).1]
    counts := [(u32 preferred).1.toNat,(u32 forbidden).1.toNat,(u32 requirements).1.toNat,
      (u32 constraints).1.toNat,(u32 compatibility).1.toNat] }

def publishedFlag (c : ByteReader) : UInt8 :=
  let c := (times u64 9 (u8 (times u64 4 c).2).2).2
  (u8 (u8 (u8 (readAuthority c).2).2).2).1

theorem rewrites_flagged {α : Type} {p : Scan UInt8 α} {enc : α → Bytes}
    (h : Rewrites p [] enc (fun _ => True)) :
    Rewrites (readFlagged p) [] (encodeFlagged enc) (fun c => (u8 c).1 ≤ 1) := by
  intro c hc
  unfold readFlagged at hc ⊢
  rw [bind_apply] at hc ⊢
  by_cases hflag : (u8 c).1 = 0
  · simp only [hflag,ne_eq,not_true,if_false,pure_apply] at hc ⊢
    have hexact := rewrites_u8.exact hc
    rw [hflag] at hexact
    exact ⟨(rewrites_u8 c hc).1,[0],[0],hexact,rfl,rfl,by simp⟩
  · simp only [hflag,ne_eq,not_false_iff,if_true,bind_apply,pure_apply] at hc ⊢
    obtain ⟨hmid,_⟩ := h _ hc
    have hexact := rewrites_u8.exact hmid
    have hval := h.exact hc
    refine ⟨(rewrites_u8 c hmid).1,(u8 c).1 :: enc (p (u8 c).2).1,1 :: enc (p (u8 c).2).1,
      ?_,rfl,rfl,?_⟩
    · rw [hexact,hval]
      rfl
    · simp only [List.cons.injEq,and_true]
      have hnat : (u8 c).1.toNat ≠ 0 := fun h0 => hflag (UInt8.toNat_inj.mp h0)
      rw [← UInt8.toNat_inj,UInt8.le_iff_toNat_le]
      simp only [UInt8.toNat_one]
      omega

theorem rewrites_list {α : Type} {p : Scan UInt8 α} {enc : α → Bytes} {canon : ByteReader → Prop}
    (h : Rewrites p [] enc canon) :
    Rewrites (readList p) [] (encodeList enc)
      (fun c => ∀ s ∈ attempts p (u32 c).1.toNat (u32 c).2, canon s) := by
  refine rewrites_u32.andThen (b := fun n c => ∀ s ∈ attempts p n.toNat c, canon s) fun n => ?_
  refine (h.times n.toNat).under fun c => ?_
  rw [encodeList,times_length]
  simp

theorem rewrites_exactList {α : Type} {p : Scan UInt8 α} {enc : α → Bytes}
    (h : Rewrites p [] enc (fun _ => True)) :
    Rewrites (readList p) [] (encodeList enc) (fun _ => True) :=
  (rewrites_list h).congr fun c => by simp

theorem rewrites_worker : Rewrites readWorker [] encodeWorker (fun _ => True) := by
  refine rewrites_u64.andThen (b := fun _ _ => True) fun w => ?_
  refine rewrites_u64.andThen (b := fun _ _ => True) fun b => ?_
  exact rewrites_pure rfl

theorem encodeFlagged_map {α β : Type} (enc : β → Bytes) (mk : α → β) (o : Option α) :
    encodeFlagged enc (o.map mk) = encodeFlagged (fun x => enc (mk x)) o := by
  cases o <;> rfl

theorem encodeList_map {α β : Type} (enc : β → Bytes) (mk : α → β) (xs : List α) :
    encodeList enc (xs.map mk) = encodeList (fun x => enc (mk x)) xs := by
  simp [encodeList,List.flatMap_map]

theorem rewrites_request :
    Rewrites readRequest [] encodeRequest (fun c => ∀ f ∈ (requestLayout c).flags, f ≤ 1) := by
  unfold readRequest
  apply Rewrites.congr
  · apply rewrites_u64.andThen
    intro requestId
    apply rewrites_u64.andThen
    intro workload
    apply rewrites_u64.andThen
    intro workloadGeneration
    apply rewrites_u64.andThen
    intro execution
    apply rewrites_u64.andThen
    intro executionGeneration
    apply rewrites_u64.andThen
    intro failure
    apply rewrites_cstring.andThen
    intro reason
    apply (rewrites_flagged rewrites_i64).bind
    intro recoveryDeadline
    apply (rewrites_flagged rewrites_i64).bind
    intro maxRecoveryDuration
    apply (rewrites_flagged rewrites_u64).bind
    intro maxToleratedProgressLoss
    apply (rewrites_exactList rewrites_u8).andThen
    intro preferredStrategies
    apply (rewrites_exactList rewrites_u8).andThen
    intro forbiddenStrategies
    apply rewrites_u64.andThen
    intro coordinatorEpoch
    apply rewrites_u64.andThen
    intro policyGeneration
    apply rewrites_u64.andThen
    intro topologyGeneration
    apply rewrites_i64.andThen
    intro requestedAt
    apply (rewrites_exactList rewrites_cstring).andThen
    intro stateRequirements
    apply (rewrites_exactList rewrites_cstring).andThen
    intro placementConstraints
    apply (rewrites_exactList rewrites_cstring).andThen
    intro compatibilityRequirements
    apply rewrites_pure
    unfold encodeRequest
    dsimp only
    rw [List.nil_append]
    simp only [encodeFlagged_map,encodeList_map,RecoveryStrategy.toByte_ofByte]
  · intro c
    simp only [requestLayout,times_after,times_none,List.forall_mem_cons,List.not_mem_nil,
      false_implies,implies_true,and_true]

theorem rewrites_authority :
    Rewrites readAuthority [] encodeAuthority (fun _ => True) := by
  unfold readAuthority
  apply Rewrites.congr
  · iterate 13
      apply rewrites_u64.andThen
      intro
    apply rewrites_pure
    simp [encodeAuthority]
  · exact fun _ => Iff.rfl

theorem written_flag (b : UInt8) : (if b ≠ 0 then (1 : UInt8) else 0) = b ↔ b ≤ 1 := by
  rw [UInt8.le_iff_toNat_le]
  by_cases h : b = 0
  · simp [h]
  · have hnat : b.toNat ≠ 0 := fun h0 => h (UInt8.toNat_inj.mp h0)
    simp only [h,ne_eq,not_false_iff,if_true,← UInt8.toNat_inj,UInt8.toNat_one]
    omega

theorem rewrites_published :
    Rewrites u8 [] (fun b => ByteWriter.u8 (if b ≠ 0 then 1 else 0)) (fun c => (u8 c).1 ≤ 1) := by
  intro c hc
  have hexact := rewrites_u8.exact hc
  refine ⟨(rewrites_u8 c hc).1,[(u8 c).1],[if (u8 c).1 ≠ 0 then 1 else 0],hexact,rfl,rfl,?_⟩
  simp only [List.cons.injEq,and_true]
  exact written_flag _

theorem rewrites_plan :
    Rewrites readPlan [] encodePlan (fun c => publishedFlag c ≤ 1) := by
  unfold readPlan
  apply Rewrites.congr
  · iterate 4
      apply rewrites_u64.andThen
      intro
    apply rewrites_u8.andThen
    intro
    iterate 9
      apply rewrites_u64.andThen
      intro
    apply rewrites_authority.andThen
    intro
    apply rewrites_u8.andThen
    intro
    apply rewrites_u8.andThen
    intro
    apply rewrites_published.bind
    intro
    apply rewrites_i64.andThen
    intro
    apply rewrites_i64.andThen
    intro
    apply rewrites_u64.andThen
    intro
    apply rewrites_cstring.andThen
    intro
    apply rewrites_cstring.andThen
    intro
    apply rewrites_pure
    unfold encodePlan
    dsimp only
    rw [RecoveryStrategy.toByte_ofByte,PlanLifecycleState.toByte_ofByte,
      ExecutionOutcome.toByte_ofByte,List.nil_append]
    simp only [decide_eq_true_eq]
  · intro c
    simp only [publishedFlag,times_after,times_none,and_true]

def SnapshotHeader.encode (h : SnapshotHeader) : Bytes :=
  encodeHeader (PlannerContext.installHeader {} false h)

theorem rewrites_header : Rewrites readHeader [] SnapshotHeader.encode (fun _ => True) := by
  unfold readHeader
  apply Rewrites.congr
  · iterate 7
      apply rewrites_u64.andThen
      intro
    apply rewrites_pure
    simp [SnapshotHeader.encode,encodeHeader,PlannerContext.installHeader]
  · exact fun _ => Iff.rfl

def Snapshot.encode (s : Snapshot) : Bytes :=
  s.header.encode ++ encodeList encodeWorker s.workers ++ encodeList encodeRequest s.requests ++
    encodeList encodePlan s.plans ++ encodeList ByteWriter.cstring s.history

/-- All presence flags of the requests and all published flags of the plans are 0 or 1. -/
def FlagsPlain (c : ByteReader) : Prop :=
  let qs := (readList readWorker (readHeader c).2).2
  let ps := (readList readRequest qs).2
  (∀ q ∈ attempts readRequest (u32 qs).1.toNat (u32 qs).2,
    ∀ f ∈ (requestLayout q).flags, f ≤ 1) ∧
  ∀ p ∈ attempts readPlan (u32 ps).1.toNat (u32 ps).2, publishedFlag p ≤ 1

theorem rewrites_snapshot : Rewrites readSnapshot [] Snapshot.encode FlagsPlain := by
  unfold readSnapshot
  apply Rewrites.congr
  · apply rewrites_header.andThen
    intro header
    apply (rewrites_exactList rewrites_worker).andThen
    intro workers
    apply (rewrites_list rewrites_request).bind
    intro requests
    apply (rewrites_list rewrites_plan).bind
    intro plans
    apply (rewrites_exactList rewrites_cstring).andThen
    intro history
    apply rewrites_pure
    rw [Snapshot.encode,List.nil_append]
  · intro c
    simp only [FlagsPlain,and_true]

def RecoveryRequest.Declared (q : RecoveryRequest) : Prop :=
  ∀ x ∈ q.preferredStrategies ++ q.forbiddenStrategies, x.declared = true

def RecoveryPlan.Declared (p : RecoveryPlan) : Prop :=
  p.strategy.declared = true ∧ p.state.declared = true ∧ p.executionOutcome.declared = true

def bodyAt (bytes : Bytes) : ByteReader := (u32 ⟨bytes,0,false⟩).2

/-- The records stand in the order of their ids, and no id twice. -/
structure Snapshot.Sorted (s : Snapshot) : Prop where
  workers : s.workers.Pairwise (fun a b => a.1 < b.1)
  requests : s.requests.Pairwise (fun a b => a.requestId.value < b.requestId.value)
  plans : s.plans.Pairwise (fun a b => a.planId.value < b.planId.value)

/-- What a snapshot must be besides complete: nothing behind it, its records sorted, plain
flags and named enumeration values. -/
structure Snapshot.Canonical (s : Snapshot) (bytes : Bytes) : Prop where
  ends : (readSnapshot (bodyAt bytes)).2.rest = []
  sorted : s.Sorted
  flags : FlagsPlain (bodyAt bytes)
  requestEnums : ∀ q ∈ s.requests, q.Declared
  planEnums : ∀ p ∈ s.plans, p.Declared

theorem decodeSnapshot_spec {bytes : Bytes} {s : Snapshot} (h : decodeSnapshot bytes = some s) :
    (u32 ⟨bytes,0,false⟩).1 = kPersistenceFormatVersion ∧
    (readSnapshot (bodyAt bytes)).2.failed = false ∧ (readSnapshot (bodyAt bytes)).1 = s := by
  unfold bodyAt
  unfold decodeSnapshot at h
  dsimp only at h
  split at h
  · exact absurd h (by simp)
  · rename_i hver
    split at h
    · rename_i hok
      simp only [Bool.or_eq_true,decide_eq_true_eq,not_or,not_not,ne_eq] at hver
      exact ⟨hver.1,by simpa [Cursor.ok] using hok,Option.some.inj h⟩
    · exact absurd h (by simp)

/-- The bytes are those the encoder writes for what was read, up to flags and a tail. -/
theorem decodeSnapshot_rewrites {bytes : Bytes} {s : Snapshot}
    (h : decodeSnapshot bytes = some s) :
    ByteWriter.u32 kPersistenceFormatVersion ++ s.encode = bytes ↔
      (readSnapshot (bodyAt bytes)).2.rest = [] ∧ FlagsPlain (bodyAt bytes) := by
  obtain ⟨hver,hok,rfl⟩ := decodeSnapshot_spec h
  obtain ⟨hmid,ts,us,hrest,henc,hlen,hiff⟩ := rewrites_snapshot (bodyAt bytes) hok
  have hbytes : bytes = ByteWriter.u32 kPersistenceFormatVersion ++ (bodyAt bytes).rest := by
    have hexact := rewrites_u32.exact hmid
    rw [hver] at hexact
    exact hexact
  rw [List.nil_append] at henc
  rw [← hiff,henc]
  constructor
  · intro heq
    have hsame : us = ts ++ (readSnapshot (bodyAt bytes)).2.rest := by
      rw [hbytes] at heq
      exact (List.append_cancel_left heq).trans hrest
    have htail : (readSnapshot (bodyAt bytes)).2.rest = [] := by
      have hsum := congrArg List.length hsame
      rw [List.length_append] at hsum
      exact List.length_eq_zero_iff.mp (by omega)
    exact ⟨htail,by rw [hsame,htail,List.append_nil]⟩
  · rintro ⟨htail,rfl⟩
    rw [htail,List.append_nil] at hrest
    rw [← hrest]
    exact hbytes.symm

namespace Impl

theorem install_requests {s : Snapshot} (h : s.Sorted) (im : Impl) :
    (im.install false s).requests.values = s.requests :=
  SortedMap.insertAll_sorted (fun q : RecoveryRequest => q.requestId.value) h.requests

theorem install_plans {s : Snapshot} (h : s.Sorted) (im : Impl) :
    (im.install false s).plans.values = s.plans :=
  SortedMap.insertAll_sorted (fun p : RecoveryPlan => p.planId.value) h.plans

theorem install_encode {s : Snapshot} (h : s.Sorted) (im : Impl) :
    (im.install false s).encodeSnapshot =
      ByteWriter.u32 kPersistenceFormatVersion ++ s.encode := by
  have hw : (im.install false s).ctx.workerBoots.entries = s.workers :=
    SortedMap.foldl_insert_sorted h.workers
  rw [encodeSnapshot,hw,im.install_requests h,im.install_plans h,Snapshot.encode]
  simp only [List.append_assoc]
  rfl

end Impl

theorem readList_length {α : Type} (p : Scan UInt8 α) (c : ByteReader) :
    (readList p c).1.length = (u32 c).1.toNat := times_length p _ _

theorem readList_fits {α : Type} (p : Scan UInt8 α) (c : ByteReader) :
    (readList p c).1.length < 2^32 := by
  rw [readList_length]
  exact (u32 c).1.toNat_lt

theorem readRequest_countsFit (c : ByteReader) : (readRequest c).1.CountsFit := by
  unfold readRequest
  simp only [bind_apply,pure_apply]
  constructor
  · dsimp only
    rw [List.length_map]
    exact readList_fits _ _
  · dsimp only
    rw [List.length_map]
    exact readList_fits _ _
  · dsimp only
    exact readList_fits _ _
  · dsimp only
    exact readList_fits _ _
  · dsimp only
    exact readList_fits _ _

namespace Impl

theorem install_fits (im : Impl) (c : ByteReader) :
    (im.install false (readSnapshot c).1).Fits := by
  rw [readSnapshot_apply]
  dsimp only
  generalize hws : readList readWorker (readHeader c).2 = ws
  generalize hqs : readList readRequest ws.2 = qs
  generalize hps : readList readPlan qs.2 = ps
  refine ⟨⟨?_,?_,?_⟩,?_,readList_fits cstring ps.2⟩
  · refine lt_of_le_of_lt (SortedMap.foldl_insert_length_le ws.1 .empty) ?_
    rw [← hws,SortedMap.empty,List.length_nil,Nat.zero_add]
    exact readList_fits _ _
  · refine lt_of_le_of_lt (SortedMap.insertAll_length_le _ qs.1) ?_
    rw [← hqs]
    exact readList_fits _ _
  · intro q hq
    obtain ⟨k,hk⟩ := SortedMap.mem_values _ |>.mp hq
    have hmem := (SortedMap.mem_insertAll (fun q : RecoveryRequest => q.requestId.value) hk).1
    rw [← hqs] at hmem
    exact mem_times readRequest_countsFit _ _ q hmem
  · refine lt_of_le_of_lt (SortedMap.insertAll_length_le _ ps.1) ?_
    rw [← hps]
    exact readList_fits _ _

theorem install_sorted {im : Impl} {s : Snapshot}
    (h : (im.install false s).durableSnapshot = s) : s.Sorted := by
  have hq : (im.install false s).requests.values.Pairwise
      (fun a b => a.requestId.value < b.requestId.value) :=
    SortedMap.values_sorted fun _ _ hk =>
      (SortedMap.mem_insertAll (fun q : RecoveryRequest => q.requestId.value) hk).2
  have hp : (im.install false s).plans.values.Pairwise
      (fun a b => a.planId.value < b.planId.value) :=
    SortedMap.values_sorted fun _ _ hk =>
      (SortedMap.mem_insertAll (fun p : RecoveryPlan => p.planId.value) hk).2
  refine ⟨?_,?_,?_⟩
  · rw [← h]
    exact (im.install false s).ctx.workerBoots.sorted
  · rw [← h]
    exact List.pairwise_map.mpr hq
  · rw [← h]
    exact List.pairwise_map.mpr hp

/-- The planner holds what the bytes say: they are its own snapshot, and every enumeration
value has a name. -/
structure Holds (im : Impl) (bytes : Bytes) : Prop where
  encodes : im.encodeSnapshot = bytes
  requestEnums : ∀ q ∈ im.requests.values, q.Declared
  planEnums : ∀ p ∈ im.plans.values, p.Declared

theorem install_sorted_of_encode {im : Impl} {bytes : Bytes} {s : Snapshot}
    (h : decodeSnapshot bytes = some s) (henc : (im.install false s).encodeSnapshot = bytes) :
    s.Sorted := by
  have hfits : (im.install false s).Fits := by
    rw [← (decodeSnapshot_spec h).2.2]
    exact im.install_fits _
  have hdec := decodeSnapshot_encode hfits []
  rw [List.append_nil,henc,h] at hdec
  have hread : (im.install false s).Readable := by
    by_contra hno
    exact absurd (hdec.2 hno) (by simp)
  exact install_sorted (Option.some.inj (hdec.1 hread)).symm

theorem install_holds_iff (im : Impl) {bytes : Bytes} {s : Snapshot}
    (h : decodeSnapshot bytes = some s) :
    (im.install false s).Holds bytes ↔ s.Canonical bytes := by
  constructor
  · intro hh
    have hs := install_sorted_of_encode h hh.encodes
    have henc := hh.encodes
    rw [im.install_encode hs] at henc
    obtain ⟨hends,hflags⟩ := (decodeSnapshot_rewrites h).mp henc
    refine ⟨hends,hs,hflags,?_,?_⟩
    · rw [← im.install_requests hs]
      exact hh.requestEnums
    · rw [← im.install_plans hs]
      exact hh.planEnums
  · intro hc
    have hs := hc.sorted
    refine ⟨?_,?_,?_⟩
    · rw [im.install_encode hs]
      exact (decodeSnapshot_rewrites h).mpr ⟨hc.ends,hc.flags⟩
    · rw [im.install_requests hs]
      exact hc.requestEnums
    · rw [im.install_plans hs]
      exact hc.planEnums

/-- Of the snapshots that are accepted exactly the canonical ones are those that the planner
then writes, with nothing in them but named enumeration values. -/
theorem accepted_canonical_iff (im : Impl) (bytes : Bytes) :
    ((im.applySnapshot bytes false).1 = true → (im.applySnapshot bytes false).2.Holds bytes) ↔
      ∀ s, decodeSnapshot bytes = some s → s.Canonical bytes := by
  have happ := im.applySnapshot_decoded bytes false
  cases hdec : decodeSnapshot bytes with
  | none =>
    rw [happ.2 hdec]
    simp
  | some s =>
    rw [happ.1 s hdec,forall_prop_of_true rfl,im.install_holds_iff hdec]
    simp

def trailedSnapshot : Bytes := (Impl.construct true).encodeSnapshot ++ [0]

theorem trailed_accepted :
    ((Impl.construct true).applySnapshot trailedSnapshot false).1 = true ∧
    ¬ (((Impl.construct true).applySnapshot trailedSnapshot false).1 = true →
      ((Impl.construct true).applySnapshot trailedSnapshot false).2.Holds trailedSnapshot) := by
  have htaken : ((Impl.construct true).applySnapshot trailedSnapshot false).1 = true := by
    decide +kernel
  refine ⟨htaken,fun h => ?_⟩
  have hlen := congrArg List.length (h htaken).encodes
  exact absurd hlen (by decide +kernel)

end Impl

end RecoveryPlanner
