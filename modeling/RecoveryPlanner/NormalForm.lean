import RecoveryPlanner.DeclaredLengths
import RecoveryPlanner.Durability
set_option autoImplicit false

/-! What a planner writes after it has read a snapshot. Whatever bytes were accepted, the next
snapshot is one that further loads and saves leave alone, and no longer than what was read. -/

namespace RecoveryPlanner

open Scan ByteReader

theorem yields_written : Yields readPlan (fun p => p.written = p) := by
  unfold readPlan
  iterate 23 refine .skip fun _ => ?_
  exact yields_pure rfl

theorem yields_snapshotRecords : Yields readSnapshot (fun s =>
    (∀ q ∈ s.requests, q.Kept) ∧ ∀ p ∈ s.plans, p.written = p) := by
  unfold readSnapshot
  iterate 2 refine .skip fun _ => ?_
  refine Yields.bind (P := fun qs => ∀ q ∈ qs, q.Kept) ?_ (fun _ => ?_) fun qs hqs => ?_
  · exact .skip fun n => yields_readRequest.times sticky_readRequest n.toNat
  · exact (sticky_readList sticky_readPlan).bind fun _ =>
      (sticky_readList sticky_cstring).bind fun _ => sticky_pure _
  refine Yields.bind (P := fun ps => ∀ p ∈ ps, p.written = p) ?_ (fun _ => ?_) fun ps hps => ?_
  · exact .skip fun n => yields_written.times sticky_readPlan n.toNat
  · exact (sticky_readList sticky_cstring).bind fun _ => sticky_pure _
  exact .skip fun _ => yields_pure ⟨hqs,hps⟩

namespace Impl

/-- The planner keeps nothing that a snapshot of it would not tell, and all of it can be read
back. -/
structure Normal (im : Impl) : Prop where
  tidy : im.Tidy
  fits : im.Fits
  requests : im.RequestsKept
  plans : ∀ p ∈ im.plans.values, p.written = p
  history : im.HistoryShort

theorem Normal.readable {im : Impl} (h : im.Normal) : im.Readable :=
  h.tidy.readable_iff.mpr ⟨fun q hq => (h.requests q hq).readable,h.history⟩

structure Alike (im im' : Impl) : Prop where
  header : im'.ctx.header = im.ctx.header
  workerBoots : im'.ctx.workerBoots = im.ctx.workerBoots
  requests : im'.requests = im.requests
  plans : im'.plans = im.plans
  history : im'.history = im.history

theorem encodeHeader_eq (ctx : PlannerContext) : encodeHeader ctx = ctx.header.encode := rfl

theorem Alike.refl (im : Impl) : im.Alike im := ⟨rfl,rfl,rfl,rfl,rfl⟩

theorem Alike.encodeSnapshot_eq {im im' : Impl} (h : im.Alike im') :
    im'.encodeSnapshot = im.encodeSnapshot := by
  rw [encodeSnapshot,encodeSnapshot,encodeHeader_eq,encodeHeader_eq,h.header,h.workerBoots,
    h.requests,h.plans,h.history]

theorem Normal.alike {im im' : Impl} (h : im.Normal) (hr : Restored im im') : im.Alike im' := by
  have hplans : im.plans.mapValues (fun _ p => p.written) = im.plans := by
    refine SortedMap.ext_find? fun k => ?_
    rw [SortedMap.find?_mapValues]
    cases hk : im.plans.find? k with
    | none => rfl
    | some p => rw [Option.map_some,h.plans p (im.plans.mem_values.mpr ⟨k,hk⟩)]
  exact ⟨hr.header,hr.workerBoots,hr.requests.trans h.requests.durable_eq,hr.plans.trans hplans,
    hr.history⟩

theorem Normal.taken {im : Impl} (h : im.Normal) (dst : Impl) :
    (dst.applySnapshot im.encodeSnapshot false).1 = true ∧
      im.Alike (dst.applySnapshot im.encodeSnapshot false).2 := by
  rw [(applySnapshot_own h.fits dst false).1 h.readable]
  exact ⟨rfl,h.alike (h.tidy.install_restored dst)⟩

theorem install_normal (im : Impl) {bytes : Bytes} {s : Snapshot}
    (h : decodeSnapshot bytes = some s) : (im.install false s).Normal := by
  obtain ⟨_,hok,hs⟩ := decodeSnapshot_spec h
  have htidy := applySnapshot_tidy (construct_tidy true) bytes false
  rw [((construct true).applySnapshot_decoded bytes false).1 s h] at htidy
  refine ⟨⟨htidy.1,htidy.2,htidy.3,htidy.4⟩,?_,fun q hq => ?_,fun p hp => ?_,
    fun e he => (decodeSnapshot_history h e he).length⟩
  · rw [← hs]
    exact im.install_fits _
  · obtain ⟨k,hk⟩ := (SortedMap.mem_values _).mp hq
    have hmem := (SortedMap.mem_insertAll (fun q : RecoveryRequest => q.requestId.value) hk).1
    rw [← hs] at hmem
    exact (yields_snapshotRecords _ hok).1 q hmem
  · obtain ⟨k,hk⟩ := (SortedMap.mem_values _).mp hp
    have hmem := (SortedMap.mem_insertAll (fun p : RecoveryPlan => p.planId.value) hk).1
    rw [← hs] at hmem
    exact (yields_snapshotRecords _ hok).2 p hmem

theorem applySnapshot_accepted {im : Impl} {bytes : Bytes}
    (h : (im.applySnapshot bytes false).1 = true) :
    ∃ s, decodeSnapshot bytes = some s ∧ (im.applySnapshot bytes false).2 = im.install false s := by
  have hdec := im.applySnapshot_decoded bytes false
  cases hs : decodeSnapshot bytes with
  | none =>
    rw [hdec.2 hs] at h
    exact absurd h (by simp)
  | some s => exact ⟨s,rfl,by rw [hdec.1 s hs]⟩

theorem applySnapshot_normal {im : Impl} {bytes : Bytes}
    (h : (im.applySnapshot bytes false).1 = true) : (im.applySnapshot bytes false).2.Normal := by
  obtain ⟨s,hs,heq⟩ := applySnapshot_accepted h
  rw [heq]
  exact im.install_normal hs

/-- Whatever bytes a planner has accepted: the snapshot it writes next is accepted by every
planner, which then holds the same durable state and writes the same bytes again. -/
theorem resave_settled (im : Impl) (bytes : Bytes) (h : (im.applySnapshot bytes false).1 = true)
    (dst : Impl) :
    let read := (im.applySnapshot bytes false).2
    let again := dst.applySnapshot read.encodeSnapshot false
    again.1 = true ∧ read.Alike again.2 ∧ again.2.encodeSnapshot = read.encodeSnapshot := by
  obtain ⟨htaken,halike⟩ := (applySnapshot_normal h).taken dst
  exact ⟨htaken,halike,halike.encodeSnapshot_eq⟩

def untidySnapshot : Bytes :=
  ByteWriter.u32 kPersistenceFormatVersion ++
    ({ header := ⟨⟨1⟩,⟨1⟩,⟨1⟩,⟨1⟩,⟨1⟩,⟨1⟩,⟨1⟩⟩
       workers := [(⟨2⟩,⟨7⟩),(⟨1⟩,⟨1⟩),(⟨2⟩,⟨9⟩)]
       requests := []
       plans := [{ planId := ⟨5⟩, state := .authorized },{ planId := ⟨4⟩, state := .executing },
         { planId := ⟨5⟩, state := .cancelled }]
       history := [text "restart"] } : Snapshot).encode ++ [0,0]

theorem resave_settled_untidy :
    ((construct true).applySnapshot untidySnapshot false).1 = true ∧
    let read := ((construct true).applySnapshot untidySnapshot false).2
    let again := registeredPlanner.applySnapshot read.encodeSnapshot false
    read.encodeSnapshot.length < untidySnapshot.length ∧
    again.1 = true ∧ again.2.encodeSnapshot = read.encodeSnapshot := by
  have htaken : ((construct true).applySnapshot untidySnapshot false).1 = true := by
    decide +kernel
  obtain ⟨hagain,_,hsame⟩ := resave_settled _ _ htaken registeredPlanner
  exact ⟨htaken,by decide +kernel,hagain,hsame⟩

end Impl

theorem encodeList_length {α : Type} (enc : α → Bytes) (xs : List α) :
    (encodeList enc xs).length = 4+(xs.map fun x => (enc x).length).sum := by
  rw [encodeList,List.length_append,FilePersistenceStore.u32_length,List.length_flatMap]

/-- Of several records with one id only the last is kept, so a table is never longer than what
was read for it. -/
theorem encodeList_insertAll_le {ν : Type} (key : ν → UInt64) (enc : ν → Bytes) (vs : List ν) :
    (encodeList enc (SortedMap.insertAll key .empty vs).values).length ≤
      (encodeList enc vs).length := by
  rw [encodeList_length,encodeList_length]
  exact Nat.add_le_add_left (SortedMap.insertAll_sum_le key _ vs) 4

theorem encodeList_workers_le (ws : List (WorkerId × WorkerBootId)) :
    (encodeList encodeWorker (workerTable ws).entries).length ≤
      (encodeList encodeWorker ws).length := by
  have h := SortedMap.foldl_insert_sum_le (fun _ : WorkerBootId => 16) ws .empty
  simp only [encodeList_length,encodeWorker_length]
  refine Nat.add_le_add_left ?_ 4
  rw [SortedMap.empty,List.map_nil,List.sum_nil,Nat.zero_add] at h
  exact h

namespace Impl

theorem install_length_le (im : Impl) (s : Snapshot) :
    (im.install false s).encodeSnapshot.length ≤
      (ByteWriter.u32 kPersistenceFormatVersion ++ s.encode).length := by
  have hw := encodeList_workers_le s.workers
  have hq := encodeList_insertAll_le (fun q : RecoveryRequest => q.requestId.value)
    encodeRequest s.requests
  have hp := encodeList_insertAll_le (fun p : RecoveryPlan => p.planId.value) encodePlan s.plans
  have heq : (im.install false s).encodeSnapshot = ByteWriter.u32 kPersistenceFormatVersion ++
      s.header.encode ++ encodeList encodeWorker (workerTable s.workers).entries ++
      encodeList encodeRequest
        (SortedMap.insertAll (fun q : RecoveryRequest => q.requestId.value) .empty
          s.requests).values ++
      encodeList encodePlan
        (SortedMap.insertAll (fun p : RecoveryPlan => p.planId.value) .empty s.plans).values ++
      encodeList ByteWriter.cstring s.history := rfl
  rw [heq,Snapshot.encode]
  simp only [List.length_append]
  omega

theorem resave_length_le {im : Impl} {bytes : Bytes}
    (h : (im.applySnapshot bytes false).1 = true) :
    (im.applySnapshot bytes false).2.encodeSnapshot.length ≤ bytes.length := by
  obtain ⟨s,hs,heq⟩ := applySnapshot_accepted h
  obtain ⟨hver,hok,hread⟩ := decodeSnapshot_spec hs
  have hinstall := im.install_length_le s
  have hbody := rewrites_snapshot.length hok
  have hmid := (rewrites_snapshot (bodyAt bytes) hok).1
  have hfront := rewrites_u32.length hmid
  have hwhole : (⟨bytes,0,false⟩ : ByteReader).rest = bytes := rfl
  rw [hwhole] at hfront
  rw [hread] at hbody
  rw [heq]
  rw [List.length_append,FilePersistenceStore.u32_length] at hinstall
  rw [FilePersistenceStore.u32_length] at hfront
  have hbody : (bodyAt bytes).rest.length = s.encode.length + _ := hbody
  have hfront : bytes.length = 4+(bodyAt bytes).rest.length := hfront
  omega

end Impl

end RecoveryPlanner
