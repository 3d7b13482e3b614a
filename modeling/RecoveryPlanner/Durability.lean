import RecoveryPlanner.RoundTrip
set_option autoImplicit false

/-! What a restart through the store keeps of the planner's records. -/

namespace RecoveryPlanner

open Scan ByteReader

/-- The request comes back from the store as it went: its strings are short and without NUL,
and what is not written is not set. -/
structure RecoveryRequest.Kept (q : RecoveryRequest) : Prop where
  reason : RecoveryPlanner.Kept q.reason
  stateRequirements : ∀ s ∈ q.stateRequirements, RecoveryPlanner.Kept s
  placementConstraints : ∀ s ∈ q.placementConstraints, RecoveryPlanner.Kept s
  compatibilityRequirements : ∀ s ∈ q.compatibilityRequirements, RecoveryPlanner.Kept s
  priorProgress : q.priorProgress = {}
  valuePriorities : q.valuePriorities = []

instance (s : Str) : Decidable (Kept s) :=
  decidable_of_iff (Plain s ∧ s.length ≤ 4096) ⟨fun h => ⟨h.1,h.2⟩,fun h => ⟨h.1,h.2⟩⟩

instance (q : RecoveryRequest) : Decidable q.Kept :=
  decidable_of_iff (RecoveryPlanner.Kept q.reason ∧
      (∀ s ∈ q.stateRequirements, RecoveryPlanner.Kept s) ∧
      (∀ s ∈ q.placementConstraints, RecoveryPlanner.Kept s) ∧
      (∀ s ∈ q.compatibilityRequirements, RecoveryPlanner.Kept s) ∧
      q.priorProgress = {} ∧ q.valuePriorities = [])
    ⟨fun h => ⟨h.1,h.2.1,h.2.2.1,h.2.2.2.1,h.2.2.2.2.1,h.2.2.2.2.2⟩,
      fun h => ⟨h.1,h.2,h.3,h.4,h.5,h.6⟩⟩

theorem map_cut_eq {xs : List Str} (h : ∀ s ∈ xs, Kept s) : xs.map cut = xs := by
  rw [List.map_congr_left fun s hs => (h s hs).plain.cut_eq]
  exact List.map_id _

theorem RecoveryRequest.Kept.durable_eq {q : RecoveryRequest} (h : q.Kept) : q.durable = q := by
  rw [durable,h.reason.plain.cut_eq,map_cut_eq h.stateRequirements,
    map_cut_eq h.placementConstraints,map_cut_eq h.compatibilityRequirements,
    ← h.priorProgress,← h.valuePriorities]

theorem RecoveryRequest.Kept.readable {q : RecoveryRequest} (h : q.Kept) : q.Readable :=
  ⟨h.reason.shortStr,fun s hs => (h.stateRequirements s hs).shortStr,
    fun s hs => (h.placementConstraints s hs).shortStr,
    fun s hs => (h.compatibilityRequirements s hs).shortStr⟩

theorem yields_readRequest : Yields readRequest RecoveryRequest.Kept := by
  unfold readRequest
  iterate 6 refine .skip fun _ => ?_
  refine yields_cstring.bind (fun _ => ?_) fun reason hreason => ?_
  · iterate 2 refine (sticky_readFlagged sticky_i64).bind fun _ => ?_
    refine (sticky_readFlagged sticky_u64).bind fun _ => ?_
    iterate 2 refine (sticky_readList sticky_u8).bind fun _ => ?_
    iterate 3 refine sticky_u64.bind fun _ => ?_
    refine sticky_i64.bind fun _ => ?_
    iterate 3 refine (sticky_readList sticky_cstring).bind fun _ => ?_
    exact sticky_pure _
  iterate 9 refine .skip fun _ => ?_
  refine yields_strings.bind (fun _ => ?_) fun states hstates => ?_
  · iterate 2 refine (sticky_readList sticky_cstring).bind fun _ => ?_
    exact sticky_pure _
  refine yields_strings.bind (fun _ => ?_) fun places hplaces => ?_
  · exact (sticky_readList sticky_cstring).bind fun _ => sticky_pure _
  refine yields_strings.bind (fun _ => sticky_pure _) fun compats hcompats => ?_
  exact yields_pure ⟨hreason,hstates,hplaces,hcompats,rfl,rfl⟩

namespace Impl

def RequestsKept (im : Impl) : Prop := ∀ q ∈ im.requests.values, q.Kept

theorem RequestsKept.durable_eq {im : Impl} (h : im.RequestsKept) :
    im.requests.mapValues (fun _ q => q.durable) = im.requests := by
  refine SortedMap.ext_find? fun k => ?_
  rw [SortedMap.find?_mapValues]
  cases hk : im.requests.find? k with
  | none => rfl
  | some q =>
    have hq := h q (im.requests.mem_values.mpr ⟨k,hk⟩)
    rw [Option.map_some,hq.durable_eq]

theorem collect_requestsKept (n : Nat) (c : ByteReader) {k : UInt64} {q : RecoveryRequest}
    (h : (collect readRequest putRequest n .empty c).1.2.find? k = some q) : q.Kept := by
  have hput : ∀ (m : SortedMap UInt64 RecoveryRequest) r, r.Kept →
      (∀ k q, m.find? k = some q → q.Kept) →
      ∀ k q, (putRequest m r).find? k = some q → q.Kept := by
    intro m r hr hm k q hq
    rw [putRequest,SortedMap.find?_insert] at hq
    split at hq
    · rw [← Option.some.inj hq]
      exact hr
    · exact hm k q hq
  exact collect_yields yields_readRequest hput n .empty c (fun k q hq => absurd hq (by simp)) k q h

theorem applyRequests_requests (im : Impl) (r : ByteReader) :
    (im.applyRequests r).2.requests =
      (collect readRequest putRequest (u32 r).1.toNat .empty (u32 r).2).1.2 := by
  unfold applyRequests
  dsimp only
  split
  · unfold applyPlans applyHistory
    dsimp only
    split <;> rfl
  · rfl

theorem applySnapshot_requestsKept (im src : Impl) (preserveEpochBoot : Bool) :
    (im.applySnapshot src.encodeSnapshot preserveEpochBoot).2.RequestsKept := by
  obtain ⟨r,h⟩ := im.applySnapshot_header src preserveEpochBoot
  intro q hq
  obtain ⟨k,hq⟩ := (SortedMap.mem_values _).mp hq
  rw [h,applyWorkers,applyRequests_requests] at hq
  exact collect_requestsKept _ _ hq

/-- No durable record is lost between the two states. -/
structure Lossless (im im' : Impl) : Prop where
  requests : im'.requests = im.requests
  plans : ∀ k, (im'.plans.find? k).map RecoveryPlan.fence =
    (im.plans.find? k).map RecoveryPlan.fence
  history : im'.history = im.history ++ [restartEntry im'.ctx]

theorem retire_fence (now : Timestamp) (p : RecoveryPlan) : (retire now p).fence = p.fence := by
  unfold retire
  split <;> rfl

theorem retirePlans_lossless {im next : Impl} (clock : UInt64 → Timestamp)
    (hr : next.requests = im.requests)
    (hp : ∀ k, (next.plans.find? k).map RecoveryPlan.fence =
      (im.plans.find? k).map RecoveryPlan.fence)
    (hh : next.history = im.history) : Lossless im (next.retirePlans clock).recordRestart := by
  refine ⟨hr,fun k => ?_,?_⟩
  · show ((next.plans.mapValues (fun k p => retire (clock k) p)).find? k).map _ = _
    rw [SortedMap.find?_mapValues,Option.map_map,← hp k]
    exact congrArg (fun f => (next.plans.find? k).map f) (funext fun p => retire_fence _ p)
  · rw [recordRestart_history,← hh]
    rfl

theorem fence_written (p : RecoveryPlan) : p.written.fence = p.fence := rfl

theorem restart_storeless {im : Impl} (h : im.hasStore = false) (clock : UInt64 → Timestamp)
    (disk : Disk) : Lossless im (im.restartCoordinator clock disk).1 := by
  show Lossless im (im.restartReloading clock _)
  rw [restartReloading_storeless h]
  exact retirePlans_lossless clock rfl (fun _ => rfl) rfl

theorem restart_stored {im : Impl} (h : im.hasStore = true) (clock : UInt64 → Timestamp)
    (disk : Disk) : (im.restartCoordinator clock disk).1 =
      ((im.advanceEpoch.applySnapshot im.encodeSnapshot true).2.retirePlans clock).recordRestart := by
  show im.restartReloading clock (im.saveState disk).2 = _
  rw [saveState,h]
  exact restartReloading_some h clock _

theorem RequestsKept.restarted {im : Impl} (h : im.RequestsKept) (clock : UInt64 → Timestamp) :
    (im.retirePlans clock).recordRestart.RequestsKept := h

/-- Every request in the reloaded table has been read without failure. -/
theorem restart_requestsKept {im : Impl} (h : im.hasStore = true) (clock : UInt64 → Timestamp)
    (disk : Disk) : (im.restartCoordinator clock disk).1.RequestsKept := by
  rw [restart_stored h]
  exact (im.advanceEpoch.applySnapshot_requestsKept im true).restarted clock

/-- With a store, where the counts are real ones and the history can be read back: a restart
keeps the records exactly when every request comes back as it went. -/
theorem restart_lossless_iff {im : Impl} (hstore : im.hasStore = true) (ht : im.Tidy)
    (hh : im.HistoryShort) (hf : im.Fits) (clock : UInt64 → Timestamp) (disk : Disk) :
    Lossless im (im.restartCoordinator clock disk).1 ↔ im.RequestsKept := by
  constructor
  · intro hl q hq
    rw [← hl.requests] at hq
    exact restart_requestsKept hstore clock disk q hq
  · intro hk
    have hr := ht.readable_iff.mpr ⟨fun q hq => (hk q hq).readable,hh⟩
    rw [restart_stored hstore,(applySnapshot_own hf im.advanceEpoch true).1 hr]
    refine retirePlans_lossless clock ?_ (fun k => ?_) ht.history_eq
    · exact ht.durableRequests_eq.trans hk.durable_eq
    · show (((im.plans.values.map RecoveryPlan.durable).foldl putDecoded .empty).find? k).map _ = _
      rw [ht.plans_eq,SortedMap.find?_mapValues,Option.map_map]
      exact congrArg (fun f => (im.plans.find? k).map f) (funext fence_written)

theorem applySnapshot_short {im src : Impl} (h : im.HistoryShort) (ht : src.Tidy)
    (hs : src.HistoryShort) (hf : src.Fits) (preserveEpochBoot : Bool) :
    (im.applySnapshot src.encodeSnapshot preserveEpochBoot).2.HistoryShort := by
  by_cases hread : ∀ q ∈ src.requests.values, q.Readable
  · rw [(applySnapshot_own hf im preserveEpochBoot).1 (ht.readable_iff.mpr ⟨hread,hs⟩)]
    show ∀ s ∈ src.history.map cut, s.length ≤ 4096
    rw [ht.history_eq]
    exact hs
  · obtain ⟨n,c,heq⟩ := im.applySnapshot_unreadable hf.counts hread preserveEpochBoot
    rw [heq]
    exact h

end Impl

namespace Session

def WritesFit (s : Session) : Op → Prop
  | .saveState | .restartCoordinator _ => s.node.impl.hasStore = true → s.node.impl.Fits
  | _ => True

/-- A restart loses no durable record. -/
def RestartLossless (std : StdSort) (s : Session) : Op → Prop
  | .restartCoordinator clock =>
    Impl.Lossless s.node.impl (s.step std (.restartCoordinator clock)).node.impl
  | _ => True

def RestartKeeps (s : Session) : Op → Prop
  | .restartCoordinator _ => s.node.impl.hasStore = true → s.node.impl.RequestsKept
  | _ => True

/-- The planner is tidy and its history short, and so was the one whose snapshot is in the
store. -/
structure Recorded (s : Session) : Prop where
  tidy : s.node.impl.Tidy
  short : s.node.impl.HistoryShort
  disk : ∀ bytes, s.disk = some bytes →
    ∃ src : Impl, src.Tidy ∧ src.HistoryShort ∧ src.Fits ∧ bytes = src.encodeSnapshot

theorem construct_recorded (hasStore : Bool) : (construct hasStore).Recorded :=
  ⟨Impl.construct_tidy hasStore,Impl.construct_historyShort hasStore,
    fun _ h => absurd h (by simp [construct])⟩

theorem Recorded.saved {s : Session} (h : s.Recorded)
    (hf : s.node.impl.hasStore = true → s.node.impl.Fits) {bytes : Bytes}
    (hb : (s.node.impl.saveState s.disk).2 = some bytes) :
    ∃ src : Impl, src.Tidy ∧ src.HistoryShort ∧ src.Fits ∧ bytes = src.encodeSnapshot := by
  cases hstore : s.node.impl.hasStore with
  | false => exact h.disk bytes (by simpa [Impl.saveState,hstore] using hb)
  | true =>
    have hb : s.node.impl.encodeSnapshot = bytes := by simpa [Impl.saveState,hstore] using hb
    exact ⟨s.node.impl,h.tidy,h.short,hf hstore,hb.symm⟩

theorem step_recorded (std : StdSort) {s : Session} {op : Op} (hop : s.WritesFit op)
    (h : s.Recorded) : (s.step std op).Recorded := by
  cases op with
  | act a => exact ⟨Node.act_tidy std h.tidy a,(s.node.act_records std a).historyShort h.short,h.disk⟩
  | saveState => exact ⟨h.tidy,h.short,fun _ hb => h.saved hop hb⟩
  | loadState =>
    refine ⟨Impl.loadState_tidy h.tidy s.disk,?_,h.disk⟩
    show (s.node.impl.loadState s.disk).2.HistoryShort
    rcases s.node.impl.loadState_cases s.disk with heq | ⟨bytes,_,hd,heq⟩
    · rw [heq]
      exact h.short
    · obtain ⟨src,ht,hs,hf,rfl⟩ := h.disk bytes hd
      rw [heq]
      exact Impl.applySnapshot_short h.short ht hs hf false
  | restartCoordinator clock =>
    refine ⟨Impl.restartReloading_tidy h.tidy clock _,?_,fun _ hb => h.saved hop hb⟩
    show (s.node.impl.restartReloading clock (s.node.impl.saveState s.disk).2).HistoryShort
    have hnext : s.node.impl.advanceEpoch.HistoryShort := h.short
    rcases s.node.impl.restartReloading_cases clock (s.node.impl.saveState s.disk).2 with
      heq | ⟨bytes,_,hb,heq⟩
    · rw [heq]
      exact hnext.restarted clock
    · obtain ⟨src,ht,hs,hf,rfl⟩ := h.saved hop hb
      rw [heq]
      exact (Impl.applySnapshot_short hnext ht hs hf true).restarted clock

theorem Recorded.lossless_iff {s : Session} (h : s.Recorded) (std : StdSort) {op : Op}
    (hop : s.WritesFit op) : s.RestartLossless std op ↔ s.RestartKeeps op := by
  cases op with
  | restartCoordinator clock =>
    cases hstore : s.node.impl.hasStore with
    | false =>
      refine iff_of_true (Impl.restart_storeless hstore clock s.disk) fun htrue => ?_
      exact absurd (hstore.symm.trans htrue) (by simp)
    | true =>
      have hiff := Impl.restart_lossless_iff hstore h.tidy h.short (hop hstore) clock s.disk
      exact hiff.trans ⟨fun hk _ => hk,fun hk => hk hstore⟩
  | _ => exact Iff.rfl

/-- In every run that writes no overflowing count, with a store that returns what was last
saved: the restarts lose no durable record exactly when each finds only requests that come
back from the store as they went. -/
theorem run_lossless_iff (std : StdSort) (hasStore : Bool) (ops : List Op)
    (h : Along WritesFit (step std) (construct hasStore) ops) :
    Along (RestartLossless std) (step std) (construct hasStore) ops ↔
      Along RestartKeeps (step std) (construct hasStore) ops :=
  h.congr_inv (construct_recorded hasStore) (fun _ _ hop hs => step_recorded std hop hs)
    fun _ _ hop hs => hs.lossless_iff std hop

theorem run_lossless_steady :
    Along WritesFit (step .insertion) (construct true) steadyRun ∧
    Along (RestartLossless .insertion) (step .insertion) (construct true) steadyRun := by
  have hfit : Along WritesFit (step .insertion) (construct true) steadyRun :=
    ⟨trivial,trivial,trivial,trivial,fun _ => by decide +kernel,trivial⟩
  refine ⟨hfit,(run_lossless_iff .insertion true steadyRun hfit).mpr ?_⟩
  refine ⟨trivial,trivial,trivial,trivial,fun _ => ?_,trivial⟩
  unfold Impl.RequestsKept
  decide +kernel

def wordyRequest : RecoveryRequest := { requestNo 1 with reason := List.replicate 4097 97 }

def wordyRun : List Op :=
  [.act (.registerWorker ⟨1⟩ ⟨1⟩),.act (.plan ⟨0⟩ wordyRequest [readyCandidate])]

def wordyRestart : Op := .restartCoordinator (fun _ => ⟨1⟩)

/-- It is stored, written in the snapshot, and gone after the restart. -/
theorem request_lost :
    Along WritesFit (step .insertion) (construct true) (wordyRun ++ [wordyRestart]) ∧
    (∃ q ∈ (run (step .insertion) (construct true) wordyRun).node.impl.requests.values,
      ¬ q.reason.length ≤ 4096) ∧
    (∀ q ∈ (run (step .insertion) (construct true)
        (wordyRun ++ [wordyRestart])).node.impl.requests.values, q.reason.length ≤ 4096) ∧
    ¬ Along (RestartLossless .insertion) (step .insertion) (construct true)
      (wordyRun ++ [wordyRestart]) := by
  have hbefore : ∃ q ∈ (run (step .insertion) (construct true) wordyRun).node.impl.requests.values,
      ¬ q.reason.length ≤ 4096 := by decide +kernel
  have hafter : ∀ q ∈ (run (step .insertion) (construct true)
      (wordyRun ++ [wordyRestart])).node.impl.requests.values, q.reason.length ≤ 4096 := by
    rw [run_append,run_cons,run_nil]
    have hstore : (run (step .insertion) (construct true) wordyRun).node.impl.hasStore = true := by
      decide +kernel
    generalize run (step .insertion) (construct true) wordyRun = s at hstore ⊢
    exact fun q hq => (Impl.restart_requestsKept hstore _ s.disk q hq).reason.length
  refine ⟨⟨trivial,trivial,fun _ => by decide +kernel,trivial⟩,hbefore,hafter,?_⟩
  intro hl
  obtain ⟨hl,_⟩ := (along_append.mp hl).2
  obtain ⟨q,hq,hlong⟩ := hbefore
  rw [← hl.requests] at hq
  rw [run_append,run_cons,run_nil] at hafter
  exact hlong (hafter q hq)

end Session

end RecoveryPlanner
