import RecoveryPlanner.Ledger
set_option autoImplicit false

/-! A snapshot that goes to the store and comes back. -/

namespace RecoveryPlanner

open Scan ByteReader

inductive Call where
  | act (a : Act)
  | saveState
  | loadState (disk : Impl.Disk)
  | restartCoordinator (clock : UInt64 → Timestamp) (reload : Impl.Disk)

namespace Node

def call (std : StdSort) (n : Node) : Call → Node
  | .act a => n.act std a
  | .saveState => n
  | .loadState disk => { n with impl := (n.impl.loadState disk).2 }
  | .restartCoordinator clock reload => { n with impl := n.impl.restartReloading clock reload }

theorem call_tidy (std : StdSort) {n : Node} (h : n.impl.Tidy) (c : Call) :
    (n.call std c).impl.Tidy := by
  cases c with
  | act a => exact act_tidy std h a
  | saveState => exact h
  | loadState disk => exact Impl.loadState_tidy h disk
  | restartCoordinator clock reload => exact Impl.restartReloading_tidy h clock reload

theorem run_tidy (std : StdSort) (hasStore : Bool) (calls : List Call) :
    (run (call std) (construct hasStore) calls).impl.Tidy :=
  run_invariant (I := fun n : Node => n.impl.Tidy) (Impl.construct_tidy hasStore)
    fun _ c _ h => call_tidy std h c

end Node

def RecoveryPlan.written (p : RecoveryPlan) : RecoveryPlan :=
  { p with economics := {}, deadline := {}, explanation := {} }

theorem RecoveryPlan.Kept.durable_eq {p : RecoveryPlan} (h : p.Kept) : p.durable = p.written := by
  rw [durable,h.dispatchPayload.plain.cut_eq,h.decisionDigest.plain.cut_eq]
  rfl

def Impl.HistoryShort (im : Impl) : Prop := ∀ s ∈ im.history, s.length ≤ 4096

instance (im : Impl) : Decidable im.HistoryShort :=
  inferInstanceAs (Decidable (∀ s ∈ im.history, s.length ≤ 4096))

namespace Impl

/-- `dst` holds all that a snapshot of `src` tells, and no worker is alive. -/
structure Restored (src dst : Impl) : Prop where
  header : dst.ctx.header = src.ctx.header
  workerBoots : dst.ctx.workerBoots = src.ctx.workerBoots
  aliveWorkers : dst.ctx.aliveWorkers = ∅
  requests : dst.requests = src.requests.mapValues (fun _ q => q.durable)
  plans : dst.plans = src.plans.mapValues (fun _ p => p.written)
  history : dst.history = src.history

theorem Tidy.durableRequests_eq {im : Impl} (h : im.Tidy) :
    im.durableRequests = im.requests.mapValues (fun _ q => q.durable) := by
  have hkeys : ∀ k q, (im.requests.mapValues (fun _ q => q.durable)).find? k = some q →
      q.requestId.value = k := by
    intro k q hq
    rw [SortedMap.find?_mapValues,Option.map_eq_some_iff] at hq
    obtain ⟨r,hr,rfl⟩ := hq
    exact h.requests k r hr
  have hall := SortedMap.insertAll_values hkeys
  rw [SortedMap.values_mapValues] at hall
  exact hall

theorem Tidy.plans_eq {im : Impl} (h : im.Tidy) :
    (im.plans.values.map RecoveryPlan.durable).foldl putDecoded .empty =
      im.plans.mapValues (fun _ p => p.written) := by
  have hdurable : im.plans.values.map RecoveryPlan.durable =
      im.plans.values.map RecoveryPlan.written := by
    refine List.map_congr_left fun p hp => ?_
    obtain ⟨k,hk⟩ := im.plans.mem_values.mp hp
    exact (h.plans k p hk).durable_eq
  have hkeys : ∀ k p, (im.plans.mapValues (fun _ p => p.written)).find? k = some p →
      p.planId.value = k := by
    intro k p hp
    rw [SortedMap.find?_mapValues,Option.map_eq_some_iff] at hp
    obtain ⟨q,hq,rfl⟩ := hp
    exact h.plansKeyed k q hq
  have hall := SortedMap.insertAll_values hkeys
  rw [SortedMap.values_mapValues,← hdurable] at hall
  exact hall

theorem Tidy.history_eq {im : Impl} (h : im.Tidy) : im.history.map cut = im.history := by
  rw [List.map_congr_left fun s hs => (h.history s hs).cut_eq]
  exact List.map_id _

theorem Tidy.install_restored {src : Impl} (h : src.Tidy) (dst : Impl) :
    Restored src (dst.install false src.durableSnapshot) where
  header := rfl
  workerBoots := SortedMap.foldl_insert_entries _
  aliveWorkers := rfl
  requests := h.durableRequests_eq
  plans := h.plans_eq
  history := h.history_eq

/-- Of what a tidy planner writes only request strings and history entries can be too long. -/
theorem Tidy.readable_iff {im : Impl} (h : im.Tidy) : im.Readable ↔
    (∀ q ∈ im.requests.values, q.Readable) ∧ im.HistoryShort := by
  constructor
  · intro hr
    exact ⟨hr.requests,fun s hs => (h.history s hs).shortStr_iff.mp (hr.history s hs)⟩
  · rintro ⟨hq,hs⟩
    refine ⟨hq,fun p hp => ?_,fun s hm => (h.history s hm).shortStr_iff.mpr (hs s hm)⟩
    obtain ⟨k,hk⟩ := im.plans.mem_values.mp hp
    exact (h.plans k p hk).readable

theorem applySnapshot_own {src : Impl} (h : src.Fits) (dst : Impl) (preserveEpochBoot : Bool) :
    (src.Readable → dst.applySnapshot src.encodeSnapshot preserveEpochBoot =
      (true,dst.install preserveEpochBoot src.durableSnapshot)) ∧
    (¬ src.Readable → (dst.applySnapshot src.encodeSnapshot preserveEpochBoot).1 = false) := by
  have hdec := decodeSnapshot_encode h []
  rw [List.append_nil] at hdec
  have happ := dst.applySnapshot_decoded src.encodeSnapshot preserveEpochBoot
  exact ⟨fun hr => happ.1 _ (hdec.1 hr),fun hr => happ.2 (hdec.2 hr)⟩

/-- The round trip through bytes: the snapshot is taken exactly when all request strings
are short enough, and then nothing that was written has changed. -/
def ComesBack (im : Impl) : Prop := ∀ dst : Impl,
  ((dst.applySnapshot im.encodeSnapshot false).1 = true ↔
    ∀ q ∈ im.requests.values, q.Readable) ∧
  ((dst.applySnapshot im.encodeSnapshot false).1 = true →
    Restored im (dst.applySnapshot im.encodeSnapshot false).2)

theorem Tidy.comesBack_iff {im : Impl} (h : im.Tidy) (hf : im.Fits) : im.ComesBack ↔
    ((∀ q ∈ im.requests.values, q.Readable) → im.HistoryShort) := by
  have hflag : ∀ dst : Impl, (dst.applySnapshot im.encodeSnapshot false).1 = true ↔
      im.Readable := by
    intro dst
    have happ := applySnapshot_own hf dst false
    constructor
    · intro htrue
      by_contra hr
      rw [happ.2 hr] at htrue
      exact absurd htrue (by simp)
    · intro hr
      rw [happ.1 hr]
  constructor
  · intro hback hq
    have htrue := (hback im).1.mpr hq
    exact (h.readable_iff.mp ((hflag im).mp htrue)).2
  · intro hshort dst
    have hiff : im.Readable ↔ ∀ q ∈ im.requests.values, q.Readable := by
      rw [h.readable_iff]
      exact and_iff_left_of_imp hshort
    refine ⟨(hflag dst).trans hiff,fun htrue => ?_⟩
    rw [(applySnapshot_own hf dst false).1 ((hflag dst).mp htrue)]
    exact h.install_restored dst

end Impl

theorem yields_readSnapshot : Yields readSnapshot (fun s => ∀ e ∈ s.history, Kept e) := by
  unfold readSnapshot
  iterate 4 refine .skip fun _ => ?_
  exact yields_strings.bind (fun _ => sticky_pure _) fun _ hk => yields_pure hk

theorem decodeSnapshot_history {bytes : Bytes} {s : Snapshot}
    (h : decodeSnapshot bytes = some s) : ∀ e ∈ s.history, Kept e := by
  unfold decodeSnapshot at h
  dsimp only at h
  split at h
  · exact absurd h (by simp)
  · split at h
    · rename_i hok
      obtain rfl := Option.some.inj h
      exact yields_readSnapshot _ (by simpa [Cursor.ok] using hok)
    · exact absurd h (by simp)

def Call.Whole : Call → Prop
  | .loadState (some blob) => (decodeSnapshot blob).isSome = true
  | .restartCoordinator _ (some blob) => (decodeSnapshot blob).isSome = true
  | _ => True

namespace Impl

theorem construct_historyShort (hasStore : Bool) : (Impl.construct hasStore).HistoryShort :=
  fun s h => absurd h (by simp [construct])

theorem HistoryShort.append {im im' : Impl} {e : Str} (h : im.HistoryShort) (he : Kept e)
    (heq : im'.history = im.history ++ [e]) : im'.HistoryShort := by
  intro s hs
  rw [heq] at hs
  rcases List.mem_append.mp hs with hs | hs
  · exact h s hs
  · rw [List.mem_singleton.mp hs]
    exact he.length

theorem HistoryShort.restarted {im : Impl} (h : im.HistoryShort) (clock : UInt64 → Timestamp) :
    (im.retirePlans clock).recordRestart.HistoryShort :=
  HistoryShort.append h (restartEntry_kept im.ctx) rfl

theorem Records.historyShort {im im' : Impl} (h : Records im im') (hs : im.HistoryShort) :
    im'.HistoryShort := by
  rcases h.history with heq | ⟨e,he,heq⟩
  · exact fun s hm => hs s (heq ▸ hm)
  · exact hs.append he heq

theorem applySnapshot_historyShort (im : Impl) {blob : Bytes}
    (h : (decodeSnapshot blob).isSome = true) (preserveEpochBoot : Bool) :
    (im.applySnapshot blob preserveEpochBoot).2.HistoryShort := by
  obtain ⟨s,hs⟩ := Option.isSome_iff_exists.mp h
  rw [(im.applySnapshot_decoded blob preserveEpochBoot).1 s hs]
  exact fun e he => (decodeSnapshot_history hs e he).length

end Impl

theorem Node.call_historyShort (std : StdSort) {n : Node} {c : Call} (hc : c.Whole)
    (h : n.impl.HistoryShort) : (n.call std c).impl.HistoryShort := by
  cases c with
  | act a => exact (n.act_records std a).historyShort h
  | saveState => exact h
  | loadState disk =>
    rw [call]
    rcases n.impl.loadState_cases disk with heq | ⟨blob,_,rfl,heq⟩
    · rw [heq]
      exact h
    · rw [heq]
      exact n.impl.applySnapshot_historyShort hc false
  | restartCoordinator clock reload =>
    have hnext : n.impl.advanceEpoch.HistoryShort := h
    rw [call]
    rcases n.impl.restartReloading_cases clock reload with heq | ⟨blob,_,rfl,heq⟩
    · rw [heq]
      exact hnext.restarted clock
    · rw [heq]
      exact (n.impl.advanceEpoch.applySnapshot_historyShort hc true).restarted clock

/-- In every state of every run, whatever the store has answered, the snapshot comes back as
long as no history entry has grown past 4096 bytes beside readable requests; and none does
while the store answers with complete snapshots only. -/
theorem Node.run_comes_back_iff (std : StdSort) (hasStore : Bool) (calls : List Call)
    (h : (run (call std) (construct hasStore) calls).impl.Fits) :
    ((run (call std) (construct hasStore) calls).impl.ComesBack ↔
      ((∀ q ∈ (run (call std) (construct hasStore) calls).impl.requests.values, q.Readable) →
        (run (call std) (construct hasStore) calls).impl.HistoryShort)) ∧
    ((∀ c ∈ calls, c.Whole) → (run (call std) (construct hasStore) calls).impl.ComesBack) := by
  have htidy := run_tidy std hasStore calls
  refine ⟨htidy.comesBack_iff h,fun hwhole => (htidy.comesBack_iff h).mpr fun _ => ?_⟩
  exact run_invariant (I := fun n : Node => n.impl.HistoryShort)
    (Impl.construct_historyShort hasStore) fun _ c hc hn => call_historyShort std (hwhole c hc) hn

def steadyCalls : List Call :=
  [.act (.registerWorker ⟨1⟩ ⟨1⟩),.act (.plan ⟨0⟩ (Session.requestNo 1) [Session.readyCandidate])]

instance (im : Impl) : Decidable im.Fits :=
  decidable_of_iff (im.CountsFit ∧ im.plans.values.length < 2^32 ∧ im.history.length < 2^32)
    ⟨fun h => ⟨h.1,h.2.1,h.2.2⟩,fun h => ⟨h.1,h.2,h.3⟩⟩

theorem Node.run_comes_back_steady :
    (run (call .insertion) (construct true) steadyCalls).impl.Fits ∧
    (run (call .insertion) (construct true) steadyCalls).impl.requests.values ≠ [] ∧
    (run (call .insertion) (construct true) steadyCalls).impl.ComesBack := by
  have hfits : (run (call .insertion) (construct true) steadyCalls).impl.Fits := by decide +kernel
  refine ⟨hfits,by decide +kernel,?_⟩
  refine (run_comes_back_iff .insertion true steadyCalls hfits).2 fun c hc => ?_
  simp only [steadyCalls,List.mem_cons,List.not_mem_nil,or_false] at hc
  rcases hc with rfl | rfl <;> trivial

def overlongSnapshot : Bytes :=
  { Impl.construct true with history := [List.replicate 4097 97] : Impl }.encodeSnapshot

/-- The load reports success and keeps the entry that made it stop; the planner's own next
snapshot is then refused, with no request in it at all. -/
theorem Node.overlong_refused :
    (Impl.loadState (Impl.construct true) (some overlongSnapshot)).1 = true ∧
    (run (call .insertion) (construct true) [.loadState (some overlongSnapshot)]).impl.Fits ∧
    (run (call .insertion) (construct true)
      [.loadState (some overlongSnapshot)]).impl.requests = .empty ∧
    ¬ (run (call .insertion) (construct true)
      [.loadState (some overlongSnapshot)]).impl.ComesBack := by
  have hload : let im := (run (call .insertion) (construct true)
      [.loadState (some overlongSnapshot)]).impl
      im.Fits ∧ im.requests = .empty ∧ ¬ im.HistoryShort := by decide +kernel
  obtain ⟨hfits,hempty,hlong⟩ := hload
  refine ⟨rfl,hfits,hempty,fun hback => hlong ?_⟩
  refine ((run_tidy .insertion true _).comesBack_iff hfits).mp hback ?_
  rw [hempty]
  exact fun q hq => absurd hq List.not_mem_nil

end RecoveryPlanner
