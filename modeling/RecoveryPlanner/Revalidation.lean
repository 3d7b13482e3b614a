import RecoveryPlanner.Fencing
import RecoveryPlanner.Restart
import RecoveryPlanner.RoundTrip
set_option autoImplicit false

/-! Whether a plan that does not revalidate can revalidate after it has been saved and loaded. -/

namespace RecoveryPlanner

def PlannerContext.Booted (ctx : PlannerContext) : Prop :=
  ∀ w ∈ ctx.aliveWorkers, ∃ b, ctx.workerBoots.find? w = some b

theorem PlannerContext.Booted.registerWorker {ctx : PlannerContext} (h : ctx.Booted)
    (w : WorkerId) (boot : WorkerBootId) : (ctx.registerWorker w boot).Booted := by
  intro w' hw'
  by_cases hww : w' = w
  · exact ⟨boot,by simp [PlannerContext.registerWorker,hww]⟩
  · obtain ⟨b,hb⟩ := h w' (by simpa [PlannerContext.registerWorker,hww] using hw')
    exact ⟨b,by simpa [PlannerContext.registerWorker,hww] using hb⟩

theorem PlannerContext.Booted.unregisterWorker {ctx : PlannerContext} (h : ctx.Booted)
    (w : WorkerId) : (ctx.unregisterWorker w).Booted :=
  fun w' hw' => h w' (Finset.mem_of_mem_erase hw')

theorem PlannerContext.booted_of_empty {ctx : PlannerContext} (h : ctx.aliveWorkers = ∅) :
    ctx.Booted := by
  intro w hw
  rw [h] at hw
  exact absurd hw (Finset.notMem_empty w)

namespace Impl

theorem Settles.ctx {im im' : Impl} (h : Settles im im') : im'.ctx = im.ctx := by
  cases h with
  | same => rfl
  | put hk he => rfl

theorem plan_ctx (std : StdSort) (im : Impl) (now : Timestamp) (request : RecoveryRequest)
    (cs : List RecoveryCandidate) : (im.plan std now request cs).2.ctx = im.ctx := by
  rcases im.plan_spec std now request cs with ⟨_,h⟩ | ⟨p,_,h⟩
  · exact h.ctx
  · exact h.ctx

theorem adapterTake_ctx (im : Impl) (dispatchId : DispatchId) (outcome : ExecutionOutcome) :
    (im.adapterTake dispatchId outcome).2.ctx = im.ctx := by
  unfold adapterTake
  cases im.dispatchMeta.find? dispatchId.value <;> rfl

theorem applySnapshot_booted {im : Impl} (h : im.ctx.Booted) (bytes : Bytes) :
    (im.applySnapshot bytes false).2.ctx.Booted := by
  unfold applySnapshot applyBody applyWorkers
  dsimp only
  split
  · exact h
  · split
    · exact h
    · rw [(applyRequests_frame _ _).2]
      exact PlannerContext.booted_of_empty rfl

end Impl

def Act.updatesWorld : Act → Bool
  | .registerWorker _ _ | .unregisterWorker _ | .setResource _ _
  | .setRecomputeAvailable _ _ => true
  | _ => false

namespace Node

theorem act_ctx (std : StdSort) (n : Node) {a : Act} (h : a.updatesWorld = false) :
    (n.act std a).impl.ctx = n.impl.ctx := by
  cases a with
  | plan now request cs => exact n.impl.plan_ctx std now request cs
  | authorizePlan now plan => exact (n.impl.authorizePlan_settles now plan).ctx
  | revalidatePlan plan => rfl
  | dispatchBegin now plan =>
    rcases n.act_dispatchBegin std now plan with heq | ⟨p,_,_,_,heq⟩
    · rw [heq]
    · rw [heq]
      rfl
  | dispatchEnd now call status =>
    simp only [act]
    split
    · exact (n.impl.dispatchEnd_settles now _ status).ctx
    · rfl
  | reportExecution now report => exact (n.impl.reportExecution_settles now report).ctx
  | adapterTake dispatchId outcome =>
    have hctx := n.impl.adapterTake_ctx dispatchId outcome
    simp only [act]
    split <;> rename_i heq
    · rw [heq] at hctx
      exact hctx
    · rw [heq] at hctx
      exact hctx
  | adapterDeliver now call =>
    simp only [act]
    split
    · exact (n.impl.reportExecution_settles now _).ctx
    · rfl
  | cancelPlan now planId force => exact (n.impl.cancelPlan_settles now planId force).ctx
  | invalidatePlan now planId => exact (n.impl.invalidatePlan_settles now planId).ctx
  | _ => exact absurd h (by simp [Act.updatesWorld])

theorem act_booted (std : StdSort) {n : Node} (h : n.impl.ctx.Booted) (a : Act) :
    (n.act std a).impl.ctx.Booted := by
  cases hw : a.updatesWorld with
  | false =>
    rw [n.act_ctx std hw]
    exact h
  | true =>
    cases a with
    | registerWorker w boot => exact h.registerWorker w boot
    | unregisterWorker w => exact h.unregisterWorker w
    | setResource kind amount => exact h
    | setRecomputeAvailable gen available =>
      simp only [act,Impl.setRecomputeAvailable]
      split <;> exact h
    | _ => exact absurd hw (by simp [Act.updatesWorld])

theorem call_booted (std : StdSort) {n : Node} (h : n.impl.ctx.Booted) (c : Call) :
    (n.call std c).impl.ctx.Booted := by
  cases c with
  | act a => exact act_booted std h a
  | saveState => exact h
  | loadState disk =>
    rw [call]
    rcases n.impl.loadState_cases disk with heq | ⟨blob,_,_,heq⟩
    · rw [heq]
      exact h
    · rw [heq]
      exact Impl.applySnapshot_booted h blob
  | restartCoordinator clock reload =>
    exact PlannerContext.booted_of_empty (n.impl.restartReloading_restarted clock reload).alive

theorem run_booted (std : StdSort) (hasStore : Bool) (calls : List Call) :
    (run (call std) (construct hasStore) calls).impl.ctx.Booted :=
  run_invariant (I := fun n : Node => n.impl.ctx.Booted)
    (PlannerContext.booted_of_empty rfl) fun _ c _ h => call_booted std h c

end Node

structure SameFence (ctx ctx' : PlannerContext) : Prop where
  header : ctx'.header = ctx.header
  boots : ∀ w, ctx'.workerBoots.find? w = ctx.workerBoots.find? w
  alive : ∀ w, w ∈ ctx'.aliveWorkers ↔ w ∈ ctx.aliveWorkers

theorem SameFence.current_iff {ctx ctx' : PlannerContext} (h : SameFence ctx ctx')
    (p : RecoveryPlan) : AuthorityCurrent p ctx' ↔ AuthorityCurrent p ctx := by
  have hh := h.header
  simp only [PlannerContext.header,SnapshotHeader.mk.injEq] at hh
  obtain ⟨h1,_,h3,h4,h5,h6,h7⟩ := hh
  constructor
  · intro ⟨a1,a2,a3,a4,a5,a6,a7,a8⟩
    exact ⟨a1.trans h1,a2.trans h4,a3.trans h5,a4.trans h6,a5.trans h7,a6.trans h3,
      (h.alive _).mp a7,(h.boots _).symm.trans a8⟩
  · intro ⟨a1,a2,a3,a4,a5,a6,a7,a8⟩
    exact ⟨a1.trans h1.symm,a2.trans h4.symm,a3.trans h5.symm,a4.trans h6.symm,a5.trans h7.symm,
      a6.trans h3.symm,(h.alive _).mpr a7,(h.boots _).trans a8⟩

namespace Impl

/-- Exactly the workers that are alive, each under the boot it is registered under. -/
structure Rejoins (im : Impl) (ws : List (WorkerId × WorkerBootId)) : Prop where
  alive : ∀ w, w ∈ ws.map Prod.fst ↔ w ∈ im.ctx.aliveWorkers
  boots : ∀ wb ∈ ws, im.ctx.workerBoots.find? wb.1 = some wb.2

def registerAll (im : Impl) (ws : List (WorkerId × WorkerBootId)) : Impl :=
  ws.foldl (fun im wb => im.registerWorker wb.1 wb.2) im

theorem exists_rejoins {im : Impl} (h : im.ctx.Booted) : ∃ ws, im.Rejoins ws := by
  choose! boot hboot using h
  refine ⟨im.ctx.aliveWorkers.toList.map fun w => (w,boot w),fun w => ?_,fun wb hmem => ?_⟩
  · simp
  · obtain ⟨w,hw,rfl⟩ := List.mem_map.mp hmem
    exact hboot w (Finset.mem_toList.mp hw)

/-- A fresh planner that loads what `save_state` of `im` leaves in the store, and sees these
workers register again. -/
def reloaded (im : Impl) (disk : Disk) (ws : List (WorkerId × WorkerBootId)) : Impl :=
  ((Impl.construct true).loadState (im.saveState disk).2).2.registerAll ws

def StaysRejected (im : Impl) (disk : Disk) : Prop :=
  ∀ ws, im.Rejoins ws → ∀ k p, im.plans.find? k = some p →
    (∀ q, im.revalidatePlan p ≠ .ok q) → ∀ q, (im.reloaded disk ws).revalidatePlan p ≠ .ok q

theorem registerAll_plans (im : Impl) (ws : List (WorkerId × WorkerBootId)) :
    (im.registerAll ws).plans = im.plans ∧ (im.registerAll ws).ctx.header = im.ctx.header := by
  induction ws generalizing im with
  | nil => exact ⟨rfl,rfl⟩
  | cons wb ws ih => exact ih (im.registerWorker wb.1 wb.2)

theorem mem_registerAll_alive {im : Impl} {ws : List (WorkerId × WorkerBootId)} {w : WorkerId} :
    w ∈ (im.registerAll ws).ctx.aliveWorkers ↔
      w ∈ ws.map Prod.fst ∨ w ∈ im.ctx.aliveWorkers := by
  induction ws generalizing im with
  | nil => simp [registerAll]
  | cons wb ws ih =>
    have hstep : w ∈ (im.registerWorker wb.1 wb.2).ctx.aliveWorkers ↔
        w = wb.1 ∨ w ∈ im.ctx.aliveWorkers := by
      simp [registerWorker,PlannerContext.registerWorker]
    rw [registerAll,List.foldl_cons,← registerAll,ih,hstep,List.map_cons,List.mem_cons]
    tauto

theorem registerAll_boots {im : Impl} {ws : List (WorkerId × WorkerBootId)}
    (h : ∀ wb ∈ ws, im.ctx.workerBoots.find? wb.1 = some wb.2) (w : WorkerId) :
    (im.registerAll ws).ctx.workerBoots.find? w = im.ctx.workerBoots.find? w := by
  induction ws generalizing im with
  | nil => rfl
  | cons wb ws ih =>
    have hstep : ∀ w', (im.registerWorker wb.1 wb.2).ctx.workerBoots.find? w' =
        im.ctx.workerBoots.find? w' := by
      intro w'
      have hwb := h wb List.mem_cons_self
      by_cases hw : w' = wb.1
      · simp [registerWorker,PlannerContext.registerWorker,hw,hwb]
      · simp [registerWorker,PlannerContext.registerWorker,hw]
    rw [registerAll,List.foldl_cons,← registerAll,
      ih fun wb' hmem => (hstep wb'.1).trans (h wb' (List.mem_cons_of_mem wb hmem)),hstep]

theorem reloaded_eq {im : Impl} (h : im.hasStore = true) (disk : Disk)
    (ws : List (WorkerId × WorkerBootId)) : im.reloaded disk ws =
      ((Impl.construct true).applySnapshot im.encodeSnapshot false).2.registerAll ws := by
  have hsave : (im.saveState disk).2 = some im.encodeSnapshot := by simp [saveState,h]
  rw [reloaded,hsave,loadState_some rfl]

theorem Tidy.durablePlans_eq {im : Impl} (h : im.Tidy) (hf : im.Fits) :
    im.durablePlans = im.plans.mapValues (fun _ p => p.written) := by
  have hcount : im.countedPlans = im.plans.values := by
    rw [countedPlans,toNat_length_toUInt32 hf.plans,List.take_length]
  rw [durablePlans,hcount]
  exact h.plans_eq

theorem Tidy.plansSound {im : Impl} (h : im.Tidy) : PlansSound im.plans :=
  ⟨h.plansKeyed,fun k p hk => (h.plans k p hk).readable⟩

theorem reloaded_sameFence {im : Impl} (hstore : im.hasStore = true) (ht : im.Tidy)
    (hf : im.Fits) (disk : Disk) {ws : List (WorkerId × WorkerBootId)} (hw : im.Rejoins ws) :
    SameFence im.ctx (im.reloaded disk ws).ctx := by
  have hctx := ((Impl.construct true).applySnapshot_encode hf.counts ht.plansSound false).1
  have hboots : ∀ w, ((Impl.construct true).contextFrom im false).workerBoots.find? w =
      im.ctx.workerBoots.find? w := by
    intro w
    rw [contextFrom]
    exact congrArg (fun m => m.find? w) (SortedMap.foldl_insert_entries im.ctx.workerBoots)
  rw [reloaded_eq hstore]
  refine ⟨?_,fun w => ?_,fun w => ?_⟩
  · rw [(registerAll_plans _ ws).2,hctx]
    rfl
  · rw [registerAll_boots,hctx,hboots]
    intro wb hmem
    rw [hctx,hboots]
    exact hw.boots wb hmem
  · rw [mem_registerAll_alive,hw.alive,hctx]
    exact or_iff_left (Finset.notMem_empty w)

theorem reloaded_current_iff {im : Impl} (hstore : im.hasStore = true) (ht : im.Tidy)
    (hf : im.Fits) (disk : Disk) {ws : List (WorkerId × WorkerBootId)} (hw : im.Rejoins ws)
    (p : RecoveryPlan) :
    AuthorityCurrent p.written (im.reloaded disk ws).ctx ↔ AuthorityCurrent p im.ctx := by
  rw [(reloaded_sameFence hstore ht hf disk hw).current_iff,← planAuthorityCurrent_iff,
    ← planAuthorityCurrent_iff]
  rfl

theorem reloaded_find? {im : Impl} (hstore : im.hasStore = true) (ht : im.Tidy) (hf : im.Fits)
    (hq : ∀ q ∈ im.requests.values, q.Readable) (disk : Disk)
    (ws : List (WorkerId × WorkerBootId)) (k : UInt64) :
    (im.reloaded disk ws).plans.find? k = (im.plans.find? k).map RecoveryPlan.written := by
  have happ := (Impl.construct true).applySnapshot_readable hf.counts ht.plansSound hq false
  rw [reloaded_eq hstore,(registerAll_plans _ ws).1,happ.2,ht.durablePlans_eq hf,
    SortedMap.find?_mapValues]

/-- A request that is too long stops the load in front of the plans. -/
theorem reloaded_empty {im : Impl} (hstore : im.hasStore = true) (hf : im.Fits)
    (hq : ¬ ∀ q ∈ im.requests.values, q.Readable) (disk : Disk)
    (ws : List (WorkerId × WorkerBootId)) : (im.reloaded disk ws).plans = .empty := by
  obtain ⟨n,c,heq⟩ := (Impl.construct true).applySnapshot_unreadable hf.counts hq false
  rw [reloaded_eq hstore,(registerAll_plans _ ws).1,heq]
  rfl

/-- The verdict is not written, so a plan that is only rejected for its verdict comes back
acceptable; what stands in the way of that is a request that stops the load. -/
theorem Tidy.staysRejected_iff {im : Impl} (ht : im.Tidy) (hb : im.ctx.Booted)
    (hstore : im.hasStore = true) (hf : im.Fits) (disk : Disk) :
    im.StaysRejected disk ↔ (∃ q ∈ im.requests.values, ¬ q.Readable) ∨
      ∀ k p, im.plans.find? k = some p → AuthorityCurrent p im.ctx →
        p.deadline.outcome ≠ .violated := by
  constructor
  · intro h
    by_contra hno
    push Not at hno
    obtain ⟨hq,k,p,hk,hcur,hv⟩ := hno
    obtain ⟨ws,hw⟩ := exists_rejoins hb
    refine h ws hw k p hk (fun q hok => ?_) p.written (revalidatePlan_ok_iff.mpr ⟨?_,?_,?_⟩)
    · obtain ⟨hk',_,hn⟩ := revalidatePlan_ok_iff.mp hok
      rw [ht.plansKeyed k p hk,hk] at hk'
      obtain rfl := Option.some.inj hk'
      exact hn hv
    · rw [reloaded_find? hstore ht hf hq,ht.plansKeyed k p hk,hk]
      rfl
    · exact (reloaded_current_iff hstore ht hf disk hw p).mpr hcur
    · exact fun hn => nomatch hn
  · intro h ws hw k p hk hrej q hok
    obtain ⟨hkq,hcur,_⟩ := revalidatePlan_ok_iff.mp hok
    by_cases hq : ∀ q ∈ im.requests.values, q.Readable
    · rw [reloaded_find? hstore ht hf hq,ht.plansKeyed k p hk,hk] at hkq
      obtain rfl := Option.some.inj hkq
      have hcur' := (reloaded_current_iff hstore ht hf disk hw p).mp hcur
      rcases h with ⟨q,hmem,hn⟩ | h
      · exact hn (hq q hmem)
      · refine hrej p (revalidatePlan_ok_iff.mpr ⟨?_,hcur',h k p hk hcur'⟩)
        rw [ht.plansKeyed k p hk,hk]
    · rw [reloaded_empty hstore hf hq,SortedMap.find?_empty] at hkq
      exact absurd hkq (by simp)

end Impl

theorem NodeStep.hasStore {n n' : Node} (h : NodeStep n n') :
    n'.impl.hasStore = n.impl.hasStore := by
  cases h with
  | quiet same log => exact same.hasStore
  | settles hk he impl log =>
    rw [impl]
    rfl
  | plans h log => exact h.hasStore
  | handsOff hk hs hcur impl log =>
    rw [impl]
    rfl

namespace Node

theorem call_hasStore (std : StdSort) (n : Node) (c : Call) :
    (n.call std c).impl.hasStore = n.impl.hasStore := by
  cases c with
  | act a => exact (n.act_step std a).hasStore
  | saveState => rfl
  | loadState disk => exact (n.impl.loadState_frame disk).hasStore
  | restartCoordinator clock reload => exact (n.impl.restartReloading_frame clock reload).hasStore

theorem run_hasStore (std : StdSort) (hasStore : Bool) (calls : List Call) :
    (run (call std) (construct hasStore) calls).impl.hasStore = hasStore :=
  run_invariant (I := fun n : Node => n.impl.hasStore = hasStore) rfl
    fun n c _ h => (n.call_hasStore std c).trans h

/-- In every state of every run a rejected plan stays rejected over a save and a load exactly
when no current plan is marked VIOLATED, or a request stops the load before the plans. -/
theorem run_stays_rejected_iff (std : StdSort) (calls : List Call) (disk : Impl.Disk)
    (h : (run (call std) (construct true) calls).impl.Fits) :
    let im := (run (call std) (construct true) calls).impl
    im.StaysRejected disk ↔ (∃ q ∈ im.requests.values, ¬ q.Readable) ∨
      ∀ k p, im.plans.find? k = some p → AuthorityCurrent p im.ctx →
        p.deadline.outcome ≠ .violated :=
  (run_tidy std true calls).staysRejected_iff (run_booted std true calls)
    (run_hasStore std true calls) h disk

def departedCalls : List Call :=
  [.act (.registerWorker ⟨1⟩ ⟨1⟩),.act (.plan ⟨0⟩ (Session.requestNo 1) [Session.readyCandidate]),
   .act (.unregisterWorker ⟨1⟩)]

theorem run_stays_rejected_departed :
    let im := (run (call .insertion) (construct true) departedCalls).impl
    im.Fits ∧ im.StaysRejected none ∧
    im.revalidatePlan { planId := ⟨1⟩ } =
      .error ⟨.staleAuthority,text "revalidation failed: plan authority is stale"⟩ := by
  intro im
  have hf : im.Fits := by decide +kernel
  refine ⟨hf,(run_stays_rejected_iff .insertion departedCalls none hf).mpr (.inr ?_),
    by decide +kernel⟩
  intro k p _ hcur
  have hgone : im.ctx.aliveWorkers = ∅ := by decide +kernel
  have halive := hcur.alive
  rw [hgone] at halive
  exact absurd halive (Finset.notMem_empty _)

def violatedCalls : List Call :=
  [.act (.registerWorker ⟨1⟩ ⟨1⟩),.act (.plan ⟨0⟩ tightRequest [slowCandidate])]

/-- The plan is marked VIOLATED, and behind the reload it is not. -/
theorem violated_revived :
    let im := (run (call .insertion) (construct true) violatedCalls).impl
    im.revalidatePlan { planId := ⟨1⟩ } =
      .error ⟨.staleAuthority,text "revalidation failed: deadline no longer viable"⟩ ∧
    im.Rejoins [(⟨1⟩,⟨1⟩)] ∧
    (∃ q, (im.reloaded none [(⟨1⟩,⟨1⟩)]).revalidatePlan { planId := ⟨1⟩ } = .ok q) ∧
    ¬ im.StaysRejected none := by
  intro im
  have hrej : im.revalidatePlan { planId := ⟨1⟩ } =
      .error ⟨.staleAuthority,text "revalidation failed: deadline no longer viable"⟩ := by
    decide +kernel
  have hw : im.Rejoins [(⟨1⟩,⟨1⟩)] := by
    refine ⟨fun w => ?_,fun wb hmem => ?_⟩
    · have halive : im.ctx.aliveWorkers = {⟨1⟩} := by decide +kernel
      simp [halive]
    · rw [List.mem_singleton.mp hmem]
      decide +kernel
  have hp : (im.plans.find? 1).map (fun p => (p.planId,planAuthorityCurrent p im.ctx)) =
      some (⟨1⟩,true) := by decide +kernel
  obtain ⟨p,hk,hp⟩ := Option.map_eq_some_iff.mp hp
  simp only [Prod.mk.injEq] at hp
  obtain ⟨hid,hcur⟩ := hp
  have hstore : im.hasStore = true := rfl
  have ht : im.Tidy := run_tidy .insertion true violatedCalls
  have hf : im.Fits := by decide +kernel
  have hq : ∀ q ∈ im.requests.values, q.Readable := by decide +kernel
  have hback := Impl.reloaded_find? hstore ht hf hq none [(⟨1⟩,⟨1⟩)] 1
  rw [hk] at hback
  have hcur' := (Impl.reloaded_current_iff hstore ht hf none hw p).mpr
    ((planAuthorityCurrent_iff _ _).mp hcur)
  have hok : ∀ plan : RecoveryPlan, plan.planId = ⟨1⟩ →
      (im.reloaded none [(⟨1⟩,⟨1⟩)]).revalidatePlan plan = .ok p.written := by
    intro plan hplan
    exact Impl.revalidatePlan_ok_iff.mpr ⟨by rw [hplan]; exact hback,hcur',fun hn => nomatch hn⟩
  refine ⟨hrej,hw,⟨p.written,hok { planId := ⟨1⟩ } rfl⟩,fun h => ?_⟩
  refine h _ hw 1 p hk (fun q' hq' => ?_) p.written (hok p hid)
  have hq' : im.revalidatePlan { planId := ⟨1⟩ } = .ok q' := by
    rw [Impl.revalidatePlan_ok_iff] at hq' ⊢
    rw [hid] at hq'
    exact hq'
  rw [hrej] at hq'
  exact nomatch hq'

end Node

end RecoveryPlanner
