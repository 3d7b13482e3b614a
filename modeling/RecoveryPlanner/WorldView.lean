import RecoveryPlanner.Revalidation
set_option autoImplicit false

/-! What the planner knows of the world is what it was told last, since the last restart. A
store can take registrations away and give none. -/

namespace RecoveryPlanner

def PlannerContext.currentBoot (ctx : PlannerContext) (w : WorkerId) : Option WorkerBootId :=
  if w ∈ ctx.aliveWorkers then ctx.workerBoots.find? w else none

def PlannerContext.canRecompute (ctx : PlannerContext) (gen : WorkloadGeneration) : Bool × Bool :=
  (gen ∈ ctx.recomputeLineageAvailable,gen ∈ ctx.originalInputsAvailable)

namespace Call

def tellsBoot (w : WorkerId) : Call → Option (Option WorkerBootId)
  | .act (.registerWorker w' boot) => if w' = w then some (some boot) else none
  | .act (.unregisterWorker w') => if w' = w then some none else none
  | .restartCoordinator _ _ => some none
  | _ => none

def tellsResource (kind : Str) : Call → Option (Option UInt64)
  | .act (.setResource kind' amount) => if kind' = kind then some (some amount) else none
  | .restartCoordinator _ _ => some none
  | _ => none

def tellsRecompute (gen : WorkloadGeneration) : Call → Option (Bool × Bool)
  | .act (.setRecomputeAvailable gen' available) =>
    if gen' = gen then some (available,available) else none
  | .restartCoordinator _ _ => some (false,false)
  | _ => none

end Call

/-- What a load leaves of the world, whatever the bytes. -/
structure Faded (ctx ctx' : PlannerContext) : Prop where
  workers : (ctx'.aliveWorkers = ctx.aliveWorkers ∧ ctx'.workerBoots = ctx.workerBoots) ∨
    ctx'.aliveWorkers = ∅
  resources : ctx'.resourceAvailable = ctx.resourceAvailable
  lineage : ctx'.recomputeLineageAvailable = ctx.recomputeLineageAvailable
  inputs : ctx'.originalInputsAvailable = ctx.originalInputsAvailable

namespace Impl

theorem applySnapshot_faded (im : Impl) (bytes : Bytes) (preserveEpochBoot : Bool) :
    Faded im.ctx (im.applySnapshot bytes preserveEpochBoot).2.ctx := by
  unfold applySnapshot applyBody applyWorkers
  dsimp only
  split
  · exact ⟨.inl ⟨rfl,rfl⟩,rfl,rfl,rfl⟩
  · split
    · exact ⟨.inl ⟨rfl,rfl⟩,rfl,rfl,rfl⟩
    · rw [(applyRequests_frame _ _).2]
      exact ⟨.inr rfl,rfl,rfl,rfl⟩

theorem loadState_faded (im : Impl) (disk : Disk) : Faded im.ctx (im.loadState disk).2.ctx := by
  rcases im.loadState_cases disk with h | ⟨blob,_,_,h⟩
  · rw [h]
    exact ⟨.inl ⟨rfl,rfl⟩,rfl,rfl,rfl⟩
  · rw [h]
    exact im.applySnapshot_faded blob false

end Impl

def OrLost {α : Type} (a b : Option α) : Prop := a = b ∨ a = none

theorem currentBoot_of_alive {ctx ctx' : PlannerContext} (h : ctx'.aliveWorkers = ctx.aliveWorkers)
    (hb : ctx'.workerBoots = ctx.workerBoots) (w : WorkerId) :
    ctx'.currentBoot w = ctx.currentBoot w := by
  unfold PlannerContext.currentBoot
  rw [h,hb]

theorem currentBoot_empty {ctx : PlannerContext} (h : ctx.aliveWorkers = ∅) (w : WorkerId) :
    ctx.currentBoot w = none := by
  rw [PlannerContext.currentBoot,h,if_neg (Finset.notMem_empty w)]

theorem currentBoot_register (ctx : PlannerContext) (w w' : WorkerId) (boot : WorkerBootId) :
    (ctx.registerWorker w' boot).currentBoot w =
      if w' = w then some boot else ctx.currentBoot w := by
  unfold PlannerContext.currentBoot PlannerContext.registerWorker
  by_cases h : w' = w
  · subst h
    simp
  · have hne : w ≠ w' := fun heq => h heq.symm
    simp [h,hne]

theorem currentBoot_unregister (ctx : PlannerContext) (w w' : WorkerId) :
    (ctx.unregisterWorker w').currentBoot w = if w' = w then none else ctx.currentBoot w := by
  unfold PlannerContext.currentBoot PlannerContext.unregisterWorker
  by_cases h : w' = w
  · subst h
    simp
  · have hne : w ≠ w' := fun heq => h heq.symm
    simp [h,hne]

theorem canRecompute_set (im : Impl) (gen gen' : WorkloadGeneration) (available : Bool) :
    (im.setRecomputeAvailable gen' available).ctx.canRecompute gen =
      if gen' = gen then (available,available) else im.ctx.canRecompute gen := by
  unfold PlannerContext.canRecompute Impl.setRecomputeAvailable
  by_cases h : gen' = gen
  · subst h
    cases available <;> simp
  · have hne : gen ≠ gen' := fun heq => h heq.symm
    cases available <;> simp [h,hne]

namespace Node

variable (std : StdSort) (n : Node)

theorem call_boot (c : Call) (w : WorkerId) :
    OrLost ((n.call std c).impl.ctx.currentBoot w)
      ((c.tellsBoot w).getD (n.impl.ctx.currentBoot w)) ∧
    ((∀ disk, c ≠ .loadState disk) → (n.call std c).impl.ctx.currentBoot w =
      (c.tellsBoot w).getD (n.impl.ctx.currentBoot w)) := by
  have hexact : ∀ {a b : Option WorkerBootId} {P : Prop}, a = b → OrLost a b ∧ (P → a = b) :=
    fun h => ⟨.inl h,fun _ => h⟩
  cases c with
  | act a =>
    refine hexact ?_
    cases a with
    | registerWorker w' boot =>
      refine (currentBoot_register n.impl.ctx w w' boot).trans ?_
      rw [Call.tellsBoot]
      split <;> rfl
    | unregisterWorker w' =>
      refine (currentBoot_unregister n.impl.ctx w w').trans ?_
      rw [Call.tellsBoot]
      split <;> rfl
    | setResource kind amount => rfl
    | setRecomputeAvailable gen available =>
      refine currentBoot_of_alive ?_ ?_ w <;> cases available <;> rfl
    | _ => exact congrArg (PlannerContext.currentBoot · w) (n.act_ctx std rfl)
  | saveState => exact hexact rfl
  | loadState disk =>
    refine ⟨?_,fun h => absurd rfl (h disk)⟩
    rcases (n.impl.loadState_faded disk).workers with ⟨halive,hboots⟩ | hempty
    · exact .inl (currentBoot_of_alive halive hboots w)
    · exact .inr (currentBoot_empty hempty w)
  | restartCoordinator clock reload =>
    exact hexact (currentBoot_empty (n.impl.restartReloading_restarted clock reload).alive w)

theorem call_resource (c : Call) (kind : Str) :
    (n.call std c).impl.ctx.resourceAvailable.find? kind =
      (c.tellsResource kind).getD (n.impl.ctx.resourceAvailable.find? kind) := by
  cases c with
  | act a =>
    cases a with
    | setResource kind' amount =>
      refine (SortedMap.find?_insert _ _ _ _).trans ?_
      rw [Call.tellsResource]
      by_cases h : kind = kind'
      · rw [if_pos h,if_pos h.symm]
        rfl
      · rw [if_neg h,if_neg (Ne.symm h)]
        rfl
    | registerWorker w boot => rfl
    | unregisterWorker w => rfl
    | setRecomputeAvailable gen available => cases available <;> rfl
    | _ =>
      exact congrArg (fun ctx : PlannerContext => ctx.resourceAvailable.find? kind)
        (n.act_ctx std rfl)
  | saveState => rfl
  | loadState disk =>
    exact congrArg (SortedMap.find? · kind) (n.impl.loadState_faded disk).resources
  | restartCoordinator clock reload =>
    exact congrArg (SortedMap.find? · kind)
      (n.impl.restartReloading_restarted clock reload).resources

theorem call_recompute (c : Call) (gen : WorkloadGeneration) :
    (n.call std c).impl.ctx.canRecompute gen =
      (c.tellsRecompute gen).getD (n.impl.ctx.canRecompute gen) := by
  cases c with
  | act a =>
    cases a with
    | setRecomputeAvailable gen' available =>
      refine (canRecompute_set n.impl gen gen' available).trans ?_
      rw [Call.tellsRecompute]
      split <;> rfl
    | registerWorker w boot => rfl
    | unregisterWorker w => rfl
    | setResource kind amount => rfl
    | _ => exact congrArg (PlannerContext.canRecompute · gen) (n.act_ctx std rfl)
  | saveState => rfl
  | loadState disk =>
    have hfaded := n.impl.loadState_faded disk
    unfold PlannerContext.canRecompute call
    rw [hfaded.lineage,hfaded.inputs]
    rfl
  | restartCoordinator clock reload =>
    have hrestarted := n.impl.restartReloading_restarted clock reload
    unfold PlannerContext.canRecompute call
    rw [hrestarted.lineage,hrestarted.inputs]
    rfl

theorem orLost_trans {α : Type} (a b c : Option α) (h : OrLost a b) (h' : OrLost b c) :
    OrLost a c := by
  rcases h with rfl | h
  · exact h'
  · exact .inr h

theorem current_told (hasStore : Bool) (calls : List Call) {w : WorkerId} {boot : WorkerBootId}
    (h : (run (call std) (construct hasStore) calls).impl.ctx.currentBoot w = some boot) :
    lastTold (Call.tellsBoot w) calls = some (some boot) := by
  have hrun := run_lastTold (fun n : Node => n.impl.ctx.currentBoot w) (Call.tellsBoot w)
    (fun _ => .inl rfl) orLost_trans (fun n c (_ : c ∈ calls) => (call_boot std n c w).1)
    (construct hasStore)
  rcases hrun with heq | hnone
  · cases hlast : lastTold (Call.tellsBoot w) calls with
    | none =>
      rw [h,hlast] at heq
      exact nomatch heq
    | some b =>
      rw [h,hlast] at heq
      exact congrArg some heq.symm
  · rw [h] at hnone
    exact nomatch hnone

/-- In every run, whatever the store answers: resources and recompute authority are what was
told last, restarts included, and a worker is alive under a boot only if that was told last;
without a load, exactly then. -/
theorem run_world (hasStore : Bool) (calls : List Call) :
    let ctx := (run (call std) (construct hasStore) calls).impl.ctx
    (∀ kind, ctx.resourceAvailable.find? kind =
      (lastTold (Call.tellsResource kind) calls).getD none) ∧
    (∀ gen, ctx.canRecompute gen =
      (lastTold (Call.tellsRecompute gen) calls).getD (false,false)) ∧
    (∀ w boot, ctx.currentBoot w = some boot →
      lastTold (Call.tellsBoot w) calls = some (some boot)) ∧
    ((∀ disk, .loadState disk ∉ calls) → ∀ w, ctx.currentBoot w =
      (lastTold (Call.tellsBoot w) calls).getD none) := by
  intro ctx
  refine ⟨fun kind => ?_,fun gen => ?_,fun w boot hboot => ?_,fun hload w => ?_⟩
  · exact run_lastTold_eq (fun n : Node => n.impl.ctx.resourceAvailable.find? kind)
      (Call.tellsResource kind) (fun n c _ => call_resource std n c kind) (construct hasStore)
  · exact run_lastTold_eq (fun n : Node => n.impl.ctx.canRecompute gen)
      (Call.tellsRecompute gen) (fun n c _ => call_recompute std n c gen) (construct hasStore)
  · exact current_told std hasStore calls hboot
  · refine run_lastTold_eq (fun n : Node => n.impl.ctx.currentBoot w) (Call.tellsBoot w)
      (fun n c hc => ?_) (construct hasStore)
    exact (call_boot std n c w).2 fun disk heq => hload disk (heq ▸ hc)

/-- A dispatch is only handed out to a worker that was registered under the target boot of the
plan, and of which nothing else has been told since, not by a restart either. -/
theorem run_dispatch_told (hasStore : Bool) (calls : List Call) (now : Timestamp)
    (plan : RecoveryPlan) (d : RecoveryDispatch)
    (h : ((run (call std) (construct hasStore) calls).impl.dispatchBegin now plan).1 = .ok d) :
    lastTold (Call.tellsBoot d.targetWorker) calls = some (some d.targetBoot) := by
  rcases (run (call std) (construct hasStore) calls).impl.dispatchBegin_spec now plan with
    ⟨e,heq⟩ | ⟨p,_,_,hcur,heq⟩
  · rw [heq] at h
    exact nomatch h
  · rw [heq] at h
    obtain rfl := Except.ok.inj h
    refine current_told std hasStore calls ?_
    rw [PlannerContext.currentBoot]
    exact (if_pos hcur.alive).trans hcur.boot

theorem run_dispatch_told_ready :
    let calls := steadyCalls ++ [.act (.authorizePlan ⟨1⟩ { planId := ⟨1⟩ })]
    ∃ d, ((run (call .insertion) (construct true) calls).impl.dispatchBegin ⟨2⟩
        { planId := ⟨1⟩ }).1 = .ok d ∧
      lastTold (Call.tellsBoot d.targetWorker) calls = some (some d.targetBoot) := by
  intro calls
  have hok : ((run (call .insertion) (construct true) calls).impl.dispatchBegin ⟨2⟩
      { planId := ⟨1⟩ }).1.isOk = true := by decide +kernel
  cases hd : ((run (call .insertion) (construct true) calls).impl.dispatchBegin ⟨2⟩
      { planId := ⟨1⟩ }).1 with
  | error e =>
    rw [hd] at hok
    exact nomatch hok
  | ok d => exact ⟨d,rfl,run_dispatch_told .insertion true calls ⟨2⟩ { planId := ⟨1⟩ } d hd⟩

end Node

end RecoveryPlanner
