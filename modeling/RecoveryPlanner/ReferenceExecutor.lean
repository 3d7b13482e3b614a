import RecoveryPlanner.NetworkExecutor
set_option autoImplicit false

/-! The reference executor of `executor.cpp`, which completes a dispatch before it returns. Where
it is the only executor and one dispatch is made at a time, the one map of dispatch ids that all
plans share is enough. -/

namespace RecoveryPlanner

structure Synthetic where
  outcome : ExecutionOutcome := .succeeded
  recovered : ProgressUnits := default
  elapsed : Duration := default
  detail : Str := text "synthetic reference execution"
  deriving DecidableEq

structure CompletionCall where
  dispatchId : DispatchId
  synthetic : Synthetic
  deriving DecidableEq

structure ReferenceExecutor where
  /-- A completion callback is set. -/
  onComplete : Bool
  overrides : SortedMap UInt64 Synthetic := .empty
  dispatched : UInt64 := 0
  deriving DecidableEq

namespace ReferenceExecutor

def registerOutcome (e : ReferenceExecutor) (planId : UInt64) (o : Synthetic) :
    ReferenceExecutor :=
  { e with overrides := e.overrides.insert planId o }

def reports (e : ReferenceExecutor) (planId : UInt64) : Synthetic :=
  (e.overrides.find? planId).getD {}

/-- The reading of `now_fn_`, if it is set, stands in the receipt; the callback is called in
between. -/
def dispatch (e : ReferenceExecutor) (reading : Option Timestamp) (d : RecoveryDispatch) :
    RecoveryReceipt × Option CompletionCall × ReferenceExecutor :=
  (⟨d.dispatchId,.dispatched,reading.getD ⟨0⟩,text "accepted"⟩,
    if e.onComplete then some ⟨d.dispatchId,e.reports d.planId.value⟩ else none,
    { e with dispatched := e.dispatched+1 })

end ReferenceExecutor

/-- A planner and the executor whose callback is its `on_adapter_completion`. -/
structure Bench where
  node : Node
  executor : ReferenceExecutor

/-- One `dispatch_plan` with the reference executor, and the calls that other threads make
between its critical sections. -/
structure ReferenceDispatch where
  plan : RecoveryPlan
  begins : Timestamp
  reading : Option Timestamp := none
  completes : Timestamp
  ends : Timestamp
  before : List Call := []
  between : List Call := []
  behind : List Call := []

inductive BenchOp where
  | call (c : Call)
  | registerOutcome (planId : UInt64) (o : Synthetic)
  | dispatchPlan (o : ReferenceDispatch)

/-- The calls that neither begin nor end a dispatch nor complete one, and load nothing. -/
def Call.plain : Call → Bool
  | .act (.dispatchEnd _ _ _) => false
  | .act a => !a.routes
  | .loadState _ => false
  | _ => true

namespace Bench

def construct (hasStore : Bool) : Bench := ⟨.construct hasStore,{ onComplete := true }⟩

def complete (std : StdSort) (n : Node) (o : ReferenceDispatch) : Option CompletionCall → Node
  | none => n
  | some c =>
    (run (Node.call std) (n.act std (.adapterTake c.dispatchId c.synthetic.outcome)) o.between).act
      std (.adapterDeliver o.completes n.pending.length)

def dispatchPlan (std : StdSort) (b : Bench) (o : ReferenceDispatch) :
    Except RecoveryError RecoveryPlan × Bench :=
  let begun := b.node.act std (.dispatchBegin o.begins o.plan)
  match (b.node.impl.dispatchBegin o.begins o.plan).1 with
  | .error e => (.error e,{ b with node := begun })
  | .ok d =>
    let r := b.executor.dispatch o.reading d
    let n := complete std (run (Node.call std) begun o.before) o r.2.1
    let n := run (Node.call std) n o.behind
    ((n.impl.dispatchEnd o.ends o.plan.planId r.1.status).1,
      ⟨n.act std (.dispatchEnd o.ends b.node.awaiting.length r.1.status),r.2.2⟩)

def step (std : StdSort) (b : Bench) : BenchOp → Bench
  | .call c => { b with node := b.node.call std c }
  | .registerOutcome planId o => { b with executor := b.executor.registerOutcome planId o }
  | .dispatchPlan o => (b.dispatchPlan std o).2

end Bench

def Impl.FlightOf (im : Impl) (P : DispatchMeta → Prop) : Prop :=
  ∀ k p, im.plans.find? k = some p → p.state.inFlight = true → P p.stamp

def Replaceable (s : PlanLifecycleState) : Prop :=
  s.terminal = true ∨ validatePlanTransition s .superseded = true

theorem replaceable_next {s t : PlanLifecycleState} (hs : Replaceable s)
    (h : validatePlanTransition s t = true) : Replaceable t := by
  have hs := validate_superseded.mp (hs.resolve_left (by simp [validate_not_terminal h]))
  rcases hs with rfl | rfl | rfl | rfl <;> cases t <;>
    simp [Replaceable,validatePlanTransition,PlanLifecycleState.terminal] at h ⊢

theorem Evolves.replaceable {p p' : RecoveryPlan} (h : Evolves p p')
    (hp : Replaceable p.state) : Replaceable p'.state := by
  rcases h.state with heq | hv
  · rw [heq]
    exact hp
  · exact replaceable_next hp hv

def Impl.AllReplaceable (im : Impl) : Prop :=
  ∀ k p, im.plans.find? k = some p → Replaceable p.state

theorem NodeStep.allReplaceable {n n' : Node} (h : NodeStep n n')
    (hn : n.impl.AllReplaceable) : n'.impl.AllReplaceable := by
  intro k p' hp'
  cases h with
  | quiet same log => exact hn k p' (same.plans ▸ hp')
  | settles hk he impl log =>
    rw [impl,Impl.putPlan,SortedMap.find?_insert] at hp'
    split at hp'
    · obtain rfl := Option.some.inj hp'
      exact he.replaceable (hn _ _ hk)
    · exact hn k p' hp'
  | plans h log =>
    rename_i req now p
    by_cases hk : k = p.planId.value
    · rw [hk,h.find?_new] at hp'
      obtain rfl := Option.some.inj hp'
      rw [h.fresh.state]
      exact .inr rfl
    · rw [h.find?_old hk,Option.map_eq_some_iff] at hp'
      obtain ⟨q,hq,rfl⟩ := hp'
      rcases supersede_evolves req p.planId now q with he | he
      · rw [he]
        exact hn k q hq
      · exact he.replaceable (hn k q hq)
  | handsOff hk hs hcur impl log =>
    simp only [impl,Impl.handOff,Impl.putPlan,SortedMap.find?_insert] at hp'
    split at hp'
    · obtain rfl := Option.some.inj hp'
      exact .inr rfl
    · exact hn k p' hp'

/-- What the dispatch that is under way, if any, has left in the planner. -/
structure Underway (n : Node) (awaiting : List RecoveryPlanId) (pending : List ExecutionReport)
    (metas : SortedMap UInt64 DispatchMeta) (handedOut : Nat) (P : DispatchMeta → Prop) :
    Prop where
  keyed : Impl.Keyed n.impl.plans
  replaceable : n.impl.AllReplaceable
  awaiting : n.awaiting = awaiting
  pending : n.pending = pending
  metas : n.impl.dispatchMeta = metas
  count : n.handedOut.length = handedOut
  flight : n.impl.FlightOf P

theorem erase_insert_empty {κ ν : Type} [LinearOrder κ] (k : κ) (v : ν) :
    ((SortedMap.empty : SortedMap κ ν).insert k v).erase k = SortedMap.empty := by
  refine SortedMap.ext_find? fun j => ?_
  rw [SortedMap.find?_erase,SortedMap.find?_insert,SortedMap.find?_empty]
  split <;> rfl

section Dispatch

variable (std : StdSort) {n : Node} {count : Nat} {m : DispatchMeta} {k : UInt64}

abbrev Idle (n : Node) (count : Nat) : Prop := Underway n [] [] .empty count fun _ => False

theorem Idle.handOff (h : Idle n count) {planId : RecoveryPlanId} {p : RecoveryPlan}
    {now : Timestamp} (hstep : NodeStep n (n.handOff planId p now)) :
    Underway (n.handOff planId p now) [planId] []
      (SortedMap.empty.insert (p.lastAttempt.value+1) p.stamp) (count+1) (· = p.stamp) := by
  refine ⟨hstep.keyed h.keyed,hstep.allReplaceable h.replaceable,?_,h.pending,?_,?_,
    fun j q hq hf => ?_⟩
  · show n.awaiting ++ [planId] = [planId]
    rw [h.awaiting,List.nil_append]
  · rw [Node.handOff_dispatchMeta,h.metas]
  · rw [Node.handOff_handedOut,List.length_cons,h.count]
  · rw [Node.handOff_plans,SortedMap.find?_insert] at hq
    split at hq
    · obtain rfl := Option.some.inj hq
      rfl
    · exact absurd (h.flight j q hq hf) id

theorem Underway.take {awaiting : List RecoveryPlanId}
    (h : Underway n awaiting [] (SortedMap.empty.insert k m) count (· = m))
    (outcome : ExecutionOutcome) :
    Underway (n.act std (.adapterTake ⟨k⟩ outcome)) awaiting
      [⟨⟨k⟩,m.planId,m.generation,m.targetBoot,outcome⟩] .empty count (· = m) := by
  have hfind : n.impl.dispatchMeta.find? k = some m := by
    rw [h.metas,SortedMap.find?_insert,if_pos rfl]
  have hact : n.act std (.adapterTake ⟨k⟩ outcome) =
      { n with
        impl := { n.impl with dispatchMeta := n.impl.dispatchMeta.erase k }
        pending := n.pending ++ [⟨⟨k⟩,m.planId,m.generation,m.targetBoot,outcome⟩] } := by
    simp only [Node.act,Impl.adapterTake,hfind]
  rw [hact]
  refine ⟨h.keyed,h.replaceable,h.awaiting,by simp [h.pending],?_,h.count,h.flight⟩
  show n.impl.dispatchMeta.erase k = _
  rw [h.metas,erase_insert_empty]

end Dispatch

namespace Bench

def finished (std : StdSort) (b : Bench) (o : ReferenceDispatch) (p : RecoveryPlan) : Node :=
  let d := RecoveryDispatch.ofPlan (p.dispatched o.begins)
  run (Node.call std) (complete std
    (run (Node.call std) (b.node.handOff o.plan.planId p o.begins) o.before) o
    (b.executor.dispatch o.reading d).2.1) o.behind

def Ready (b : Bench) (plan : RecoveryPlan) : Prop :=
  ∃ p, b.node.impl.plans.find? plan.planId.value = some p ∧ p.state = .authorized ∧
    AuthorityCurrent p b.node.impl.ctx

end Bench

def RecoveryPlan.completed (p : RecoveryPlan) (begins ends : Timestamp)
    (outcome : ExecutionOutcome) : RecoveryPlan :=
  { p.dispatched begins with
    updatedAt := ends
    state := if outcome = .succeeded then .succeeded else .failed
    executionOutcome := outcome
    outcomePublished := outcome = .succeeded || outcome = .failed }

theorem RecoveryPlan.completed_over (p : RecoveryPlan) (begins ends : Timestamp)
    (outcome : ExecutionOutcome) : (p.completed begins ends outcome).state.terminal = true := by
  unfold RecoveryPlan.completed
  dsimp only
  split <;> rfl

theorem settleReport_dispatched {p : RecoveryPlan} (hs : p.state = .dispatched)
    {outcome : ExecutionOutcome} (ho : outcome.declared = true) :
    Impl.settleReport outcome p = { p with
      state := if outcome = .succeeded then .succeeded else .failed
      executionOutcome := outcome
      outcomePublished := outcome = .succeeded || outcome = .failed } := by
  have hfail : validatePlanTransition p.state .failed = true := validate_failed.mpr (.inl hs)
  have hsucc : validatePlanTransition p.state .succeeded = true :=
    validate_succeeded.mpr (.inl hs)
  cases outcome with
  | undeclared i => exact absurd ho (by simp [ExecutionOutcome.declared])
  | _ => simp [Impl.settleReport,hfail,hsucc]

theorem settleReceipt_over {p : RecoveryPlan} (h : p.state.terminal = true) :
    Impl.settleReceipt .dispatched p = p := by
  unfold Impl.settleReceipt
  rw [if_neg (by simp; rintro hs; rw [hs] at h; exact absurd h (by decide)),if_neg (by simp)]

theorem putPlan_putPlan (im : Impl) (k : UInt64) (p q : RecoveryPlan) :
    (im.putPlan k p).putPlan k q = im.putPlan k q := by
  have h : (im.plans.insert k p).insert k q = im.plans.insert k q := by
    refine SortedMap.ext_find? fun j => ?_
    simp only [SortedMap.find?_insert]
    split <;> rfl
  unfold Impl.putPlan
  rw [h]

theorem reportExecution_eq {im : Impl} {p : RecoveryPlan} {r : ExecutionReport}
    (hk : im.plans.find? r.planId.value = some p) (hstamp : p.stamp = r.stamp)
    (hf : p.state.inFlight = true) (now : Timestamp) :
    im.reportExecution now r =
      im.putPlan r.planId.value { Impl.settleReport r.outcome p with updatedAt := now } := by
  have hgen : p.generation = r.planGeneration := congrArg DispatchMeta.generation hstamp
  have hboot : p.targetBoot = r.reporterBoot := congrArg DispatchMeta.targetBoot hstamp
  unfold Impl.reportExecution
  simp [hk,hgen,hboot,inFlight_alive hf]

theorem dispatchEnd_eq {im : Impl} {planId : RecoveryPlanId} {p : RecoveryPlan}
    (hk : im.plans.find? planId.value = some p) (now : Timestamp) (status : DispatchStatus) :
    im.dispatchEnd now planId status =
      (.ok { Impl.settleReceipt status p with updatedAt := now },
        im.putPlan planId.value { Impl.settleReceipt status p with updatedAt := now }) := by
  simp [Impl.dispatchEnd,hk]

theorem handOff_taken {im : Impl} {k : UInt64} {p : RecoveryPlan} (begins : Timestamp)
    (hmeta : im.dispatchMeta = .empty) (outcome : ExecutionOutcome) :
    (im.handOff k p begins).adapterTake ⟨p.lastAttempt.value+1⟩ outcome =
      (some ⟨⟨p.lastAttempt.value+1⟩,p.planId,p.generation,p.targetBoot,outcome⟩,
        im.putPlan k (p.dispatched begins)) := by
  have hfind : (im.handOff k p begins).dispatchMeta.find? (p.lastAttempt.value+1) =
      some p.stamp := by
    show (im.dispatchMeta.insert (p.lastAttempt.value+1) p.stamp).find? _ = _
    rw [SortedMap.find?_insert,if_pos rfl]
  have herase : (im.handOff k p begins).dispatchMeta.erase (p.lastAttempt.value+1) =
      im.dispatchMeta := by
    show (im.dispatchMeta.insert (p.lastAttempt.value+1) p.stamp).erase _ = _
    rw [hmeta,erase_insert_empty]
  unfold Impl.adapterTake
  rw [hfind]
  dsimp only
  rw [herase]
  rfl

theorem handOff_completed {im : Impl} {planId : RecoveryPlanId} {p : RecoveryPlan}
    (hid : p.planId = planId) (begins completes ends : Timestamp) (d : DispatchId)
    {outcome : ExecutionOutcome} (ho : outcome.declared = true) :
    ((im.putPlan planId.value (p.dispatched begins)).reportExecution completes
        ⟨d,p.planId,p.generation,p.targetBoot,outcome⟩).dispatchEnd ends planId .dispatched =
      (.ok (p.completed begins ends outcome),
        im.putPlan planId.value (p.completed begins ends outcome)) := by
  subst hid
  have hk : (im.putPlan p.planId.value (p.dispatched begins)).plans.find? p.planId.value =
      some (p.dispatched begins) := by
    show (im.plans.insert _ _).find? _ = _
    rw [SortedMap.find?_insert,if_pos rfl]
  rw [reportExecution_eq (r := ⟨d,p.planId,p.generation,p.targetBoot,outcome⟩) hk rfl rfl,
    settleReport_dispatched rfl ho,putPlan_putPlan]
  have hk' : (im.putPlan p.planId.value
      { p.completed begins ends outcome with updatedAt := completes }).plans.find?
        p.planId.value =
      some { p.completed begins ends outcome with updatedAt := completes } := by
    show (im.plans.insert _ _).find? _ = _
    rw [SortedMap.find?_insert,if_pos rfl]
  have hend := dispatchEnd_eq hk' ends .dispatched
  rw [settleReceipt_over (p := { p.completed begins ends outcome with updatedAt := completes })
    (p.completed_over begins ends outcome),putPlan_putPlan] at hend
  exact hend

namespace Bench

end Bench

end RecoveryPlanner
