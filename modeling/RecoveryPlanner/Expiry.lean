import RecoveryPlanner.Guards
set_option autoImplicit false

/-! Deadlines in runs with a clock: what has to happen before the clock passes the deadline of
a plan, since no guard looks at the clock. -/

namespace RecoveryPlanner

def Act.clock? : Act → Option Timestamp
  | .plan now _ _ | .authorizePlan now _ | .dispatchBegin now _ | .dispatchEnd now _ _
  | .reportExecution now _ | .adapterDeliver now _ | .cancelPlan now _ _
  | .invalidatePlan now _ => some now
  | .revalidatePlan _ | .adapterTake _ _ | .registerWorker _ _ | .unregisterWorker _
  | .setResource _ _ | .setRecomputeAvailable _ _ => none

/-- A call at a moment, which is what it reads if it reads the clock at all. -/
structure TimedCall where
  now : Timestamp
  call : Call
  reads : ∀ a t, call = .act a → a.clock? = some t → t = now

structure Watch where
  node : Node
  clock : Timestamp

def Event.deadlineOf (gen : RecoveryPlanGeneration) : Event → Option Timestamp
  | .created q => if q.generation = gen then q.deadline.deadline else none
  | .handedOff _ _ _ => none

/-- The deadlines a stored plan has to meet: the one in its record, which a load wipes, and the
one that it was made with. -/
def deadlines (log : List Event) (k : UInt64) (p : RecoveryPlan) : List Timestamp :=
  p.deadline.deadline.toList ++ (lifeOf k log).filterMap (Event.deadlineOf p.generation)

/-- One of the two guards lets the plan through as long as its fence is current. -/
def Armed (p : RecoveryPlan) : Prop :=
  p.deadline.outcome ≠ .violated ∨ p.state = .authorized

/-- At `t` no deadline of the plan is over, if it is armed. -/
def Timely (log : List Event) (t : Timestamp) (k : UInt64) (p : RecoveryPlan) : Prop :=
  Armed p → ∀ D ∈ deadlines log k p, t.value ≤ D.value

instance (log : List Event) (t : Timestamp) (k : UInt64) (p : RecoveryPlan) :
    Decidable (Timely log t k p) :=
  inferInstanceAs (Decidable (_ ∨ _ → _))

section

variable {log : List Event} {t : Timestamp} {k : UInt64} {p p' : RecoveryPlan}

theorem Timely.evolves (h : Timely log t k p) (he : Evolves p p')
    (hs : p'.state = .authorized → Armed p) : Timely log t k p' := by
  have hgen : p'.generation = p.generation := congrArg PlanFence.generation he.fence
  have harmed : Armed p' → Armed p := by
    rintro (hv | ha)
    · exact .inl (he.deadline ▸ hv)
    · exact hs ha
  intro ha
  rw [deadlines,he.deadline,hgen]
  exact h (harmed ha)

theorem Timely.steady : Steady (Timely log t) :=
  fun _ _ _ he hs h => h.evolves he fun ha => .inr (he.authorized hs ha)

end

namespace Impl

variable {log : List Event} {t : Timestamp} {im : Impl}

theorem AllCurrent.congr {Q Q' : UInt64 → RecoveryPlan → Prop} (h : im.AllCurrent Q)
    (hQ : ∀ k p, Q k p → Q' k p) : im.AllCurrent Q' :=
  fun k p hk hcur => hQ k p (h k p hk hcur)

end Impl

namespace Node

/-- The calls that arm a plan do so before its deadlines are over. A plan is armed when it is
made and not marked VIOLATED, when it is authorized although it is, and when its fence becomes
current again. -/
def ArmsInTime (n : Node) (now : Timestamp) : Call → Prop
  | .act (.plan now request cs) => ∀ c ∈ choices n.impl.ctx request now cs,
    (evaluateDeadline c request now).outcome ≠ .violated →
    ∀ D, requestDeadline request now = some D → now.value ≤ D.value
  | .act (.authorizePlan _ plan) => ∀ p, n.impl.plans.find? plan.planId.value = some p →
    AuthorityCurrent p n.impl.ctx → p.state = .planned → p.deadline.outcome = .violated →
    ∀ D ∈ deadlines n.log plan.planId.value p, now.value ≤ D.value
  | .act (.registerWorker w boot) =>
    n.impl.Revives (Timely n.log now) (n.impl.ctx.registerWorker w boot)
  | .loadState disk => n.impl.Revives (Timely n.log now) (n.impl.loadState disk).2.ctx
  | _ => True

end Node

namespace Watch

def construct (hasStore : Bool) (t : Timestamp) : Watch := ⟨.construct hasStore,t⟩

def call (std : StdSort) (w : Watch) (c : TimedCall) : Watch := ⟨w.node.call std c.call,c.now⟩

/-- The clock does not pass a deadline of an armed plan whose fence is current, and no plan is
armed after a deadline it has to meet. -/
structure Heeds (w : Watch) (c : TimedCall) : Prop where
  clock : w.clock.value < c.now.value → w.node.impl.AllCurrent (Timely w.node.log c.now)
  arms : w.node.ArmsInTime c.now c.call

def OnTime (w : Watch) : Prop := w.node.impl.AllCurrent (Timely w.node.log w.clock)

theorem Heeds.moved {w : Watch} {c : TimedCall} (h : w.Heeds c) (hw : w.OnTime) :
    w.node.impl.AllCurrent (Timely w.node.log c.now) := by
  by_cases hlt : w.clock.value < c.now.value
  · exact h.clock hlt
  · -- The clock stands still or goes back.
    have hle := Int64.not_lt.mp hlt
    exact hw.congr fun k p hp ha D hD => Int64.le_trans hle (hp ha D hD)

end Watch

end RecoveryPlanner
