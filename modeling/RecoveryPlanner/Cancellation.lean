import RecoveryPlanner.RoundTrip
set_option autoImplicit false

/-! What `cancel_plan` promises, and the plans it does not keep the promise for: the guards
let a forced cancellation of a dispatched plan through, the transition table does not. -/

namespace RecoveryPlanner

/-- What may be cancelled: a plan that has not been handed over, or under force one whose
outcome has not been published. -/
def RecoveryPlan.Cancellable (p : RecoveryPlan) (force : Bool) : Prop :=
  p.state = .planned ∨ p.state = .authorized ∨
    (force = true ∧ p.state.inFlight = true ∧ p.outcomePublished = false)

/-- The plans the guards and the transition table disagree about, and the two early states,
which come from snapshots only: the table lets them go. -/
def RecoveryPlan.Misjudged (p : RecoveryPlan) (force : Bool) : Prop :=
  (force = true ∧ p.state.inFlight = true ∧ p.outcomePublished = false) ∨
    p.state = .requested ∨ p.state = .evaluating

instance (p : RecoveryPlan) (force : Bool) : Decidable (p.Misjudged force) :=
  inferInstanceAs (Decidable (_ ∨ _))

namespace Impl

/-- The call returns `true` exactly for a plan that may be cancelled; then that plan becomes
CANCELLED and nothing else changes, and otherwise nothing changes at all. -/
structure CancelExact (im : Impl) (now : Timestamp) (planId : RecoveryPlanId) (force : Bool) :
    Prop where
  accepts : (im.cancelPlan now planId force).1 = true ↔
    ∃ p, im.plans.find? planId.value = some p ∧ p.Cancellable force
  cancels : (im.cancelPlan now planId force).1 = true →
    ∃ p, im.plans.find? planId.value = some p ∧
      (im.cancelPlan now planId force).2 = im.putPlan planId.value
        { p with state := .cancelled, executionOutcome := .cancelled, updatedAt := now }
  refuses : (im.cancelPlan now planId force).1 = false → (im.cancelPlan now planId force).2 = im

/-- The guards never matter: what they stop, the table stops too. -/
theorem cancelPlan_eq (im : Impl) (now : Timestamp) (planId : RecoveryPlanId) (force : Bool) :
    im.cancelPlan now planId force =
      match im.plans.find? planId.value with
      | none => (false,im)
      | some p =>
        if validatePlanTransition p.state .cancelled then
          (true,im.putPlan planId.value
            { p with state := .cancelled, executionOutcome := .cancelled, updatedAt := now })
        else (false,im) := by
  unfold cancelPlan
  cases im.plans.find? planId.value with
  | none => rfl
  | some p =>
    dsimp only
    cases hv : validatePlanTransition p.state .cancelled with
    | false => simp
    | true =>
      have hs : p.state ≠ .succeeded ∧ p.state.inFlight = false := by
        rcases validate_cancelled.mp hv with h | h | h | h <;> rw [h] <;> decide
      simp [hs]

theorem cancelPlan_true_iff (im : Impl) (now : Timestamp) (planId : RecoveryPlanId)
    (force : Bool) : (im.cancelPlan now planId force).1 = true ↔
      ∃ p, im.plans.find? planId.value = some p ∧
        validatePlanTransition p.state .cancelled = true := by
  rw [cancelPlan_eq]
  cases im.plans.find? planId.value with
  | none => simp
  | some p =>
    by_cases hv : validatePlanTransition p.state .cancelled = true <;> simp [hv]

theorem cancelPlan_exact_iff (im : Impl) (now : Timestamp) (planId : RecoveryPlanId)
    (force : Bool) : im.CancelExact now planId force ↔
      ∀ p, im.plans.find? planId.value = some p → ¬ p.Misjudged force := by
  have hiff := im.cancelPlan_true_iff now planId force
  constructor
  · intro h p hp hm
    have hsame : validatePlanTransition p.state .cancelled = true ↔ p.Cancellable force := by
      have hboth := hiff.symm.trans h.accepts
      simpa [hp] using hboth
    rw [validate_cancelled] at hsame
    rcases hm with hforced | hearly
    · have hfour := hsame.mpr (.inr (.inr hforced))
      rcases hfour with hs | hs | hs | hs <;> simp [hs,PlanLifecycleState.inFlight] at hforced
    · have hno := hsame.mp (hearly.elim .inl fun hs => .inr (.inl hs))
      rcases hearly with hs | hs <;>
        simp [RecoveryPlan.Cancellable,hs,PlanLifecycleState.inFlight] at hno
  · intro h
    refine ⟨?_,?_,?_⟩
    · rw [hiff]
      refine exists_congr fun p => and_congr_right fun hp => ?_
      have hm := h p hp
      rw [validate_cancelled,RecoveryPlan.Cancellable]
      simp only [RecoveryPlan.Misjudged,not_or] at hm
      simp [hm]
    · intro htrue
      obtain ⟨p,hp,hv⟩ := hiff.mp htrue
      exact ⟨p,hp,by simp [cancelPlan_eq,hp,hv]⟩
    · intro hfalse
      rw [cancelPlan_eq] at hfalse ⊢
      cases hp : im.plans.find? planId.value with
      | none => rfl
      | some p =>
        rw [hp] at hfalse
        by_cases hv : validatePlanTransition p.state .cancelled = true
        · simp [hv] at hfalse
        · simp [hv]

end Impl

namespace Node

/-- In every state of every run the promise is kept exactly for the plans that the guards and
the table judge alike, and for all calls exactly when there are no others. -/
theorem run_cancel_iff (std : StdSort) (hasStore : Bool) (calls : List Call) :
    (∀ (now : Timestamp) (planId : RecoveryPlanId) (force : Bool),
      (run (call std) (construct hasStore) calls).impl.CancelExact now planId force ↔
        ∀ p, (run (call std) (construct hasStore) calls).impl.plans.find? planId.value = some p →
          ¬ p.Misjudged force) ∧
    ((∀ now planId force,
      (run (call std) (construct hasStore) calls).impl.CancelExact now planId force) ↔
      ∀ k p, (run (call std) (construct hasStore) calls).impl.plans.find? k = some p →
        ¬ p.Misjudged true) := by
  refine ⟨Impl.cancelPlan_exact_iff _,?_⟩
  simp only [Impl.cancelPlan_exact_iff]
  constructor
  · exact fun h k p hp => h default ⟨k⟩ true p hp
  · intro h _ planId force p hp hm
    refine h planId.value p hp ?_
    exact hm.imp (fun hf => ⟨rfl,hf.2⟩) id

def executingCalls : List Call :=
  [.act (.registerWorker ⟨1⟩ ⟨1⟩),.act (.plan ⟨0⟩ (Session.requestNo 1) [Session.readyCandidate]),
   .act (.authorizePlan ⟨1⟩ { planId := ⟨1⟩ }),.act (.dispatchBegin ⟨2⟩ { planId := ⟨1⟩ }),
   .act (.dispatchEnd ⟨3⟩ 0 .dispatched)]

theorem forced_cancel_refused :
    (∃ p, (run (call .insertion) (construct true) executingCalls).impl.plans.find? 1 = some p ∧
      p.state = .executing ∧ p.outcomePublished = false) ∧
    ((run (call .insertion) (construct true) executingCalls).impl.cancelPlan ⟨4⟩ ⟨1⟩ true).1 =
      false ∧
    ¬ (run (call .insertion) (construct true) executingCalls).impl.CancelExact ⟨4⟩ ⟨1⟩ true := by
  have hplan : ((run (call .insertion) (construct true) executingCalls).impl.plans.find? 1).map
      (fun p => (p.state,p.outcomePublished)) = some (.executing,false) := by decide +kernel
  obtain ⟨p,hp,hstate⟩ := Option.map_eq_some_iff.mp hplan
  obtain ⟨hs,hpub⟩ := Prod.mk.inj hstate
  refine ⟨⟨p,hp,hs,hpub⟩,by decide +kernel,fun h => ?_⟩
  refine (Impl.cancelPlan_exact_iff _ _ _ _).mp h p hp (.inl ⟨rfl,?_,hpub⟩)
  rw [hs]
  rfl

end Node

end RecoveryPlanner
