import Mathlib.Algebra.Order.BigOperators.Group.Finset
import RecoveryPlanner.Session
set_option autoImplicit false

/-! How often plans can change their state. A plan starts with four changes to spend, and no
step gives one back. -/

namespace RecoveryPlanner

/-- How many changes the transition table leaves to a plan in this state, at most. -/
def PlanLifecycleState.remaining : PlanLifecycleState → Nat
  | .requested => 6
  | .evaluating => 5
  | .planned => 4
  | .authorized => 3
  | .dispatched => 2
  | .executing => 1
  | .succeeded | .failed | .cancelled | .expired | .invalidated | .superseded | .undeclared _ => 0

theorem remaining_lt {a b : PlanLifecycleState} (h : validatePlanTransition a b = true)
    (hne : b ≠ a) : b.remaining < a.remaining := by
  revert h hne
  cases a <;> cases b <;>
    simp [validatePlanTransition,PlanLifecycleState.terminal,PlanLifecycleState.remaining]

namespace Session

def state? (s : Session) (k : UInt64) : Option PlanLifecycleState :=
  (s.plan? k).map RecoveryPlan.state

/-- Whether the plan with this id changed its state. -/
def movedAt (s s' : Session) (k : UInt64) : Nat :=
  match s.state? k,s'.state? k with
  | some a,some b => if b = a then 0 else 1
  | _,_ => 0

def remainingAt (s : Session) (k : UInt64) : Nat :=
  match s.state? k with
  | some a => a.remaining
  | none => 0

/-- What the creation of a plan is worth. -/
def grantAt (s s' : Session) (k : UInt64) : Nat :=
  if k = s.node.impl.nextPlanId then 4*(createdCount s'.node.log-createdCount s.node.log) else 0

theorem state?_none {s : Session} {k : UInt64} (h : s.plan? k = none) : s.state? k = none := by
  rw [state?,h]
  rfl

theorem state?_some {s : Session} {k : UInt64} {p : RecoveryPlan} (h : s.plan? k = some p) :
    s.state? k = some p.state := by
  rw [state?,h]
  rfl

theorem grantAt_new {s s' : Session} {k : UInt64} (h : Change s s' k) (hk : s.plan? k = none)
    {p' : RecoveryPlan} (hp' : s'.plan? k = some p') : grantAt s s' k = 4 := by
  cases h with
  | act h =>
    cases h with
    | same plan life => exact absurd (hp'.symm.trans (plan.trans hk)) (by simp)
    | created fresh key plan log => rw [grantAt,if_pos key,log,createdCount_created]; omega
    | evolved before h plan life => exact absurd (before.symm.trans hk) (by simp)
    | handedOff before hs hcur plan life => exact absurd (before.symm.trans hk) (by simp)
  | restart log plan =>
    obtain ⟨p,hp,_⟩ := plan p' hp'
    exact absurd (hp.symm.trans hk) (by simp)

/-- One plan in one step. -/
theorem step_pays (std : StdSort) {s : Session} {op : Op} (hop : Within std s op) (h : s.Inv)
    (k : UInt64) :
    movedAt s (s.step std op) k + remainingAt (s.step std op) k ≤
      remainingAt s k + grantAt s (s.step std op) k := by
  have hlegal := step_legal std hop.1 h hop.2
  unfold movedAt remainingAt
  cases hp' : (s.step std op).plan? k with
  | none =>
    rw [state?_none hp']
    cases s.state? k <;> exact Nat.zero_le _
  | some p' =>
    rw [state?_some hp']
    cases hp : s.plan? k with
    | none =>
      have hgrant := grantAt_new (step_change std hop.1 h.kept.plansSound k) hp hp'
      rw [state?_none hp,hgrant,hlegal.starts k p' hp hp']
      exact Nat.le_refl 4
    | some p =>
      rw [state?_some hp]
      dsimp only
      split
      · rename_i heq
        rw [heq]
        omega
      · rename_i hne
        have hlt := remaining_lt (hlegal.edges k p p' hp hp' hne) hne
        omega

section Ids

variable (ids : Finset UInt64)

def moves (std : StdSort) (s : Session) (op : Op) : Nat :=
  ∑ k ∈ ids, movedAt s (s.step std op) k

def remaining (s : Session) : Nat := ∑ k ∈ ids, remainingAt s k

theorem grants_le (std : StdSort) (s : Session) (op : Op) :
    ∑ k ∈ ids, grantAt s (s.step std op) k ≤
      4*(createdCount (s.step std op).node.log-createdCount s.node.log) := by
  unfold grantAt
  rw [Finset.sum_ite_eq']
  split
  · exact Nat.le_refl _
  · exact Nat.zero_le _

theorem step_moves (std : StdSort) {s : Session} {op : Op} (hop : Within std s op) (h : s.Inv) :
    moves ids std s op + remaining ids (s.step std op) + 4*createdCount s.node.log ≤
      remaining ids s + 4*createdCount (s.step std op).node.log := by
  have hsum : moves ids std s op + remaining ids (s.step std op) ≤
      remaining ids s + ∑ k ∈ ids, grantAt s (s.step std op) k := by
    unfold moves remaining
    rw [← Finset.sum_add_distrib,← Finset.sum_add_distrib]
    exact Finset.sum_le_sum fun k _ => step_pays std hop h k
  have hgrants := grants_le ids std s op
  have hle := step_count_le std s op
  omega

/-- The plans of a run change their state at most four times for each plan that is created, and
what they could still do counts towards it. -/
theorem run_moves (std : StdSort) (hasStore : Bool) (ops : List Op)
    (h : Along (Within std) (step std) (construct hasStore) ops) :
    let s := run (step std) (construct hasStore) ops
    spent (moves ids std) (step std) (construct hasStore) ops + remaining ids s ≤
      4*createdCount s.node.log := by
  intro s
  have hrun : spent (moves ids std) (step std) (construct hasStore) ops + remaining ids s +
      4*createdCount (construct hasStore).node.log ≤
      remaining ids (construct hasStore) + 4*createdCount s.node.log :=
    h.spent_le (I := Inv) (construct_inv hasStore) (fun _ _ hop hs => step_inv std hop.1 hs)
      (fun _ _ hop hs => step_moves ids std hop hs)
  have hnone : remaining ids (construct hasStore) = 0 := Finset.sum_eq_zero fun _ _ => rfl
  have hzero : createdCount (construct hasStore).node.log = 0 := rfl
  omega

end Ids

theorem run_moves_steady :
    Along (Within .insertion) (step .insertion) (construct true) steadyRun ∧
    let s := run (step .insertion) (construct true) steadyRun
    spent (moves {1} .insertion) (step .insertion) (construct true) steadyRun +
      remaining {1} s ≤ 4*createdCount s.node.log := by
  have h : Along (Within .insertion) (step .insertion) (construct true) steadyRun := by
    refine ⟨⟨⟨nofun,nofun⟩,by decide +kernel⟩,⟨⟨nofun,nofun⟩,by decide +kernel⟩,
      ⟨⟨nofun,nofun⟩,by decide +kernel⟩,⟨⟨nofun,nofun⟩,by decide +kernel⟩,
      ⟨⟨nofun,?_⟩,by decide +kernel⟩,trivial⟩
    intro clock _ _
    exact by decide +kernel
  exact ⟨h,run_moves {1} .insertion true steadyRun h⟩

end Session

end RecoveryPlanner
