import RecoveryPlanner.Objectives
set_option autoImplicit false

/-! Whether the deadline evaluation is exact, and what `plan` says about a missed deadline. -/

namespace RecoveryPlanner

/-- A plain signed operation, undefined where its result leaves the int64 range. -/
def signed (x : Int) : Option Int64 :=
  if int64Min ≤ x ∧ x ≤ int64Max then some (.ofInt x) else none

theorem signed_isSome (x : Int) : (signed x).isSome = true ↔ int64Min ≤ x ∧ x ≤ int64Max := by
  unfold signed
  split <;> simp_all

theorem signed_eq {x : Int} (h : int64Min ≤ x ∧ x ≤ int64Max) : signed x = some (.ofInt x) :=
  if_pos h

theorem toInt_ofInt {x : Int} (h : int64Min ≤ x ∧ x ≤ int64Max) : (Int64.ofInt x).toInt = x := by
  rw [int64Min,int64Max] at h
  exact Int64.toInt_ofInt_of_le (by omega) (by omega)

theorem ofInt_lt {x : Int} (h : int64Min ≤ x ∧ x ≤ int64Max) (a : Int64) :
    Int64.ofInt x < a ↔ x < a.toInt := by
  rw [Int64.lt_iff_toInt_lt,toInt_ofInt h]

theorem lt_ofInt {x : Int} (h : int64Min ≤ x ∧ x ≤ int64Max) (a : Int64) :
    a < Int64.ofInt x ↔ a.toInt < x := by
  rw [Int64.lt_iff_toInt_lt,toInt_ofInt h]

theorem toInt_range (a : Int64) : int64Min ≤ a.toInt ∧ a.toInt ≤ int64Max := by
  have ha := a.toInt_lt
  have ha' := a.le_toInt
  rw [int64Min,int64Max]
  omega

/-- `sat_add` with every signed operation it performs checked. -/
def satAddChecked (a b : Int64) : Option Int64 :=
  if 0 < b then
    (signed (int64Max-b.toInt)).bind fun room =>
      if room < a then some (.ofInt int64Max) else signed (a.toInt+b.toInt)
  else if b < 0 then
    (signed (int64Min-b.toInt)).bind fun room =>
      if a < room then some (.ofInt int64Min) else signed (a.toInt+b.toInt)
  else signed (a.toInt+b.toInt)

def satSubChecked (a b : Int64) : Option Int64 :=
  if 0 < b then
    (signed (int64Min+b.toInt)).bind fun room =>
      if a < room then some (.ofInt int64Min) else signed (a.toInt-b.toInt)
  else if b < 0 then
    (signed (int64Max+b.toInt)).bind fun room =>
      if room < a then some (.ofInt int64Max) else signed (a.toInt-b.toInt)
  else signed (a.toInt-b.toInt)

def requestDeadlineChecked (request : RecoveryRequest) (now : Timestamp) :
    Option (Option Timestamp) :=
  match request.recoveryDeadline,request.maxRecoveryDuration with
  | some d,_ => some (some d)
  | none,some d => (signed (now.value.toInt+d.value.toInt)).map fun t => some ⟨t⟩
  | none,none => some none

def evaluateDeadlineChecked (c : RecoveryCandidate) (request : RecoveryRequest)
    (now : Timestamp) : Option DeadlineEvaluation := do
  match ← requestDeadlineChecked request now with
  | none => some { outcome := .noDeadline }
  | some deadline =>
    match c.cost.bind CostEvidence.expectedTime with
    | none => some { deadline := some deadline, outcome := .unknown }
    | some expected =>
      let exp := if expected.value < 0 then 0 else expected.value
      let comp ← satAddChecked now.value exp
      let dl := if deadline.value < now.value then now.value else deadline.value
      let slack ← satSubChecked dl comp
      some
        { deadline := some deadline
          expectedCompletion := some ⟨comp⟩
          slack := some ⟨slack⟩
          outcome := if 0 ≤ slack then .hardFeasible else .violated }

theorem ofInt_add (a b : Int64) : Int64.ofInt (a.toInt+b.toInt) = a+b := by
  rw [Int64.ofInt_add,Int64.ofInt_toInt,Int64.ofInt_toInt]

theorem ofInt_sub (a b : Int64) : Int64.ofInt (a.toInt-b.toInt) = a-b := by
  rw [Int64.ofInt_sub,Int64.ofInt_toInt,Int64.ofInt_toInt]

theorem guard_above {room result : Int} (a : Int64)
    (hroom : int64Min ≤ room ∧ room ≤ int64Max)
    (hresult : a.toInt ≤ room → int64Min ≤ result ∧ result ≤ int64Max) :
    ((signed room).bind fun r => if r < a then some (.ofInt int64Max) else signed result) =
      some (if room < a.toInt then .ofInt int64Max else .ofInt result) := by
  simp only [signed_eq hroom,Option.bind_some,ofInt_lt hroom]
  by_cases h : room < a.toInt
  · rw [if_pos h,if_pos h]
  · rw [if_neg h,if_neg h,signed_eq (hresult (Int.not_lt.mp h))]

theorem guard_below {room result : Int} (a : Int64)
    (hroom : int64Min ≤ room ∧ room ≤ int64Max)
    (hresult : room ≤ a.toInt → int64Min ≤ result ∧ result ≤ int64Max) :
    ((signed room).bind fun r => if a < r then some (.ofInt int64Min) else signed result) =
      some (if a.toInt < room then .ofInt int64Min else .ofInt result) := by
  simp only [signed_eq hroom,Option.bind_some,lt_ofInt hroom]
  by_cases h : a.toInt < room
  · rw [if_pos h,if_pos h]
  · rw [if_neg h,if_neg h,signed_eq (hresult (Int.not_lt.mp h))]

theorem satAddChecked_eq (a b : Int64) : satAddChecked a b = some (satAdd a b) := by
  have ha := toInt_range a
  have hb := toInt_range b
  have hpos : 0 < b ↔ 0 < b.toInt := Int64.lt_iff_toInt_lt
  have hneg : b < 0 ↔ b.toInt < 0 := Int64.lt_iff_toInt_lt
  unfold satAddChecked
  rw [satAdd_eq,← ofInt_add]
  simp only [hpos,hneg]
  rw [int64Min,int64Max] at ha hb
  rcases lt_trichotomy b.toInt 0 with hn | hz | hp
  · have hp : ¬ 0 < b.toInt := by omega
    simp only [hp,hn,false_and,true_and,if_false,if_true]
    exact guard_below a (by rw [int64Min,int64Max]; omega) (by rw [int64Min,int64Max]; omega)
  · simp only [hz,lt_irrefl,false_and,if_false]
    exact signed_eq (by rw [int64Min,int64Max]; omega)
  · have hn : ¬ b.toInt < 0 := by omega
    simp only [hp,hn,false_and,true_and,if_false,if_true]
    exact guard_above a (by rw [int64Min,int64Max]; omega) (by rw [int64Min,int64Max]; omega)

theorem satSubChecked_eq (a b : Int64) : satSubChecked a b = some (satSub a b) := by
  have ha := toInt_range a
  have hb := toInt_range b
  have hpos : 0 < b ↔ 0 < b.toInt := Int64.lt_iff_toInt_lt
  have hneg : b < 0 ↔ b.toInt < 0 := Int64.lt_iff_toInt_lt
  unfold satSubChecked
  rw [satSub_eq,← ofInt_sub]
  simp only [hpos,hneg]
  rw [int64Min,int64Max] at ha hb
  rcases lt_trichotomy b.toInt 0 with hn | hz | hp
  · have hp : ¬ 0 < b.toInt := by omega
    simp only [hp,hn,false_and,true_and,if_false,if_true]
    exact guard_above a (by rw [int64Min,int64Max]; omega) (by rw [int64Min,int64Max]; omega)
  · simp only [hz,lt_irrefl,false_and,if_false]
    exact signed_eq (by rw [int64Min,int64Max]; omega)
  · have hn : ¬ b.toInt < 0 := by omega
    simp only [hp,hn,false_and,true_and,if_false,if_true]
    exact guard_below a (by rw [int64Min,int64Max]; omega) (by rw [int64Min,int64Max]; omega)

def unboundedDeadline (request : RecoveryRequest) (now : Timestamp) : Option Int :=
  match request.recoveryDeadline,request.maxRecoveryDuration with
  | some d,_ => some d.value.toInt
  | none,some d => some (now.value.toInt+d.value.toInt)
  | none,none => none

def DeadlineInRange (request : RecoveryRequest) (now : Timestamp) : Prop :=
  ∀ D, unboundedDeadline request now = some D → int64Min ≤ D ∧ D ≤ int64Max

theorem requestDeadlineChecked_isSome (request : RecoveryRequest) (now : Timestamp) :
    (requestDeadlineChecked request now).isSome = true ↔ DeadlineInRange request now := by
  unfold requestDeadlineChecked DeadlineInRange unboundedDeadline
  cases request.recoveryDeadline with
  | some d => simpa using toInt_range d.value
  | none =>
    cases request.maxRecoveryDuration with
    | none => simp
    | some d => simp [signed_isSome]

theorem requestDeadlineChecked_eq {request : RecoveryRequest} {now : Timestamp}
    (h : DeadlineInRange request now) :
    requestDeadlineChecked request now = some (requestDeadline request now) := by
  unfold requestDeadlineChecked requestDeadline
  unfold DeadlineInRange unboundedDeadline at h
  cases hd : request.recoveryDeadline with
  | some d => rfl
  | none =>
    cases hm : request.maxRecoveryDuration with
    | none => rfl
    | some d =>
      rw [hd,hm] at h
      simp only
      rw [signed_eq (h _ rfl),Option.map_some,ofInt_add]

/-- The addition that forms a relative deadline is the only operation that can overflow. -/
theorem evaluateDeadlineChecked_eq {request : RecoveryRequest} {now : Timestamp}
    (h : DeadlineInRange request now) (c : RecoveryCandidate) :
    evaluateDeadlineChecked c request now = some (evaluateDeadline c request now) := by
  unfold evaluateDeadlineChecked evaluateDeadline
  rw [requestDeadlineChecked_eq h]
  cases requestDeadline request now with
  | none => rfl
  | some D =>
    cases c.cost.bind CostEvidence.expectedTime with
    | none => rfl
    | some e => simp [satAddChecked_eq,satSubChecked_eq]

theorem evaluateDeadlineChecked_isSome (c : RecoveryCandidate) (request : RecoveryRequest)
    (now : Timestamp) :
    (evaluateDeadlineChecked c request now).isSome = true ↔ DeadlineInRange request now := by
  constructor
  · intro h
    rw [← requestDeadlineChecked_isSome]
    unfold evaluateDeadlineChecked at h
    cases hr : requestDeadlineChecked request now with
    | none =>
      rw [hr] at h
      exact absurd h (by simp)
    | some D => rfl
  · intro h
    rw [evaluateDeadlineChecked_eq h]
    rfl

theorem toInt_requestDeadline {request : RecoveryRequest} {now : Timestamp}
    (h : DeadlineInRange request now) :
    (requestDeadline request now).map (fun D => D.value.toInt) = unboundedDeadline request now := by
  unfold DeadlineInRange unboundedDeadline at h
  unfold requestDeadline unboundedDeadline
  cases hd : request.recoveryDeadline with
  | some d => rfl
  | none =>
    cases hm : request.maxRecoveryDuration with
    | none => rfl
    | some d =>
      rw [hd,hm] at h
      simp only [Option.map_some]
      rw [← ofInt_add,toInt_ofInt (h _ rfl)]

theorem exists_requestDeadline {request : RecoveryRequest} {now : Timestamp} {D : Int}
    (h : DeadlineInRange request now) (hD : unboundedDeadline request now = some D) :
    ∃ d, requestDeadline request now = some d ∧ d.value.toInt = D := by
  rw [← toInt_requestDeadline h] at hD
  exact Option.map_eq_some_iff.mp hD

theorem toInt_spent (e : Duration) : (spent e).toInt = max e.value.toInt 0 := by
  have h0 : (0 : Int64).toInt = 0 := rfl
  unfold spent
  simp only [Int64.lt_iff_toInt_lt,h0]
  split
  · rw [h0]
    omega
  · omega

theorem hardFeasible_clamped_iff {c : RecoveryCandidate} {request : RecoveryRequest}
    {now : Timestamp} {D : Int} (h : DeadlineInRange request now)
    (hD : unboundedDeadline request now = some D) :
    (evaluateDeadline c request now).outcome = .hardFeasible ↔
      ∃ e, c.cost.bind CostEvidence.expectedTime = some e ∧
        min (now.value.toInt+max e.value.toInt 0) int64Max ≤ max D now.value.toInt := by
  obtain ⟨d,hd,rfl⟩ := exists_requestDeadline h hD
  rw [hardFeasible_iff hd]
  refine exists_congr fun e => and_congr_right fun _ => ?_
  rw [Int64.le_iff_toInt_le,satAdd_toInt (spent_nonneg e),toInt_spent]
  simp only [Int64.lt_iff_toInt_lt]
  split <;> omega

theorem violated_iff {c : RecoveryCandidate} {request : RecoveryRequest} {now D : Timestamp}
    (hD : requestDeadline request now = some D) :
    (evaluateDeadline c request now).outcome = .violated ↔
      (c.cost.bind CostEvidence.expectedTime).isSome = true ∧
        (evaluateDeadline c request now).outcome ≠ .hardFeasible := by
  cases he : c.cost.bind CostEvidence.expectedTime with
  | none =>
    unfold evaluateDeadline
    rw [hD,he]
    simp
  | some e =>
    rw [evaluateDeadline_known hD he]
    dsimp only
    split <;> simp

/-- The evaluation is what the arithmetic says, over unbounded integers. -/
structure DeadlineExact (c : RecoveryCandidate) (request : RecoveryRequest) (now : Timestamp) :
    Prop where
  noOverflow : (evaluateDeadlineChecked c request now).isSome = true
  met : ∀ D, unboundedDeadline request now = some D →
    ((evaluateDeadline c request now).outcome = .hardFeasible ↔
      ∃ e, c.cost.bind CostEvidence.expectedTime = some e ∧
        now.value.toInt+max e.value.toInt 0 ≤ D)
  missed : ∀ D e, unboundedDeadline request now = some D →
    c.cost.bind CostEvidence.expectedTime = some e →
    ¬ now.value.toInt+max e.value.toInt 0 ≤ D → (evaluateDeadline c request now).outcome = .violated
  past : ∀ D e, unboundedDeadline request now = some D →
    c.cost.bind CostEvidence.expectedTime = some e → D < now.value.toInt →
    (evaluateDeadline c request now).outcome = .violated

/-- Neither clamp takes part in the comparison. -/
structure DeadlineUnclamped (c : RecoveryCandidate) (request : RecoveryRequest)
    (now : Timestamp) : Prop where
  inRange : DeadlineInRange request now
  past : ∀ D e, unboundedDeadline request now = some D →
    c.cost.bind CostEvidence.expectedTime = some e → D < now.value.toInt →
    0 < e.value.toInt ∧ now.value.toInt < int64Max
  last : ∀ e, unboundedDeadline request now = some int64Max →
    c.cost.bind CostEvidence.expectedTime = some e →
    now.value.toInt+max e.value.toInt 0 ≤ int64Max

section Exact

variable {c : RecoveryCandidate} {request : RecoveryRequest} {now : Timestamp}

theorem DeadlineExact.unclamped (h : DeadlineExact c request now) :
    DeadlineUnclamped c request now := by
  have hnow := toInt_range now.value
  have hr := (evaluateDeadlineChecked_isSome c request now).mp h.noOverflow
  refine ⟨hr,fun D e hD he hlt => ?_,fun e hD he => ?_⟩
  · obtain ⟨d,hd,_⟩ := exists_requestDeadline hr hD
    have hv := ((violated_iff hd).mp (h.past D e hD he hlt)).2
    rw [Ne,hardFeasible_clamped_iff hr hD] at hv
    by_contra hno
    refine hv ⟨e,he,?_⟩
    omega
  · obtain ⟨e',he',hle⟩ := (h.met int64Max hD).mp
      ((hardFeasible_clamped_iff hr hD).mpr ⟨e,he,by omega⟩)
    obtain rfl := Option.some.inj (he.symm.trans he')
    exact hle

theorem DeadlineUnclamped.met (h : DeadlineUnclamped c request now) {D : Int}
    (hD : unboundedDeadline request now = some D) :
    (evaluateDeadline c request now).outcome = .hardFeasible ↔
      ∃ e, c.cost.bind CostEvidence.expectedTime = some e ∧
        now.value.toInt+max e.value.toInt 0 ≤ D := by
  have hnow := toInt_range now.value
  rw [hardFeasible_clamped_iff h.inRange hD]
  refine exists_congr fun e => and_congr_right fun he => ?_
  have hrange := h.inRange D hD
  have hpast := h.past D e hD he
  by_cases hlast : D = int64Max
  · have hle := h.last e (hlast ▸ hD) he
    omega
  · omega

theorem DeadlineUnclamped.missed (h : DeadlineUnclamped c request now) {D : Int} {e : Duration}
    (hD : unboundedDeadline request now = some D)
    (he : c.cost.bind CostEvidence.expectedTime = some e)
    (hno : ¬ now.value.toInt+max e.value.toInt 0 ≤ D) :
    (evaluateDeadline c request now).outcome = .violated := by
  obtain ⟨d,hd,_⟩ := exists_requestDeadline h.inRange hD
  refine (violated_iff hd).mpr ⟨by rw [he]; rfl,fun hf => ?_⟩
  obtain ⟨e',he',hle⟩ := (h.met hD).mp hf
  obtain rfl := Option.some.inj (he.symm.trans he')
  exact hno hle

theorem DeadlineUnclamped.exact (h : DeadlineUnclamped c request now) :
    DeadlineExact c request now :=
  ⟨(evaluateDeadlineChecked_isSome c request now).mpr h.inRange,fun _ hD => h.met hD,
    fun _ _ hD he => h.missed hD he,fun _ _ hD he hlt => h.missed hD he (by omega)⟩

theorem past_violated_iff (hr : DeadlineInRange request now) {D : Int}
    (hD : unboundedDeadline request now = some D) (hlt : D < now.value.toInt) :
    (evaluateDeadline c request now).outcome = .violated ↔
      ∃ e, c.cost.bind CostEvidence.expectedTime = some e ∧ 0 < e.value.toInt ∧
        now.value.toInt < int64Max := by
  have hnow := toInt_range now.value
  obtain ⟨d,hd,_⟩ := exists_requestDeadline hr hD
  rw [violated_iff hd,Ne,hardFeasible_clamped_iff hr hD]
  cases he : c.cost.bind CostEvidence.expectedTime with
  | none => simp
  | some e =>
    simp only [Option.isSome_some,Option.some.injEq,exists_eq_left',true_and]
    omega

end Exact

/-- The deadline evaluation is exact unless the deadline itself overflows, is already past for a
candidate that takes no time, or is the last instant; a past deadline is VIOLATED exactly for
the candidates that are known to take time, short of the last instant. -/
theorem deadline_exact_iff (c : RecoveryCandidate) (request : RecoveryRequest)
    (now : Timestamp) :
    (DeadlineExact c request now ↔ DeadlineUnclamped c request now) ∧
    (DeadlineInRange request now → ∀ D, unboundedDeadline request now = some D →
      D < now.value.toInt → ((evaluateDeadline c request now).outcome = .violated ↔
        ∃ e, c.cost.bind CostEvidence.expectedTime = some e ∧ 0 < e.value.toInt ∧
          now.value.toInt < int64Max)) :=
  ⟨⟨DeadlineExact.unclamped,DeadlineUnclamped.exact⟩,fun hr _ hD hlt => past_violated_iff hr hD hlt⟩

def candidateTaking (time : Int64) : RecoveryCandidate :=
  { Session.readyCandidate with cost := some { expectedTime := some ⟨time⟩ } }

def requestWithin (duration : Int64) : RecoveryRequest :=
  { Session.requestNo 1 with maxRecoveryDuration := some ⟨duration⟩ }

/-- A duration meant as no limit, a deadline five ticks ago and no time at all, and a completion
beyond the last instant. -/
theorem deadline_inexact :
    ¬ DeadlineExact (candidateTaking 1) (requestWithin (.ofInt int64Max)) ⟨1⟩ ∧
    ¬ DeadlineExact (candidateTaking 0) overdueRequest ⟨10⟩ ∧
    ¬ DeadlineExact (candidateTaking 1)
      { Session.requestNo 1 with recoveryDeadline := some ⟨.ofInt int64Max⟩ }
      ⟨.ofInt int64Max⟩ := by
  refine ⟨fun h => ?_,fun h => ?_,fun h => ?_⟩
  · exact absurd h.noOverflow (by decide)
  · exact absurd (h.past 5 ⟨0⟩ (by decide) rfl (by decide)) (by decide)
  · obtain ⟨e,he,hle⟩ := (h.met int64Max (by decide)).mp (by decide)
    obtain rfl : e = ⟨1⟩ := (Option.some.inj he).symm
    exact absurd hle (by decide)

theorem computeEconomics_time (c : RecoveryCandidate) (request : RecoveryRequest)
    (now : Timestamp) : (computeEconomics c request now).expectedTime =
      c.cost.bind CostEvidence.expectedTime := by
  unfold computeEconomics
  cases hc : c.cost with
  | none =>
    dsimp only
    split <;> rfl
  | some cost =>
    dsimp only
    split <;> rfl

theorem exists_requestDeadline_of_hard {request : RecoveryRequest}
    (h : request.hardDeadline = true) (now : Timestamp) :
    ∃ D, requestDeadline request now = some D := by
  unfold RecoveryRequest.hardDeadline at h
  unfold requestDeadline
  cases hd : request.recoveryDeadline with
  | some d => exact ⟨d,rfl⟩
  | none =>
    cases hm : request.maxRecoveryDuration with
    | some d => exact ⟨_,rfl⟩
    | none =>
      rw [hd,hm] at h
      exact absurd h (by decide)

def WithinTolerance (request : RecoveryRequest) (c : RecoveryCandidate) : Prop :=
  ∀ tol lost, request.maxToleratedProgressLoss = some tol →
    c.cost.bind CostEvidence.expectedLostProgress = some lost → lost.value ≤ tol.value

theorem withinTolerance_of_hard (request : RecoveryRequest) (now : Timestamp)
    (c : RecoveryCandidate) :
    (request.hardProgress = true →
      (computeEconomics c request now).progressLossWithinTolerance = true) ↔
      WithinTolerance request c := by
  unfold RecoveryRequest.hardProgress WithinTolerance
  cases ht : request.maxToleratedProgressLoss with
  | none => simp
  | some tol =>
    cases hl : c.cost.bind CostEvidence.expectedLostProgress with
    | none => simpa using withinTolerance_unknown request now hl
    | some lost => simpa using withinTolerance_iff ht hl

/-- A missed deadline is reported when there is one, and the plan returned then is said to miss
it. -/
structure LabelsDeadline (d : RecoveryDecision) (ctx : PlannerContext)
    (request : RecoveryRequest) (now : Timestamp) (cs : List RecoveryCandidate) : Prop where
  label : d.outcome = .noDeadlineFeasiblePlan ↔ request.hardDeadline = true ∧
    (∃ c ∈ cs, feasible ctx request c = true) ∧
    ∀ c ∈ cs, feasible ctx request c = true →
      (evaluateDeadline c request now).outcome ≠ .hardFeasible
  fallback : d.outcome = .noDeadlineFeasiblePlan →
    ∃ p, d.plan = some p ∧ p.deadline.outcome = .violated

/-- If the deadline can be met, then within the tolerance too; if not, the best fallback is
known to miss it. -/
structure DeadlineDecides (ctx : PlannerContext) (request : RecoveryRequest) (now : Timestamp)
    (cs : List RecoveryCandidate) : Prop where
  met : ∀ c ∈ cs, feasible ctx request c = true →
    (evaluateDeadline c request now).outcome = .hardFeasible →
    ∃ c' ∈ cs, feasible ctx request c' = true ∧
      (evaluateDeadline c' request now).outcome = .hardFeasible ∧ WithinTolerance request c'
  missed : (∀ c ∈ cs, feasible ctx request c = true →
      (evaluateDeadline c request now).outcome ≠ .hardFeasible) →
    ∀ c, IsFirst (precedes request now) (cs.filter (feasible ctx request)) c →
      (c.cost.bind CostEvidence.expectedTime).isSome = true

theorem eligible_hard_iff {ctx : PlannerContext} {request : RecoveryRequest} {now : Timestamp}
    (hh : request.hardDeadline = true) (c : RecoveryCandidate) :
    eligible ctx request now c = true ↔ feasible ctx request c = true ∧
      (evaluateDeadline c request now).outcome = .hardFeasible ∧ WithinTolerance request c := by
  rw [eligible_iff,withinTolerance_of_hard]
  simp [hh]

theorem Impl.plan_outcome_deadline_iff (std : StdSort) (im : Impl) (now : Timestamp)
    (request : RecoveryRequest) (cs : List RecoveryCandidate) :
    (im.plan std now request cs).1.outcome = .noDeadlineFeasiblePlan ↔
      request.hardDeadline = true ∧ cs.filter (RecoveryPlanner.feasible im.ctx request) ≠ [] ∧
        cs.filter (eligible im.ctx request now) = [] := by
  rw [im.plan_outcome]
  by_cases hE : cs.filter (eligible im.ctx request now) = []
  · rw [if_neg (not_not.mpr hE)]
    by_cases hF : cs.filter (RecoveryPlanner.feasible im.ctx request) = []
    · rw [if_neg (not_not.mpr hF)]
      split <;> simp [hF]
    · rw [if_pos hF]
      cases request.hardDeadline <;> simp [hE,hF]
  · rw [if_pos hE]
    simp [hE]

theorem eligible_nil_of_missed {ctx : PlannerContext} {now : Timestamp}
    {request : RecoveryRequest} {cs : List RecoveryCandidate} (hh : request.hardDeadline = true)
    (hmiss : ∀ c ∈ cs, feasible ctx request c = true →
      (evaluateDeadline c request now).outcome ≠ .hardFeasible) :
    cs.filter (eligible ctx request now) = [] := by
  refine List.filter_eq_nil_iff.mpr fun c hc he => ?_
  have he := (eligible_hard_iff hh c).mp he
  exact hmiss c hc he.1 he.2.1

section Labels

variable (std : StdSort) (im : Impl) (now : Timestamp) (request : RecoveryRequest)
  (cs : List RecoveryCandidate)

/-- The outcome is right when a deadline that is met is met within the tolerance. -/
theorem Impl.plan_label_iff :
    ((im.plan std now request cs).1.outcome = .noDeadlineFeasiblePlan ↔
      request.hardDeadline = true ∧ (∃ c ∈ cs, RecoveryPlanner.feasible im.ctx request c = true) ∧
      ∀ c ∈ cs, RecoveryPlanner.feasible im.ctx request c = true →
        (evaluateDeadline c request now).outcome ≠ .hardFeasible) ↔
    (request.hardDeadline = true → ∀ c ∈ cs, RecoveryPlanner.feasible im.ctx request c = true →
      (evaluateDeadline c request now).outcome = .hardFeasible →
      ∃ c' ∈ cs, RecoveryPlanner.feasible im.ctx request c' = true ∧
        (evaluateDeadline c' request now).outcome = .hardFeasible ∧
        WithinTolerance request c') := by
  have hfeas : cs.filter (RecoveryPlanner.feasible im.ctx request) ≠ [] ↔
      ∃ c ∈ cs, RecoveryPlanner.feasible im.ctx request c = true := by
    simp [List.filter_eq_nil_iff]
  rw [Impl.plan_outcome_deadline_iff,hfeas]
  constructor
  · intro h hh c hc hf hmet
    -- Without such a candidate the outcome would be NO_DEADLINE_FEASIBLE_PLAN.
    by_contra hno
    have hE : cs.filter (eligible im.ctx request now) = [] := by
      refine List.filter_eq_nil_iff.mpr fun c' hc' he => hno ⟨c',hc',?_⟩
      exact (eligible_hard_iff hh c').mp he
    exact (h.mp ⟨hh,⟨c,hc,hf⟩,hE⟩).2.2 c hc hf hmet
  · intro h
    refine and_congr_right fun hh => and_congr_right fun _ => ⟨fun hE c hc hf hmet => ?_,
      eligible_nil_of_missed hh⟩
    obtain ⟨c',hc',he⟩ := h hh c hc hf hmet
    exact List.filter_eq_nil_iff.mp hE c' hc' ((eligible_hard_iff hh c').mpr he)

theorem Impl.plan_missed
    (h : (im.plan std now request cs).1.outcome = .noDeadlineFeasiblePlan) :
    ∃ c, IsFirst (precedes request now) (cs.filter (RecoveryPlanner.feasible im.ctx request)) c ∧
      (im.plan std now request cs).1.plan = some (im.planFor request now c) := by
  obtain ⟨_,hF,hE⟩ := (im.plan_outcome_deadline_iff std now request cs).mp h
  exact ⟨_,best_isFirst std hF,(im.plan_fallback std now request cs hE hF).2.1⟩

end Labels

/-- The outcome is labelled exactly when the tolerance does not stand between a met deadline
and the candidates that meet it, and no fallback of unknown duration comes first. -/
theorem plan_labels_deadline_iff (std : StdSort) (im : Impl) (now : Timestamp)
    (request : RecoveryRequest) (cs : List RecoveryCandidate) :
    LabelsDeadline (im.plan std now request cs).1 im.ctx request now cs ↔
      (request.hardDeadline = true → DeadlineDecides im.ctx request now cs) := by
  constructor
  · intro h hh
    refine ⟨(im.plan_label_iff std now request cs).mp h.label hh,fun hmiss c hc => ?_⟩
    have ho : (im.plan std now request cs).1.outcome = .noDeadlineFeasiblePlan :=
      (im.plan_outcome_deadline_iff std now request cs).mpr
        ⟨hh,List.ne_nil_of_mem hc.mem,eligible_nil_of_missed hh hmiss⟩
    obtain ⟨p,hp,hv⟩ := h.fallback ho
    obtain ⟨c',hc',hp'⟩ := im.plan_missed std now request cs ho
    obtain rfl := Option.some.inj (hp'.symm.trans hp)
    obtain ⟨D,hD⟩ := exists_requestDeadline_of_hard hh now
    have htime := (sameKeys_of_isFirst hc hc').time
    rw [computeEconomics_time,computeEconomics_time] at htime
    rw [htime]
    exact ((violated_iff hD).mp hv).1
  · intro h
    have hlabel := (im.plan_label_iff std now request cs).mpr fun hh => (h hh).met
    refine ⟨hlabel,fun ho => ?_⟩
    obtain ⟨hh,_,hmiss⟩ := hlabel.mp ho
    obtain ⟨c,hc,hp⟩ := im.plan_missed std now request cs ho
    refine ⟨_,hp,?_⟩
    obtain ⟨hmem,hf⟩ := List.mem_filter.mp hc.mem
    obtain ⟨D,hD⟩ := exists_requestDeadline_of_hard hh now
    exact (violated_iff hD).mpr ⟨(h hh).missed hmiss c hc,hmiss c hmem hf⟩

/-- The deadline is met, but only by a candidate that loses too much; and a fallback that does
not say how long it takes. -/
theorem plan_mislabels_deadline :
    let im := (Impl.construct false).registerWorker ⟨1⟩ ⟨1⟩
    (∃ request cs, (im.plan .insertion ⟨0⟩ request cs).1.outcome = .noDeadlineFeasiblePlan ∧
      (∃ c ∈ cs, feasible im.ctx request c = true ∧
        (evaluateDeadline c request ⟨0⟩).outcome = .hardFeasible) ∧
      ¬ LabelsDeadline (im.plan .insertion ⟨0⟩ request cs).1 im.ctx request ⟨0⟩ cs) ∧
    ∃ request cs p, (im.plan .insertion ⟨0⟩ request cs).1.outcome = .noDeadlineFeasiblePlan ∧
      (im.plan .insertion ⟨0⟩ request cs).1.plan = some p ∧ p.deadline.outcome = .unknown ∧
      ¬ LabelsDeadline (im.plan .insertion ⟨0⟩ request cs).1 im.ctx request ⟨0⟩ cs := by
  intro im
  constructor
  · let request : RecoveryRequest := { Session.requestNo 1 with
      recoveryDeadline := some ⟨100⟩
      maxToleratedProgressLoss := some ⟨0⟩ }
    let c : RecoveryCandidate := { Session.readyCandidate with
      cost := some { expectedTime := some ⟨1⟩, expectedLostProgress := some ⟨5⟩ } }
    have ho : (im.plan .insertion ⟨0⟩ request [c]).1.outcome = .noDeadlineFeasiblePlan := by
      decide +kernel
    have hf : feasible im.ctx request c = true := by decide +kernel
    have hmet : (evaluateDeadline c request ⟨0⟩).outcome = .hardFeasible := by decide
    exact ⟨request,[c],ho,⟨c,List.mem_singleton_self c,hf,hmet⟩,
      fun h => (h.label.mp ho).2.2 c (List.mem_singleton_self c) hf hmet⟩
  · let request : RecoveryRequest :=
      { Session.requestNo 1 with recoveryDeadline := some ⟨100⟩ }
    have ho : (im.plan .insertion ⟨0⟩ request [Session.readyCandidate]).1.outcome =
        .noDeadlineFeasiblePlan := by decide +kernel
    have hplan : (im.plan .insertion ⟨0⟩ request [Session.readyCandidate]).1.plan.map
        (fun p => p.deadline.outcome) = some .unknown := by decide +kernel
    obtain ⟨p,hp,hu⟩ := Option.map_eq_some_iff.mp hplan
    refine ⟨request,[Session.readyCandidate],p,ho,hp,hu,fun h => ?_⟩
    obtain ⟨p',hp',hv⟩ := h.fallback ho
    obtain rfl := Option.some.inj (hp.symm.trans hp')
    rw [hu] at hv
    exact absurd hv (by decide)

end RecoveryPlanner
