import RecoveryPlanner.Selection
set_option autoImplicit false

/-! Whether the selected candidate meets the hard objectives of its request. -/

namespace RecoveryPlanner

theorem satAdd_eq (a b : Int64) : satAdd a b =
    if 0 < b.toInt ∧ int64Max-b.toInt < a.toInt then .ofInt int64Max
    else if b.toInt < 0 ∧ a.toInt < int64Min-b.toInt then .ofInt int64Min
    else a+b := by
  have hpos : 0 < b ↔ 0 < b.toInt := Int64.lt_iff_toInt_lt
  have hneg : b < 0 ↔ b.toInt < 0 := Int64.lt_iff_toInt_lt
  simp [satAdd,hpos,hneg]

theorem satSub_eq (a b : Int64) : satSub a b =
    if 0 < b.toInt ∧ a.toInt < int64Min+b.toInt then .ofInt int64Min
    else if b.toInt < 0 ∧ int64Max+b.toInt < a.toInt then .ofInt int64Max
    else a-b := by
  have hpos : 0 < b ↔ 0 < b.toInt := Int64.lt_iff_toInt_lt
  have hneg : b < 0 ↔ b.toInt < 0 := Int64.lt_iff_toInt_lt
  simp [satSub,hpos,hneg]

theorem satAdd_toInt {a b : Int64} (h : 0 ≤ b) :
    (satAdd a b).toInt = min (a.toInt+b.toInt) int64Max := by
  have ha := a.toInt_lt
  have ha' := a.le_toInt
  have hb : 0 ≤ b.toInt := Int64.le_iff_toInt_le.mp h
  rw [satAdd_eq,int64Max,int64Min]
  by_cases hmax : 0 < b.toInt ∧ 9223372036854775807-b.toInt < a.toInt
  · rw [if_pos hmax,Int64.toInt_ofInt_of_le (by omega) (by omega)]
    omega
  · rw [if_neg hmax,if_neg (by omega),Int64.toInt_add,Int.bmod_eq_of_le (by omega) (by omega)]
    omega

theorem le_satAdd {a b : Int64} (h : 0 ≤ b) : a ≤ satAdd a b := by
  have ha := a.toInt_lt
  have hb : 0 ≤ b.toInt := Int64.le_iff_toInt_le.mp h
  rw [Int64.le_iff_toInt_le,satAdd_toInt h,int64Max]
  omega

theorem satSub_nonneg {a b : Int64} : 0 ≤ satSub a b ↔ b ≤ a := by
  have ha := a.toInt_lt
  have ha' := a.le_toInt
  have hb := b.toInt_lt
  have hb' := b.le_toInt
  have h0 : (0 : Int64).toInt = 0 := rfl
  rw [Int64.le_iff_toInt_le,Int64.le_iff_toInt_le,h0,satSub_eq,int64Max,int64Min]
  by_cases hmin : 0 < b.toInt ∧ a.toInt < -9223372036854775808+b.toInt
  · rw [if_pos hmin,Int64.toInt_ofInt_of_le (by omega) (by omega)]
    omega
  · rw [if_neg hmin]
    by_cases hmax : b.toInt < 0 ∧ 9223372036854775807+b.toInt < a.toInt
    · rw [if_pos hmax,Int64.toInt_ofInt_of_le (by omega) (by omega)]
      omega
    · rw [if_neg hmax,Int64.toInt_sub,Int.bmod_eq_of_le (by omega) (by omega)]
      omega

def spent (expected : Duration) : Int64 := if expected.value < 0 then 0 else expected.value

theorem spent_nonneg (expected : Duration) : 0 ≤ spent expected := by
  unfold spent
  split
  · exact Int64.le_refl 0
  · rename_i h
    exact Int64.not_lt.mp h

theorem evaluateDeadline_known {c : RecoveryCandidate} {request : RecoveryRequest}
    {now D : Timestamp} {expected : Duration} (hD : requestDeadline request now = some D)
    (he : c.cost.bind CostEvidence.expectedTime = some expected) :
    let comp := satAdd now.value (spent expected)
    let slack := satSub (if D.value < now.value then now.value else D.value) comp
    evaluateDeadline c request now =
      { deadline := some D
        expectedCompletion := some ⟨comp⟩
        slack := some ⟨slack⟩
        outcome := if 0 ≤ slack then .hardFeasible else .violated } := by
  unfold evaluateDeadline
  rw [hD,he]
  rfl

theorem hardFeasible_iff {c : RecoveryCandidate} {request : RecoveryRequest}
    {now D : Timestamp} (hD : requestDeadline request now = some D) :
    (evaluateDeadline c request now).outcome = .hardFeasible ↔
      ∃ e, c.cost.bind CostEvidence.expectedTime = some e ∧
        satAdd now.value (spent e) ≤ if D.value < now.value then now.value else D.value := by
  cases he : c.cost.bind CostEvidence.expectedTime with
  | none =>
    unfold evaluateDeadline
    rw [hD,he]
    simp
  | some e =>
    rw [evaluateDeadline_known hD he]
    simp only [satSub_nonneg,Option.some.injEq,exists_eq_left']
    split <;> simp_all

/-- HARD_FEASIBLE says that the completion is known and, unless the deadline has already
passed, not after it. -/
theorem hardFeasible_completion {c : RecoveryCandidate} {request : RecoveryRequest}
    {now D : Timestamp} (hD : requestDeadline request now = some D)
    (h : (evaluateDeadline c request now).outcome = .hardFeasible) :
    ∃ t, (evaluateDeadline c request now).expectedCompletion = some t ∧
      now.value ≤ t.value ∧ (now.value ≤ D.value → t.value ≤ D.value) := by
  obtain ⟨e,he,hcomp⟩ := (hardFeasible_iff hD).mp h
  rw [evaluateDeadline_known hD he]
  refine ⟨_,rfl,le_satAdd (spent_nonneg e),fun hnow => ?_⟩
  rw [if_neg (Int64.not_lt.mpr hnow)] at hcomp
  exact hcomp

theorem eligible_iff (ctx : PlannerContext) (request : RecoveryRequest) (now : Timestamp)
    (c : RecoveryCandidate) :
    eligible ctx request now c = true ↔ feasible ctx request c = true ∧
      (request.hardDeadline = true → (evaluateDeadline c request now).outcome = .hardFeasible) ∧
      (request.hardProgress = true →
        (computeEconomics c request now).progressLossWithinTolerance = true) := by
  simp only [eligible,Bool.and_eq_true,Bool.or_eq_true,Bool.not_eq_true',decide_eq_true_eq]
  cases request.hardDeadline <;> cases request.hardProgress <;> simp

theorem hardDeadline_of_requestDeadline {request : RecoveryRequest} {now D : Timestamp}
    (h : requestDeadline request now = some D) : request.hardDeadline = true := by
  unfold requestDeadline at h
  unfold RecoveryRequest.hardDeadline
  cases hd : request.recoveryDeadline with
  | some d => simp
  | none =>
    cases hm : request.maxRecoveryDuration with
    | some d => simp
    | none =>
      rw [hd,hm] at h
      exact absurd h (by simp)

theorem computeEconomics_lost (c : RecoveryCandidate) (request : RecoveryRequest)
    (now : Timestamp) : (computeEconomics c request now).expectedLostProgress =
      c.cost.bind CostEvidence.expectedLostProgress := by
  unfold computeEconomics
  cases hc : c.cost with
  | none =>
    dsimp only
    split <;> rfl
  | some cost =>
    dsimp only
    split <;> rfl

theorem withinTolerance_iff {c : RecoveryCandidate} {request : RecoveryRequest}
    {now : Timestamp} {tol lost : ProgressUnits}
    (ht : request.maxToleratedProgressLoss = some tol)
    (hl : c.cost.bind CostEvidence.expectedLostProgress = some lost) :
    (computeEconomics c request now).progressLossWithinTolerance = true ↔
      lost.value ≤ tol.value := by
  obtain ⟨cost,hc,hl⟩ := Option.bind_eq_some_iff.mp hl
  simp [computeEconomics,hc,ht,costEconomics,hl]

theorem withinTolerance_unknown {c : RecoveryCandidate} (request : RecoveryRequest)
    (now : Timestamp) (hl : c.cost.bind CostEvidence.expectedLostProgress = none) :
    (computeEconomics c request now).progressLossWithinTolerance = true := by
  unfold computeEconomics
  cases hc : c.cost with
  | none => cases request.maxToleratedProgressLoss <;> rfl
  | some cost =>
    have hl : cost.expectedLostProgress = none := by simpa [hc] using hl
    cases request.maxToleratedProgressLoss <;> simp [costEconomics,hl]

structure RecoveryPlan.MeetsObjectives (p : RecoveryPlan) (request : RecoveryRequest)
    (now : Timestamp) : Prop where
  deadline : ∀ D, requestDeadline request now = some D →
    ∃ t, p.deadline.expectedCompletion = some t ∧ t.value ≤ D.value
  progress : ∀ tol, request.maxToleratedProgressLoss = some tol →
    ∃ lost, p.economics.expectedLostProgress = some lost ∧ lost.value ≤ tol.value

/-- The two ways past the evaluators are closed: the deadline is not over yet, and the
candidate's loss is known when it matters. -/
structure ObjectivesKnown (request : RecoveryRequest) (now : Timestamp)
    (c : RecoveryCandidate) : Prop where
  deadline : ∀ D, requestDeadline request now = some D → now.value ≤ D.value
  progress : request.maxToleratedProgressLoss.isSome = true →
    (c.cost.bind CostEvidence.expectedLostProgress).isSome = true

theorem meetsObjectives_iff {ctx : PlannerContext} {request : RecoveryRequest}
    {now : Timestamp} {c : RecoveryCandidate} {p : RecoveryPlan}
    (he : eligible ctx request now c = true)
    (hecon : p.economics = computeEconomics c request now)
    (hdl : p.deadline = evaluateDeadline c request now) :
    p.MeetsObjectives request now ↔ ObjectivesKnown request now c := by
  obtain ⟨_,hhard,htol⟩ := (eligible_iff ctx request now c).mp he
  constructor
  · intro h
    refine ⟨fun D hD => ?_,fun ht => ?_⟩
    · obtain ⟨t,ht,hle⟩ := h.deadline D hD
      obtain ⟨t',ht',hnow,_⟩ := hardFeasible_completion hD
        (hhard (hardDeadline_of_requestDeadline hD))
      rw [hdl,ht'] at ht
      obtain rfl := Option.some.inj ht
      exact Int64.le_trans hnow hle
    · obtain ⟨tol,ht⟩ := Option.isSome_iff_exists.mp ht
      obtain ⟨lost,hl,_⟩ := h.progress tol ht
      rw [hecon,computeEconomics_lost] at hl
      rw [hl]
      rfl
  · intro h
    refine ⟨fun D hD => ?_,fun tol ht => ?_⟩
    · obtain ⟨t,ht,_,hle⟩ := hardFeasible_completion hD
        (hhard (hardDeadline_of_requestDeadline hD))
      exact ⟨t,by rw [hdl,ht],hle (h.deadline D hD)⟩
    · have hp : request.maxToleratedProgressLoss.isSome = true := by rw [ht]; rfl
      obtain ⟨lost,hl⟩ := Option.isSome_iff_exists.mp (h.progress hp)
      exact ⟨lost,by rw [hecon,computeEconomics_lost,hl],(withinTolerance_iff ht hl).mp (htol hp)⟩

theorem ObjectivesKnown.of_first {request : RecoveryRequest} {now : Timestamp}
    {l : List RecoveryCandidate} {c c' : RecoveryCandidate}
    (hc : IsFirst (precedes request now) l c) (hc' : IsFirst (precedes request now) l c')
    (h : ObjectivesKnown request now c) : ObjectivesKnown request now c' := by
  have hlost := (sameKeys_of_isFirst hc hc').lost
  rw [computeEconomics_lost,computeEconomics_lost] at hlost
  exact ⟨h.deadline,fun ht => hlost ▸ h.progress ht⟩

/-- The selected candidate is known to meet every hard objective exactly when the best
eligible candidates do not rely on a deadline that is over or on an unknown loss. -/
theorem plan_meets_objectives_iff (std : StdSort) (im : Impl) (now : Timestamp)
    (request : RecoveryRequest) (cs : List RecoveryCandidate) :
    (∀ p, (im.plan std now request cs).1.outcome = .planFound →
      (im.plan std now request cs).1.plan = some p → p.MeetsObjectives request now) ↔
    ∀ c, IsFirst (precedes request now) (cs.filter (eligible im.ctx request now)) c →
      ObjectivesKnown request now c := by
  by_cases hE : cs.filter (eligible im.ctx request now) = []
  · refine ⟨fun _ c hc => ?_,fun _ p ho => ?_⟩
    · exact absurd hc.mem (by simp [hE])
    · exact absurd hE (Impl.plan_found_iff.mp ho)
  · obtain ⟨ho,⟨e,hp⟩,_⟩ := im.plan_found std now request cs hE
    have hbest : IsFirst (precedes request now) (cs.filter (eligible im.ctx request now))
        (best std im.ctx request now cs (eligible im.ctx request now)) := best_isFirst std hE
    have hel := (List.mem_filter.mp hbest.mem).2
    constructor
    · intro h c hc
      have hmeets := h _ ho hp
      exact ((meetsObjectives_iff hel rfl rfl).mp hmeets).of_first hbest hc
    · intro h p _ hp'
      obtain rfl := Option.some.inj (hp.symm.trans hp')
      exact (meetsObjectives_iff hel rfl rfl).mpr (h _ hbest)

def overdueRequest : RecoveryRequest :=
  { Session.requestNo 1 with recoveryDeadline := some ⟨5⟩ }

def instantCandidate : RecoveryCandidate :=
  { Session.readyCandidate with cost := some { expectedTime := some ⟨0⟩ } }

def losslessRequest : RecoveryRequest :=
  { Session.requestNo 1 with maxToleratedProgressLoss := some ⟨0⟩ }

theorem plan_misses_objectives :
    let im := (Impl.construct false).registerWorker ⟨1⟩ ⟨1⟩
    (∃ p, (im.plan .insertion ⟨10⟩ overdueRequest [instantCandidate]).1.outcome = .planFound ∧
      (im.plan .insertion ⟨10⟩ overdueRequest [instantCandidate]).1.plan = some p ∧
      ¬ p.MeetsObjectives overdueRequest ⟨10⟩) ∧
    ∃ p, (im.plan .insertion ⟨10⟩ losslessRequest [Session.readyCandidate]).1.outcome =
        .planFound ∧
      (im.plan .insertion ⟨10⟩ losslessRequest [Session.readyCandidate]).1.plan = some p ∧
      ¬ p.MeetsObjectives losslessRequest ⟨10⟩ := by
  intro im
  constructor
  · have hplan : (im.plan .insertion ⟨10⟩ overdueRequest [instantCandidate]).1.plan.map
        (fun p => p.deadline.expectedCompletion) = some (some ⟨10⟩) := by decide +kernel
    obtain ⟨p,hp,ht⟩ := Option.map_eq_some_iff.mp hplan
    refine ⟨p,by decide +kernel,hp,fun h => ?_⟩
    obtain ⟨t,ht',hle⟩ := h.deadline ⟨5⟩ rfl
    rw [ht] at ht'
    obtain rfl := Option.some.inj ht'
    exact absurd hle (by decide)
  · have hplan : (im.plan .insertion ⟨10⟩ losslessRequest [Session.readyCandidate]).1.plan.map
        (fun p => p.economics.expectedLostProgress) = some none := by decide +kernel
    obtain ⟨p,hp,hl⟩ := Option.map_eq_some_iff.mp hplan
    refine ⟨p,by decide +kernel,hp,fun h => ?_⟩
    obtain ⟨lost,hl',_⟩ := h.progress ⟨0⟩ rfl
    rw [hl] at hl'
    exact absurd hl' (by simp)

end RecoveryPlanner
