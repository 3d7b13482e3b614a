import RecoveryPlanner.Acceptance
import RecoveryPlanner.Deadlines
import RecoveryPlanner.Explanations
import RecoveryPlanner.Objectives
set_option autoImplicit false

/-! What an explanation says of the selected candidate and of the others, measured against the
request and the candidates it was given. -/

namespace RecoveryPlanner

namespace FeasFlags

/-- The violations give the reasons for the flags. -/
structure Explained (f : FeasFlags) : Prop where
  blocked : f.infeasible = true → f.violations ≠ []
  grounds : f.violations ≠ [] → f.infeasible = true ∨ f.insufficient = true
  named : ∀ v ∈ f.violations, v.reason ≠ .none

theorem explained_empty : ({} : FeasFlags).Explained where
  blocked := fun h => absurd h (by simp)
  grounds := fun h => absurd rfl h
  named := fun v hv => absurd hv (by simp)

section Steps

variable {f : FeasFlags} {reason : RejectionReason}

theorem named_note (h : f.Explained) (hr : reason ≠ .none) (detail : Str) :
    ∀ v ∈ (f.note reason detail).violations, v.reason ≠ .none := by
  intro v hv
  rcases List.mem_append.mp hv with hv | hv
  · exact h.named v hv
  · obtain rfl := List.mem_singleton.mp hv
    exact hr

theorem Explained.hardIf (h : f.Explained) (hr : reason ≠ .none) (c : Bool) (detail : Str) :
    (f.hardIf c reason detail).Explained := by
  cases c with
  | true =>
    exact ⟨fun _ => List.append_ne_nil_of_right_ne_nil _ (List.cons_ne_nil _ _),fun _ => .inl rfl,
      named_note h hr detail⟩
  | false => exact h

theorem Explained.insufficientIf (h : f.Explained) (c : Bool) :
    (f.insufficientIf c).Explained := by
  cases c with
  | true => exact ⟨h.blocked,fun _ => .inr rfl,h.named⟩
  | false => exact h

theorem Explained.revalidationIf (h : f.Explained) (c : Bool) :
    (f.revalidationIf c).Explained := by
  cases c with
  | true => exact ⟨h.blocked,h.grounds,h.named⟩
  | false => exact h

theorem Explained.deferIf (h : f.Explained) (c : Bool) : (f.deferIf c).Explained := by
  cases c with
  | true => exact ⟨h.blocked,h.grounds,h.named⟩
  | false => exact h

theorem Explained.noteInsufficient (h : f.Explained) (hr : reason ≠ .none) (detail : Str) :
    ((f.note reason detail).insufficientIf true).Explained :=
  ⟨fun _ => List.append_ne_nil_of_right_ne_nil _ (List.cons_ne_nil _ _),fun _ => .inr rfl,
    named_note h hr detail⟩

end Steps

end FeasFlags

section Sections

open FeasFlags

variable (c : RecoveryCandidate) (request : RecoveryRequest) (ctx : PlannerContext)
  {f : FeasFlags} (h : f.Explained)

include h

theorem checkIdentity_explained : (checkIdentity c f).Explained :=
  (h.hardIf (by simp) _ _).hardIf (by simp) _ _

theorem checkAuthority_explained : (checkAuthority c request ctx f).Explained := by
  unfold checkAuthority
  cases c.authority with
  | some a =>
    cases c.state with
    | some st =>
      exact ((h.hardIf (by simp) _ _).hardIf (by simp) _ _).hardIf (by simp) _ _
    | none => exact (h.hardIf (by simp) _ _).hardIf (by simp) _ _
  | none =>
    cases c.state with
    | some st => exact (h.insufficientIf true).hardIf (by simp) _ _
    | none => exact h.insufficientIf true

theorem checkState_explained : (checkState c f).Explained := by
  unfold checkState
  cases c.state with
  | some st =>
    cases c.checkpoint with
    | some ck =>
      exact ((((((h.hardIf (by simp) _ _).hardIf (by simp) _ _).insufficientIf _).revalidationIf
        _).insufficientIf _).hardIf (by simp) _ _).hardIf (by simp) _ _
    | none =>
      exact (((((h.hardIf (by simp) _ _).hardIf (by simp) _ _).insufficientIf _).revalidationIf
        _).insufficientIf _).hardIf (by simp) _ _
  | none =>
    cases c.checkpoint with
    | some ck => exact (h.insufficientIf true).hardIf (by simp) _ _
    | none => exact h.insufficientIf true

theorem checkCompatibility_explained : (checkCompatibility c request ctx f).Explained := by
  unfold checkCompatibility
  cases c.compatibility with
  | some co =>
    exact ((((h.hardIf (by simp) _ _).hardIf (by simp) _ _).insufficientIf _).revalidationIf
      _).hardIf (by simp) _ _
  | none => exact h.insufficientIf _

theorem checkAvailability_explained : (checkAvailability c ctx f).Explained := by
  unfold checkAvailability
  split
  · exact h
  · cases c.availability with
    | some av =>
      exact ((((((h.hardIf (by simp) _ _).hardIf (by simp) _ _).hardIf (by simp) _ _).deferIf
        _).insufficientIf _).insufficientIf _).revalidationIf _
    | none => exact h.insufficientIf true

theorem bindResource_explained (rs : ResourceEvidence) (required : UInt64) :
    (bindResource rs required ctx f).Explained := by
  unfold bindResource
  split
  · exact h.noteInsufficient (by simp) _
  · exact h

theorem checkResource_explained : (checkResource c ctx f).Explained := by
  unfold checkResource
  cases c.resource with
  | some rs =>
    refine Explained.insufficientIf (Explained.revalidationIf (Explained.insufficientIf ?_ _) _) _
    cases rs.required with
    | some required =>
      cases rs.available with
      | some available =>
        exact bindResource_explained ctx
          (((h.hardIf (by simp) _ _).hardIf (by simp) _ _).hardIf (by simp) _ _) rs required
      | none => exact ((h.hardIf (by simp) _ _).hardIf (by simp) _ _).insufficientIf true
    | none => exact (h.hardIf (by simp) _ _).hardIf (by simp) _ _
  | none => exact h.insufficientIf true

theorem checkMigration_explained : (checkMigration c ctx f).Explained := by
  -- What follows the path, from the flags that the path leaves.
  have hportable : ∀ {g : FeasFlags}, g.Explained → ∀ (b : Bool) (detail : Str),
      (((g.hardIf b .invalidMigrationRelation detail).insufficientIf true).note .missingEvidence
        (text "migration requires portable durable state")).Explained :=
    fun hg b detail => (hg.hardIf (by simp) b detail).noteInsufficient (by simp) _
  unfold checkMigration
  split
  · exact h
  · cases c.topology with
    | some tp =>
      cases c.state with
      | some st =>
        cases c.transfer with
        | some tr =>
          exact (((h.hardIf (by simp) _ _).hardIf (by simp) _ _).hardIf (by simp) _
            _).insufficientIf _
        | none =>
          exact ((((h.hardIf (by simp) _ _).hardIf (by simp) _ _).hardIf (by simp) _
            _).insufficientIf _).noteInsufficient (by simp) _
      | none =>
        cases c.transfer with
        | some tr => exact hportable ((h.hardIf (by simp) _ _).hardIf (by simp) _ _) _ _
        | none =>
          exact (hportable ((h.hardIf (by simp) _ _).hardIf (by simp) _ _) _ _).noteInsufficient
            (by simp) _
    | none =>
      cases c.state with
      | some st =>
        cases c.transfer with
        | some tr => exact ((h.insufficientIf true).hardIf (by simp) _ _).insufficientIf _
        | none =>
          exact (((h.insufficientIf true).hardIf (by simp) _ _).insufficientIf
            _).noteInsufficient (by simp) _
      | none =>
        cases c.transfer with
        | some tr => exact hportable (h.insufficientIf true) _ _
        | none => exact (hportable (h.insufficientIf true) _ _).noteInsufficient (by simp) _

theorem checkShadow_explained : (checkShadow c f).Explained := by
  unfold checkShadow
  split
  · exact h
  · cases c.shadow with
    | some sh =>
      exact ((h.hardIf (by simp) _ _).hardIf (by simp) _ _).hardIf (by simp) _ _
    | none => exact h.insufficientIf true

theorem checkRecompute_explained : (checkRecompute c request ctx f).Explained := by
  unfold checkRecompute
  split
  · exact ((h.hardIf (by simp) _ _).insufficientIf _).insufficientIf _
  · exact h.insufficientIf _

end Sections

/-- A verdict of INFEASIBLE is explained, and nothing else than INFEASIBLE or missing evidence
comes with violations. -/
structure FeasibilityEvaluation.Explained (ev : FeasibilityEvaluation) : Prop where
  blocked : ev.result = .infeasible → ev.violations ≠ []
  grounds : ev.violations ≠ [] → ev.result = .infeasible ∨ ev.result = .insufficientEvidence
  named : ∀ v ∈ ev.violations, v.reason ≠ .none

theorem FeasFlags.Explained.aggregate {f : FeasFlags} (h : f.Explained) :
    f.aggregate.Explained where
  blocked := fun hr => h.blocked (by
    cases hi : f.infeasible with
    | true => rfl
    | false =>
      unfold FeasFlags.aggregate at hr
      simp only [hi,Bool.false_eq_true,if_false] at hr
      repeat' split at hr
      all_goals exact absurd hr (by simp))
  grounds := fun hv => by
    unfold FeasFlags.aggregate
    cases hi : f.infeasible with
    | true => exact .inl rfl
    | false =>
      have hs : f.insufficient = true := by simpa [hi] using h.grounds hv
      rw [hs]
      exact .inr rfl
  named := h.named

theorem evaluate_explained (c : RecoveryCandidate) (request : RecoveryRequest)
    (ctx : PlannerContext) : (evaluateFeasibility c request ctx).Explained := by
  unfold evaluateFeasibility
  split
  · exact (FeasFlags.explained_empty.hardIf (by simp) true _).aggregate
  · exact (checkRecompute_explained c request ctx <| checkShadow_explained c <|
      checkMigration_explained c ctx <| checkResource_explained c ctx <|
      checkAvailability_explained c ctx <| checkCompatibility_explained c request ctx <|
      checkState_explained c <| checkAuthority_explained c request ctx <|
      checkIdentity_explained c FeasFlags.explained_empty).aggregate

/-- An alternative stands for a candidate, with its verdict and one reason for it: the first
constraint that it violates, if it is blocked. -/
structure RejectedAlternative.StandsFor (alt : RejectedAlternative) (ev : FeasibilityEvaluation)
    (c : RecoveryCandidate) : Prop where
  candidateId : alt.candidateId = c.candidateId
  strategy : alt.strategy = c.strategy
  feasibility : alt.feasibility = ev.result
  blocked : ev.result = .infeasible → ∃ v rest, ev.violations = v :: rest ∧ v.reason ≠ .none ∧
    alt.reasons = [v.reason.toString]
  passed : ev.result ≠ .infeasible → alt.reasons = [ev.result.toString]

theorem rejected_standsFor {rc : RankedCandidate} (h : rc.feasibility.Explained) :
    (rejectedAlternative rc).StandsFor rc.feasibility rc.candidate where
  candidateId := rfl
  strategy := rfl
  feasibility := rfl
  blocked := fun hr => by
    obtain ⟨v,rest,hv⟩ := List.exists_cons_of_ne_nil (h.blocked hr)
    refine ⟨v,rest,hv,h.named v (by simp [hv]),?_⟩
    simp [rejectedAlternative,FeasibilityEvaluation.blocked,hr,hv]
  passed := fun hr => by
    simp [rejectedAlternative,FeasibilityEvaluation.blocked,hr]

/-- The strategies that the what-would-change list passes over when they are FEASIBLE. -/
def RecoveryStrategy.passedOver (s : RecoveryStrategy) : Bool :=
  s ∉ [.restore,.recompute,.shadowPromote,.migrate]

def Change.about (c : RecoveryCandidate) (ev : FeasibilityEvaluation) : Change :=
  match ev.result with
  | .defer => .ready c.strategy
  | .insufficientEvidence => .evidence c.strategy
  | .infeasible =>
    .constraint c.strategy ((ev.violations.head?.map ConstraintViolation.reason).getD .none)
  | .revalidationRequired => .revalidation c.strategy
  | .feasible => .economics c.strategy

def mentioned (ctx : PlannerContext) (request : RecoveryRequest) (c : RecoveryCandidate) : Bool :=
  !(feasible ctx request c && c.strategy.passedOver)

theorem changeConditions_eq (sel : RecoveryStrategy) {rc : RankedCandidate}
    (h : rc.feasibility.Explained) : changeConditions sel rc =
      if rc.feasibility.isFeasible && rc.candidate.strategy.passedOver then []
      else [(Change.about rc.candidate rc.feasibility).entry sel] := by
  unfold changeConditions Change.about FeasibilityEvaluation.isFeasible
  cases hr : rc.feasibility.result with
  | infeasible =>
    obtain ⟨v,rest,hv⟩ := List.exists_cons_of_ne_nil (h.blocked hr)
    simp [hv,Change.entry,Change.condition,Change.consequence]
  | feasible =>
    cases rc.candidate.strategy <;>
      simp [RecoveryStrategy.passedOver,Change.entry,Change.condition,Change.consequence]
  | _ => simp [Change.entry,Change.condition,Change.consequence]

def RankedCandidate.placeless (rc : RankedCandidate) : RankedCandidate :=
  { rc with rank := 0, feasibleRank := 0 }

def assessed (ctx : PlannerContext) (request : RecoveryRequest) (now : Timestamp)
    (c : RecoveryCandidate) : RankedCandidate := (evaluated ctx request now c 0).placeless

theorem map_placeless {ctx : PlannerContext} {request : RecoveryRequest} {now : Timestamp}
    {cs : List RecoveryCandidate} {order : List Nat} (hn : order.Nodup) :
    (assignRanks order (rankCandidates ctx request now cs)).map RankedCandidate.placeless =
      cs.map (assessed ctx request now) := by
  refine List.ext_getElem? fun i => ?_
  rw [List.getElem?_map,assignRanks_getElem? hn,rankCandidates_getElem?,List.getElem?_map]
  cases cs[i]? with
  | none => rfl
  | some c =>
    simp only [Option.map_some]
    split <;> rfl

theorem buildExplanation_placeless (std : StdSort) (ctx : PlannerContext)
    (ranked : List RankedCandidate) (selected : Nat) :
    buildExplanation std ctx (ranked.map RankedCandidate.placeless) selected =
      buildExplanation std ctx ranked selected := by
  have hget : (ranked.map RankedCandidate.placeless).getD selected {} =
      (ranked.getD selected {}).placeless := by
    rw [List.getD_eq_getElem?_getD,List.getD_eq_getElem?_getD,List.getElem?_map]
    cases ranked[selected]? <;> rfl
  have hrest : ((ranked.map RankedCandidate.placeless).eraseIdx selected).map rejectedAlternative =
      (ranked.eraseIdx selected).map rejectedAlternative := by
    rw [List.eraseIdx_map,List.map_map]
    rfl
  have hchanges : ∀ plan : RecoveryPlan,
      computeWhatWouldChange std (ranked.map RankedCandidate.placeless) plan =
        computeWhatWouldChange std ranked plan := by
    intro plan
    unfold computeWhatWouldChange
    rw [List.filter_map,List.flatMap_map]
    rfl
  simp only [buildExplanation,hget,hrest,hchanges]
  rfl

theorem changes_flatMap (ctx : PlannerContext) (request : RecoveryRequest) (now : Timestamp)
    (sel : RecoveryStrategy) (cs : List RecoveryCandidate) :
    (cs.map (assessed ctx request now)).flatMap (changeConditions sel) =
      (cs.filter (mentioned ctx request)).map
        (fun c => (Change.about c (evaluateFeasibility c request ctx)).entry sel) := by
  induction cs with
  | nil => rfl
  | cons c cs ih =>
    have hc : changeConditions sel (assessed ctx request now c) =
        if feasible ctx request c && c.strategy.passedOver then []
        else [(Change.about c (evaluateFeasibility c request ctx)).entry sel] :=
      changeConditions_eq sel (evaluate_explained c request ctx)
    rw [List.map_cons,List.flatMap_cons,ih,hc]
    cases hm : feasible ctx request c && c.strategy.passedOver <;> simp [mentioned,hm]

theorem eligible_deadline {ctx : PlannerContext} {request : RecoveryRequest} {now : Timestamp}
    {c : RecoveryCandidate} (h : eligible ctx request now c = true) (sel : RecoveryStrategy) :
    (evaluateDeadline c request now).outcome ≠ .violated ∧
    deadlineConditions (evaluateDeadline c request now) (computeEconomics c request now) =
      if request.hardDeadline then [Change.laterDeadline.entry sel] else [] := by
  obtain ⟨_,hd,_⟩ := (eligible_iff ctx request now c).mp h
  cases hr : requestDeadline request now with
  | none =>
    have hsoft : request.hardDeadline = false := by
      unfold requestDeadline at hr
      unfold RecoveryRequest.hardDeadline
      cases hD : request.recoveryDeadline <;> cases hM : request.maxRecoveryDuration <;>
        simp [hD,hM] at hr ⊢
    have hno : evaluateDeadline c request now = { outcome := .noDeadline } := by
      unfold evaluateDeadline
      rw [hr]
    rw [hno,hsoft]
    exact ⟨by simp,rfl⟩
  | some D =>
    have hhard := hardDeadline_of_requestDeadline hr
    obtain ⟨e,he,hcomp⟩ := (hardFeasible_iff hr).mp (hd hhard)
    have hslack := satSub_nonneg.mpr hcomp
    have hknown := evaluateDeadline_known hr he
    have hlate : ¬ satSub (if D.value < now.value then now.value else D.value)
        (satAdd now.value (spent e)) < 0 := Int64.not_lt.mpr hslack
    simp only [if_pos hslack] at hknown
    unfold deadlineConditions
    rw [computeEconomics_time,he,hknown,hhard]
    refine ⟨by simp,?_⟩
    simp only [if_neg hlate]
    rfl

/-- The explanation accounts for every candidate of `front ++ c :: back`, of which `c` was
selected. -/
structure PlanExplanation.Accounts (e : PlanExplanation) (ctx : PlannerContext)
    (request : RecoveryRequest) (front : List RecoveryCandidate) (c : RecoveryCandidate)
    (back : List RecoveryCandidate) : Prop where
  alternatives : List.Forall₂ (fun alt c' => alt.StandsFor (evaluateFeasibility c' request ctx) c')
    e.rejectedAlternatives (front ++ back)
  unconstrained : e.bindingConstraints = []
  missing : ∀ t ∈ e.missingEvidence,
    (t = text "availability evidence" ∧ c.strategy = .recompute) ∨
    (t = text "compatibility evidence" ∧ request.compatibilityRequirements = [])
  announced : c.strategy ≠ .recompute → ∃ av, c.availability = some av ∧ av.Usable ctx ∧
    text "target worker " ++ decimal av.worker.value.toNat ++ text " is READY under boot " ++
      decimal av.boot.value.toNat ∈ e.feasibilityReasons
  changes : e.whatWouldChange.Perm
    ((((front ++ c :: back).filter (fun c' => c'.candidateId ≠ c.candidateId)).filter
      (mentioned ctx request)).map
        (fun c' => (Change.about c' (evaluateFeasibility c' request ctx)).entry c.strategy) ++
      if request.hardDeadline then [Change.laterDeadline.entry c.strategy] else [])
  sorted : e.whatWouldChange.Pairwise (fun a b => ¬ b.1 < a.1)

theorem buildExplanation_accounts (std : StdSort) {ctx : PlannerContext}
    {request : RecoveryRequest} {now : Timestamp} {c : RecoveryCandidate}
    (front back : List RecoveryCandidate) (h : eligible ctx request now c = true) :
    (buildExplanation std ctx ((front ++ c :: back).map (assessed ctx request now))
      front.length).Accounts ctx request front c back := by
  have hget : ((front ++ c :: back).map (assessed ctx request now)).getD front.length {} =
      assessed ctx request now c := by
    simp [List.getD_eq_getElem?_getD]
  have hfeasible : (evaluateFeasibility c request ctx).result = .feasible := by
    simpa [feasible,FeasibilityEvaluation.isFeasible] using ((eligible_iff ctx request now c).mp h).1
  have hacc := (feasible_iff c request ctx).mp hfeasible
  obtain ⟨hlate,hdeadline⟩ := eligible_deadline h c.strategy
  have hclean : (evaluateFeasibility c request ctx).violations = [] := by
    by_contra hv
    have hgrounds := (evaluate_explained c request ctx).grounds hv
    rw [hfeasible] at hgrounds
    exact absurd hgrounds (by simp)
  constructor
  case alternatives =>
    have hrest : (((front ++ c :: back).map (assessed ctx request now)).eraseIdx front.length) =
        (front ++ back).map (assessed ctx request now) := by
      rw [List.eraseIdx_map,List.eraseIdx_append_of_length_le le_rfl,Nat.sub_self]
      rfl
    simp only [buildExplanation,hrest,List.map_map,List.forall₂_map_left_iff,List.forall₂_same]
    exact fun c' _ => rejected_standsFor (evaluate_explained c' request ctx)
  case unconstrained =>
    have hnone : (assessed ctx request now c).feasibility.violations = [] := hclean
    have hmet : (assessed ctx request now c).deadline.outcome ≠ .violated := hlate
    simp only [buildExplanation,hget,hnone,if_neg hmet,List.append_nil]
  case missing =>
    have hc : (assessed ctx request now c).candidate = c := rfl
    obtain ⟨st,hst,_⟩ := hacc.state
    obtain ⟨rs,hrs,_⟩ := hacc.resource
    simp only [buildExplanation,hget,hc,hst,hrs,Option.isNone_some,Bool.false_eq_true,if_false,
      List.nil_append,List.append_nil,List.mem_append]
    rintro t (ht | ht)
    · split at ht
      · rename_i hn
        refine .inl ⟨List.mem_singleton.mp ht,?_⟩
        by_contra hre
        obtain ⟨av,hav,_⟩ := hacc.availability hre
        rw [hav] at hn
        exact absurd hn (by simp)
      · exact absurd ht List.not_mem_nil
    · split at ht
      · rename_i hn
        exact .inr ⟨List.mem_singleton.mp ht,hacc.required (Option.isNone_iff_eq_none.mp hn)⟩
      · exact absurd ht List.not_mem_nil
  case announced =>
    intro hre
    obtain ⟨av,hav,hu⟩ := hacc.availability hre
    have hc : (assessed ctx request now c).candidate = c := rfl
    refine ⟨av,hav,hu,?_⟩
    simp [buildExplanation,feasibilityReasons,hc,hav]
  case changes =>
    refine (std.perm _ _).trans (List.Perm.of_eq ?_)
    have hothers : (((front ++ c :: back).map (assessed ctx request now)).filter
        (fun rc => rc.candidate.candidateId ≠ c.candidateId)) =
        ((front ++ c :: back).filter (fun c' => c'.candidateId ≠ c.candidateId)).map
          (assessed ctx request now) := by
      rw [List.filter_map]
      rfl
    rw [hget,← changes_flatMap ctx request now,← hothers,← hdeadline]
    rfl
  case sorted =>
    have hw : StrictWeak (fun a b : Str × Str => decide (a.1 < b.1)) :=
      .of_key Prod.fst fun _ _ => decide_eq_true_iff
    exact (std.sorted _ _ hw).imp fun hlt => of_decide_eq_false hlt

theorem Impl.plan_explanation (std : StdSort) (im : Impl) (now : Timestamp)
    (request : RecoveryRequest) (cs : List RecoveryCandidate)
    (h : cs.filter (eligible im.ctx request now) ≠ []) :
    let order := ordering std im.ctx request now cs (eligible im.ctx request now)
    (im.plan std now request cs).1.plan = some ((im.planFor request now
      (best std im.ctx request now cs (eligible im.ctx request now))).explained
        (buildExplanation std im.ctx (cs.map (assessed im.ctx request now)) (order.headD 0))) := by
  intro order
  have hE : (positions (eligible im.ctx request now) cs).isEmpty = false := by
    simpa using mt positions_eq_nil.mp h
  rw [← map_placeless (ordering_nodup std),buildExplanation_placeless,
    ← buildPlan_best std im now request cs h]
  unfold Impl.plan
  simp only [ne_nil_of_filter h,eligibleIndices_eq,hE,Bool.false_eq_true,if_false]
  rfl

/-- A plan that meets the objectives comes with an account of every candidate; a fallback plan
comes with none. -/
theorem plan_explains (std : StdSort) (im : Impl) (now : Timestamp) (request : RecoveryRequest)
    (cs : List RecoveryCandidate) :
    let d := (im.plan std now request cs).1
    (d.outcome = .planFound → ∃ front c back p, cs = front ++ c :: back ∧ d.plan = some p ∧
      p.Selects c ∧ p.explanation.Accounts im.ctx request front c back) ∧
    (d.outcome ≠ .planFound → ∀ p, d.plan = some p → p.explanation = {}) := by
  intro d
  by_cases hE : cs.filter (eligible im.ctx request now) = []
  · by_cases hF : cs.filter (feasible im.ctx request) = []
    · obtain ⟨ho,hp,_⟩ := im.plan_none std now request cs hF
      refine ⟨fun hfound => ?_,fun _ p hsome => ?_⟩
      · rw [ho] at hfound
        split at hfound <;> exact absurd hfound (by simp)
      · rw [hp] at hsome
        exact absurd hsome (by simp)
    · obtain ⟨ho,hp,_⟩ := im.plan_fallback std now request cs hE hF
      refine ⟨fun hfound => ?_,fun _ p hsome => ?_⟩
      · rw [ho] at hfound
        split at hfound <;> exact absurd hfound (by simp)
      · rw [hp] at hsome
        obtain rfl := Option.some.inj hsome
        rfl
  · refine ⟨fun _ => ?_,fun hne => absurd (im.plan_found std now request cs hE).1 hne⟩
    let i := (ordering std im.ctx request now cs (eligible im.ctx request now)).headD 0
    let c := best std im.ctx request now cs (eligible im.ctx request now)
    have hi : i < cs.length := lt_of_mem_positions (head_isFirst std hE).mem
    have hc : eligible im.ctx request now c = true :=
      (List.mem_filter.mp (best_isFirst std hE).mem).2
    have hsplit : cs = cs.take i ++ c :: cs.drop (i+1) := by
      have hget : c = cs[i] := List.getD_eq_getElem _ _ hi
      rw [hget,List.getElem_cons_drop,List.take_append_drop]
    have hlen : (cs.take i).length = i := List.length_take_of_le hi.le
    have haccounts := buildExplanation_accounts std (cs.take i) (cs.drop (i+1)) hc
    rw [← hsplit,hlen] at haccounts
    exact ⟨_,c,_,_,hsplit,im.plan_explanation std now request cs hE,
      (im.planFor_selects request now c).explained _,haccounts⟩

end RecoveryPlanner
