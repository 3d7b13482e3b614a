import RecoveryPlanner.Acceptance
import RecoveryPlanner.Objectives
set_option autoImplicit false

/-! Two runs of the planner, the second under a laxer request or in a richer world. -/

namespace RecoveryPlanner

def FeasibilityResult.severity : FeasibilityResult → Nat
  | .feasible => 0
  | .defer => 1
  | .revalidationRequired => 2
  | .insufficientEvidence => 3
  | .infeasible => 4

namespace FeasFlags

/-- Below INFEASIBLE no flag is up that was down before; at INFEASIBLE nothing else counts. -/
structure NoWorse (f' f : FeasFlags) : Prop where
  infeasible : f'.infeasible = true → f.infeasible = true
  insufficient : f.infeasible = false → f'.insufficient = true → f.insufficient = true
  revalidation : f.infeasible = false → f'.revalidation = true → f.revalidation = true
  defer : f.infeasible = false → f'.defer = true → f.defer = true

theorem NoWorse.refl (f : FeasFlags) : f.NoWorse f :=
  ⟨id,fun _ => id,fun _ => id,fun _ => id⟩

section Steps

variable {f' f : FeasFlags} {c' c : Bool} {reason' reason : RejectionReason} {detail' detail : Str}

theorem NoWorse.note (h : f'.NoWorse f) :
    (f'.note reason' detail').NoWorse (f.note reason detail) := by
  obtain ⟨h1,h2,h3,h4⟩ := h
  exact ⟨h1,h2,h3,h4⟩

theorem NoWorse.hardIf (h : f'.NoWorse f) (hc : c' = true → c = true) :
    (f'.hardIf c' reason' detail').NoWorse (f.hardIf c reason detail) := by
  obtain ⟨h1,h2,h3,h4⟩ := h
  cases c with
  | true =>
    have htop : (f.hardIf true reason detail).infeasible = true := rfl
    constructor <;> simp [htop]
  | false =>
    have hc' : c' = false := by simpa using hc
    rw [hc']
    exact ⟨h1,h2,h3,h4⟩

theorem NoWorse.insufficientIf (h : f'.NoWorse f)
    (hc : f.infeasible = false → c' = true → c = true) :
    (f'.insufficientIf c').NoWorse (f.insufficientIf c) := by
  obtain ⟨h1,h2,h3,h4⟩ := h
  cases c <;> cases c' <;> constructor <;> simp_all [FeasFlags.insufficientIf]

theorem NoWorse.revalidationIf (h : f'.NoWorse f) (hc : c' = true → c = true) :
    (f'.revalidationIf c').NoWorse (f.revalidationIf c) := by
  obtain ⟨h1,h2,h3,h4⟩ := h
  cases c <;> cases c' <;> constructor <;> simp_all [FeasFlags.revalidationIf]

theorem NoWorse.deferIf (h : f'.NoWorse f) (hc : c' = true → c = true) :
    (f'.deferIf c').NoWorse (f.deferIf c) := by
  obtain ⟨h1,h2,h3,h4⟩ := h
  cases c <;> cases c' <;> constructor <;> simp_all [FeasFlags.deferIf]

theorem NoWorse.severity (h : f'.NoWorse f) :
    f'.aggregate.result.severity ≤ f.aggregate.result.severity := by
  obtain ⟨h1,h2,h3,h4⟩ := h
  cases hi : f.infeasible with
  | true =>
    have htop : f.aggregate.result = .infeasible := by simp [aggregate,hi]
    rw [htop]
    cases f'.aggregate.result <;> decide
  | false =>
    have hi' : f'.infeasible = false := by simpa [hi] using h1
    cases hs : f.insufficient <;> cases hr : f.revalidation <;> cases hd : f.defer <;>
      cases hs' : f'.insufficient <;> cases hr' : f'.revalidation <;> cases hd' : f'.defer <;>
      simp_all [aggregate,FeasibilityResult.severity]

end Steps

end FeasFlags

structure PlannerContext.Extends (ctx' ctx : PlannerContext) : Prop where
  epoch : ctx'.epoch = ctx.epoch
  workloadGeneration : ctx'.workloadGeneration = ctx.workloadGeneration
  policyGeneration : ctx'.policyGeneration = ctx.policyGeneration
  compatibilityGeneration : ctx'.compatibilityGeneration = ctx.compatibilityGeneration
  resourceGeneration : ctx'.resourceGeneration = ctx.resourceGeneration
  topologyGeneration : ctx'.topologyGeneration = ctx.topologyGeneration
  compatibilityTable : ctx'.compatibilityTable = ctx.compatibilityTable
  workerBoots : ∀ w b, ctx.workerBoots.find? w = some b → ctx'.workerBoots.find? w = some b
  aliveWorkers : ctx.aliveWorkers ⊆ ctx'.aliveWorkers
  resourceAvailable : ∀ kind amount, ctx.resourceAvailable.find? kind = some amount →
    ∃ amount', ctx'.resourceAvailable.find? kind = some amount' ∧ amount ≤ amount'
  recomputeLineageAvailable : ctx.recomputeLineageAvailable ⊆ ctx'.recomputeLineageAvailable
  originalInputsAvailable : ctx.originalInputsAvailable ⊆ ctx'.originalInputsAvailable

namespace PlannerContext.Extends

variable {ctx' ctx : PlannerContext}

theorem refl (ctx : PlannerContext) : ctx.Extends ctx :=
  ⟨rfl,rfl,rfl,rfl,rfl,rfl,rfl,fun _ _ => id,Finset.Subset.refl _,
    fun _ amount h => ⟨amount,h,le_rfl⟩,Finset.Subset.refl _,Finset.Subset.refl _⟩

theorem workerIsCurrent (h : ctx'.Extends ctx) {w : WorkerId}
    (hw : ctx.workerIsCurrent w = true) : ctx'.workerIsCurrent w = true := by
  simp only [PlannerContext.workerIsCurrent,decide_eq_true_eq] at hw ⊢
  exact h.aliveWorkers hw

theorem workerBootMatches (h : ctx'.Extends ctx) {w : WorkerId} {b : WorkerBootId}
    (hw : ctx.workerBootMatches w b = true) : ctx'.workerBootMatches w b = true := by
  rw [workerBootMatches_iff] at hw ⊢
  exact h.workerBoots w b hw

theorem resourceSufficient (h : ctx'.Extends ctx) (kind : Str) (required : UInt64)
    (hr : ctx.resourceSufficient kind required = true) :
    ctx'.resourceSufficient kind required = true := by
  unfold PlannerContext.resourceSufficient at hr ⊢
  cases hk : ctx.resourceAvailable.find? kind with
  | none =>
    rw [hk] at hr
    exact absurd hr (by simp)
  | some amount =>
    obtain ⟨amount',hk',hle⟩ := h.resourceAvailable kind amount hk
    rw [hk] at hr
    rw [hk']
    simp only [decide_eq_true_eq] at hr ⊢
    exact le_trans hr hle

theorem isCompatible (h : ctx'.Extends ctx) (subject target : Str) :
    ctx'.isCompatible subject target = ctx.isCompatible subject target := by
  simp only [PlannerContext.isCompatible,h.compatibilityTable]

theorem recomputeAvailable (h : ctx'.Extends ctx) {gen : WorkloadGeneration}
    (hg : ctx.recomputeAvailable gen = true) : ctx'.recomputeAvailable gen = true := by
  simp only [PlannerContext.recomputeAvailable,Bool.and_eq_true,decide_eq_true_eq] at hg ⊢
  exact ⟨h.recomputeLineageAvailable hg.1,h.originalInputsAvailable hg.2⟩

theorem registerWorker {w : WorkerId} (hw : ctx.workerBoots.find? w = none) (boot : WorkerBootId) :
    (ctx.registerWorker w boot).Extends ctx := by
  refine ⟨rfl,rfl,rfl,rfl,rfl,rfl,rfl,fun w' b hb => ?_,Finset.subset_insert w ctx.aliveWorkers,
    fun _ amount h => ⟨amount,h,le_rfl⟩,Finset.Subset.refl _,Finset.Subset.refl _⟩
  have hne : w' ≠ w := by
    rintro rfl
    rw [hw] at hb
    exact absurd hb (by simp)
  simp [PlannerContext.registerWorker,hne,hb]

end PlannerContext.Extends

theorem not_mono {a' a : Bool} (h : a = true → a' = true) : (!a') = true → (!a) = true := by
  cases a <;> simp_all

section Sections

open FeasFlags

variable {ctx' ctx : PlannerContext} (hx : ctx'.Extends ctx) (c : RecoveryCandidate)
  (request : RecoveryRequest) {f' f : FeasFlags} (h : f'.NoWorse f)

include h

theorem checkIdentity_noWorse : (checkIdentity c f').NoWorse (checkIdentity c f) :=
  (h.hardIf id).hardIf id

theorem checkState_noWorse : (checkState c f').NoWorse (checkState c f) := by
  unfold checkState
  cases c.state with
  | none =>
    cases c.checkpoint with
    | none => exact h.insufficientIf fun _ => id
    | some ck => exact (h.insufficientIf fun _ => id).hardIf id
  | some st =>
    cases c.checkpoint with
    | none =>
      refine NoWorse.hardIf (NoWorse.insufficientIf (NoWorse.revalidationIf ?_ id) fun _ => id) id
      exact ((h.hardIf id).hardIf id).insufficientIf fun _ => id
    | some ck =>
      refine NoWorse.hardIf (NoWorse.hardIf (NoWorse.insufficientIf ?_ fun _ => id) id) id
      exact (((h.hardIf id).hardIf id).insufficientIf fun _ => id).revalidationIf id

theorem checkShadow_noWorse : (checkShadow c f').NoWorse (checkShadow c f) := by
  unfold checkShadow
  by_cases hm : c.strategy ≠ .shadowPromote
  · rw [if_pos hm,if_pos hm]
    exact h
  · rw [if_neg hm,if_neg hm]
    cases c.shadow with
    | none => exact h.insufficientIf fun _ => id
    | some sh => exact ((h.hardIf id).hardIf id).hardIf id

include hx

theorem checkAuthority_noWorse :
    (checkAuthority c request ctx' f').NoWorse (checkAuthority c request ctx f) := by
  unfold checkAuthority
  cases c.authority with
  | none =>
    cases c.state with
    | none => exact h.insufficientIf fun _ => id
    | some st => exact (h.insufficientIf fun _ => id).hardIf id
  | some a =>
    rw [hx.epoch,hx.policyGeneration]
    cases c.state with
    | none => exact (h.hardIf id).hardIf id
    | some st => exact ((h.hardIf id).hardIf id).hardIf id

theorem checkCompatibility_noWorse :
    (checkCompatibility c request ctx' f').NoWorse (checkCompatibility c request ctx f) := by
  unfold checkCompatibility
  cases c.compatibility with
  | none => exact h.insufficientIf fun _ => id
  | some co =>
    simp only [hx.isCompatible,hx.compatibilityGeneration,hx.compatibilityTable]
    refine NoWorse.hardIf (NoWorse.revalidationIf (NoWorse.insufficientIf ?_ fun _ => id) id) id
    exact (h.hardIf id).hardIf id

theorem checkAvailability_noWorse :
    (checkAvailability c ctx' f').NoWorse (checkAvailability c ctx f) := by
  unfold checkAvailability
  by_cases hm : c.strategy = .recompute
  · rw [if_pos hm,if_pos hm]
    exact h
  · rw [if_neg hm,if_neg hm]
    cases c.availability with
    | none => exact h.insufficientIf fun _ => id
    | some av =>
      have hlive : (!av.isAlive || !ctx'.workerIsCurrent av.worker) = true →
          (!av.isAlive || !ctx.workerIsCurrent av.worker) = true := by
        have hc := not_mono (hx.workerIsCurrent (w := av.worker))
        cases av.isAlive with
        | false => exact id
        | true => exact hc
      refine NoWorse.revalidationIf (NoWorse.insufficientIf ?_ fun _ => id) id
      refine NoWorse.insufficientIf (NoWorse.deferIf (NoWorse.hardIf ?_ id) id) fun _ => id
      exact (h.hardIf hlive).hardIf (not_mono hx.workerBootMatches)

/-- The one check that an earlier flag can switch on: it runs only where nothing has made the
candidate infeasible, and there the poorer world runs it too. -/
theorem bindResource_noWorse (rs : ResourceEvidence) (required : UInt64) :
    (bindResource rs required ctx' f').NoWorse (bindResource rs required ctx f) := by
  unfold bindResource
  have hs := hx.resourceSufficient rs.resourceKind required
  obtain ⟨h1,h2,h3,h4⟩ := h
  cases hi : f.infeasible <;> cases hi' : f'.infeasible <;>
    cases hr : ctx.resourceSufficient rs.resourceKind required <;>
    cases hr' : ctx'.resourceSufficient rs.resourceKind required <;>
    cases rs.resourceKind.isEmpty <;> constructor <;>
    simp_all [FeasFlags.note,FeasFlags.insufficientIf]

theorem checkResource_noWorse :
    (checkResource c ctx' f').NoWorse (checkResource c ctx f) := by
  unfold checkResource
  cases c.resource with
  | none => exact h.insufficientIf fun _ => id
  | some rs =>
    simp only [hx.resourceGeneration]
    have hend : ∀ {g' g : FeasFlags}, g'.NoWorse g →
        (((g'.insufficientIf (rs.status = .unknown)).revalidationIf
          (revalidationNeeded rs.evidenceMeta)).insufficientIf
            (staleOrExpired rs.evidenceMeta)).NoWorse
        (((g.insufficientIf (rs.status = .unknown)).revalidationIf
          (revalidationNeeded rs.evidenceMeta)).insufficientIf
            (staleOrExpired rs.evidenceMeta)) :=
      fun hg => ((hg.insufficientIf fun _ => id).revalidationIf id).insufficientIf fun _ => id
    cases rs.required with
    | none => exact hend ((h.hardIf id).hardIf id)
    | some required =>
      cases rs.available with
      | none => exact hend (((h.hardIf id).hardIf id).insufficientIf fun _ => id)
      | some available =>
        exact hend (bindResource_noWorse hx (((h.hardIf id).hardIf id).hardIf id) rs required)

theorem checkMigration_noWorse :
    (checkMigration c ctx' f').NoWorse (checkMigration c ctx f) := by
  unfold checkMigration
  by_cases hm : c.strategy ≠ .migrate
  · rw [if_pos hm,if_pos hm]
    exact h
  · rw [if_neg hm,if_neg hm,hx.topologyGeneration]
    cases c.topology with
    | none =>
      cases c.state <;> cases c.transfer
      · refine NoWorse.insufficientIf (NoWorse.note (NoWorse.note ?_)) fun _ => id
        exact ((h.insufficientIf fun _ => id).hardIf id).insufficientIf fun _ => id
      · exact (((h.insufficientIf fun _ => id).hardIf id).insufficientIf fun _ => id).note
      · refine NoWorse.insufficientIf (NoWorse.note (NoWorse.insufficientIf ?_ fun _ => id))
          fun _ => id
        exact (h.insufficientIf fun _ => id).hardIf id
      · exact ((h.insufficientIf fun _ => id).hardIf id).insufficientIf fun _ => id
    | some tp =>
      cases c.state <;> cases c.transfer
      · refine NoWorse.insufficientIf (NoWorse.note (NoWorse.note ?_)) fun _ => id
        exact (((h.hardIf id).hardIf id).hardIf id).insufficientIf fun _ => id
      · exact ((((h.hardIf id).hardIf id).hardIf id).insufficientIf fun _ => id).note
      · refine NoWorse.insufficientIf (NoWorse.note (NoWorse.insufficientIf ?_ fun _ => id))
          fun _ => id
        exact ((h.hardIf id).hardIf id).hardIf id
      · exact (((h.hardIf id).hardIf id).hardIf id).insufficientIf fun _ => id

theorem checkRecompute_noWorse :
    (checkRecompute c request ctx' f').NoWorse (checkRecompute c request ctx f) := by
  unfold checkRecompute
  by_cases hm : c.strategy = .recompute
  · rw [if_pos hm,if_pos hm]
    refine NoWorse.insufficientIf (NoWorse.insufficientIf ?_ fun _ => id) fun _ => id
    exact h.hardIf (not_mono hx.recomputeAvailable)
  · rw [if_neg hm,if_neg hm]
    exact h.insufficientIf fun _ => id

end Sections

theorem evaluate_severity {ctx' ctx : PlannerContext} (hx : ctx'.Extends ctx)
    (c : RecoveryCandidate) (request : RecoveryRequest) :
    (evaluateFeasibility c request ctx').result.severity ≤
      (evaluateFeasibility c request ctx).result.severity := by
  unfold evaluateFeasibility
  by_cases hf : c.strategy ∈ request.forbiddenStrategies
  · rw [if_pos hf,if_pos hf]
  · rw [if_neg hf,if_neg hf]
    have h1 := checkIdentity_noWorse c (FeasFlags.NoWorse.refl {})
    have h2 := checkAuthority_noWorse hx c request h1
    have h3 := checkCompatibility_noWorse hx c request (checkState_noWorse c h2)
    have h4 := checkResource_noWorse hx c (checkAvailability_noWorse hx c h3)
    have h5 := checkShadow_noWorse c (checkMigration_noWorse hx c h4)
    exact (checkRecompute_noWorse hx c request h5).severity

theorem feasible_of_extends {ctx' ctx : PlannerContext} (hx : ctx'.Extends ctx)
    {request : RecoveryRequest} {c : RecoveryCandidate} (h : feasible ctx request c = true) :
    feasible ctx' request c = true := by
  simp only [feasible,FeasibilityEvaluation.isFeasible,decide_eq_true_eq] at h ⊢
  have hle := evaluate_severity hx c request
  rw [h] at hle
  cases hr : (evaluateFeasibility c request ctx').result with
  | feasible => rfl
  | _ =>
    rw [hr] at hle
    exact absurd hle (by decide)

theorem keyOf_request (request request' : RecoveryRequest) (now : Timestamp)
    (c : RecoveryCandidate) : keyOf request now c = keyOf request' now c := by
  unfold keyOf rankKey computeEconomics
  cases c.cost with
  | none =>
    cases request.maxToleratedProgressLoss <;> cases request'.maxToleratedProgressLoss <;> rfl
  | some cost =>
    cases hl : cost.expectedLostProgress <;> cases request.maxToleratedProgressLoss <;>
      cases request'.maxToleratedProgressLoss <;> simp [costEconomics,hl]

theorem plan_improves (std std' : StdSort) {im im' : Impl} {request request' : RecoveryRequest}
    {now : Timestamp} {cs : List RecoveryCandidate}
    (he : ∀ c, eligible im.ctx request now c = true → eligible im'.ctx request' now c = true)
    (h : (im.plan std now request cs).1.outcome = .planFound) :
    (im'.plan std' now request' cs).1.outcome = .planFound ∧
    ∃ c ∈ cs, ∃ c' ∈ cs, ∃ p p', (im.plan std now request cs).1.Chooses im request now c p ∧
      (im'.plan std' now request' cs).1.Chooses im' request' now c' p' ∧
      candidatePrecedes c c' p.economics p'.economics = false := by
  have hE := Impl.plan_found_iff.mp h
  obtain ⟨x,hx⟩ := List.exists_mem_of_ne_nil _ hE
  have hE' : cs.filter (eligible im'.ctx request' now) ≠ [] :=
    List.ne_nil_of_mem (List.mem_filter.mpr
      ⟨List.mem_of_mem_filter hx,he x (List.mem_filter.mp hx).2⟩)
  refine ⟨Impl.plan_found_iff.mpr hE',?_⟩
  rcases im.plan_chooses std now request cs with ⟨_,hn⟩ | ⟨c,p,hp,hc⟩
  · unfold choices at hn
    rw [if_neg hE] at hn
    exact absurd hn hE
  rcases im'.plan_chooses std' now request' cs with ⟨_,hn⟩ | ⟨c',p',hp',hc'⟩
  · unfold choices at hn
    rw [if_neg hE'] at hn
    exact absurd hn hE'
  refine ⟨c,mem_of_choices hc.mem,c',mem_of_choices hc'.mem,p,p',hp,hp',?_⟩
  unfold choices at hc hc'
  rw [if_neg hE] at hc
  rw [if_neg hE'] at hc'
  -- The old winner is among those that the new one was chosen from.
  obtain ⟨hmem,hel⟩ := List.mem_filter.mp hc.mem
  have hfirst := hc'.first c (List.mem_filter.mpr ⟨hmem,he c hel⟩)
  rw [← Bool.not_eq_true,precedes_iff,keyOf_request request' request now c] at hfirst
  rw [hp.economics,hp'.economics,← Bool.not_eq_true,candidatePrecedes_iff]
  exact hfirst

/-- A richer world makes no candidate worse, so a plan that was found is still found and its
winner is not preferred to the new one. -/
theorem plan_in_richer_world {ctx' ctx : PlannerContext} (hx : ctx'.Extends ctx) :
    (∀ (c : RecoveryCandidate) (request : RecoveryRequest),
      (evaluateFeasibility c request ctx').result.severity ≤
        (evaluateFeasibility c request ctx).result.severity) ∧
    ∀ (std std' : StdSort) (im im' : Impl) (now : Timestamp) (request : RecoveryRequest)
      (cs : List RecoveryCandidate), im.ctx = ctx → im'.ctx = ctx' →
      (im.plan std now request cs).1.outcome = .planFound →
      (im'.plan std' now request cs).1.outcome = .planFound ∧
      ∃ c ∈ cs, ∃ c' ∈ cs, ∃ p p', (im.plan std now request cs).1.Chooses im request now c p ∧
        (im'.plan std' now request cs).1.Chooses im' request now c' p' ∧
        candidatePrecedes c c' p.economics p'.economics = false := by
  refine ⟨evaluate_severity hx,?_⟩
  rintro std std' im im' now request cs rfl rfl hfound
  refine plan_improves std std' (fun c hc => ?_) hfound
  rw [eligible_iff] at hc ⊢
  exact ⟨feasible_of_extends hx hc.1,hc.2⟩

theorem plan_in_richer_world_joined :
    let im := (Impl.construct false).registerWorker ⟨1⟩ ⟨1⟩
    let im' := im.registerWorker ⟨2⟩ ⟨1⟩
    let other := { Session.readyCandidate with
      candidateId := ⟨2⟩
      targetWorker := ⟨2⟩
      availability := some { worker := ⟨2⟩, boot := ⟨1⟩, isAlive := true, readiness := .ready } }
    im'.ctx.Extends im.ctx ∧
    (evaluateFeasibility other (Session.requestNo 1) im.ctx).result = .infeasible ∧
    (evaluateFeasibility other (Session.requestNo 1) im'.ctx).result = .feasible ∧
    (im.plan .insertion ⟨0⟩ (Session.requestNo 1) [other,Session.readyCandidate]).1.outcome =
      .planFound ∧
    (im'.plan .insertion ⟨0⟩ (Session.requestNo 1) [other,Session.readyCandidate]).1.outcome =
      .planFound := by
  intro im im' other
  have hx : im'.ctx.Extends im.ctx := .registerWorker (by decide +kernel) ⟨1⟩
  have hfound : (im.plan .insertion ⟨0⟩ (Session.requestNo 1)
      [other,Session.readyCandidate]).1.outcome = .planFound := by decide +kernel
  exact ⟨hx,by decide +kernel,by decide +kernel,hfound,
    ((plan_in_richer_world hx).2 .insertion .insertion im im' ⟨0⟩ (Session.requestNo 1)
      [other,Session.readyCandidate] rfl rfl hfound).1⟩

structure RecoveryRequest.Relaxes (request' request : RecoveryRequest) : Prop where
  deadline : ∃ d d', request.recoveryDeadline = some d ∧ request'.recoveryDeadline = some d' ∧
    d.value ≤ d'.value
  tolerance : (request.maxToleratedProgressLoss = none ∧
      request'.maxToleratedProgressLoss = none) ∨
    ∃ t t', request.maxToleratedProgressLoss = some t ∧
      request'.maxToleratedProgressLoss = some t' ∧ t.value ≤ t'.value
  rest : request' = { request with
    recoveryDeadline := request'.recoveryDeadline
    maxToleratedProgressLoss := request'.maxToleratedProgressLoss }

theorem feasible_of_relaxes {request' request : RecoveryRequest} (h : request'.Relaxes request)
    (ctx : PlannerContext) (c : RecoveryCandidate) :
    feasible ctx request' c = feasible ctx request c := by
  rw [h.rest]
  rfl

theorem requestDeadline_absolute {request : RecoveryRequest} {d : Timestamp}
    (h : request.recoveryDeadline = some d) (now : Timestamp) :
    requestDeadline request now = some d := by
  simp [requestDeadline,h]

theorem hardFeasible_of_relaxes {request' request : RecoveryRequest}
    (h : request'.Relaxes request) {c : RecoveryCandidate} {now : Timestamp}
    (hf : (evaluateDeadline c request now).outcome = .hardFeasible) :
    (evaluateDeadline c request' now).outcome = .hardFeasible := by
  obtain ⟨d,d',hd,hd',hle⟩ := h.deadline
  rw [hardFeasible_iff (requestDeadline_absolute hd now)] at hf
  rw [hardFeasible_iff (requestDeadline_absolute hd' now)]
  obtain ⟨e,he,hcomp⟩ := hf
  refine ⟨e,he,Int64.le_trans hcomp ?_⟩
  rw [Int64.le_iff_toInt_le] at hle ⊢
  simp only [Int64.lt_iff_toInt_lt]
  split <;> split <;> omega

theorem withinTolerance_of_relaxes {request' request : RecoveryRequest}
    (h : request'.Relaxes request) {c : RecoveryCandidate} {now : Timestamp}
    (hw : request.hardProgress = true →
      (computeEconomics c request now).progressLossWithinTolerance = true)
    (hp : request'.hardProgress = true) :
    (computeEconomics c request' now).progressLossWithinTolerance = true := by
  rcases h.tolerance with ⟨_,hn⟩ | ⟨t,t',ht,ht',hle⟩
  · exact absurd hp (by simp [RecoveryRequest.hardProgress,hn])
  · have hw := hw (by simp [RecoveryRequest.hardProgress,ht])
    cases hl : c.cost.bind CostEvidence.expectedLostProgress with
    | none => exact withinTolerance_unknown request' now hl
    | some lost =>
      rw [withinTolerance_iff ht hl] at hw
      rw [withinTolerance_iff ht' hl]
      exact UInt64.le_trans hw hle

/-- A later deadline and a larger tolerance lose no plan and no better winner. -/
theorem plan_relaxed (std std' : StdSort) {im im' : Impl} (hctx : im.ctx = im'.ctx)
    {request' request : RecoveryRequest} (h : request'.Relaxes request) (now : Timestamp)
    (cs : List RecoveryCandidate)
    (hfound : (im.plan std now request cs).1.outcome = .planFound) :
    (im'.plan std' now request' cs).1.outcome = .planFound ∧
    ∃ c ∈ cs, ∃ c' ∈ cs, ∃ p p', (im.plan std now request cs).1.Chooses im request now c p ∧
      (im'.plan std' now request' cs).1.Chooses im' request' now c' p' ∧
      candidatePrecedes c c' p.economics p'.economics = false := by
  refine plan_improves std std' (fun c hc => ?_) hfound
  obtain ⟨d,d',hd,hd',_⟩ := h.deadline
  rw [eligible_iff] at hc ⊢
  rw [← hctx,feasible_of_relaxes h]
  exact ⟨hc.1,fun _ => hardFeasible_of_relaxes h (hc.2.1
    (hardDeadline_of_requestDeadline (requestDeadline_absolute hd now))),
    withinTolerance_of_relaxes h hc.2.2⟩

def carefulCandidate : RecoveryCandidate :=
  { Session.readyCandidate with
    candidateId := ⟨2⟩
    cost := some { expectedTime := some ⟨50⟩, expectedLostProgress := some ⟨0⟩ } }

def hastyCandidate : RecoveryCandidate :=
  { Session.readyCandidate with
    cost := some { expectedTime := some ⟨5⟩, expectedLostProgress := some ⟨9⟩ } }

def requestBy (deadline : Int64) : RecoveryRequest :=
  { Session.requestNo 1 with recoveryDeadline := some ⟨deadline⟩ }

theorem plan_relaxed_winner :
    let im := (Impl.construct false).registerWorker ⟨1⟩ ⟨1⟩
    (requestBy 60).Relaxes (requestBy 20) ∧
    ∃ p p', (im.plan .insertion ⟨0⟩ (requestBy 20) [carefulCandidate,hastyCandidate]).1.plan =
        some p ∧
      (im.plan .insertion ⟨0⟩ (requestBy 60) [carefulCandidate,hastyCandidate]).1.plan = some p' ∧
      p.candidateId = ⟨1⟩ ∧ p'.candidateId = ⟨2⟩ ∧
      (im.plan .insertion ⟨0⟩ (requestBy 60) [carefulCandidate,hastyCandidate]).1.outcome =
        .planFound := by
  intro im
  have hr : (requestBy 60).Relaxes (requestBy 20) :=
    ⟨⟨⟨20⟩,⟨60⟩,rfl,rfl,by decide⟩,.inl ⟨rfl,rfl⟩,rfl⟩
  have hid : (im.plan .insertion ⟨0⟩ (requestBy 20)
      [carefulCandidate,hastyCandidate]).1.plan.map RecoveryPlan.candidateId = some ⟨1⟩ := by
    decide +kernel
  have hid' : (im.plan .insertion ⟨0⟩ (requestBy 60)
      [carefulCandidate,hastyCandidate]).1.plan.map RecoveryPlan.candidateId = some ⟨2⟩ := by
    decide +kernel
  obtain ⟨ho,c,_,c',_,p,p',hp,hp',_⟩ := plan_relaxed .insertion .insertion (Eq.refl im.ctx) hr ⟨0⟩
    [carefulCandidate,hastyCandidate] (by decide +kernel)
  rw [hp.plan] at hid
  rw [hp'.plan] at hid'
  exact ⟨hr,p,p',hp.plan,hp'.plan,Option.some.inj hid,Option.some.inj hid',ho⟩

end RecoveryPlanner
