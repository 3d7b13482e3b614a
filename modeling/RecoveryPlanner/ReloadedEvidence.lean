import RecoveryPlanner.EvidenceGaps
import RecoveryPlanner.Relaxation
set_option autoImplicit false

/-! Evidence that comes back from durable storage: what `mark_revalidation_required` does to
a candidate's records, and what the evaluator then makes of the candidate. -/

namespace RecoveryPlanner

def RecoveryCandidate.metas (c : RecoveryCandidate) : List EvidenceMeta :=
  c.state.toList.map (fun e => e.evidenceMeta) ++
  c.compatibility.toList.map (fun e => e.evidenceMeta) ++
  c.availability.toList.map (fun e => e.evidenceMeta) ++
  c.resource.toList.map (fun e => e.evidenceMeta) ++
  c.topology.toList.map (fun e => e.evidenceMeta) ++
  c.transfer.toList.map (fun e => e.evidenceMeta) ++
  c.checkpoint.toList.map (fun e => e.evidenceMeta) ++
  c.shadow.toList.map (fun e => e.evidenceMeta) ++
  c.progress.toList.map (fun e => e.evidenceMeta) ++
  c.cost.toList.map (fun e => e.evidenceMeta) ++
  c.authority.toList.map (fun e => e.evidenceMeta)

def RecoveryCandidate.marked (c : RecoveryCandidate) : RecoveryCandidate :=
  { c with
    state := c.state.map fun e =>
      { e with evidenceMeta := e.evidenceMeta.markRevalidationRequired }
    compatibility := c.compatibility.map fun e =>
      { e with evidenceMeta := e.evidenceMeta.markRevalidationRequired }
    availability := c.availability.map fun e =>
      { e with evidenceMeta := e.evidenceMeta.markRevalidationRequired }
    resource := c.resource.map fun e =>
      { e with evidenceMeta := e.evidenceMeta.markRevalidationRequired }
    topology := c.topology.map fun e =>
      { e with evidenceMeta := e.evidenceMeta.markRevalidationRequired }
    transfer := c.transfer.map fun e =>
      { e with evidenceMeta := e.evidenceMeta.markRevalidationRequired }
    checkpoint := c.checkpoint.map fun e =>
      { e with evidenceMeta := e.evidenceMeta.markRevalidationRequired }
    shadow := c.shadow.map fun e =>
      { e with evidenceMeta := e.evidenceMeta.markRevalidationRequired }
    progress := c.progress.map fun e =>
      { e with evidenceMeta := e.evidenceMeta.markRevalidationRequired }
    cost := c.cost.map fun e =>
      { e with evidenceMeta := e.evidenceMeta.markRevalidationRequired }
    authority := c.authority.map fun e =>
      { e with evidenceMeta := e.evidenceMeta.markRevalidationRequired } }

/-- What reloaded evidence must not do: make a candidate FEASIBLE, improve its verdict, or
lose a STALE or EXPIRED marker. -/
structure Pessimistic (c : RecoveryCandidate) (request : RecoveryRequest)
    (ctx : PlannerContext) : Prop where
  unfeasible : (evaluateFeasibility c.marked request ctx).result ≠ .feasible
  severity : (evaluateFeasibility c request ctx).result.severity ≤
    (evaluateFeasibility c.marked request ctx).result.severity
  preserved : ∀ pair ∈ c.metas.zip c.marked.metas, staleOrExpired pair.1 = true →
    pair.2.freshness = pair.1.freshness

def RecoveryCandidate.NoneStale (c : RecoveryCandidate) : Prop :=
  ∀ m ∈ c.metas, staleOrExpired m = false

/-- The records whose freshness the evaluator looks at are all CURRENT. -/
structure RecoveryCandidate.OnCurrent (c : RecoveryCandidate) : Prop where
  state : ∀ st, c.state = some st → st.evidenceMeta.freshness = .current
  compatibility : ∀ co, c.compatibility = some co → co.evidenceMeta.freshness = .current
  availability : c.strategy ≠ .recompute → ∀ av, c.availability = some av →
    av.evidenceMeta.freshness = .current
  resource : ∀ rs, c.resource = some rs → rs.evidenceMeta.freshness = .current

theorem metas_marked (c : RecoveryCandidate) :
    c.marked.metas = c.metas.map EvidenceMeta.markRevalidationRequired := by
  have hmap {α : Type} (f : α → EvidenceMeta) (g : α → α)
      (h : ∀ x, f (g x) = (f x).markRevalidationRequired) (o : Option α) :
      (o.map g).toList.map f = (o.toList.map f).map EvidenceMeta.markRevalidationRequired := by
    cases o <;> simp [h]
  simp only [RecoveryCandidate.metas,RecoveryCandidate.marked,List.map_append]
  iterate 10 refine congrArg₂ (· ++ ·) ?_ (hmap _ _ (by intro x; rfl) _)
  exact hmap _ _ (by intro x; rfl) _

namespace EvidenceMeta

/-- The guard is the wrong way round: only CURRENT is left alone. -/
theorem marked_freshness (m : EvidenceMeta) : m.markRevalidationRequired.freshness =
    if m.freshness = .current then .current else .revalidationRequired := by
  unfold markRevalidationRequired
  by_cases h : m.freshness = .current <;> simp [h]

theorem marked_unmarked (m : EvidenceMeta) :
    m.markRevalidationRequired.Unmarked ↔ m.freshness = .current := by
  rw [Unmarked,marked_freshness]
  by_cases h : m.freshness = .current <;> simp [h]

theorem marked_revalidation (m : EvidenceMeta) :
    revalidationNeeded m.markRevalidationRequired = false ↔ m.freshness = .current := by
  rw [revalidationNeeded,marked_freshness]
  by_cases h : m.freshness = .current <;> simp [h]

theorem revalidation_kept (m : EvidenceMeta) (h : revalidationNeeded m = true) :
    revalidationNeeded m.markRevalidationRequired = true := by
  simp only [revalidationNeeded,decide_eq_true_eq] at h
  simp [revalidationNeeded,marked_freshness,h]

end EvidenceMeta

theorem preserved_iff (c : RecoveryCandidate) :
    (∀ pair ∈ c.metas.zip c.marked.metas, staleOrExpired pair.1 = true →
      pair.2.freshness = pair.1.freshness) ↔ c.NoneStale := by
  have hzip : c.metas.zip c.marked.metas =
      c.metas.map fun m => (m,m.markRevalidationRequired) := by
    have hid := List.zip_map' (f := id) (g := EvidenceMeta.markRevalidationRequired) (l := c.metas)
    rwa [List.map_id,← metas_marked] at hid
  rw [hzip,RecoveryCandidate.NoneStale]
  simp only [List.forall_mem_map,EvidenceMeta.marked_freshness]
  refine forall₂_congr fun m _ => ?_
  cases hm : m.freshness <;> simp [staleOrExpired,hm]

section Sections

open FeasFlags

variable (c : RecoveryCandidate) (request : RecoveryRequest) (ctx : PlannerContext)
  {f' f : FeasFlags} (h : f'.NoWorse f)

include h

theorem checkAuthority_marked :
    (checkAuthority c request ctx f').NoWorse (checkAuthority c.marked request ctx f) := by
  unfold checkAuthority
  cases ha : c.authority with
  | none =>
    cases hs : c.state with
    | none =>
      simp only [RecoveryCandidate.marked,ha,hs,Option.map_none]
      exact h.insufficientIf fun _ => id
    | some st =>
      simp only [RecoveryCandidate.marked,ha,hs,Option.map_none,Option.map_some]
      exact (h.insufficientIf fun _ => id).hardIf id
  | some a =>
    cases hs : c.state with
    | none =>
      simp only [RecoveryCandidate.marked,ha,hs,Option.map_none,Option.map_some]
      exact (h.hardIf id).hardIf id
    | some st =>
      simp only [RecoveryCandidate.marked,ha,hs,Option.map_some]
      exact ((h.hardIf id).hardIf id).hardIf id

theorem checkState_marked (hs : ∀ st, c.state = some st → staleOrExpired st.evidenceMeta = false) :
    (checkState c f').NoWorse (checkState c.marked f) := by
  unfold checkState
  cases hst : c.state with
  | none =>
    cases hck : c.checkpoint with
    | none =>
      simp only [RecoveryCandidate.marked,hst,hck,Option.map_none]
      exact h.insufficientIf fun _ => id
    | some ck =>
      simp only [RecoveryCandidate.marked,hst,hck,Option.map_none,Option.map_some]
      exact (h.insufficientIf fun _ => id).hardIf id
  | some st =>
    have hns := hs st hst
    have hexp : decide (st.evidenceMeta.freshness = .expired) = false := by
      simp only [staleOrExpired,Bool.or_eq_false_iff] at hns
      exact hns.2
    have hkept := st.evidenceMeta.revalidation_kept
    have hfresh : ((((f'.hardIf (st.integrity = .corrupt) .invalidStateIntegrity
        (text "state integrity is CORRUPT")).hardIf (st.evidenceMeta.freshness = .expired)
          .expiredState (text "state evidence is EXPIRED")).insufficientIf
          (staleOrExpired st.evidenceMeta)).revalidationIf
          (revalidationNeeded st.evidenceMeta)).NoWorse
        ((((f.hardIf (st.integrity = .corrupt) .invalidStateIntegrity
        (text "state integrity is CORRUPT")).hardIf
          (st.evidenceMeta.markRevalidationRequired.freshness = .expired)
          .expiredState (text "state evidence is EXPIRED")).insufficientIf
          (staleOrExpired st.evidenceMeta.markRevalidationRequired)).revalidationIf
          (revalidationNeeded st.evidenceMeta.markRevalidationRequired)) := by
      refine NoWorse.revalidationIf (NoWorse.insufficientIf (NoWorse.hardIf (h.hardIf id) ?_) ?_)
        hkept
      · rw [hexp]
        exact fun hf => absurd hf (by simp)
      · rw [hns]
        exact fun _ hf => absurd hf (by simp)
    cases hck : c.checkpoint with
    | none =>
      simp only [RecoveryCandidate.marked,hst,hck,Option.map_none,Option.map_some]
      exact (hfresh.insufficientIf fun _ => id).hardIf id
    | some ck =>
      simp only [RecoveryCandidate.marked,hst,hck,Option.map_some]
      exact ((hfresh.insufficientIf fun _ => id).hardIf id).hardIf id

theorem checkCompatibility_marked :
    (checkCompatibility c request ctx f').NoWorse (checkCompatibility c.marked request ctx f) := by
  unfold checkCompatibility
  cases hc : c.compatibility with
  | none =>
    simp only [RecoveryCandidate.marked,hc,Option.map_none]
    exact h.insufficientIf fun _ => id
  | some co =>
    simp only [RecoveryCandidate.marked,hc,Option.map_some]
    refine NoWorse.hardIf (NoWorse.revalidationIf ?_ co.evidenceMeta.revalidation_kept) id
    exact ((h.hardIf id).hardIf id).insufficientIf fun _ => id

theorem checkAvailability_marked
    (hs : ∀ av, c.availability = some av → staleOrExpired av.evidenceMeta = false) :
    (checkAvailability c ctx f').NoWorse (checkAvailability c.marked ctx f) := by
  unfold checkAvailability
  by_cases hm : c.strategy = .recompute
  · rw [if_pos hm,if_pos (show c.marked.strategy = .recompute from hm)]
    exact h
  · rw [if_neg hm,if_neg (show ¬ c.marked.strategy = .recompute from hm)]
    cases ha : c.availability with
    | none =>
      simp only [RecoveryCandidate.marked,ha,Option.map_none]
      exact h.insufficientIf fun _ => id
    | some av =>
      have hns := hs av ha
      simp only [RecoveryCandidate.marked,ha,Option.map_some]
      refine NoWorse.revalidationIf (NoWorse.insufficientIf ?_ ?_)
        av.evidenceMeta.revalidation_kept
      · exact ((((h.hardIf id).hardIf id).hardIf id).deferIf id).insufficientIf fun _ => id
      · rw [hns]
        exact fun _ hf => absurd hf (by simp)

theorem bindResource_marked (rs : ResourceEvidence) (m : EvidenceMeta) (required : UInt64) :
    (bindResource rs required ctx f').NoWorse
      (bindResource { rs with evidenceMeta := m } required ctx f) :=
  bindResource_noWorse (PlannerContext.Extends.refl ctx) h rs required

theorem checkResource_marked
    (hs : ∀ rs, c.resource = some rs → staleOrExpired rs.evidenceMeta = false) :
    (checkResource c ctx f').NoWorse (checkResource c.marked ctx f) := by
  unfold checkResource
  cases hr : c.resource with
  | none =>
    simp only [RecoveryCandidate.marked,hr,Option.map_none]
    exact h.insufficientIf fun _ => id
  | some rs =>
    have hns := hs rs hr
    have hend : ∀ {g' g : FeasFlags}, g'.NoWorse g →
        (((g'.insufficientIf (rs.status = .unknown)).revalidationIf
          (revalidationNeeded rs.evidenceMeta)).insufficientIf
            (staleOrExpired rs.evidenceMeta)).NoWorse
        (((g.insufficientIf (rs.status = .unknown)).revalidationIf
          (revalidationNeeded rs.evidenceMeta.markRevalidationRequired)).insufficientIf
            (staleOrExpired rs.evidenceMeta.markRevalidationRequired)) := by
      intro g' g hg
      refine NoWorse.insufficientIf (NoWorse.revalidationIf (hg.insufficientIf fun _ => id)
        rs.evidenceMeta.revalidation_kept) ?_
      rw [hns]
      exact fun _ hf => absurd hf (by simp)
    simp only [RecoveryCandidate.marked,hr,Option.map_some]
    cases rs.required with
    | none => exact hend ((h.hardIf id).hardIf id)
    | some required =>
      cases rs.available with
      | none => exact hend (((h.hardIf id).hardIf id).insufficientIf fun _ => id)
      | some available =>
        exact hend (bindResource_marked ctx (((h.hardIf id).hardIf id).hardIf id) rs
          rs.evidenceMeta.markRevalidationRequired required)

theorem checkMigration_marked :
    (checkMigration c ctx f').NoWorse (checkMigration c.marked ctx f) := by
  have hsame := checkMigration_noWorse (PlannerContext.Extends.refl ctx) c h
  have hmarked : checkMigration c.marked ctx f = checkMigration c ctx f := by
    unfold checkMigration
    cases ht : c.topology <;> cases hs : c.state <;> cases hx : c.transfer <;>
      simp [RecoveryCandidate.marked,ht,hs,hx]
  rw [hmarked]
  exact hsame

theorem checkShadow_marked : (checkShadow c f').NoWorse (checkShadow c.marked f) := by
  have hmarked : checkShadow c.marked f = checkShadow c f := by
    unfold checkShadow
    cases hs : c.shadow <;> simp [RecoveryCandidate.marked,hs]
  rw [hmarked]
  exact checkShadow_noWorse c h

theorem checkRecompute_marked :
    (checkRecompute c request ctx f').NoWorse (checkRecompute c.marked request ctx f) := by
  have hcost : c.marked.cost.bind CostEvidence.recomputeTime =
      c.cost.bind CostEvidence.recomputeTime := by
    change (c.cost.map _).bind CostEvidence.recomputeTime = _
    cases c.cost <;> rfl
  have hstate : c.marked.state.isNone = c.state.isNone := Option.isNone_map
  have hmarked : checkRecompute c.marked request ctx f = checkRecompute c request ctx f := by
    unfold checkRecompute
    rw [hcost,hstate]
    rfl
  rw [hmarked]
  exact checkRecompute_noWorse (PlannerContext.Extends.refl ctx) c request h

end Sections

theorem RecoveryCandidate.NoneStale.state {c : RecoveryCandidate} (h : c.NoneStale)
    (st : StateEvidence) (hs : c.state = some st) : staleOrExpired st.evidenceMeta = false :=
  h _ (by simp [RecoveryCandidate.metas,hs])

theorem RecoveryCandidate.NoneStale.availability {c : RecoveryCandidate} (h : c.NoneStale)
    (av : AvailabilityEvidence) (ha : c.availability = some av) :
    staleOrExpired av.evidenceMeta = false :=
  h _ (by simp [RecoveryCandidate.metas,ha])

theorem RecoveryCandidate.NoneStale.resource {c : RecoveryCandidate} (h : c.NoneStale)
    (rs : ResourceEvidence) (hr : c.resource = some rs) : staleOrExpired rs.evidenceMeta = false :=
  h _ (by simp [RecoveryCandidate.metas,hr])

theorem marked_severity {c : RecoveryCandidate} (h : c.NoneStale) (request : RecoveryRequest)
    (ctx : PlannerContext) : (evaluateFeasibility c request ctx).result.severity ≤
      (evaluateFeasibility c.marked request ctx).result.severity := by
  unfold evaluateFeasibility
  by_cases hf : c.strategy ∈ request.forbiddenStrategies
  · rw [if_pos hf,if_pos (show c.marked.strategy ∈ request.forbiddenStrategies from hf)]
    exact Nat.le_refl _
  · rw [if_neg hf,if_neg (show c.marked.strategy ∉ request.forbiddenStrategies from hf)]
    have h1 : (checkIdentity c {}).NoWorse (checkIdentity c.marked {}) :=
      checkIdentity_noWorse c (FeasFlags.NoWorse.refl {})
    have h2 := checkState_marked c (checkAuthority_marked c request ctx h1) h.state
    have h3 := checkCompatibility_marked c request ctx h2
    have h4 := checkResource_marked c ctx (checkAvailability_marked c ctx h3 h.availability)
      h.resource
    have h5 := checkShadow_marked c (checkMigration_marked c ctx h4)
    exact (checkRecompute_marked c request ctx h5).severity

section Records

variable {c : RecoveryCandidate} {request : RecoveryRequest} {ctx : PlannerContext}

theorem marked_state_usable {st : StateEvidence} {gen : StateGeneration} :
    { st with evidenceMeta := st.evidenceMeta.markRevalidationRequired : StateEvidence }.Usable
        gen request ↔
      st.Usable gen request ∧ st.evidenceMeta.freshness = .current := by
  constructor
  · intro h
    have hcur := st.evidenceMeta.marked_unmarked.mp h.unmarked
    exact ⟨⟨h.workload,h.integrity,.inl hcur,h.generation⟩,hcur⟩
  · rintro ⟨h,hcur⟩
    exact ⟨h.workload,h.integrity,st.evidenceMeta.marked_unmarked.mpr hcur,h.generation⟩

theorem marked_compatibility_usable {co : CompatibilityEvidence} :
    { co with evidenceMeta := co.evidenceMeta.markRevalidationRequired :
        CompatibilityEvidence }.Usable ctx ↔
      co.Usable ctx ∧ co.evidenceMeta.freshness = .current := by
  constructor
  · intro h
    have hcur := co.evidenceMeta.marked_revalidation.mp h.revalidated
    exact ⟨⟨h.result,h.generation,by simp [revalidationNeeded,hcur],h.reference⟩,hcur⟩
  · rintro ⟨h,hcur⟩
    exact ⟨h.result,h.generation,co.evidenceMeta.marked_revalidation.mpr hcur,h.reference⟩

theorem marked_availability_usable {av : AvailabilityEvidence} :
    { av with evidenceMeta := av.evidenceMeta.markRevalidationRequired :
        AvailabilityEvidence }.Usable ctx ↔
      av.Usable ctx ∧ av.evidenceMeta.freshness = .current := by
  constructor
  · intro h
    have hcur := av.evidenceMeta.marked_unmarked.mp h.unmarked
    exact ⟨⟨h.alive,h.current,h.boot,h.ready,.inl hcur⟩,hcur⟩
  · rintro ⟨h,hcur⟩
    exact ⟨h.alive,h.current,h.boot,h.ready,av.evidenceMeta.marked_unmarked.mpr hcur⟩

theorem marked_resource_usable {rs : ResourceEvidence} :
    { rs with evidenceMeta := rs.evidenceMeta.markRevalidationRequired :
        ResourceEvidence }.Usable ctx ↔
      rs.Usable ctx ∧ rs.evidenceMeta.freshness = .current := by
  constructor
  · intro h
    have hcur := rs.evidenceMeta.marked_unmarked.mp h.unmarked
    exact ⟨⟨h.status,h.generation,h.enough,.inl hcur⟩,hcur⟩
  · rintro ⟨h,hcur⟩
    exact ⟨h.status,h.generation,h.enough,rs.evidenceMeta.marked_unmarked.mpr hcur⟩

theorem marked_state : (∃ st, c.marked.state = some st ∧ st.Usable c.stateGeneration request) ↔
    ∃ st, c.state = some st ∧ st.Usable c.stateGeneration request ∧
      st.evidenceMeta.freshness = .current :=
  Option.exists_mem_map.trans (exists_congr fun _ => and_congr_right fun _ => marked_state_usable)

theorem marked_compatibility : (∀ co, c.marked.compatibility = some co → co.Usable ctx) ↔
    ∀ co, c.compatibility = some co → co.Usable ctx ∧ co.evidenceMeta.freshness = .current :=
  Option.forall_mem_map.trans (forall₂_congr fun _ _ => marked_compatibility_usable)

theorem marked_availability : (∃ av, c.marked.availability = some av ∧ av.Usable ctx) ↔
    ∃ av, c.availability = some av ∧ av.Usable ctx ∧ av.evidenceMeta.freshness = .current :=
  Option.exists_mem_map.trans
    (exists_congr fun _ => and_congr_right fun _ => marked_availability_usable)

theorem marked_resource : (∃ rs, c.marked.resource = some rs ∧ rs.Usable ctx) ↔
    ∃ rs, c.resource = some rs ∧ rs.Usable ctx ∧ rs.evidenceMeta.freshness = .current :=
  Option.exists_mem_map.trans (exists_congr fun _ => and_congr_right fun _ => marked_resource_usable)

/-! The checks below do not look at the freshness. -/

theorem marked_authority : (∃ a, c.marked.authority = some a ∧ a.Usable ctx) ↔
    ∃ a, c.authority = some a ∧ a.Usable ctx :=
  Option.exists_mem_map.trans
    (exists_congr fun _ => and_congr_right fun _ => ⟨fun h => ⟨h.1,h.2⟩,fun h => ⟨h.1,h.2⟩⟩)

theorem marked_checkpoint : (∀ ck, c.marked.checkpoint = some ck → ck.Usable c.stateGeneration) ↔
    ∀ ck, c.checkpoint = some ck → ck.Usable c.stateGeneration :=
  Option.forall_mem_map.trans (forall₂_congr fun _ _ => Iff.rfl)

theorem marked_shadow : (∃ sh, c.marked.shadow = some sh ∧ sh.Usable) ↔
    ∃ sh, c.shadow = some sh ∧ sh.Usable :=
  Option.exists_mem_map.trans (exists_congr fun _ => and_congr_right fun _ =>
    ⟨fun h => ⟨h.1,h.2,h.3⟩,fun h => ⟨h.1,h.2,h.3⟩⟩)

theorem marked_migration : MigrationUsable c.marked.topology c.marked.sourceWorker
      c.marked.targetWorker c.marked.state c.marked.transfer ctx ↔
    MigrationUsable c.topology c.sourceWorker c.targetWorker c.state c.transfer ctx := by
  have hpath : (∃ tp, c.marked.topology = some tp ∧ tp.Usable ctx) ↔
      ∃ tp, c.topology = some tp ∧ tp.Usable ctx :=
    Option.exists_mem_map.trans (exists_congr fun _ => and_congr_right fun _ =>
      ⟨fun h => ⟨h.1,h.2⟩,fun h => ⟨h.1,h.2⟩⟩)
  have hdurable : (∃ st, c.marked.state = some st ∧ st.isDurable = true) ↔
      ∃ st, c.state = some st ∧ st.isDurable = true := Option.exists_mem_map
  have htransfer : c.marked.transfer.isSome = c.transfer.isSome := Option.isSome_map
  constructor
  · intro h
    exact ⟨hpath.mp h.path,h.relation,hdurable.mp h.durable,htransfer ▸ h.transferred⟩
  · intro h
    exact ⟨hpath.mpr h.path,h.relation,hdurable.mpr h.durable,htransfer ▸ h.transferred⟩

theorem marked_recompute : RecomputeUsable c.marked.cost request ctx ↔
    RecomputeUsable c.cost request ctx := by
  have hcost : c.marked.cost.bind CostEvidence.recomputeTime =
      c.cost.bind CostEvidence.recomputeTime := by
    change (c.cost.map _).bind CostEvidence.recomputeTime = _
    cases c.cost <;> rfl
  exact ⟨fun h => ⟨h.lineage,hcost ▸ h.time⟩,fun h => ⟨h.lineage,hcost ▸ h.time⟩⟩

end Records

theorem acceptable_marked (c : RecoveryCandidate) (request : RecoveryRequest)
    (ctx : PlannerContext) :
    Acceptable c.marked request ctx ↔ Acceptable c request ctx ∧ c.OnCurrent := by
  constructor
  · intro h
    obtain ⟨st,hs,hst,hstate⟩ := marked_state.mp h.state
    obtain ⟨rs,hr,hrs,hresource⟩ := marked_resource.mp h.resource
    have hcompat := marked_compatibility.mp h.compatibility
    have havail (hne : c.strategy ≠ .recompute) := marked_availability.mp (h.availability hne)
    refine ⟨?_,?_⟩
    · exact
        { allowed := h.allowed
          candidateId := h.candidateId
          generation := h.generation
          declared := h.declared
          authority := marked_authority.mp h.authority
          state := ⟨st,hs,hst⟩
          checkpoint := marked_checkpoint.mp h.checkpoint
          compatibility := fun co hco => (hcompat co hco).1
          required := fun hn => h.required (Option.map_eq_none_iff.mpr hn)
          availability := fun hne => by
            obtain ⟨av,ha,hu,_⟩ := havail hne
            exact ⟨av,ha,hu⟩
          resource := ⟨rs,hr,hrs⟩
          migration := fun hm => marked_migration.mp (h.migration hm)
          shadow := fun hm => marked_shadow.mp (h.shadow hm)
          recompute := fun hm => marked_recompute.mp (h.recompute hm) }
    · refine ⟨fun st' hs' => ?_,fun co hco => (hcompat co hco).2,fun hne av ha => ?_,
        fun rs' hr' => ?_⟩
      · obtain rfl := Option.some.inj (hs.symm.trans hs')
        exact hstate
      · obtain ⟨av',ha',_,hcur⟩ := havail hne
        obtain rfl := Option.some.inj (ha.symm.trans ha')
        exact hcur
      · obtain rfl := Option.some.inj (hr.symm.trans hr')
        exact hresource
  · rintro ⟨h,hcur⟩
    obtain ⟨st,hs,hst⟩ := h.state
    obtain ⟨rs,hr,hrs⟩ := h.resource
    exact
      { allowed := h.allowed
        candidateId := h.candidateId
        generation := h.generation
        declared := h.declared
        authority := marked_authority.mpr h.authority
        state := marked_state.mpr ⟨st,hs,hst,hcur.state st hs⟩
        checkpoint := marked_checkpoint.mpr h.checkpoint
        compatibility := marked_compatibility.mpr fun co hco =>
          ⟨h.compatibility co hco,hcur.compatibility co hco⟩
        required := fun hn => h.required (Option.map_eq_none_iff.mp hn)
        availability := fun hne => by
          obtain ⟨av,ha,hu⟩ := h.availability hne
          exact marked_availability.mpr ⟨av,ha,hu,hcur.availability hne av ha⟩
        resource := marked_resource.mpr ⟨rs,hr,hrs,hcur.resource rs hr⟩
        migration := fun hm => marked_migration.mpr (h.migration hm)
        shadow := fun hm => marked_shadow.mpr (h.shadow hm)
        recompute := fun hm => marked_recompute.mpr (h.recompute hm) }

/-- Reloaded evidence is not optimistic exactly when no record was STALE or EXPIRED, whose
marker is overwritten, and the candidate is not one in order whose records were CURRENT,
which stay CURRENT. -/
theorem pessimistic_iff (c : RecoveryCandidate) (request : RecoveryRequest)
    (ctx : PlannerContext) :
    Pessimistic c request ctx ↔ c.NoneStale ∧ ¬ (Acceptable c request ctx ∧ c.OnCurrent) := by
  have hfeasible := (feasible_iff c.marked request ctx).trans (acceptable_marked c request ctx)
  constructor
  · intro h
    exact ⟨(preserved_iff c).mp h.preserved,fun hc => h.unfeasible (hfeasible.mpr hc)⟩
  · rintro ⟨hstale,hc⟩
    exact ⟨fun hf => hc (hfeasible.mp hf),marked_severity hstale request ctx,
      (preserved_iff c).mpr hstale⟩

def staleCandidate : RecoveryCandidate :=
  { completeCandidate with
    state := some { evidenceMeta := { observed with freshness := .stale }
                    stateGeneration := ⟨1⟩, integrity := .valid } }

/-- A candidate with all its records CURRENT stays FEASIBLE, and one with a STALE state is
judged less severely than before. -/
theorem reloaded_optimistic :
    (evaluateFeasibility completeCandidate.marked knownRequest knownWorld).result = .feasible ∧
    ¬ Pessimistic completeCandidate knownRequest knownWorld ∧
    (evaluateFeasibility staleCandidate knownRequest knownWorld).result =
      .insufficientEvidence ∧
    (evaluateFeasibility staleCandidate.marked knownRequest knownWorld).result =
      .revalidationRequired := by
  have hfeasible : (evaluateFeasibility completeCandidate.marked knownRequest knownWorld).result =
      .feasible := by decide +kernel
  exact ⟨hfeasible,fun h => h.unfeasible hfeasible,by decide +kernel,by decide +kernel⟩

end RecoveryPlanner
