import RecoveryPlanner.Acceptance
import RecoveryPlanner.Planner
set_option autoImplicit false

/-! Which evidence the evaluator lets through: by its freshness, by the identities it
names, and by its absence. -/

namespace RecoveryPlanner

def knownWorld : PlannerContext :=
  (((Impl.construct false).registerWorker ⟨1⟩ ⟨1⟩).setRecomputeAvailable ⟨1⟩ true).ctx

def knownRequest : RecoveryRequest := { requestId := ⟨1⟩, workloadGeneration := ⟨1⟩ }

def observed : EvidenceMeta := { provenance := .measured, freshness := .current }

/-- Every record is there and in order, whatever the strategy. -/
def completeCandidate : RecoveryCandidate :=
  { candidateId := ⟨1⟩
    generation := ⟨1⟩
    targetWorker := ⟨1⟩
    targetBoot := ⟨1⟩
    sourceWorker := ⟨2⟩
    stateGeneration := ⟨1⟩
    state := some { evidenceMeta := observed, stateGeneration := ⟨1⟩, integrity := .valid,
                    isDurable := true }
    compatibility := some { evidenceMeta := observed, compatibilityGeneration := ⟨1⟩,
                            result := .exact }
    availability := some { evidenceMeta := observed, worker := ⟨1⟩, boot := ⟨1⟩,
                           isAlive := true, readiness := .ready }
    resource := some { evidenceMeta := observed, generation := ⟨1⟩, status := .available }
    topology := some { evidenceMeta := observed, generation := ⟨1⟩, pathPossible := true }
    transfer := some { evidenceMeta := observed }
    checkpoint := some { evidenceMeta := observed, stateGeneration := ⟨1⟩ }
    shadow := some { evidenceMeta := observed, readiness := .ready, compatibility := .exact }
    cost := some { evidenceMeta := observed, recomputeTime := some ⟨1⟩ }
    authority := some { evidenceMeta := observed, coordinatorEpoch := ⟨1⟩,
                        policyGeneration := ⟨1⟩ } }

theorem knownWorld_worker :
    (⟨1⟩ : WorkerId) ∈ knownWorld.aliveWorkers ∧
      knownWorld.workerBootMatches ⟨1⟩ ⟨1⟩ = true := by decide +kernel

theorem knownWorld_lineage : knownWorld.recomputeAvailable ⟨1⟩ = true := by decide +kernel

theorem completeCandidate_source : completeCandidate.sourceWorker.isValid = true ∧
    completeCandidate.sourceWorker ≠ completeCandidate.targetWorker := by decide

theorem completeCandidate_acceptable : Acceptable completeCandidate knownRequest knownWorld :=
  (feasible_iff _ _ _).mp (by decide +kernel)

structure FreshnessProfile where
  strategy : RecoveryStrategy
  state : Option Freshness
  resource : Option Freshness
  availability : Option Freshness
  compatibility : Option Freshness
  deriving DecidableEq, Repr

def RecoveryCandidate.freshness (c : RecoveryCandidate) : FreshnessProfile where
  strategy := c.strategy
  state := c.state.map (fun st => st.evidenceMeta.freshness)
  resource := c.resource.map (fun rs => rs.evidenceMeta.freshness)
  availability := c.availability.map (fun av => av.evidenceMeta.freshness)
  compatibility := c.compatibility.map (fun co => co.evidenceMeta.freshness)

namespace FreshnessProfile

/-- A recomputation needs no live target, and compatibility evidence is not mandatory. -/
structure Current (φ : FreshnessProfile) : Prop where
  state : φ.state = some .current
  resource : φ.resource = some .current
  availability : φ.strategy ≠ .recompute → φ.availability = some .current
  compatibility : ∀ f, φ.compatibility = some f → f = .current

/-- No test of the evaluator looks at a value that is in the profile: it tests mandatory
records for their absence and for STALE, EXPIRED and REVALIDATION_REQUIRED, compatibility
evidence for REVALIDATION_REQUIRED alone. -/
structure Untested (φ : FreshnessProfile) : Prop where
  declared : φ.strategy.toNat ≤ RecoveryStrategy.recompute.toNat
  state : φ.state = some .current ∨ φ.state = some .unknown
  resource : φ.resource = some .current ∨ φ.resource = some .unknown
  availability : φ.strategy ≠ .recompute →
    φ.availability = some .current ∨ φ.availability = some .unknown
  compatibility : φ.compatibility ≠ some .revalidationRequired

def probe (φ : FreshnessProfile) : RecoveryCandidate :=
  { completeCandidate with
    strategy := φ.strategy
    state := φ.state.map (fun f => { evidenceMeta := { observed with freshness := f }
                                     stateGeneration := ⟨1⟩, integrity := .valid
                                     isDurable := true })
    compatibility := φ.compatibility.map (fun f =>
      { evidenceMeta := { observed with freshness := f }, compatibilityGeneration := ⟨1⟩
        result := .exact })
    availability := φ.availability.map (fun f =>
      { evidenceMeta := { observed with freshness := f }, worker := ⟨1⟩, boot := ⟨1⟩
        isAlive := true, readiness := .ready })
    resource := φ.resource.map (fun f =>
      { evidenceMeta := { observed with freshness := f }, generation := ⟨1⟩
        status := .available }) }

theorem probe_freshness (φ : FreshnessProfile) : φ.probe.freshness = φ := by
  cases φ
  simp [probe,RecoveryCandidate.freshness,Function.comp_def]

theorem probe_acceptable {φ : FreshnessProfile} (h : φ.Untested) :
    Acceptable φ.probe knownRequest knownWorld := by
  have hc := completeCandidate_acceptable
  have hmeta : ∀ {o : Option Freshness}, o = some .current ∨ o = some .unknown →
      ∃ f, o = some f ∧ { observed with freshness := f : EvidenceMeta }.Unmarked := by
    rintro o (rfl | rfl)
    · exact ⟨_,rfl,.inl rfl⟩
    · exact ⟨_,rfl,.inr rfl⟩
  obtain ⟨fs,hs,hus⟩ := hmeta h.state
  obtain ⟨fr,hr,hur⟩ := hmeta h.resource
  exact
    { allowed := by simp [knownRequest]
      candidateId := hc.candidateId
      generation := hc.generation
      declared := h.declared
      authority := hc.authority
      state := ⟨_,by rw [probe,hs]; rfl,.inr rfl,rfl,hus,rfl⟩
      checkpoint := hc.checkpoint
      compatibility := fun co hco => by
        obtain ⟨f,hf,rfl⟩ := Option.map_eq_some_iff.mp hco
        refine ⟨by simp,rfl,?_,fun _ hne => absurd rfl hne⟩
        simpa [revalidationNeeded,hf] using h.compatibility
      required := fun _ => rfl
      availability := fun hne => by
        obtain ⟨fa,ha,hua⟩ := hmeta (h.availability hne)
        exact ⟨_,by rw [probe,ha]; rfl,rfl,knownWorld_worker.1,knownWorld_worker.2,rfl,hua⟩
      resource := ⟨_,by rw [probe,hr]; rfl,.inl rfl,rfl,fun _ hn => absurd hn (by simp),hur⟩
      migration := fun _ => ⟨⟨_,rfl,rfl,rfl⟩,completeCandidate_source,
        ⟨_,by rw [probe,hs]; rfl,rfl⟩,rfl⟩
      shadow := fun _ => ⟨_,rfl,rfl,by decide,by decide⟩
      recompute := fun _ => ⟨knownWorld_lineage,_,rfl⟩ }

end FreshnessProfile

theorem Acceptable.untested {c : RecoveryCandidate} {request : RecoveryRequest}
    {ctx : PlannerContext} (h : Acceptable c request ctx) : c.freshness.Untested := by
  have hmeta : ∀ {m : EvidenceMeta}, m.Unmarked →
      some m.freshness = some .current ∨ some m.freshness = some .unknown := by
    rintro m (hm | hm)
    · exact .inl (congrArg some hm)
    · exact .inr (congrArg some hm)
  obtain ⟨st,hs,hus⟩ := h.state
  obtain ⟨rs,hr,hur⟩ := h.resource
  refine ⟨h.declared,?_,?_,fun hne => ?_,fun hco => ?_⟩
  · simp only [RecoveryCandidate.freshness,hs,Option.map_some]
    exact hmeta hus.unmarked
  · simp only [RecoveryCandidate.freshness,hr,Option.map_some]
    exact hmeta hur.unmarked
  · obtain ⟨av,ha,hua⟩ := h.availability hne
    simp only [RecoveryCandidate.freshness,ha,Option.map_some]
    exact hmeta hua.unmarked
  · obtain ⟨co,hc,hf⟩ := Option.map_eq_some_iff.mp hco
    simpa [revalidationNeeded,hf] using (h.compatibility co hc).revalidated

/-- Whatever else is true of the candidate, the request and the context: FEASIBLE rests on
CURRENT records only, exactly for the profiles that are all CURRENT or hold a value that is
tested. -/
theorem feasible_current_iff (φ : FreshnessProfile) :
    (∀ c request ctx, c.freshness = φ → (evaluateFeasibility c request ctx).result = .feasible →
      φ.Current) ↔ (φ.Untested → φ.Current) := by
  constructor
  · intro h hu
    exact h φ.probe knownRequest knownWorld φ.probe_freshness
      ((feasible_iff _ _ _).mpr (φ.probe_acceptable hu))
  · rintro h c request ctx rfl hf
    exact h ((feasible_iff _ _ _).mp hf).untested

def vagueCandidate : RecoveryCandidate :=
  { completeCandidate with
    state := some { stateGeneration := ⟨1⟩, integrity := .valid }
    compatibility := some { evidenceMeta := { observed with freshness := .expired }
                            compatibilityGeneration := ⟨1⟩, result := .exact } }

theorem vague_feasible :
    (evaluateFeasibility vagueCandidate knownRequest knownWorld).result = .feasible ∧
    vagueCandidate.freshness.state = some .unknown ∧
    vagueCandidate.freshness.compatibility = some .expired ∧
    ¬ vagueCandidate.freshness.Current := by
  refine ⟨by decide +kernel,rfl,rfl,fun h => ?_⟩
  exact absurd h.state (by decide)

structure Naming where
  targetWorker : WorkerId
  targetBoot : WorkerBootId
  targetEngineIncarnation : EngineIncarnationId
  stateSource : StateId
  stateGeneration : StateGeneration
  availability : Option (WorkerId × WorkerBootId × EngineIncarnationId)
  state : Option (StateId × StateGeneration)
  deriving DecidableEq, Repr

def RecoveryCandidate.naming (c : RecoveryCandidate) : Naming where
  targetWorker := c.targetWorker
  targetBoot := c.targetBoot
  targetEngineIncarnation := c.targetEngineIncarnation
  stateSource := c.stateSource
  stateGeneration := c.stateGeneration
  availability := c.availability.map (fun av => (av.worker,av.boot,av.engineIncarnation))
  state := c.state.map (fun st => (st.stateId,st.stateGeneration))

namespace Naming

structure Bound (ν : Naming) : Prop where
  availability : ν.availability = some (ν.targetWorker,ν.targetBoot,ν.targetEngineIncarnation)
  state : ν.state = some (ν.stateSource,ν.stateGeneration)

/-- Both records are there, and the state generations agree: of the names, the evaluator
compares no others. -/
structure Uncompared (ν : Naming) : Prop where
  availability : ν.availability.isSome = true
  state : ν.state.map Prod.snd = some ν.stateGeneration

/-- The context knows the target, not the worker that the evidence is about. -/
structure TargetAlive (ν : Naming) (ctx : PlannerContext) : Prop where
  alive : ν.targetWorker ∈ ctx.aliveWorkers
  boot : ctx.workerBoots.find? ν.targetWorker = some ν.targetBoot

def probe (ν : Naming) : RecoveryCandidate :=
  { completeCandidate with
    targetWorker := ν.targetWorker
    targetBoot := ν.targetBoot
    targetEngineIncarnation := ν.targetEngineIncarnation
    stateSource := ν.stateSource
    stateGeneration := ν.stateGeneration
    checkpoint := none
    availability := ν.availability.map (fun n =>
      { evidenceMeta := observed, worker := n.1, boot := n.2.1, engineIncarnation := n.2.2
        isAlive := true, readiness := .ready })
    state := ν.state.map (fun n =>
      { evidenceMeta := observed, stateId := n.1, stateGeneration := n.2
        integrity := .valid }) }

theorem probe_naming (ν : Naming) : ν.probe.naming = ν := by
  cases ν
  simp [probe,RecoveryCandidate.naming,Function.comp_def]

@[simp] theorem probe_strategy (ν : Naming) : ν.probe.strategy = .restart := rfl

theorem probe_acceptable {ν : Naming} (h : ν.Uncompared) :
    ∃ ctx, Acceptable ν.probe knownRequest ctx := by
  obtain ⟨n,hn⟩ := Option.isSome_iff_exists.mp h.availability
  obtain ⟨st,hst,hgen⟩ := Option.map_eq_some_iff.mp h.state
  have hc := completeCandidate_acceptable
  -- The world in which the worker of the evidence is alive.
  refine ⟨knownWorld.registerWorker n.1 n.2.1,?_⟩
  exact
    { allowed := hc.allowed
      candidateId := hc.candidateId
      generation := hc.generation
      declared := hc.declared
      authority := ⟨_,rfl,rfl,rfl⟩
      state := ⟨_,by rw [probe,hst]; rfl,.inr rfl,rfl,.inl rfl,hgen⟩
      checkpoint := fun _ hck => absurd hck (by simp [probe])
      compatibility := fun _ hco => by
        obtain rfl := Option.some.inj hco
        exact ⟨by decide,rfl,rfl,fun _ hne => absurd rfl hne⟩
      required := fun _ => rfl
      availability := fun _ => by
        refine ⟨_,by rw [probe,hn]; rfl,rfl,?_,?_,rfl,.inl rfl⟩
        · exact Finset.mem_insert_self _ _
        · simp [PlannerContext.workerBootMatches,PlannerContext.registerWorker]
      resource := ⟨_,rfl,.inl rfl,rfl,fun _ hr => absurd hr (by simp),.inl rfl⟩
      migration := fun hm => absurd hm (by simp)
      shadow := fun hs => absurd hs (by simp)
      recompute := fun hr => absurd hr (by simp) }

end Naming

theorem Acceptable.uncompared {c : RecoveryCandidate} {request : RecoveryRequest}
    {ctx : PlannerContext} (h : Acceptable c request ctx) (hs : c.strategy ≠ .recompute) :
    c.naming.Uncompared := by
  obtain ⟨av,ha,_⟩ := h.availability hs
  obtain ⟨st,hst,hu⟩ := h.state
  refine ⟨?_,?_⟩
  · simp [RecoveryCandidate.naming,ha]
  · simp [RecoveryCandidate.naming,hst,hu.generation]

theorem Acceptable.target_alive {c : RecoveryCandidate} {request : RecoveryRequest}
    {ctx : PlannerContext} (h : Acceptable c request ctx) (hs : c.strategy ≠ .recompute)
    (hb : c.naming.Bound) : c.naming.TargetAlive ctx := by
  obtain ⟨av,ha,hu⟩ := h.availability hs
  have hname := hb.availability
  simp only [RecoveryCandidate.naming,ha,Option.map_some,Option.some.injEq,
    Prod.mk.injEq] at hname
  obtain ⟨hw,hboot,_⟩ := hname
  refine ⟨?_,?_⟩
  · show c.targetWorker ∈ ctx.aliveWorkers
    exact hw ▸ hu.current
  · show ctx.workerBoots.find? c.targetWorker = some c.targetBoot
    rw [← hw,← hboot]
    exact (workerBootMatches_iff ctx _ _).mp hu.boot

/-- FEASIBLE speaks about the candidate's own target and state exactly where the names that
the evaluator leaves uncompared agree anyway. -/
theorem feasible_bound_iff (ν : Naming) :
    (∀ c request ctx, c.naming = ν → c.strategy ≠ .recompute →
      (evaluateFeasibility c request ctx).result = .feasible → ν.Bound ∧ ν.TargetAlive ctx) ↔
    (ν.Uncompared → ν.Bound) := by
  constructor
  · intro h hu
    obtain ⟨ctx,hctx⟩ := ν.probe_acceptable hu
    exact (h ν.probe knownRequest ctx ν.probe_naming (by simp)
      ((feasible_iff _ _ _).mpr hctx)).1
  · rintro h c request ctx rfl hs hf
    have hacc := (feasible_iff _ _ _).mp hf
    have hb := h (hacc.uncompared hs)
    exact ⟨hb,hacc.target_alive hs hb⟩

/-- The evidence is about worker 1, the candidate would go to worker 9. -/
def strayCandidate : RecoveryCandidate := { completeCandidate with targetWorker := ⟨9⟩ }

theorem stray_feasible :
    (evaluateFeasibility strayCandidate knownRequest knownWorld).result = .feasible ∧
    strayCandidate.strategy ≠ .recompute ∧
    ¬ strayCandidate.naming.Bound ∧ ¬ strayCandidate.naming.TargetAlive knownWorld := by
  refine ⟨by decide +kernel,by decide,fun h => ?_,fun h => ?_⟩
  · exact absurd h.availability (by decide)
  · exact absurd h.alive (by decide +kernel)

inductive EvidenceKind where
  | state | compatibility | availability | resource | topology | transfer | checkpoint | shadow
  | cost | authority
  deriving DecidableEq, Repr

def RecoveryCandidate.erase (c : RecoveryCandidate) : EvidenceKind → RecoveryCandidate
  | .state => { c with state := none }
  | .compatibility => { c with compatibility := none }
  | .availability => { c with availability := none }
  | .resource => { c with resource := none }
  | .topology => { c with topology := none }
  | .transfer => { c with transfer := none }
  | .checkpoint => { c with checkpoint := none }
  | .shadow => { c with shadow := none }
  | .cost => { c with cost := none }
  | .authority => { c with authority := none }

structure Evaluation where
  candidate : RecoveryCandidate
  request : RecoveryRequest
  ctx : PlannerContext

namespace Evaluation

def erase (e : Evaluation) (k : EvidenceKind) : Evaluation :=
  { e with candidate := e.candidate.erase k }

def Feasible (e : Evaluation) : Prop :=
  (evaluateFeasibility e.candidate e.request e.ctx).result = .feasible

theorem feasible_iff_acceptable (e : Evaluation) :
    e.Feasible ↔ Acceptable e.candidate e.request e.ctx := feasible_iff _ _ _

/-- Two calls that see the same record of this kind and check it against the same values. -/
def Alike (e e' : Evaluation) : EvidenceKind → Prop
  | .compatibility => e'.candidate.compatibility = e.candidate.compatibility ∧
      e'.request.compatibilityRequirements = e.request.compatibilityRequirements ∧
      e'.ctx.compatibilityGeneration = e.ctx.compatibilityGeneration ∧
      e'.ctx.compatibilityTable = e.ctx.compatibilityTable
  | .checkpoint => e'.candidate.checkpoint = e.candidate.checkpoint ∧
      e'.candidate.stateGeneration = e.candidate.stateGeneration
  | _ => True

def Guarded (e : Evaluation) : EvidenceKind → Prop
  | .compatibility => e.request.compatibilityRequirements = [] →
      ∀ co, e.candidate.compatibility = some co → co.Usable e.ctx
  | .checkpoint => ∀ ck, e.candidate.checkpoint = some ck → ck.Usable e.candidate.stateGeneration
  | _ => True

theorem Guarded.alike {e e' : Evaluation} {k : EvidenceKind} (h : e.Guarded k)
    (ha : e.Alike e' k) : e'.Guarded k := by
  cases k with
  | compatibility =>
    obtain ⟨hc,hr,hg,ht⟩ := ha
    intro hreq co hco
    obtain ⟨h1,h2,h3,h4⟩ := h (hr ▸ hreq) co (hc ▸ hco)
    exact ⟨h1,hg ▸ h2,h3,ht ▸ h4⟩
  | checkpoint =>
    obtain ⟨hc,hg⟩ := ha
    intro ck hck
    rw [hg]
    exact h ck (hc ▸ hck)
  | _ => trivial

/-- Putting a record back does no harm, unless it is the record itself that is refused. -/
theorem acceptable_of_erase {e : Evaluation} {k : EvidenceKind} (hg : e.Guarded k)
    (h : Acceptable (e.candidate.erase k) e.request e.ctx) :
    Acceptable e.candidate e.request e.ctx := by
  cases k with
  | state => exact absurd h.state (by simp [RecoveryCandidate.erase])
  | resource => exact absurd h.resource (by simp [RecoveryCandidate.erase])
  | authority => exact absurd h.authority (by simp [RecoveryCandidate.erase])
  | compatibility =>
    have hreq := h.required rfl
    exact { h with compatibility := hg hreq, required := fun _ => hreq }
  | checkpoint => exact { h with checkpoint := hg }
  | availability =>
    exact { h with
      availability := fun hs => absurd (h.availability hs) (by simp [RecoveryCandidate.erase]) }
  | topology =>
    exact { h with
      migration := fun hs => absurd (h.migration hs).path (by simp [RecoveryCandidate.erase]) }
  | transfer =>
    exact { h with
      migration := fun hs => absurd (h.migration hs).transferred
        (by simp [RecoveryCandidate.erase]) }
  | shadow =>
    exact { h with shadow := fun hs => absurd (h.shadow hs) (by simp [RecoveryCandidate.erase]) }
  | cost =>
    exact { h with
      recompute := fun hs => absurd (h.recompute hs).time (by simp [RecoveryCandidate.erase]) }

def probe (e : Evaluation) : EvidenceKind → Evaluation
  | .compatibility =>
    { candidate := { completeCandidate with compatibility := e.candidate.compatibility }
      request := { knownRequest with
        compatibilityRequirements := e.request.compatibilityRequirements }
      ctx := { knownWorld with
        compatibilityGeneration := e.ctx.compatibilityGeneration
        compatibilityTable := e.ctx.compatibilityTable } }
  | .checkpoint =>
    { candidate := { completeCandidate with
        stateGeneration := e.candidate.stateGeneration
        checkpoint := e.candidate.checkpoint
        state := some { evidenceMeta := observed, stateGeneration := e.candidate.stateGeneration
                        integrity := .valid } }
      request := knownRequest
      ctx := knownWorld }
  | _ => e

theorem probe_alike (e : Evaluation) (k : EvidenceKind) : e.Alike (e.probe k) k := by
  cases k with
  | compatibility => exact ⟨rfl,rfl,rfl,rfl⟩
  | checkpoint => exact ⟨rfl,rfl⟩
  | _ => trivial

theorem probe_unguarded {e : Evaluation} {k : EvidenceKind} (h : ¬ e.Guarded k) :
    ¬ (e.probe k).Feasible ∧ ((e.probe k).erase k).Feasible := by
  have hc := completeCandidate_acceptable
  rw [feasible_iff_acceptable,feasible_iff_acceptable]
  cases k with
  | compatibility =>
    refine ⟨fun hacc => h fun _ => ?_,?_⟩
    · intro co hco
      obtain ⟨h1,h2,h3,h4⟩ := hacc.compatibility co hco
      exact ⟨h1,h2,h3,h4⟩
    · have hreq : e.request.compatibilityRequirements = [] := by
        by_contra hne
        exact h fun hnil => absurd hnil hne
      exact
        { hc with
          authority := ⟨_,rfl,rfl,rfl⟩
          state := ⟨_,rfl,.inr rfl,rfl,.inl rfl,rfl⟩
          compatibility := fun _ hco => absurd hco (by simp [erase,RecoveryCandidate.erase])
          required := fun _ => hreq
          availability := fun _ =>
            ⟨_,rfl,rfl,knownWorld_worker.1,knownWorld_worker.2,rfl,.inl rfl⟩
          resource := ⟨_,rfl,.inl rfl,rfl,fun _ hr => absurd hr (by simp),.inl rfl⟩
          migration := fun hm => nomatch (show RecoveryStrategy.restart = .migrate from hm)
          recompute := fun hr => nomatch (show RecoveryStrategy.restart = .recompute from hr) }
  | checkpoint =>
    refine ⟨fun hacc => h hacc.checkpoint,?_⟩
    exact
      { hc with
        state := ⟨_,rfl,.inr rfl,rfl,.inl rfl,rfl⟩
        checkpoint := fun _ hck => absurd hck (by simp [erase,RecoveryCandidate.erase])
        migration := fun hm => nomatch (show RecoveryStrategy.restart = .migrate from hm) }
  | _ => exact absurd trivial h

end Evaluation

/-- Erasing a record never makes a candidate FEASIBLE, exactly where the record passes its own
checks or has to be there. -/
theorem erase_pessimistic_iff (e : Evaluation) (k : EvidenceKind) :
    (∀ e', e.Alike e' k → ¬ e'.Feasible → ¬ (e'.erase k).Feasible) ↔ e.Guarded k := by
  constructor
  · intro h
    by_contra hg
    obtain ⟨hno,hyes⟩ := Evaluation.probe_unguarded hg
    exact h (e.probe k) (e.probe_alike k) hno hyes
  · intro hg e' ha hno hyes
    refine hno (e'.feasible_iff_acceptable.mpr ?_)
    exact Evaluation.acceptable_of_erase (hg.alike ha)
      ((e'.erase k).feasible_iff_acceptable.mp hyes)

def incompatibleCandidate : RecoveryCandidate :=
  { completeCandidate with
    compatibility := some { evidenceMeta := observed, compatibilityGeneration := ⟨1⟩
                            result := .incompatible } }

def strayCheckpointCandidate : RecoveryCandidate :=
  { completeCandidate with
    checkpoint := some { evidenceMeta := observed, stateGeneration := ⟨7⟩ } }

theorem erased_feasible :
    ((evaluateFeasibility incompatibleCandidate knownRequest knownWorld).result = .infeasible ∧
      (evaluateFeasibility (incompatibleCandidate.erase .compatibility) knownRequest
        knownWorld).result = .feasible) ∧
    (evaluateFeasibility strayCheckpointCandidate knownRequest knownWorld).result = .infeasible ∧
      (evaluateFeasibility (strayCheckpointCandidate.erase .checkpoint) knownRequest
        knownWorld).result = .feasible := by
  decide +kernel

end RecoveryPlanner
