import RecoveryPlanner.Feasibility
set_option autoImplicit false

/-! What a candidate has to bring along to be FEASIBLE, record by record. -/

namespace RecoveryPlanner

namespace FeasFlags

structure Clear (f : FeasFlags) : Prop where
  infeasible : f.infeasible = false
  insufficient : f.insufficient = false
  revalidation : f.revalidation = false
  defer : f.defer = false

theorem clear_iff (f : FeasFlags) : f.Clear ↔
    f.infeasible = false ∧ f.insufficient = false ∧ f.revalidation = false ∧ f.defer = false :=
  ⟨fun h => ⟨h.1,h.2,h.3,h.4⟩,fun h => ⟨h.1,h.2.1,h.2.2.1,h.2.2.2⟩⟩

theorem clear_empty : ({} : FeasFlags).Clear := ⟨rfl,rfl,rfl,rfl⟩

@[simp] theorem clear_note (f : FeasFlags) (reason : RejectionReason) (detail : Str) :
    (f.note reason detail).Clear ↔ f.Clear := by
  simp [clear_iff,note]

@[simp] theorem clear_hardIf (f : FeasFlags) (c : Bool) (reason : RejectionReason)
    (detail : Str) : (f.hardIf c reason detail).Clear ↔ f.Clear ∧ c = false := by
  cases c <;> simp [clear_iff,hardIf,hard]

@[simp] theorem clear_insufficientIf (f : FeasFlags) (c : Bool) :
    (f.insufficientIf c).Clear ↔ f.Clear ∧ c = false := by
  cases c <;> simp [clear_iff,insufficientIf]

@[simp] theorem clear_revalidationIf (f : FeasFlags) (c : Bool) :
    (f.revalidationIf c).Clear ↔ f.Clear ∧ c = false := by
  cases c <;> simp [clear_iff,revalidationIf]

@[simp] theorem clear_deferIf (f : FeasFlags) (c : Bool) :
    (f.deferIf c).Clear ↔ f.Clear ∧ c = false := by
  cases c <;> simp [clear_iff,deferIf]

theorem aggregate_feasible (f : FeasFlags) : f.aggregate.result = .feasible ↔ f.Clear := by
  rw [clear_iff]
  cases hi : f.infeasible <;> cases hs : f.insufficient <;> cases hr : f.revalidation <;>
    cases hd : f.defer <;> simp [aggregate,hi,hs,hr,hd]

end FeasFlags

/-- No check of the evaluator stops at this freshness: UNKNOWN passes like CURRENT. -/
def EvidenceMeta.Unmarked (m : EvidenceMeta) : Prop :=
  m.freshness = .current ∨ m.freshness = .unknown

theorem EvidenceMeta.unmarked_iff (m : EvidenceMeta) :
    m.Unmarked ↔ staleOrExpired m = false ∧ revalidationNeeded m = false := by
  unfold Unmarked staleOrExpired revalidationNeeded
  cases m.freshness <;> simp

structure AuthorityEvidence.Usable (a : AuthorityEvidence) (ctx : PlannerContext) : Prop where
  epoch : a.coordinatorEpoch = ctx.epoch
  policy : a.policyGeneration = ctx.policyGeneration

/-- `gen` is the state generation that the candidate names. -/
structure StateEvidence.Usable (st : StateEvidence) (gen : StateGeneration)
    (request : RecoveryRequest) : Prop where
  workload : st.workloadGeneration = request.workloadGeneration ∨
    st.workloadGeneration.isValid = false
  integrity : st.integrity = .valid
  unmarked : st.evidenceMeta.Unmarked
  generation : st.stateGeneration = gen

def CheckpointEvidence.Usable (ck : CheckpointEvidence) (gen : StateGeneration) : Prop :=
  ck.stateGeneration = gen

/-- STALE and EXPIRED are not asked about here. -/
structure CompatibilityEvidence.Usable (co : CompatibilityEvidence) (ctx : PlannerContext) :
    Prop where
  result : co.result ≠ .incompatible ∧ co.result ≠ .unknown ∧ co.result ≠ .insufficientEvidence
  generation : co.compatibilityGeneration = ctx.compatibilityGeneration
  revalidated : revalidationNeeded co.evidenceMeta = false
  reference : ∀ targets, co.subjectIdentity ≠ [] →
    ctx.compatibilityTable.find? co.subjectIdentity = some targets →
    (if co.stateFormat.isEmpty then text "unqualified" else co.stateFormat) ∈ targets

structure AvailabilityEvidence.Usable (av : AvailabilityEvidence) (ctx : PlannerContext) :
    Prop where
  alive : av.isAlive = true
  current : av.worker ∈ ctx.aliveWorkers
  boot : ctx.workerBootMatches av.worker av.boot = true
  ready : av.readiness = .ready
  unmarked : av.evidenceMeta.Unmarked

structure ResourceEvidence.Usable (rs : ResourceEvidence) (ctx : PlannerContext) : Prop where
  status : rs.status = .available ∨ rs.status = .contended
  generation : rs.generation = ctx.resourceGeneration
  enough : ∀ required, rs.required = some required → ∃ available, rs.available = some available ∧
    required ≤ available ∧
    (rs.resourceKind = [] ∨ ctx.resourceSufficient rs.resourceKind required = true)
  unmarked : rs.evidenceMeta.Unmarked

structure TopologyEvidence.Usable (tp : TopologyEvidence) (ctx : PlannerContext) : Prop where
  possible : tp.pathPossible = true
  generation : tp.generation = ctx.topologyGeneration

structure ShadowEvidence.Usable (sh : ShadowEvidence) : Prop where
  ready : sh.readiness = .ready
  lag : sh.lag.value.toInt ≤ 2^40
  compatible : sh.compatibility ≠ .incompatible

/-- What a migration needs on top of what every candidate needs. -/
structure MigrationUsable (topology : Option TopologyEvidence) (source target : WorkerId)
    (state : Option StateEvidence) (transfer : Option TransferEvidence) (ctx : PlannerContext) :
    Prop where
  path : ∃ tp, topology = some tp ∧ tp.Usable ctx
  relation : source.isValid = true ∧ source ≠ target
  durable : ∃ st, state = some st ∧ st.isDurable = true
  transferred : transfer.isSome = true

structure RecomputeUsable (cost : Option CostEvidence) (request : RecoveryRequest)
    (ctx : PlannerContext) : Prop where
  lineage : ctx.recomputeAvailable request.workloadGeneration = true
  time : ∃ t, cost.bind CostEvidence.recomputeTime = some t

/-- All that the evaluator asks of a candidate. -/
structure Acceptable (c : RecoveryCandidate) (request : RecoveryRequest)
    (ctx : PlannerContext) : Prop where
  allowed : c.strategy ∉ request.forbiddenStrategies
  candidateId : c.candidateId.isValid = true
  generation : c.generation.isValid = true
  declared : c.strategy.toNat ≤ RecoveryStrategy.recompute.toNat
  authority : ∃ a, c.authority = some a ∧ a.Usable ctx
  state : ∃ st, c.state = some st ∧ st.Usable c.stateGeneration request
  checkpoint : ∀ ck, c.checkpoint = some ck → ck.Usable c.stateGeneration
  compatibility : ∀ co, c.compatibility = some co → co.Usable ctx
  required : c.compatibility = none → request.compatibilityRequirements = []
  availability : c.strategy ≠ .recompute → ∃ av, c.availability = some av ∧ av.Usable ctx
  resource : ∃ rs, c.resource = some rs ∧ rs.Usable ctx
  migration : c.strategy = .migrate →
    MigrationUsable c.topology c.sourceWorker c.targetWorker c.state c.transfer ctx
  shadow : c.strategy = .shadowPromote → ∃ sh, c.shadow = some sh ∧ sh.Usable
  recompute : c.strategy = .recompute → RecomputeUsable c.cost request ctx

open FeasFlags

theorem checkIdentity_clear (c : RecoveryCandidate) (f : FeasFlags) :
    (checkIdentity c f).Clear ↔ f.Clear ∧ c.candidateId.isValid = true ∧
      c.generation.isValid = true ∧ c.strategy.toNat ≤ RecoveryStrategy.recompute.toNat := by
  simp [checkIdentity,and_assoc]

theorem checkAuthority_clear (c : RecoveryCandidate) (request : RecoveryRequest)
    (ctx : PlannerContext) (f : FeasFlags) :
    (checkAuthority c request ctx f).Clear ↔ f.Clear ∧
      (∃ a, c.authority = some a ∧ a.Usable ctx) ∧
      ∀ st, c.state = some st → st.workloadGeneration = request.workloadGeneration ∨
        st.workloadGeneration.isValid = false := by
  have hu : ∀ a : AuthorityEvidence, a.Usable ctx ↔
      a.coordinatorEpoch = ctx.epoch ∧ a.policyGeneration = ctx.policyGeneration :=
    fun a => ⟨fun h => ⟨h.1,h.2⟩,fun h => ⟨h.1,h.2⟩⟩
  unfold checkAuthority
  cases ha : c.authority with
  | none => cases hs : c.state <;> simp
  | some a =>
    cases hs : c.state with
    | none => simp [hu,and_assoc]
    | some st =>
      simp [hu,and_assoc,or_iff_not_imp_left]

theorem checkState_clear (c : RecoveryCandidate) (f : FeasFlags) :
    (checkState c f).Clear ↔ f.Clear ∧
      (∃ st, c.state = some st ∧ st.integrity = .valid ∧ st.evidenceMeta.Unmarked ∧
        st.stateGeneration = c.stateGeneration) ∧
      ∀ ck, c.checkpoint = some ck → ck.Usable c.stateGeneration := by
  unfold checkState CheckpointEvidence.Usable
  cases hs : c.state with
  | none => cases hk : c.checkpoint <;> simp
  | some st =>
    have hexp : staleOrExpired st.evidenceMeta = false → st.evidenceMeta.freshness ≠ .expired := by
      intro h he
      simp [staleOrExpired,he] at h
    cases hk : c.checkpoint <;> cases hi : st.integrity <;>
      simp [hi,EvidenceMeta.unmarked_iff] <;> grind

theorem checkCompatibility_clear (c : RecoveryCandidate) (request : RecoveryRequest)
    (ctx : PlannerContext) (f : FeasFlags) :
    (checkCompatibility c request ctx f).Clear ↔ f.Clear ∧
      (∀ co, c.compatibility = some co → co.Usable ctx) ∧
      (c.compatibility = none → request.compatibilityRequirements = []) := by
  have hu : ∀ co : CompatibilityEvidence, co.Usable ctx ↔
      (co.result ≠ .incompatible ∧ co.result ≠ .unknown ∧ co.result ≠ .insufficientEvidence) ∧
      co.compatibilityGeneration = ctx.compatibilityGeneration ∧
      revalidationNeeded co.evidenceMeta = false ∧
      ∀ targets, co.subjectIdentity ≠ [] →
        ctx.compatibilityTable.find? co.subjectIdentity = some targets →
        (if co.stateFormat.isEmpty then text "unqualified" else co.stateFormat) ∈ targets :=
    fun co => ⟨fun h => ⟨h.1,h.2,h.3,h.4⟩,fun h => ⟨h.1,h.2.1,h.2.2.1,h.2.2.2⟩⟩
  unfold checkCompatibility
  cases hc : c.compatibility with
  | none => simp
  | some co =>
    cases ht : ctx.compatibilityTable.find? co.subjectIdentity <;>
      simp [hu,PlannerContext.isCompatible,ht] <;> grind

theorem checkAvailability_clear (c : RecoveryCandidate) (ctx : PlannerContext) (f : FeasFlags) :
    (checkAvailability c ctx f).Clear ↔ f.Clear ∧
      (c.strategy ≠ .recompute → ∃ av, c.availability = some av ∧ av.Usable ctx) := by
  have hu : ∀ av : AvailabilityEvidence, av.Usable ctx ↔
      av.isAlive = true ∧ av.worker ∈ ctx.aliveWorkers ∧
      ctx.workerBootMatches av.worker av.boot = true ∧ av.readiness = .ready ∧
      av.evidenceMeta.Unmarked :=
    fun av => ⟨fun h => ⟨h.1,h.2,h.3,h.4,h.5⟩,fun h => ⟨h.1,h.2.1,h.2.2.1,h.2.2.2.1,h.2.2.2.2⟩⟩
  unfold checkAvailability
  by_cases hr : c.strategy = .recompute
  · simp [hr]
  · cases ha : c.availability with
    | none => simp [hr]
    | some av =>
      cases hready : av.readiness <;>
        simp [hr,hu,hready,PlannerContext.workerIsCurrent,EvidenceMeta.unmarked_iff,and_assoc]

theorem bindResource_clear (rs : ResourceEvidence) (required : UInt64) (ctx : PlannerContext)
    (f : FeasFlags) : (bindResource rs required ctx f).Clear ↔ f.Clear ∧
      (rs.resourceKind = [] ∨ ctx.resourceSufficient rs.resourceKind required = true) := by
  unfold bindResource
  split
  · rename_i h
    simp only [Bool.and_eq_true,Bool.not_eq_true',List.isEmpty_eq_false_iff] at h
    simp [h.1.1,h.1.2]
  · rename_i h
    constructor
    · intro hf
      refine ⟨hf,?_⟩
      simpa [hf.infeasible,or_iff_not_imp_left] using h
    · exact fun hf => hf.1

theorem checkResource_clear (c : RecoveryCandidate) (ctx : PlannerContext) (f : FeasFlags) :
    (checkResource c ctx f).Clear ↔ f.Clear ∧
      ∃ rs, c.resource = some rs ∧ rs.Usable ctx := by
  have hu : ∀ rs : ResourceEvidence, rs.Usable ctx ↔
      (rs.status = .available ∨ rs.status = .contended) ∧
      rs.generation = ctx.resourceGeneration ∧
      (∀ required, rs.required = some required → ∃ available, rs.available = some available ∧
        required ≤ available ∧
        (rs.resourceKind = [] ∨ ctx.resourceSufficient rs.resourceKind required = true)) ∧
      rs.evidenceMeta.Unmarked :=
    fun rs => ⟨fun h => ⟨h.1,h.2,h.3,h.4⟩,fun h => ⟨h.1,h.2.1,h.2.2.1,h.2.2.2⟩⟩
  unfold checkResource
  cases hr : c.resource with
  | none => simp
  | some rs =>
    cases hq : rs.required with
    | none =>
      cases hs : rs.status <;> simp [hu,hq,hs,EvidenceMeta.unmarked_iff] <;> grind
    | some required =>
      cases ha : rs.available with
      | none => simp [hu,hq,ha]
      | some available =>
        cases hs : rs.status <;>
          simp [hu,hq,ha,hs,EvidenceMeta.unmarked_iff,bindResource_clear] <;> grind

theorem checkMigration_clear (c : RecoveryCandidate) (ctx : PlannerContext) (f : FeasFlags) :
    (checkMigration c ctx f).Clear ↔ f.Clear ∧
      (c.strategy = .migrate →
        MigrationUsable c.topology c.sourceWorker c.targetWorker c.state c.transfer ctx) := by
  have ht : ∀ tp : TopologyEvidence, tp.Usable ctx ↔
      tp.pathPossible = true ∧ tp.generation = ctx.topologyGeneration :=
    fun tp => ⟨fun h => ⟨h.1,h.2⟩,fun h => ⟨h.1,h.2⟩⟩
  have hu : MigrationUsable c.topology c.sourceWorker c.targetWorker c.state c.transfer ctx ↔
      (∃ tp, c.topology = some tp ∧ tp.Usable ctx) ∧
      (c.sourceWorker.isValid = true ∧ c.sourceWorker ≠ c.targetWorker) ∧
      (∃ st, c.state = some st ∧ st.isDurable = true) ∧ c.transfer.isSome = true :=
    ⟨fun h => ⟨h.1,h.2,h.3,h.4⟩,fun h => ⟨h.1,h.2.1,h.2.2.1,h.2.2.2⟩⟩
  unfold checkMigration
  by_cases hm : c.strategy = .migrate
  · cases htp : c.topology <;> cases hs : c.state <;> cases hx : c.transfer <;>
      simp_all [and_assoc]
  · simp [hm]

theorem checkShadow_clear (c : RecoveryCandidate) (f : FeasFlags) :
    (checkShadow c f).Clear ↔ f.Clear ∧
      (c.strategy = .shadowPromote → ∃ sh, c.shadow = some sh ∧ sh.Usable) := by
  have hu : ∀ sh : ShadowEvidence, sh.Usable ↔
      sh.readiness = .ready ∧ sh.lag.value.toInt ≤ 2^40 ∧ sh.compatibility ≠ .incompatible :=
    fun sh => ⟨fun h => ⟨h.1,h.2,h.3⟩,fun h => ⟨h.1,h.2.1,h.2.2⟩⟩
  unfold checkShadow
  by_cases hm : c.strategy = .shadowPromote
  · cases hs : c.shadow with
    | none => simp [hm]
    | some sh =>
      -- A lag beyond the bound is positive, so the first comparison adds nothing.
      have hlag : (decide (0 < sh.lag.value) && decide ((2^40 : Int) < sh.lag.value.toInt)) =
          false ↔ sh.lag.value.toInt ≤ 2^40 := by
        have h0 : 0 < sh.lag.value ↔ 0 < sh.lag.value.toInt := Int64.lt_iff_toInt_lt
        rw [Bool.and_eq_false_iff,decide_eq_false_iff_not,decide_eq_false_iff_not,h0]
        omega
      simp only [hm,ne_eq,not_true,if_false,clear_hardIf,hlag]
      simp [hu,and_assoc]
  · simp [hm]

theorem checkRecompute_clear (c : RecoveryCandidate) (request : RecoveryRequest)
    (ctx : PlannerContext) (f : FeasFlags) :
    (checkRecompute c request ctx f).Clear ↔ f.Clear ∧
      (c.strategy = .recompute → RecomputeUsable c.cost request ctx) ∧
      (c.strategy = .rehydrate → c.state.isSome = true) := by
  have hu : RecomputeUsable c.cost request ctx ↔
      ctx.recomputeAvailable request.workloadGeneration = true ∧
      ∃ t, c.cost.bind CostEvidence.recomputeTime = some t :=
    ⟨fun h => ⟨h.1,h.2⟩,fun h => ⟨h.1,h.2⟩⟩
  unfold checkRecompute
  by_cases hm : c.strategy = .recompute
  · cases hb : c.cost.bind CostEvidence.recomputeTime <;> simp [hm,hu,hb]
  · cases hs : c.state <;> simp [hm]

/-- FEASIBLE says exactly this much about the candidate. -/
theorem feasible_iff (c : RecoveryCandidate) (request : RecoveryRequest) (ctx : PlannerContext) :
    (evaluateFeasibility c request ctx).result = .feasible ↔ Acceptable c request ctx := by
  unfold evaluateFeasibility
  by_cases hf : c.strategy ∈ request.forbiddenStrategies
  · rw [if_pos hf]
    exact iff_of_false (by simp [aggregate,hard]) fun h => h.allowed hf
  · rw [if_neg hf,aggregate_feasible,checkRecompute_clear,checkShadow_clear,
      checkMigration_clear,checkResource_clear,checkAvailability_clear,checkCompatibility_clear,
      checkState_clear,checkAuthority_clear,checkIdentity_clear]
    constructor
    · rintro ⟨⟨⟨⟨⟨⟨⟨⟨⟨_,hid,hgen,hdecl⟩,hauth,hwork⟩,⟨st,hs,hint,hun,hsg⟩,hck⟩,hco,hreq⟩,hav⟩,
        hrs⟩,hmig⟩,hsh⟩,hrec,_⟩
      exact ⟨hf,hid,hgen,hdecl,hauth,⟨st,hs,hwork st hs,hint,hun,hsg⟩,hck,hco,hreq,hav,hrs,hmig,
        hsh,hrec⟩
    · intro h
      obtain ⟨st,hs,hu⟩ := h.state
      have hwork : ∀ st', c.state = some st' →
          st'.workloadGeneration = request.workloadGeneration ∨
            st'.workloadGeneration.isValid = false := by
        intro st' hs'
        obtain rfl := Option.some.inj (hs.symm.trans hs')
        exact hu.workload
      refine ⟨⟨⟨⟨⟨⟨⟨⟨⟨clear_empty,h.candidateId,h.generation,h.declared⟩,h.authority,hwork⟩,
        ⟨st,hs,hu.integrity,hu.unmarked,hu.generation⟩,h.checkpoint⟩,h.compatibility,h.required⟩,
        h.availability⟩,h.resource⟩,h.migration⟩,h.shadow⟩,h.recompute,fun _ => ?_⟩
      rw [hs]
      rfl

end RecoveryPlanner
