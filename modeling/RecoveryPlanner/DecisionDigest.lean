import RecoveryPlanner.Ledger
import RecoveryPlanner.Ranking
import RecoveryPlanner.Replicas
set_option autoImplicit false

/-! What a decision digest says about a plan. The pre-image is of fixed width, so equal digests
come from equal decisions or from two pre-images that a run has shown to collide. -/

namespace RecoveryPlanner

theorem flatMap_injective {α β : Type} {f : α → List β} {n : Nat} (hn : 0 < n)
    (hlen : ∀ a, (f a).length = n) (hf : Function.Injective f) :
    Function.Injective (List.flatMap f) := by
  have hne : ∀ (a : α) (as : List α), [] ≠ (a :: as).flatMap f := by
    intro a as h
    have hl := congrArg List.length h
    rw [List.flatMap_cons,List.length_append,hlen,List.length_nil] at hl
    omega
  intro xs
  induction xs with
  | nil =>
    intro ys h
    cases ys with
    | nil => rfl
    | cons y ys => exact absurd h (hne y ys)
  | cons x xs ih =>
    intro ys h
    cases ys with
    | nil => exact absurd h.symm (hne x xs)
    | cons y ys =>
      rw [List.flatMap_cons,List.flatMap_cons] at h
      obtain ⟨hx,hxs⟩ := List.append_inj h ((hlen x).trans (hlen y).symm)
      rw [hf hx,ih hxs]

theorem u64_length (v : UInt64) : (ByteWriter.u64 v).length = 8 := bigEndian_length 8 v.toNat

theorem u64_injective : Function.Injective ByteWriter.u64 := by
  intro v w h
  rw [← toUInt64_bigEndian v,← toUInt64_bigEndian w]
  exact congrArg (fun bs => (fromBigEndian bs).toUInt64) h

theorem hexEncode_injective : Function.Injective hexEncode := by
  have hdigit : ∀ m n : Fin 16, hexDigit m = hexDigit n → m = n := by decide +kernel
  refine flatMap_injective (n := 2) (by decide) (fun _ => rfl) fun b b' h => ?_
  obtain ⟨hhigh,hlow⟩ := List.cons_eq_cons.mp h
  have hlow := (List.cons_eq_cons.mp hlow).1
  have hb := b.toNat_lt
  have hb' := b'.toNat_lt
  have h1 := hdigit ⟨b.toNat/16%16,by omega⟩ ⟨b'.toNat/16%16,by omega⟩ hhigh
  have h2 := hdigit ⟨b.toNat%16,by omega⟩ ⟨b'.toNat%16,by omega⟩ hlow
  have h1 := congrArg Fin.val h1
  have h2 := congrArg Fin.val h2
  apply UInt8.toNat_inj.mp
  dsimp only at h1 h2
  omega

theorem id_value_inj {tag : IdTag} {a b : Id tag} : a.value = b.value ↔ a = b := by
  cases a
  cases b
  simp

/-- What is hashed of a decision: the request, the selected candidate and the generations that
fence it, but neither the plan's own id nor the time. -/
structure DecisionIdentity where
  requestId : RecoveryRequestId
  workload : WorkloadId
  workloadGeneration : WorkloadGeneration
  execution : ExecutionId
  failure : FailureId
  epoch : CoordinatorEpoch
  strategy : RecoveryStrategy
  candidateId : CandidateId
  candidateGeneration : CandidateGeneration
  targetWorker : WorkerId
  targetBoot : WorkerBootId
  stateSource : StateId
  stateGeneration : StateGeneration
  policyGeneration : PolicyGeneration
  compatibilityGeneration : CompatibilityGeneration
  resourceGeneration : ResourceGeneration
  deriving DecidableEq

namespace DecisionIdentity

def front (d : DecisionIdentity) : List UInt64 :=
  [d.requestId.value,d.workload.value,d.workloadGeneration.value,d.execution.value,
   d.failure.value,d.epoch.value]

def back (d : DecisionIdentity) : List UInt64 :=
  [d.candidateId.value,d.candidateGeneration.value,d.targetWorker.value,d.targetBoot.value,
   d.stateSource.value,d.stateGeneration.value,d.policyGeneration.value,
   d.compatibilityGeneration.value,d.resourceGeneration.value]

def preimage (d : DecisionIdentity) : Bytes :=
  d.front.flatMap ByteWriter.u64 ++ d.strategy.toByte :: d.back.flatMap ByteWriter.u64

theorem preimage_injective : Function.Injective preimage := by
  have hwords : Function.Injective (List.flatMap ByteWriter.u64) :=
    flatMap_injective (by decide : 0 < 8) u64_length u64_injective
  intro d e h
  have hlen : (d.front.flatMap ByteWriter.u64).length = (e.front.flatMap ByteWriter.u64).length := by
    simp [front,u64_length]
  obtain ⟨hfront,hrest⟩ := List.append_inj h hlen
  obtain ⟨hbyte,hback⟩ := List.cons_eq_cons.mp hrest
  have hfront := hwords hfront
  have hback := hwords hback
  have hstrategy : d.strategy = e.strategy := by
    rw [← RecoveryStrategy.ofByte_toByte d.strategy,hbyte,RecoveryStrategy.ofByte_toByte]
  simp only [front,List.cons.injEq,id_value_inj,and_true] at hfront
  simp only [back,List.cons.injEq,id_value_inj,and_true] at hback
  cases d
  cases e
  simp only [mk.injEq]
  exact ⟨hfront.1,hfront.2.1,hfront.2.2.1,hfront.2.2.2.1,hfront.2.2.2.2.1,hfront.2.2.2.2.2,
    hstrategy,hback⟩

end DecisionIdentity

theorem decisionDigest_eq (req : RecoveryRequest) (plan : RecoveryPlan) (ctx : PlannerContext) :
    decisionDigest req plan ctx = hexEncode (sha256 (DecisionIdentity.preimage
      { requestId := req.requestId
        workload := req.workload
        workloadGeneration := req.workloadGeneration
        execution := req.execution
        failure := req.failure
        epoch := ctx.epoch
        strategy := plan.strategy
        candidateId := plan.candidateId
        candidateGeneration := plan.candidateGeneration
        targetWorker := plan.targetWorker
        targetBoot := plan.targetBoot
        stateSource := plan.stateSource
        stateGeneration := plan.stateGeneration
        policyGeneration := plan.authority.policyGeneration
        compatibilityGeneration := plan.authority.compatibilityGeneration
        resourceGeneration := plan.authority.resourceGeneration })) := by
  refine congrArg (fun bs => hexEncode (sha256 bs)) ?_
  simp [DecisionIdentity.preimage,DecisionIdentity.front,DecisionIdentity.back,ByteWriter.u8]

namespace RecoveryPlan

/-- The decision that the plan stands for. The execution and the failure are in the request
alone. -/
def identity (p : RecoveryPlan) (execution : ExecutionId) (failure : FailureId) :
    DecisionIdentity where
  requestId := p.requestId
  workload := p.workload
  workloadGeneration := p.authority.workloadGeneration
  execution := execution
  failure := failure
  epoch := p.authority.coordinatorEpoch
  strategy := p.strategy
  candidateId := p.candidateId
  candidateGeneration := p.candidateGeneration
  targetWorker := p.targetWorker
  targetBoot := p.targetBoot
  stateSource := p.stateSource
  stateGeneration := p.stateGeneration
  policyGeneration := p.authority.policyGeneration
  compatibilityGeneration := p.authority.compatibilityGeneration
  resourceGeneration := p.authority.resourceGeneration

theorem identity_of_fence {p p' : RecoveryPlan} (h : p'.fence = p.fence) :
    p'.identity = p.identity := by
  have hall := PlanFence.mk.inj h
  funext execution failure
  simp [identity,hall]

def Attested (p : RecoveryPlan) (bs : Bytes) : Prop :=
  (∃ execution failure, bs = (p.identity execution failure).preimage) ∧
    p.decisionDigest = hexEncode (sha256 bs)

theorem Attested.of_fence {p p' : RecoveryPlan} {bs : Bytes} (h : p.Attested bs)
    (hf : p'.fence = p.fence) (hd : p'.decisionDigest = p.decisionDigest) : p'.Attested bs := by
  rw [Attested,identity_of_fence hf,hd]
  exact h

end RecoveryPlan

theorem Evolves.decisionDigest {p p' : RecoveryPlan} (h : Evolves p p') :
    p'.decisionDigest = p.decisionDigest := by
  cases h <;> rfl

theorem RecoveryPlan.Attested.durable {p : RecoveryPlan} {bs : Bytes} (h : p.Attested bs) :
    p.durable.Attested bs := by
  refine h.of_fence rfl ?_
  show cut p.decisionDigest = p.decisionDigest
  rw [h.2]
  exact (hexEncode_plain _).cut_eq

theorem RecoveryPlan.Attested.evolves {p p' : RecoveryPlan} {bs : Bytes} (h : p.Attested bs)
    (he : Evolves p p') : p'.Attested bs :=
  h.of_fence he.fence he.decisionDigest

theorem Impl.plan_attested {std : StdSort} {im : Impl} {now : Timestamp}
    {request : RecoveryRequest} {cs : List RecoveryCandidate} {p : RecoveryPlan}
    (h : (im.plan std now request cs).1.plan = some p) :
    p.Attested (p.identity request.execution request.failure).preimage := by
  refine ⟨⟨_,_,rfl⟩,?_⟩
  rcases plan_adopts std im now request cs with ⟨_,hnone,_⟩ | ⟨c,e,_,hp,_⟩
  · rw [hnone] at h
    exact nomatch h
  · obtain rfl := Option.some.inj (hp.symm.trans h)
    exact decisionDigest_eq request (im.planFor request now c) im.ctx

theorem Node.plan_of_created {std : StdSort} {n : Node} {a : Act} {p : RecoveryPlan}
    (h : (n.act std a).log = .created p :: n.log) :
    ∃ now request cs, a = .plan now request cs ∧
      (n.impl.plan std now request cs).1.plan = some p := by
  cases a with
  | plan now request cs =>
    refine ⟨now,request,cs,rfl,?_⟩
    simp only [act] at h
    split at h
    · rename_i q hq
      rw [hq,Event.created.inj (List.cons.inj h).1]
    · exact absurd (congrArg List.length h) (by simp)
  | _ => exact absurd h (act_not_created (by simp) p)

namespace Session

def hashed (std : StdSort) (s : Session) : Op → List Bytes
  | .act (.plan now request cs) =>
    match (s.node.impl.plan std now request cs).1.plan with
    | some p => [(p.identity request.execution request.failure).preimage]
    | none => []
  | _ => []

def hashes (std : StdSort) (hasStore : Bool) (ops : List Op) : List Bytes :=
  meaning (step std) (hashed std) (construct hasStore) ops

structure AllAttested (s : Session) (trail : List Bytes) : Prop where
  kept : s.node.impl.WellKept
  attested : ∀ k p, s.plan? k = some p → ∃ bs ∈ trail, p.Attested bs

theorem step_attested (std : StdSort) {s : Session} {op : Op} (hop : s.Allowed op)
    {trail : List Bytes} (h : s.AllAttested trail) :
    (s.step std op).AllAttested (run (fun es e => es ++ [e]) trail (hashed std s op)) := by
  refine ⟨step_wellKept std hop h.kept,fun k p' hp' => ?_⟩
  rw [run_snoc]
  have hold : ∀ p, s.plan? k = some p → (∀ bs, p.Attested bs → p'.Attested bs) →
      ∃ bs ∈ trail ++ hashed std s op, p'.Attested bs := by
    intro p hp hkeep
    obtain ⟨bs,hbs,ha⟩ := h.attested k p hp
    exact ⟨bs,List.mem_append_left _ hbs,hkeep bs ha⟩
  cases op with
  | act a =>
    cases (s.node.act_step std a).record h.kept.plansSound.keyed k with
    | same plan life => exact hold p' (plan.symm.trans hp') fun _ ha => ha
    | created fresh key plan log =>
      obtain rfl := Option.some.inj (plan.symm.trans hp')
      obtain ⟨now,request,cs,rfl,hplan⟩ := Node.plan_of_created log
      refine ⟨_,List.mem_append_right _ ?_,Impl.plan_attested hplan⟩
      simp [hashed,hplan]
    | evolved before he plan life =>
      obtain rfl := Option.some.inj (plan.symm.trans hp')
      exact hold _ before fun _ ha => ha.evolves he
    | handedOff before hs hcur plan life =>
      obtain rfl := Option.some.inj (plan.symm.trans hp')
      exact hold _ before fun _ ha => ha.of_fence rfl rfl
  | saveState => exact hold p' hp' fun _ ha => ha
  | loadState => exact absurd rfl hop.noLoad
  | restartCoordinator clock =>
    obtain ⟨p,hp,hsv⟩ := restart_survives clock s.disk (hop.fits clock rfl) h.kept.plansSound hp'
    refine hold p hp fun bs ha => ?_
    exact hsv.rule (Q := fun q => q.Attested bs) (h.kept k p hp).sound ha ha.durable
      fun _ _ he hq => hq.evolves he

theorem run_attested (std : StdSort) (hasStore : Bool) (ops : List Op)
    (h : Along Allowed (step std) (construct hasStore) ops) {k : UInt64} {p : RecoveryPlan}
    (hp : (run (step std) (construct hasStore) ops).plan? k = some p) :
    ∃ bs ∈ hashes std hasStore ops, p.Attested bs := by
  have hstart : (construct hasStore).AllAttested [] :=
    ⟨Impl.construct_wellKept hasStore,fun k p hk => absurd hk (by
      simp [plan?,construct,Node.construct,Impl.construct])⟩
  have hrun := h.simulates hstart fun _ _ _ hop hs => step_attested std hop hs
  rw [run_snoc,List.nil_append] at hrun
  exact hrun.attested k p hp

/-- Two stored plans with one digest, of the same planner or of two, after any operations and
restarts: they stand for the same decision, or the runs have hashed a collision. -/
theorem run_digest (std std' : StdSort) (hasStore hasStore' : Bool) (ops ops' : List Op)
    (h : Along Allowed (step std) (construct hasStore) ops)
    (h' : Along Allowed (step std') (construct hasStore') ops') {k k' : UInt64}
    {p p' : RecoveryPlan} (hp : (run (step std) (construct hasStore) ops).plan? k = some p)
    (hp' : (run (step std') (construct hasStore') ops').plan? k' = some p')
    (hdigest : p.decisionDigest = p'.decisionDigest) :
    (∃ execution failure, p.identity execution failure = p'.identity execution failure) ∨
    ∃ bs ∈ hashes std hasStore ops, ∃ bs' ∈ hashes std' hasStore' ops',
      bs ≠ bs' ∧ sha256 bs = sha256 bs' := by
  obtain ⟨bs,hbs,⟨execution,failure,hid⟩,hd⟩ := run_attested std hasStore ops h hp
  obtain ⟨bs',hbs',⟨execution',failure',hid'⟩,hd'⟩ := run_attested std' hasStore' ops' h' hp'
  have hsame : sha256 bs = sha256 bs' := hexEncode_injective (hd.symm.trans (hdigest.trans hd'))
  by_cases heq : bs = bs'
  · left
    have hboth := DecisionIdentity.preimage_injective (hid.symm.trans (heq.trans hid'))
    have hexecution : execution = execution' := congrArg DecisionIdentity.execution hboth
    have hfailure : failure = failure' := congrArg DecisionIdentity.failure hboth
    subst hexecution hfailure
    exact ⟨execution,failure,hboth⟩
  · exact .inr ⟨bs,hbs,bs',hbs',heq,hsame⟩

def repeatedRun : List Op :=
  [.act (.registerWorker ⟨1⟩ ⟨1⟩),.act (.plan ⟨0⟩ (requestNo 1) [readyCandidate]),
   .act (.plan ⟨5⟩ (requestNo 1) [readyCandidate])]

theorem run_digest_repeated : ∃ p p',
    (run (step .insertion) (construct true) (steadyRun.take 2)).plan? 1 = some p ∧
    (run (step .insertion) (construct false) repeatedRun).plan? 2 = some p' ∧
    p.decisionDigest = p'.decisionDigest ∧
    ((∃ execution failure, p.identity execution failure = p'.identity execution failure) ∨
      ∃ bs ∈ hashes .insertion true (steadyRun.take 2),
        ∃ bs' ∈ hashes .insertion false repeatedRun, bs ≠ bs' ∧ sha256 bs = sha256 bs') := by
  have hsteady : Along Allowed (step .insertion) (construct true) (steadyRun.take 2) :=
    ⟨⟨nofun,nofun⟩,⟨nofun,nofun⟩,trivial⟩
  have hrepeated : Along Allowed (step .insertion) (construct false) repeatedRun :=
    ⟨⟨nofun,nofun⟩,⟨nofun,nofun⟩,⟨nofun,nofun⟩,trivial⟩
  have hfirst : ((run (step .insertion) (construct true) (steadyRun.take 2)).plan? 1).isSome =
      true := by decide +kernel
  have hsecond : ((run (step .insertion) (construct false) repeatedRun).plan? 2).isSome =
      true := by decide +kernel
  have hsame : ∀ bs ∈ hashes .insertion true (steadyRun.take 2),
      ∀ bs' ∈ hashes .insertion false repeatedRun, bs = bs' := by decide +kernel
  obtain ⟨p,hp⟩ := Option.isSome_iff_exists.mp hfirst
  obtain ⟨p',hp'⟩ := Option.isSome_iff_exists.mp hsecond
  obtain ⟨bs,hbs,_,hd⟩ := run_attested .insertion true (steadyRun.take 2) hsteady hp
  obtain ⟨bs',hbs',_,hd'⟩ := run_attested .insertion false repeatedRun hrepeated hp'
  have hdigest : p.decisionDigest = p'.decisionDigest := by
    rw [hd,hd',hsame bs hbs bs' hbs']
  exact ⟨p,p',hp,hp',hdigest,run_digest .insertion .insertion true false (steadyRun.take 2)
    repeatedRun hsteady hrepeated hp hp' hdigest⟩

end Session

end RecoveryPlanner
