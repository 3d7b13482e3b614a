import RecoveryPlanner.CountOverflow
import RecoveryPlanner.Node
set_option autoImplicit false

/-! Runs of one planner with a store of its own. -/

namespace RecoveryPlanner

structure Session where
  node : Node
  disk : Impl.Disk := none

/-- The public operations, critical section by critical section. -/
inductive Op where
  | act (a : Act)
  | saveState
  | loadState
  | restartCoordinator (clock : UInt64 → Timestamp)

namespace Session

def construct (hasStore : Bool) : Session := { node := .construct hasStore }

def step (std : StdSort) (s : Session) : Op → Session
  | .act a => { s with node := s.node.act std a }
  | .saveState => { s with disk := (s.node.impl.saveState s.disk).2 }
  | .loadState =>
    { s with node := { s.node with impl := (s.node.impl.loadState s.disk).2 } }
  | .restartCoordinator clock =>
    let r := s.node.impl.restartCoordinator clock s.disk
    { node := { s.node with impl := r.1 }, disk := r.2 }

def plan? (s : Session) (k : UInt64) : Option RecoveryPlan := s.node.impl.plans.find? k

/-- No plan is loaded back, and a restart that goes through the store writes counts
that are the real ones. -/
structure Allowed (s : Session) (op : Op) : Prop where
  noLoad : op ≠ .loadState
  fits : ∀ clock, op = .restartCoordinator clock → s.node.impl.hasStore = true →
    s.node.impl.CountsFit

/-- One step, as seen from one id. -/
inductive Change (s s' : Session) (k : UInt64) : Prop where
  | act (h : RecordChange s.node s'.node k)
  | restart (log : s'.node.log = s.node.log)
      (plan : ∀ p', s'.plan? k = some p' → ∃ p, s.plan? k = some p ∧ Survives p p')

theorem restart_survives {im : Impl} (clock : UInt64 → Timestamp) (disk : Impl.Disk)
    (hfit : im.hasStore = true → im.CountsFit) (hs : Impl.PlansSound im.plans) {k : UInt64}
    {p' : RecoveryPlan} (h : (im.restartCoordinator clock disk).1.plans.find? k = some p') :
    ∃ p, im.plans.find? k = some p ∧ Survives p p' := by
  cases hstore : im.hasStore with
  | false =>
    have h : (im.restartReloading clock disk).plans.find? k = some p' := by
      simpa [Impl.restartCoordinator,Impl.saveState,hstore] using h
    rw [Impl.restartReloading_storeless hstore] at h
    obtain ⟨q,hq,rfl⟩ := Impl.find?_retirePlans h
    exact ⟨q,hq,q,_,.inl rfl,rfl⟩
  | true =>
    have h : (im.restartReloading clock (some im.encodeSnapshot)).plans.find? k = some p' := by
      simpa [Impl.restartCoordinator,Impl.saveState,hstore] using h
    obtain ⟨q,rfl,hq⟩ := im.restartReloading_plans clock hfit hs h
    rcases hq with hq | ⟨r,hr,rfl⟩
    · exact ⟨q,hq,q,_,.inl rfl,rfl⟩
    · exact ⟨r,hr,r.durable,_,.inr rfl,rfl⟩

theorem step_change (std : StdSort) {s : Session} {op : Op} (hop : s.Allowed op)
    (hs : Impl.PlansSound s.node.impl.plans) (k : UInt64) : Change s (s.step std op) k := by
  cases op with
  | act a => exact .act ((s.node.act_step std a).record hs.keyed k)
  | saveState => exact .act (.same rfl rfl)
  | loadState => exact absurd rfl hop.noLoad
  | restartCoordinator clock =>
    exact .restart rfl fun p' hp' => restart_survives clock s.disk (hop.fits clock rfl) hs hp'

theorem step_wellKept (std : StdSort) {s : Session} {op : Op} (hop : s.Allowed op)
    (hs : s.node.impl.WellKept) : (s.step std op).node.impl.WellKept := by
  intro k p' hp'
  cases step_change std hop hs.plansSound k with
  | act h => exact h.wellKept hs hp'
  | restart log plan =>
    obtain ⟨p,hp,hsv⟩ := plan p' hp'
    exact hsv.wellKept (hs k p hp)

/-- What every state of an allowed run satisfies. -/
structure Inv (s : Session) : Prop where
  kept : s.node.impl.WellKept
  numbered : Numbered s.node

theorem construct_inv (hasStore : Bool) : (construct hasStore).Inv := by
  refine ⟨Impl.construct_wellKept hasStore,rfl,fun k p h => ?_⟩
  exact absurd h (by simp [construct,Node.construct,Impl.construct])

theorem restart_numbered {n : Node} (clock : UInt64 → Timestamp) (disk : Impl.Disk)
    (hfit : n.impl.hasStore = true → n.impl.CountsFit) (hw : n.impl.WellKept)
    (hn : Numbered n) :
    Numbered { n with impl := (n.impl.restartCoordinator clock disk).1 } := by
  have hid := (n.impl.restartReloading_frame clock (n.impl.saveState disk).2).nextPlanId
  refine ⟨?_,fun k p' hp' => ?_⟩
  · show (n.impl.restartReloading clock (n.impl.saveState disk).2).nextPlanId.toNat = _
    rw [hid]
    exact hn.next
  · obtain ⟨p,hp,_⟩ := restart_survives clock disk hfit hw.plansSound hp'
    exact hn.below k p hp

theorem step_inv (std : StdSort) {s : Session} {op : Op} (hop : s.Allowed op) (h : s.Inv) :
    (s.step std op).Inv := by
  refine ⟨step_wellKept std hop h.kept,?_⟩
  cases op with
  | act a => exact (s.node.act_step std a).numbered h.kept h.numbered
  | saveState => exact h.numbered
  | loadState => exact absurd rfl hop.noLoad
  | restartCoordinator clock =>
    exact restart_numbered clock s.disk (hop.fits clock rfl) h.kept h.numbered

/-- A plan appears as PLANNED, and every change of state is in the table. -/
structure LegalStep (s s' : Session) : Prop where
  starts : ∀ k p', s.plan? k = none → s'.plan? k = some p' → p'.state = .planned
  edges : ∀ k p p', s.plan? k = some p → s'.plan? k = some p' → p'.state ≠ p.state →
    validatePlanTransition p.state p'.state = true

theorem Inv.next_unused {s s' : Session} (h : s.Inv) {p : RecoveryPlan}
    (log : s'.node.log = .created p :: s.node.log) (hc : createdCount s'.node.log < 2^64)
    {k : UInt64} (hk : k.toNat ≤ createdCount s.node.log) : k ≠ s.node.impl.nextPlanId := by
  intro heq
  have hnext := h.numbered.next
  rw [log,createdCount_created] at hc
  rw [Nat.mod_eq_of_lt hc,← heq] at hnext
  omega

theorem step_legal (std : StdSort) {s : Session} {op : Op} (hop : s.Allowed op) (h : s.Inv)
    (hc : createdCount (s.step std op).node.log < 2^64) : LegalStep s (s.step std op) := by
  constructor
  · intro k p' hk hp'
    cases step_change std hop h.kept.plansSound k with
    | act h =>
      cases h with
      | same plan life => exact absurd (hp'.symm.trans (plan.trans hk)) (by simp)
      | created fresh key plan log =>
        obtain rfl := Option.some.inj (plan.symm.trans hp')
        exact fresh.state
      | evolved before h plan life => exact absurd (before.symm.trans hk) (by simp)
      | handedOff before hs hcur plan life => exact absurd (before.symm.trans hk) (by simp)
    | restart log plan =>
      obtain ⟨p,hp,_⟩ := plan p' hp'
      exact absurd (hp.symm.trans hk) (by simp)
  · intro k p p' hp hp' hne
    have hsound := (h.kept k p hp).sound
    cases step_change std hop h.kept.plansSound k with
    | act hrec =>
      cases hrec with
      | same plan life =>
        obtain rfl := Option.some.inj (hp'.symm.trans (plan.trans hp))
        exact absurd rfl hne
      | created fresh key plan log =>
        exact absurd key (h.next_unused log hc (h.numbered.below k p hp))
      | evolved before he plan life =>
        obtain rfl := Option.some.inj (before.symm.trans hp)
        obtain rfl := Option.some.inj (plan.symm.trans hp')
        exact he.state.resolve_left hne
      | handedOff before hs hcur plan life =>
        obtain rfl := Option.some.inj (before.symm.trans hp)
        obtain rfl := Option.some.inj (plan.symm.trans hp')
        rw [hs]
        rfl
    | restart log plan =>
      obtain ⟨q,hq,hsv⟩ := plan p' hp'
      obtain rfl := Option.some.inj (hq.symm.trans hp)
      exact (hsv.state hsound).resolve_left hne

theorem step_count_le (std : StdSort) (s : Session) (op : Op) :
    createdCount s.node.log ≤ createdCount (s.step std op).node.log := by
  cases op with
  | act a => exact (s.node.act_step std a).count_le
  | _ => exact le_rfl

def Closed (k : UInt64) (p : RecoveryPlan) (s : Session) : Prop :=
  k.toNat ≤ createdCount s.node.log ∧ ∀ p', s.plan? k = some p' → SameVerdict p p'

theorem step_closed (std : StdSort) {s : Session} {op : Op} (hop : s.Allowed op) (h : s.Inv)
    (hc : createdCount (s.step std op).node.log < 2^64) {k : UInt64} {p : RecoveryPlan}
    (ht : p.state.terminal = true) (hk : Closed k p s) : Closed k p (s.step std op) := by
  refine ⟨hk.1.trans (step_count_le std s op),fun p' hp' => ?_⟩
  have hterm : ∀ q, s.plan? k = some q → q.state.terminal = true := by
    intro q hq
    rw [(hk.2 q hq).state]
    exact ht
  cases step_change std hop h.kept.plansSound k with
  | act hrec =>
    cases hrec with
    | same plan life => exact hk.2 p' (plan.symm.trans hp')
    | created fresh key plan log => exact absurd key (h.next_unused log hc hk.1)
    | evolved before he plan life =>
      obtain rfl := Option.some.inj (plan.symm.trans hp')
      exact (hk.2 _ before).trans (he.terminal (hterm _ before))
    | handedOff before hs hcur plan life =>
      have hdead := hterm _ before
      rw [hs] at hdead
      exact absurd hdead (by decide)
  | restart log plan =>
    obtain ⟨q,hq,hsv⟩ := plan p' hp'
    exact (hk.2 q hq).trans (hsv.terminal (h.kept k q hq).sound (hterm q hq))

/-- Allowed steps that leave the number of plans ever created below 2^64. -/
def Within (std : StdSort) (s : Session) (op : Op) : Prop :=
  s.Allowed op ∧ createdCount (s.step std op).node.log < 2^64

theorem run_inv {std : StdSort} {hasStore : Bool} {ops : List Op}
    (h : Along (Within std) (step std) (construct hasStore) ops) :
    (run (step std) (construct hasStore) ops).Inv :=
  h.invariant (construct_inv hasStore) fun _ _ hop hs => step_inv std hop.1 hs

/-- Plans start at PLANNED, move only along the table, and a terminal verdict stands
for the rest of the run. -/
theorem run_lifecycle (std : StdSort) (hasStore : Bool) (ops : List Op)
    (h : Along (Within std) (step std) (construct hasStore) ops) :
    (∀ pre op post, ops = pre ++ op :: post →
      LegalStep (run (step std) (construct hasStore) pre)
        (run (step std) (construct hasStore) (pre ++ [op]))) ∧
    (∀ pre mid post, ops = pre ++ (mid ++ post) → ∀ k p p',
      (run (step std) (construct hasStore) pre).plan? k = some p → p.state.terminal = true →
      (run (step std) (construct hasStore) (pre ++ mid)).plan? k = some p' →
      SameVerdict p p') := by
  constructor
  · rintro pre op post rfl
    obtain ⟨hpre,hop,_⟩ := along_append.mp h
    rw [run_append]
    exact step_legal std hop.1 (run_inv hpre) hop.2
  · rintro pre mid post rfl k p p' hp ht hp'
    obtain ⟨hpre,hrest⟩ := along_append.mp h
    obtain ⟨hmid,_⟩ := along_append.mp hrest
    have hinv := run_inv hpre
    have hclosed : Closed k p (run (step std) (construct hasStore) pre) := by
      refine ⟨hinv.numbered.below k p hp,fun q hq => ?_⟩
      obtain rfl := Option.some.inj (hp.symm.trans hq)
      exact .refl p
    have hend := hmid.invariant (I := fun s => s.Inv ∧ Closed k p s) ⟨hinv,hclosed⟩
      fun s op hop hs => ⟨step_inv std hop.1 hs.1,step_closed std hop.1 hs.1 hop.2 ht hs.2⟩
    rw [run_append] at hp'
    exact hend.2.2 p' hp'

def readyCandidate : RecoveryCandidate :=
  { candidateId := ⟨1⟩
    generation := ⟨1⟩
    targetWorker := ⟨1⟩
    targetBoot := ⟨1⟩
    stateGeneration := ⟨1⟩
    state := some { stateGeneration := ⟨1⟩, integrity := .valid }
    availability := some { worker := ⟨1⟩, boot := ⟨1⟩, isAlive := true, readiness := .ready }
    resource := some { generation := ⟨1⟩, status := .available }
    authority := some { coordinatorEpoch := ⟨1⟩, policyGeneration := ⟨1⟩ } }

def requestNo (k : UInt64) : RecoveryRequest := { requestId := ⟨k⟩, workloadGeneration := ⟨1⟩ }

def steadyRun : List Op :=
  [.act (.registerWorker ⟨1⟩ ⟨1⟩),.act (.plan ⟨0⟩ (requestNo 1) [readyCandidate]),
   .act (.cancelPlan ⟨1⟩ ⟨1⟩ false),.act (.invalidatePlan ⟨2⟩ ⟨1⟩),
   .restartCoordinator (fun _ => ⟨3⟩)]

theorem run_lifecycle_steady :
    Along (Within .insertion) (step .insertion) (construct true) steadyRun ∧
    LegalStep (run (step .insertion) (construct true) (steadyRun.take 4))
      (run (step .insertion) (construct true) steadyRun) ∧
    ∃ p p', (run (step .insertion) (construct true) (steadyRun.take 3)).plan? 1 = some p ∧
      p.state = .cancelled ∧
      (run (step .insertion) (construct true) (steadyRun.take 4)).plan? 1 = some p' ∧
      SameVerdict p p' := by
  have h : Along (Within .insertion) (step .insertion) (construct true) steadyRun := by
    refine ⟨⟨⟨nofun,nofun⟩,by decide +kernel⟩,⟨⟨nofun,nofun⟩,by decide +kernel⟩,
      ⟨⟨nofun,nofun⟩,by decide +kernel⟩,⟨⟨nofun,nofun⟩,by decide +kernel⟩,
      ⟨⟨nofun,fun clock h _ => ?_⟩,by decide +kernel⟩,trivial⟩
    decide +kernel
  have hrun := run_lifecycle .insertion true steadyRun h
  have hbefore : ((run (step .insertion) (construct true) (steadyRun.take 3)).plan? 1).map
      RecoveryPlan.state = some .cancelled := by decide +kernel
  have hafter : ((run (step .insertion) (construct true) (steadyRun.take 4)).plan? 1).isSome
      = true := by decide +kernel
  obtain ⟨p,hp,hs⟩ := Option.map_eq_some_iff.mp hbefore
  obtain ⟨p',hp'⟩ := Option.isSome_iff_exists.mp hafter
  exact ⟨h,hrun.1 (steadyRun.take 4) (.restartCoordinator (fun _ => ⟨3⟩)) [] rfl,p,p',hp,hs,hp',
    hrun.2 (steadyRun.take 3) [.act (.invalidatePlan ⟨2⟩ ⟨1⟩)]
      [.restartCoordinator (fun _ => ⟨3⟩)] rfl 1 p p' hp (by rw [hs]; rfl) hp'⟩

def forgedSuccess : SortedMap UInt64 RecoveryPlan :=
  SortedMap.empty.insert 1 { planId := ⟨1⟩, state := .succeeded }

theorem mem_forgedSuccess {p : RecoveryPlan} (hp : p ∈ forgedSuccess.values) :
    p = { planId := ⟨1⟩, state := .succeeded } := by
  simpa [forgedSuccess,SortedMap.values,SortedMap.insert,SortedMap.insertEntry,
    SortedMap.empty] using hp

def overflowPrefix : List Op :=
  [.act (.registerWorker ⟨1⟩ ⟨1⟩),
   .act (.plan ⟨0⟩ ((requestNo 1).carrying (forgedLedger forgedSuccess)) [readyCandidate])]

def overflowRestart : Op := .restartCoordinator (fun _ => ⟨0⟩)

theorem overflow_restart :
    (run (step .insertion) (construct true) (overflowPrefix ++ [overflowRestart])).node.impl.plans =
      SortedMap.empty.insert 1 { planId := ⟨1⟩, state := .succeeded } := by
  have hr : Impl.RoundTrips (Impl.forged
      (run (step .insertion) (construct true) overflowPrefix).node.impl
      (requestNo 1) forgedSuccess) := by
    refine Impl.forged_roundTrips (by decide +kernel) (by decide) (by decide) ?_
    intro p hp
    rw [mem_forgedSuccess hp]
    exact ⟨by decide,by decide⟩
  have h := Impl.restart_forged (fun _ => ⟨0⟩) none rfl (by decide +kernel) rfl hr
  rw [run_append]
  exact h.trans rfl

/-- PLANNED before the restart and SUCCEEDED behind it, which is not in the table; all
strategies of the request are declared ones. -/
theorem overflow_illegal :
    (∀ op ∈ overflowPrefix ++ [overflowRestart], op ≠ .loadState) ∧
    createdCount (run (step .insertion) (construct true)
      (overflowPrefix ++ [overflowRestart])).node.log < 2^64 ∧
    (∀ b ∈ forgedLedger forgedSuccess, b.toNat ≤ RecoveryStrategy.recompute.toNat) ∧
    ¬ LegalStep (run (step .insertion) (construct true) overflowPrefix)
      (run (step .insertion) (construct true) (overflowPrefix ++ [overflowRestart])) := by
  -- Decided along the ledger, not over all bytes.
  have hdeclared : (forgedLedger forgedSuccess).all
      (fun b => b.toNat ≤ RecoveryStrategy.recompute.toNat) = true := by decide +kernel
  refine ⟨?_,by decide +kernel,fun b hb => ?_,fun h => ?_⟩
  · intro op hop
    simp only [overflowPrefix,overflowRestart,List.cons_append,List.nil_append,List.mem_cons,
      List.not_mem_nil,or_false] at hop
    rcases hop with rfl | rfl | rfl <;> nofun
  · simpa using List.all_eq_true.mp hdeclared b hb
  · have hafter : (run (step .insertion) (construct true)
        (overflowPrefix ++ [overflowRestart])).plan? 1 =
          some { planId := ⟨1⟩, state := .succeeded } := by
      rw [plan?,overflow_restart]
      rfl
    have hbefore : ((run (step .insertion) (construct true) overflowPrefix).plan? 1).map
        RecoveryPlan.state = some .planned := by decide +kernel
    obtain ⟨p,hp,hstate⟩ := Option.map_eq_some_iff.mp hbefore
    have hedge := h.edges 1 p _ hp hafter (by rw [hstate]; decide)
    rw [hstate] at hedge
    exact absurd hedge (by decide)

/-- The history of one stored plan: created once, handed off at most once, and only
under current authority. -/
def Traced (k : UInt64) (p : RecoveryPlan) (log : List Event) : Prop :=
  ∃ p₀ : RecoveryPlan, p₀.fence = p.fence ∧
    ((p.lastAttempt.value = 0 ∧ lifeOf k log = [.created p₀]) ∨
     (p.lastAttempt.value = 1 ∧ ∃ q ctx d, lifeOf k log = [.handedOff q ctx d,.created p₀] ∧
       q.state = .authorized ∧ AuthorityCurrent q ctx ∧ q.fence = p.fence))

theorem Traced.of_fence {k : UInt64} {p p' : RecoveryPlan} {log log' : List Event}
    (h : Traced k p log) (hf : p'.fence = p.fence) (ha : p'.lastAttempt = p.lastAttempt)
    (hl : lifeOf k log' = lifeOf k log) : Traced k p' log' := by
  obtain ⟨p₀,h₀,h⟩ := h
  refine ⟨p₀,h₀.trans hf.symm,?_⟩
  rw [ha,hl,hf]
  exact h

def AllTraced (s : Session) : Prop :=
  ∀ k p, s.plan? k = some p → Traced k p s.node.log

theorem step_traced (std : StdSort) {s : Session} {op : Op} (hop : s.Allowed op) (h : s.Inv)
    (ht : s.AllTraced) : (s.step std op).AllTraced := by
  intro k p' hp'
  cases step_change std hop h.kept.plansSound k with
  | act hrec =>
    cases hrec with
    | same plan life => exact (ht k p' (plan.symm.trans hp')).of_fence rfl rfl life
    | created fresh key plan log =>
      obtain rfl := Option.some.inj (plan.symm.trans hp')
      have hk : k = _ := key.trans (congrArg Id.value fresh.planId).symm
      exact ⟨_,rfl,.inl ⟨fresh.lastAttempt,by rw [log,hk]; exact lifeOf_created _ _⟩⟩
    | evolved before he plan life =>
      obtain rfl := Option.some.inj (plan.symm.trans hp')
      exact (ht k _ before).of_fence he.fence he.lastAttempt life
    | handedOff before hs hcur plan life =>
      obtain rfl := Option.some.inj (plan.symm.trans hp')
      -- An AUTHORIZED plan has not been attempted, so this is its first hand-off.
      have hzero := (h.kept k _ before).sound.unattempted (.inr hs)
      obtain ⟨p₀,h₀,hlife | ⟨hone,_⟩⟩ := ht k _ before
      · refine ⟨p₀,h₀,.inr ⟨?_,_,_,_,by rw [life,hlife.2],hs,hcur,rfl⟩⟩
        simp [RecoveryPlan.dispatched,hzero]
      · rw [hzero] at hone
        exact absurd hone (by decide)
  | restart log plan =>
    obtain ⟨p,hp,hsv⟩ := plan p' hp'
    have hs := (h.kept k p hp).sound
    exact (ht k p hp).of_fence (hsv.fence hs) (hsv.lastAttempt hs) (by rw [log])

theorem run_traced {std : StdSort} {hasStore : Bool} {ops : List Op}
    (h : Along Allowed (step std) (construct hasStore) ops) :
    (run (step std) (construct hasStore) ops).Inv ∧
      (run (step std) (construct hasStore) ops).AllTraced := by
  have h0 : (construct hasStore).Inv ∧ (construct hasStore).AllTraced :=
    ⟨construct_inv hasStore,fun k p hp => absurd hp (by
      simp [plan?,construct,Node.construct,Impl.construct])⟩
  exact h.invariant (I := fun s => s.Inv ∧ s.AllTraced) h0
    fun s op hop hs => ⟨step_inv std hop hs.1,step_traced std hop hs.1 hs.2⟩

/-- Behind every SUCCEEDED plan there is one creation and one hand-off, made while the
plan was AUTHORIZED and its authority current, with the same fence throughout. -/
theorem run_succeeded (std : StdSort) (hasStore : Bool) (ops : List Op)
    (h : Along Allowed (step std) (construct hasStore) ops) (k : UInt64) (p : RecoveryPlan)
    (hp : (run (step std) (construct hasStore) ops).plan? k = some p)
    (hs : p.state = .succeeded) :
    ∃ p₀ q ctx d, lifeOf k (run (step std) (construct hasStore) ops).node.log =
        [.handedOff q ctx d,.created p₀] ∧
      q.state = .authorized ∧ AuthorityCurrent q ctx ∧ p₀.fence = p.fence ∧
      q.fence = p.fence := by
  obtain ⟨hinv,htr⟩ := run_traced h
  have hone := (hinv.kept k p hp).sound.attempted (by simp [hs])
  obtain ⟨p₀,h₀,⟨hzero,_⟩ | ⟨_,q,ctx,d,hlife,hq,hcur,hf⟩⟩ := htr k p hp
  · rw [hone] at hzero
    exact absurd hzero (by decide)
  · exact ⟨p₀,q,ctx,d,hlife,hq,hcur,h₀,hf⟩

def deliveredRun : List Op :=
  [.act (.registerWorker ⟨1⟩ ⟨1⟩),.act (.plan ⟨0⟩ (requestNo 1) [readyCandidate]),
   .act (.authorizePlan ⟨1⟩ { planId := ⟨1⟩ }),.act (.dispatchBegin ⟨2⟩ { planId := ⟨1⟩ }),
   .act (.dispatchEnd ⟨3⟩ 0 .dispatched),
   .act (.reportExecution ⟨4⟩ ⟨⟨1⟩,⟨1⟩,⟨1⟩,⟨1⟩,.succeeded⟩)]

theorem run_succeeded_delivered :
    ∃ p, (run (step .insertion) (construct true) deliveredRun).plan? 1 = some p ∧
      p.state = .succeeded ∧
      ∃ p₀ q ctx d, lifeOf 1 (run (step .insertion) (construct true) deliveredRun).node.log =
          [.handedOff q ctx d,.created p₀] ∧
        q.state = .authorized ∧ AuthorityCurrent q ctx ∧ p₀.fence = p.fence ∧
        q.fence = p.fence := by
  have h : Along Allowed (step .insertion) (construct true) deliveredRun :=
    ⟨⟨nofun,nofun⟩,⟨nofun,nofun⟩,⟨nofun,nofun⟩,⟨nofun,nofun⟩,⟨nofun,nofun⟩,⟨nofun,nofun⟩,trivial⟩
  have hend : ((run (step .insertion) (construct true) deliveredRun).plan? 1).map
      RecoveryPlan.state = some .succeeded := by decide +kernel
  obtain ⟨p,hp,hs⟩ := Option.map_eq_some_iff.mp hend
  exact ⟨p,hp,hs,run_succeeded .insertion true deliveredRun h 1 p hp hs⟩

/-- The forged plan is SUCCEEDED and nothing was ever handed to an executor. -/
theorem overflow_unattempted :
    (∀ op ∈ overflowPrefix ++ [overflowRestart], op ≠ .loadState) ∧
    (∃ p, (run (step .insertion) (construct true)
      (overflowPrefix ++ [overflowRestart])).plan? 1 = some p ∧ p.state = .succeeded) ∧
    ∀ e ∈ (run (step .insertion) (construct true)
      (overflowPrefix ++ [overflowRestart])).node.log, e.isCreated = true := by
  refine ⟨?_,⟨{ planId := ⟨1⟩, state := .succeeded },?_,rfl⟩,by decide +kernel⟩
  · intro op hop
    simp only [overflowPrefix,overflowRestart,List.cons_append,List.nil_append,List.mem_cons,
      List.not_mem_nil,or_false] at hop
    rcases hop with rfl | rfl | rfl <;> nofun
  · rw [plan?,overflow_restart]
    rfl

end Session

end RecoveryPlanner
