import RecoveryPlanner.Session
set_option autoImplicit false

/-! What a coordinator restart leaves behind, whatever the store returns. -/

namespace RecoveryPlanner

/-- A snapshot read with the epoch preserved replaces generations and workers, and no other
part of the context. -/
structure SameWorld (ctx ctx' : PlannerContext) : Prop where
  epoch : ctx'.epoch = ctx.epoch
  plannerBoot : ctx'.plannerBoot = ctx.plannerBoot
  alive : ctx'.aliveWorkers = ctx.aliveWorkers ∨ ctx'.aliveWorkers = ∅
  resources : ctx'.resourceAvailable = ctx.resourceAvailable
  lineage : ctx'.recomputeLineageAvailable = ctx.recomputeLineageAvailable
  inputs : ctx'.originalInputsAvailable = ctx.originalInputsAvailable

namespace Impl

theorem applyBody_world (im : Impl) (r : ByteReader) :
    SameWorld im.ctx (im.applyBody true r).2.ctx := by
  unfold applyBody applyWorkers
  dsimp only
  split
  · exact ⟨rfl,rfl,.inl rfl,rfl,rfl,rfl⟩
  · rw [(applyRequests_frame _ _).2]
    exact ⟨rfl,rfl,.inr rfl,rfl,rfl,rfl⟩

theorem applySnapshot_world (im : Impl) (bytes : Bytes) :
    SameWorld im.ctx (im.applySnapshot bytes true).2.ctx := by
  unfold applySnapshot
  dsimp only
  split
  · exact ⟨rfl,rfl,.inl rfl,rfl,rfl,rfl⟩
  · exact im.applyBody_world _

theorem restartReloading_world (im : Impl) (clock : UInt64 → Timestamp) (reload : Disk) :
    SameWorld im.advanceEpoch.ctx (im.restartReloading clock reload).ctx := by
  rcases im.restartReloading_cases clock reload with h | ⟨blob,_,_,h⟩
  · rw [h]
    exact ⟨rfl,rfl,.inl rfl,rfl,rfl,rfl⟩
  · rw [h]
    exact im.advanceEpoch.applySnapshot_world blob

/-- The planner right behind a restart: one epoch and one boot on, nothing known of the
world, no plan unfinished. -/
structure Restarted (im im' : Impl) : Prop where
  epoch : im'.ctx.epoch.value = im.ctx.epoch.value+1
  plannerBoot : im'.ctx.plannerBoot.value = im.ctx.plannerBoot.value+1
  alive : im'.ctx.aliveWorkers = ∅
  resources : im'.ctx.resourceAvailable = .empty
  lineage : im'.ctx.recomputeLineageAvailable = ∅
  inputs : im'.ctx.originalInputsAvailable = ∅
  plans : ∀ k p, im'.plans.find? k = some p → p.state.terminal = true

theorem restartReloading_restarted (im : Impl) (clock : UInt64 → Timestamp) (reload : Disk) :
    Restarted im (im.restartReloading clock reload) := by
  have h := im.restartReloading_world clock reload
  have halive : (im.restartReloading clock reload).ctx.aliveWorkers = ∅ := by
    rcases h.alive with ha | ha
    · exact ha
    · exact ha
  exact ⟨by rw [h.epoch]; rfl,by rw [h.plannerBoot]; rfl,halive,h.resources,h.lineage,h.inputs,
    fun _ _ hk => restartReloading_terminal hk⟩

end Impl

theorem Node.act_created {std : StdSort} {n : Node} {a : Act} {q : RecoveryPlan}
    (h : (n.act std a).log = .created q :: n.log) :
    ∃ now request cs, a = .plan now request cs ∧
      (n.impl.plan std now request cs).1.plan = some q := by
  cases a with
  | plan now request cs =>
    cases hp : (n.impl.plan std now request cs).1.plan with
    | none =>
      simp only [act,hp] at h
      exact absurd (congrArg List.length h) (by simp)
    | some p =>
      simp only [act,hp,List.cons.injEq,Event.created.injEq,and_true] at h
      exact ⟨now,request,cs,rfl,by rw [hp,h]⟩
  | _ => exact absurd h (act_not_created (fun _ _ _ heq => by cases heq) q)

def Node.Spares (std : StdSort) (k : UInt64) (n : Node) (a : Act) : Prop :=
  ∀ now request cs p, a = .plan now request cs →
    (n.impl.plan std now request cs).1.plan = some p → p.planId.value ≠ k

/-- A terminal record stays as it is until its id is given to a new plan. -/
theorem NodeStep.finished {n n' : Node} (h : NodeStep n n') {k : UInt64} {p : RecoveryPlan}
    (hk : n.impl.plans.find? k = some p) (ht : p.state.terminal = true)
    (hnew : ∀ q, n'.log = .created q :: n.log → q.planId.value ≠ k) :
    ∃ p', n'.impl.plans.find? k = some p' ∧ SameVerdict p p' := by
  cases h with
  | quiet same log => exact ⟨p,by rw [same.plans,hk],.refl p⟩
  | settles hj he impl log =>
    rename_i j q q'
    by_cases hkj : k = j
    · subst hkj
      obtain rfl := Option.some.inj (hk.symm.trans hj)
      exact ⟨q',by simp [impl,Impl.putPlan],he.terminal ht⟩
    · exact ⟨p,by simp [impl,Impl.putPlan,hkj,hk],.refl p⟩
  | plans h log =>
    rename_i req now q
    have hold := h.find?_old (fun heq => hnew q log heq.symm)
    rw [hk] at hold
    refine ⟨_,hold,?_⟩
    rcases supersede_evolves req q.planId now p with he | he
    · rw [he]
      exact .refl p
    · exact he.terminal ht
  | handsOff hj hs hcur impl log =>
    rename_i j q now d
    have hkj : k ≠ j := by
      rintro rfl
      obtain rfl := Option.some.inj (hk.symm.trans hj)
      rw [hs] at ht
      exact absurd ht (by decide)
    exact ⟨p,by simp [impl,Impl.handOff,Impl.putPlan,hkj,hk],.refl p⟩

theorem Impl.dispatchBegin_finished {im : Impl} {k : UInt64} {p : RecoveryPlan}
    (hk : im.plans.find? k = some p) (ht : p.state.terminal = true) (now : Timestamp)
    {plan : RecoveryPlan} (hplan : plan.planId.value = k) :
    ∃ e, (im.dispatchBegin now plan).1 = .error e := by
  rcases im.dispatchBegin_spec now plan with ⟨e,h⟩ | ⟨q,hq,hs,_,_⟩
  · exact ⟨e,by rw [h]⟩
  · rw [hplan,hk] at hq
    obtain rfl := Option.some.inj hq
    rw [hs] at ht
    exact absurd ht (by decide)

theorem Node.run_finished (std : StdSort) {n : Node} {k : UInt64} {p : RecoveryPlan}
    (hk : n.impl.plans.find? k = some p) (ht : p.state.terminal = true) {acts : List Act}
    (h : Along (Spares std k) (act std) n acts) :
    ∃ p', (run (act std) n acts).impl.plans.find? k = some p' ∧ SameVerdict p p' := by
  refine h.invariant (I := fun m => ∃ p', m.impl.plans.find? k = some p' ∧ SameVerdict p p')
    ⟨p,hk,.refl p⟩ ?_
  rintro m a hspare ⟨q,hq,hv⟩
  have hnew : ∀ r, (m.act std a).log = .created r :: m.log → r.planId.value ≠ k := by
    intro r hr
    obtain ⟨now,request,cs,ha,hp⟩ := act_created hr
    exact hspare now request cs r ha hp
  obtain ⟨q',hq',hv'⟩ := (m.act_step std a).finished hq (by rw [hv.state]; exact ht) hnew
  exact ⟨q',hq',hv.trans hv'⟩

/-- Whatever the store returns, a restart leaves one epoch and boot on, no evidence and only
terminal plans; and whatever is called from there, with whatever calls still under way,
none of these plans changes state or is handed out until its id is assigned anew. -/
theorem restart_final (im : Impl) (clock : UInt64 → Timestamp) (reload : Impl.Disk) :
    Impl.Restarted im (im.restartReloading clock reload) ∧
    ∀ (std : StdSort) (n : Node) (acts : List Act) (k : UInt64) (p : RecoveryPlan),
      n.impl = im.restartReloading clock reload → n.impl.plans.find? k = some p →
      Along (Node.Spares std k) (Node.act std) n acts →
      ∃ p', (run (Node.act std) n acts).impl.plans.find? k = some p' ∧ SameVerdict p p' ∧
        ∀ now plan, plan.planId.value = k →
          ∃ e, ((run (Node.act std) n acts).impl.dispatchBegin now plan).1 = .error e := by
  have hr := im.restartReloading_restarted clock reload
  refine ⟨hr,fun std n acts k p hn hk h => ?_⟩
  have ht := hr.plans k p (hn ▸ hk)
  obtain ⟨p',hp',hv⟩ := n.run_finished std hk ht h
  have ht' : p'.state.terminal = true := by rw [hv.state]; exact ht
  exact ⟨p',hp',hv,fun now plan hplan => Impl.dispatchBegin_finished hp' ht' now hplan⟩

/-- A snapshot that no planner has saved: plan 7 is AUTHORIZED for a worker that will be back. -/
def forged : Bytes :=
  ((Impl.construct true).putPlan 7 { planId := ⟨7⟩, targetWorker := ⟨1⟩, targetBoot := ⟨1⟩
                                     authority := { coordinatorEpoch := ⟨2⟩ }
                                     state := .authorized }).encodeSnapshot

def secondEpoch : RecoveryCandidate :=
  { Session.readyCandidate with
    authority := some { coordinatorEpoch := ⟨2⟩, policyGeneration := ⟨1⟩ } }

/-- A `dispatch_plan` and a success of plan 7 were under way and go on, the worker comes back, and
all calls are made that could bring the plan forward. -/
def afterForged : List Act :=
  [.dispatchEnd ⟨1⟩ 0 .dispatched,.adapterDeliver ⟨1⟩ 0,.registerWorker ⟨1⟩ ⟨1⟩,
   .authorizePlan ⟨1⟩ { planId := ⟨7⟩ },.revalidatePlan { planId := ⟨7⟩ },
   .reportExecution ⟨1⟩ ⟨⟨0⟩,⟨7⟩,⟨0⟩,⟨1⟩,.succeeded⟩,
   .plan ⟨2⟩ (Session.requestNo 2) [secondEpoch]]

theorem restart_final_forged :
    let n : Node :=
      { impl := (Impl.construct true).restartReloading (fun _ => ⟨0⟩) (some forged)
        awaiting := [⟨7⟩]
        pending := [⟨⟨0⟩,⟨7⟩,⟨0⟩,⟨1⟩,.succeeded⟩] }
    let m := run (Node.act .insertion) n afterForged
    n.impl.ctx.epoch.value = 2 ∧ n.impl.ctx.aliveWorkers = ∅ ∧
    (m.impl.plans.find? 1).isSome = true ∧
    ∃ p', m.impl.plans.find? 7 = some p' ∧ p'.state = .invalidated ∧ p'.outcomePublished = false ∧
      ∃ e, (m.impl.dispatchBegin ⟨3⟩ { planId := ⟨7⟩ }).1 = .error e := by
  intro n m
  obtain ⟨hr,hfinal⟩ := restart_final (Impl.construct true) (fun _ => ⟨0⟩) (some forged)
  have himpl : (Impl.construct true).restartReloading (fun _ => ⟨0⟩) (some forged) = n.impl := rfl
  rw [himpl] at hr hfinal
  have hloaded : (n.impl.plans.find? 7).map (fun p => (p.state,p.outcomePublished)) =
      some (.invalidated,false) := by
    decide +kernel
  obtain ⟨p,hp,hboth⟩ := Option.map_eq_some_iff.mp hloaded
  obtain ⟨hs,hpub⟩ := Prod.mk.inj hboth
  have hother : ∀ {a : Act}, (∀ now req cs, a ≠ .plan now req cs) →
      ∀ n' : Node, n'.Spares .insertion 7 a :=
    fun hno _ now req cs _ ha _ => absurd ha (hno now req cs)
  have hplan : (run (Node.act .insertion) n (afterForged.take 6)).Spares .insertion 7
      (.plan ⟨2⟩ (Session.requestNo 2) [secondEpoch]) := by
    intro now req cs q ha hq
    injection ha with hnow hreq hcs
    subst hnow hreq hcs
    have hid : ((run (Node.act .insertion) n (afterForged.take 6)).impl.plan .insertion ⟨2⟩
        (Session.requestNo 2) [secondEpoch]).1.plan.map (fun p => p.planId.value) = some 1 := by
      decide +kernel
    rw [hq] at hid
    have hone : q.planId.value = 1 := Option.some.inj hid
    rw [hone]
    decide
  have hspares : Along (Node.Spares .insertion 7) (Node.act .insertion) n afterForged := by
    have hsplit : afterForged =
      afterForged.take 6 ++ [.plan ⟨2⟩ (Session.requestNo 2) [secondEpoch]] := rfl
    rw [hsplit]
    refine along_append.mpr ⟨⟨hother (by simp) _,hother (by simp) _,hother (by simp) _,
      hother (by simp) _,hother (by simp) _,hother (by simp) _,trivial⟩,hplan,trivial⟩
  obtain ⟨p',hp',hv,hthrows⟩ := hfinal .insertion n afterForged 7 p rfl hp hspares
  have hend : run (Node.act .insertion) n afterForged = m := rfl
  rw [hend] at hp' hthrows
  exact ⟨hr.epoch,hr.alive,by decide +kernel,p',hp',hv.state.trans hs,hv.published.trans hpub,
    hthrows ⟨3⟩ { planId := ⟨7⟩ } rfl⟩

end RecoveryPlanner
