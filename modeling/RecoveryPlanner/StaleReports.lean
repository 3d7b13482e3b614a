import RecoveryPlanner.Completion
import RecoveryPlanner.Revalidation
set_option autoImplicit false

/-! Execution reports that come too late: what the planner checks them against, and how the
callers have to behave for that to be enough. -/

namespace RecoveryPlanner

/-- The report is current: it names a stored plan and its generation, it comes from the boot
under which the plan's target worker is registered and alive, and a dispatch id in it is
that of the dispatch the plan is in flight under. -/
structure Impl.Fenced (im : Impl) (r : ExecutionReport) (p : RecoveryPlan) : Prop where
  stored : im.plans.find? r.planId.value = some p
  generation : r.planGeneration = p.generation
  alive : p.targetWorker ∈ im.ctx.aliveWorkers
  boot : im.ctx.workerBoots.find? p.targetWorker = some r.reporterBoot
  dispatch : r.dispatch.isValid = true →
    p.state.inFlight = true ∧ r.dispatch.value = p.lastAttempt.value

/-- A plan changes state only under a report that is current for it, and a report that is
current for no plan changes nothing. -/
structure StaleIgnored (im im' : Impl) (r : ExecutionReport) : Prop where
  state : ∀ k p p', im.plans.find? k = some p → im'.plans.find? k = some p' →
    p'.state ≠ p.state → im.Fenced r p
  ignored : (¬ ∃ p, im.Fenced r p) → im' = im

structure Placed (ctx : PlannerContext) (p : RecoveryPlan) : Prop where
  alive : p.targetWorker ∈ ctx.aliveWorkers
  boot : ctx.workerBoots.find? p.targetWorker = some p.targetBoot

theorem Placed.of_fence {ctx : PlannerContext} {p p' : RecoveryPlan} (h : Placed ctx p)
    (hf : p'.fence = p.fence) : Placed ctx p' := by
  have hworker : p'.targetWorker = p.targetWorker := congrArg PlanFence.targetWorker hf
  have hboot : p'.targetBoot = p.targetBoot := congrArg PlanFence.targetBoot hf
  exact ⟨hworker ▸ h.alive,by rw [hworker,hboot]; exact h.boot⟩

theorem Evolves.outstanding {p p' : RecoveryPlan} (h : Evolves p p')
    (hs : p.state.inFlight = true ∨ p.state.terminal = true) :
    p'.state.inFlight = true ∨ p'.state.terminal = true := by
  rcases hs with hf | ht
  · rcases inFlight_iff.mp hf with hs | hs
    all_goals
      cases h with
      | authorize now h =>
        rw [validate_authorized] at h
        exact absurd h (by simp [hs])
      | touch now => exact .inl hf
      | execute now h => exact .inl rfl
      | _ => exact .inr rfl
  · rw [(h.terminal ht).state]
    exact .inr ht

namespace Impl

theorem adapterTake_some {im : Impl} {dispatchId : DispatchId} {outcome : ExecutionOutcome}
    {r : ExecutionReport} (hr : (im.adapterTake dispatchId outcome).1 = some r) :
    ∃ m, im.dispatchMeta.find? dispatchId.value = some m ∧
      r = ⟨dispatchId,m.planId,m.generation,m.targetBoot,outcome⟩ := by
  unfold adapterTake at hr
  cases hm : im.dispatchMeta.find? dispatchId.value with
  | none =>
    rw [hm] at hr
    exact absurd hr (by simp)
  | some m =>
    rw [hm] at hr
    exact ⟨m,rfl,(Option.some.inj hr).symm⟩

theorem reportExecution_ignored {im : Impl} (hkeyed : Keyed im.plans) (now : Timestamp)
    {r : ExecutionReport} (h : ∀ p, im.plans.find? r.planId.value = some p →
      p.stamp = r.stamp → p.state.terminal = true) : im.reportExecution now r = im := by
  unfold reportExecution
  cases hk : im.plans.find? r.planId.value with
  | none => rfl
  | some p =>
    dsimp only
    split
    · rfl
    · rename_i hgen
      split
      · rfl
      · rename_i hboot
        have hid : p.planId = r.planId := congrArg Id.mk (hkeyed _ p hk)
        have hstamp : p.stamp = r.stamp := by
          rw [RecoveryPlan.stamp,ExecutionReport.stamp,hid,not_not.mp hgen,not_not.mp hboot]
        rw [if_pos (h p hk hstamp)]

theorem staleIgnored_of {im : Impl} (hkeyed : Keyed im.plans) (now : Timestamp)
    {r : ExecutionReport} (h : ∀ p, im.plans.find? r.planId.value = some p →
      p.stamp = r.stamp → p.state.terminal = false → im.Fenced r p) :
    StaleIgnored im (im.reportExecution now r) r := by
  by_cases hmatch : ∃ p, im.plans.find? r.planId.value = some p ∧ p.stamp = r.stamp ∧
      p.state.terminal = false
  · obtain ⟨p,hp,hstamp,ht⟩ := hmatch
    have hf := h p hp hstamp ht
    refine ⟨fun k q q' hq hq' hne => ?_,fun hnone => absurd ⟨p,hf⟩ hnone⟩
    by_cases hk : k = r.planId.value
    · obtain rfl := Option.some.inj (hp.symm.trans (hk ▸ hq))
      exact hf
    · have hother : ∀ q, im.plans.find? k = some q → q.stamp ≠ r.stamp := by
        intro q hq heq
        exact hk (stamp_planId (hkeyed k q hq) heq).symm
      rw [reportExecution_other hkeyed now hother,hq] at hq'
      exact absurd (congrArg RecoveryPlan.state (Option.some.inj hq').symm) hne
  · have hsame := im.reportExecution_ignored hkeyed now fun p hp hstamp => by
      by_contra ht
      exact hmatch ⟨p,hp,hstamp,by simpa using ht⟩
    rw [hsame]
    refine ⟨fun k q q' hq hq' hne => ?_,fun _ => rfl⟩
    obtain rfl := Option.some.inj (hq.symm.trans hq')
    exact absurd rfl hne

end Impl

/-- The report answers a dispatch that was handed out; it names that dispatch or none. -/
def Node.Answers (n : Node) (r : ExecutionReport) : Prop :=
  ∃ d ∈ n.handedOut, d.stamp = r.stamp ∧ (r.dispatch.isValid = true → r.dispatch = d.dispatchId)

namespace Session

/-- Reports are fenced at one step of a run. A completion whose dispatch is known has been
erased from the table by the time it is delivered, so it has to be current both times. -/
def StepFenced (std : StdSort) (s : Session) : Op → Prop
  | .act (.reportExecution now r) =>
    StaleIgnored s.node.impl (s.step std (.act (.reportExecution now r))).node.impl r
  | .act (.adapterTake dispatchId outcome) =>
    ∀ r, (s.node.impl.adapterTake dispatchId outcome).1 = some r →
      StaleIgnored s.node.impl (s.step std (.act (.adapterTake dispatchId outcome))).node.impl r
  | .act (.adapterDeliver now call) => ∀ r, s.node.pending[call]? = some r →
    StaleIgnored s.node.impl (s.step std (.act (.adapterDeliver now call))).node.impl r ∧
      ∃ p, s.node.impl.Fenced r p
  | _ => True

/-- A plan with this id is in flight. -/
def Flying (s : Session) (k : UInt64) : Prop :=
  ∃ p, s.plan? k = some p ∧ p.state.inFlight = true

/-- How the callers have to behave. The target worker of a plan in flight stays where it is, a
report that matches an unfinished plan answers a dispatch, and a completion is taken and
delivered while its plan is in flight. -/
structure Attended (std : StdSort) (s : Session) (op : Op) : Prop where
  within : Within std s op
  registered : ∀ w boot, op = .act (.registerWorker w boot) → ∀ k p, s.plan? k = some p →
    p.state.inFlight = true → p.targetWorker = w → p.targetBoot = boot
  unregistered : ∀ w, op = .act (.unregisterWorker w) → ∀ k p, s.plan? k = some p →
    p.state.inFlight = true → p.targetWorker ≠ w
  reported : ∀ now r, op = .act (.reportExecution now r) → ∀ p,
    s.plan? r.planId.value = some p → p.stamp = r.stamp → p.state.terminal = false →
    s.node.Answers r
  taken : ∀ dispatchId outcome m, op = .act (.adapterTake dispatchId outcome) →
    s.node.impl.dispatchMeta.find? dispatchId.value = some m → s.Flying m.planId.value
  delivered : ∀ now call r, op = .act (.adapterDeliver now call) →
    s.node.pending[call]? = some r → s.Flying r.planId.value

/-- What holds while the callers behave. All dispatches go out under id 1, to plans that are in
flight or terminal from then on; table and pending completions come from them. -/
structure Outstanding (s : Session) : Prop where
  inv : s.Inv
  handed : ∀ d ∈ s.node.handedOut, d.dispatchId = ⟨1⟩ ∧
    d.planId.value.toNat ≤ createdCount s.node.log ∧
    ∀ p, s.plan? d.planId.value = some p → p.stamp = d.stamp ∧
      (p.state.inFlight = true ∨ p.state.terminal = true)
  entries : ∀ a m, s.node.impl.dispatchMeta.find? a = some m →
    ∃ d ∈ s.node.handedOut, d.dispatchId.value = a ∧ d.stamp = m
  pending : ∀ r ∈ s.node.pending, ∃ d ∈ s.node.handedOut, d.dispatchId = r.dispatch ∧
    d.stamp = r.stamp
  placed : ∀ k p, s.plan? k = some p → p.state.inFlight = true → Placed s.node.impl.ctx p

variable {std : StdSort} {s : Session}

theorem Outstanding.fenced (h : s.Outstanding) {r : ExecutionReport} (ha : s.node.Answers r)
    {p : RecoveryPlan} (hp : s.plan? r.planId.value = some p) (ht : p.state.terminal = false) :
    s.node.impl.Fenced r p := by
  obtain ⟨d,hd,hstamp,hid⟩ := ha
  obtain ⟨hone,_,hplan⟩ := h.handed d hd
  have hplanId : d.planId = r.planId := congrArg DispatchMeta.planId hstamp
  obtain ⟨hown,hstate⟩ := hplan p (hplanId ▸ hp)
  have hf : p.state.inFlight = true := hstate.resolve_right (by simp [ht])
  have hsame := hstamp.symm.trans hown.symm
  have hplaced := h.placed _ p hp hf
  refine ⟨hp,congrArg DispatchMeta.generation hsame,hplaced.alive,?_,fun hv => ⟨hf,?_⟩⟩
  · rw [hplaced.boot]
    exact congrArg some (congrArg DispatchMeta.targetBoot hsame).symm
  · have hlast := (h.inv.kept _ p hp).sound.attempted
      ((inFlight_iff.mp hf).imp_right .inl)
    rw [hid hv,hone,hlast]

theorem Outstanding.answers_taken (h : s.Outstanding) {dispatchId : DispatchId}
    {outcome : ExecutionOutcome} {r : ExecutionReport}
    (hr : (s.node.impl.adapterTake dispatchId outcome).1 = some r) : s.node.Answers r := by
  obtain ⟨m,hm,rfl⟩ := Impl.adapterTake_some hr
  obtain ⟨d,hd,hid,hstamp⟩ := h.entries _ m hm
  exact ⟨d,hd,hstamp,fun _ => (congrArg Id.mk hid).symm⟩

theorem Outstanding.answers_pending (h : s.Outstanding) {r : ExecutionReport}
    (hr : r ∈ s.node.pending) : s.node.Answers r := by
  obtain ⟨d,hd,hid,hstamp⟩ := h.pending r hr
  exact ⟨d,hd,hstamp,fun _ => hid.symm⟩

theorem Outstanding.stepFenced (h : s.Outstanding) {op : Op} (hop : s.Attended std op) :
    s.StepFenced std op := by
  have hkeyed := h.inv.kept.plansSound.keyed
  unfold StepFenced
  split
  · rename_i now r
    exact Impl.staleIgnored_of hkeyed now fun p hp hstamp ht =>
      h.fenced (hop.reported now r rfl p hp hstamp ht) hp ht
  · rename_i dispatchId outcome
    intro r hr
    have hplans : (s.step std (.act (.adapterTake dispatchId outcome))).node.impl.plans =
        s.node.impl.plans := by
      simp only [step,Node.act,Impl.adapterTake]
      cases s.node.impl.dispatchMeta.find? dispatchId.value <;> rfl
    obtain ⟨m,hm,hid⟩ := Impl.adapterTake_some hr
    obtain ⟨p,hp,hf⟩ := hop.taken dispatchId outcome m rfl hm
    have hp : s.plan? r.planId.value = some p := by
      rw [hid]
      exact hp
    have hfenced := h.fenced (h.answers_taken hr) hp (inFlight_alive hf)
    refine ⟨fun k q q' hq hq' hne => ?_,fun hnone => absurd ⟨p,hfenced⟩ hnone⟩
    rw [hplans,hq] at hq'
    exact absurd (congrArg RecoveryPlan.state (Option.some.inj hq').symm) hne
  · rename_i now call
    intro r hr
    obtain ⟨p,hp,hf⟩ := hop.delivered now call r rfl hr
    have ha := h.answers_pending (List.mem_of_getElem? hr)
    refine ⟨?_,p,h.fenced ha hp (inFlight_alive hf)⟩
    have hstep : (s.step std (.act (.adapterDeliver now call))).node.impl =
        s.node.impl.reportExecution now r := by
      simp only [step,Node.act,hr]
    rw [hstep]
    exact Impl.staleIgnored_of hkeyed now fun q hq _ ht => h.fenced ha hq ht
  · trivial

theorem step_handedOut (std : StdSort) (s : Session) (op : Op) :
    (s.step std op).node.handedOut = s.node.handedOut ∨
    ∃ k now p, s.plan? k.value = some p ∧ p.state = .authorized ∧
      AuthorityCurrent p s.node.impl.ctx ∧ (s.step std op).node = s.node.handOff k p now := by
  cases op with
  | saveState => exact .inl rfl
  | loadState => exact .inl rfl
  | restartCoordinator clock => exact .inl rfl
  | act a =>
    cases hr : a.routes with
    | false => exact .inl (s.node.act_routes std hr).handedOut
    | true =>
      cases a with
      | dispatchBegin now plan =>
        rcases s.node.act_dispatchBegin std now plan with heq | ⟨p,hk,hs,hcur,heq⟩
        · exact .inl (congrArg Node.handedOut heq)
        · exact .inr ⟨plan.planId,now,p,hk,hs,hcur,heq⟩
      | adapterTake dispatchId outcome =>
        left
        simp only [step,Node.act]
        split <;> rfl
      | adapterDeliver now call =>
        left
        simp only [step,Node.act]
        split <;> rfl
      | _ => exact absurd hr (by simp [Act.routes])

theorem step_entries (std : StdSort) (s : Session) (op : Op) {a : UInt64} {m : DispatchMeta}
    (hm : (s.step std op).node.impl.dispatchMeta.find? a = some m) :
    s.node.impl.dispatchMeta.find? a = some m ∨
      ∃ d ∈ (s.step std op).node.handedOut, d.dispatchId.value = a ∧ d.stamp = m := by
  cases op with
  | saveState => exact .inl hm
  | loadState =>
    left
    rw [← (s.node.impl.loadState_frame s.disk).dispatchMeta]
    exact hm
  | restartCoordinator clock =>
    left
    rw [← (s.node.impl.restartReloading_frame clock
      (s.node.impl.saveState s.disk).2).dispatchMeta]
    exact hm
  | act b =>
    cases hr : b.routes with
    | false =>
      left
      rw [← (s.node.act_routes std hr).dispatchMeta]
      exact hm
    | true =>
      cases b with
      | dispatchBegin now plan =>
        simp only [step] at hm ⊢
        rcases s.node.act_dispatchBegin std now plan with heq | ⟨p,hk,hs,hcur,heq⟩
        · rw [heq] at hm
          exact .inl hm
        · rw [heq,Node.handOff_dispatchMeta,SortedMap.find?_insert] at hm
          split at hm
          · rename_i ha
            right
            rw [heq,Node.handOff_handedOut]
            exact ⟨_,List.mem_cons_self,ha.symm,Option.some.inj hm⟩
          · exact .inl hm
      | adapterTake dispatchId outcome =>
        left
        simp only [step,Node.act,Impl.adapterTake] at hm
        cases hf : s.node.impl.dispatchMeta.find? dispatchId.value with
        | none =>
          simp only [hf] at hm
          exact hm
        | some m' =>
          simp only [hf,SortedMap.find?_erase] at hm
          split at hm
          · exact absurd hm (by simp)
          · exact hm
      | adapterDeliver now call =>
        left
        simp only [step,Node.act] at hm
        split at hm
        · rw [(s.node.impl.reportExecution_settles now _).dispatchMeta] at hm
          exact hm
        · exact hm
      | _ => exact absurd hr (by simp [Act.routes])

theorem step_pending (std : StdSort) (s : Session) (op : Op) {r : ExecutionReport}
    (hr : r ∈ (s.step std op).node.pending) : r ∈ s.node.pending ∨
      ∃ m, s.node.impl.dispatchMeta.find? r.dispatch.value = some m ∧ r.stamp = m := by
  cases op with
  | saveState => exact .inl hr
  | loadState => exact .inl hr
  | restartCoordinator clock => exact .inl hr
  | act b =>
    cases hroutes : b.routes with
    | false =>
      left
      rw [← (s.node.act_routes std hroutes).pending]
      exact hr
    | true =>
      cases b with
      | dispatchBegin now plan =>
        left
        simp only [step] at hr
        rcases s.node.act_dispatchBegin std now plan with heq | ⟨p,hk,hs,hcur,heq⟩
        · rw [heq] at hr
          exact hr
        · rw [heq] at hr
          exact hr
      | adapterTake dispatchId outcome =>
        simp only [step,Node.act] at hr
        split at hr
        · rename_i report im heq
          rcases List.mem_append.mp hr with hr | hr
          · exact .inl hr
          · obtain rfl := List.mem_singleton.mp hr
            have htaken : (s.node.impl.adapterTake dispatchId outcome).1 = some r := by rw [heq]
            obtain ⟨m,hm,rfl⟩ := Impl.adapterTake_some htaken
            exact .inr ⟨m,hm,rfl⟩
        · exact .inl hr
      | adapterDeliver now call =>
        left
        simp only [step,Node.act] at hr
        split at hr
        · exact List.mem_of_mem_eraseIdx hr
        · exact hr
      | _ => exact absurd hroutes (by simp [Act.routes])

/-- A plan that was handed out keeps its stamp, and is in flight or terminal. -/
theorem Outstanding.handed_step (h : s.Outstanding) {op : Op} (hop : Within std s op)
    {d : RecoveryDispatch} (hd : d ∈ s.node.handedOut) {p' : RecoveryPlan}
    (hp' : (s.step std op).plan? d.planId.value = some p') :
    p'.stamp = d.stamp ∧ (p'.state.inFlight = true ∨ p'.state.terminal = true) := by
  obtain ⟨_,hle,hplan⟩ := h.handed d hd
  cases step_change std hop.1 h.inv.kept.plansSound d.planId.value with
  | act hrec =>
    cases hrec with
    | same plan life => exact hplan p' (plan.symm.trans hp')
    | created fresh key plan log => exact absurd key (h.inv.next_unused log hop.2 hle)
    | evolved before he plan life =>
      obtain rfl := Option.some.inj (plan.symm.trans hp')
      obtain ⟨hstamp,hs⟩ := hplan _ before
      exact ⟨he.stamp.trans hstamp,he.outstanding hs⟩
    | handedOff before hs hcur plan life =>
      have hout := (hplan _ before).2
      rw [hs] at hout
      exact absurd hout (by decide)
  | restart log plan =>
    obtain ⟨p,hp,hsv⟩ := plan p' hp'
    have hstamp := stamp_of_fence (hsv.fence (h.inv.kept _ p hp).sound)
    obtain ⟨q,now,_,rfl⟩ := hsv
    exact ⟨hstamp.trans (hplan p hp).1,.inr (retire_terminal now)⟩

theorem Outstanding.placed_before (h : s.Outstanding) {op : Op} (hop : Within std s op)
    {k : UInt64} {p' : RecoveryPlan} (hp' : (s.step std op).plan? k = some p')
    (hf : p'.state.inFlight = true) : Placed s.node.impl.ctx p' := by
  cases step_change std hop.1 h.inv.kept.plansSound k with
  | act hrec =>
    cases hrec with
    | same plan life => exact h.placed k p' (plan.symm.trans hp') hf
    | created fresh key plan log =>
      obtain rfl := Option.some.inj (plan.symm.trans hp')
      rw [fresh.state] at hf
      exact absurd hf (by decide)
    | evolved before he plan life =>
      obtain rfl := Option.some.inj (plan.symm.trans hp')
      exact (h.placed k _ before (he.inFlight hf)).of_fence he.fence
    | handedOff before hs hcur plan life =>
      obtain rfl := Option.some.inj (plan.symm.trans hp')
      exact ⟨hcur.alive,hcur.boot⟩
  | restart log plan =>
    obtain ⟨p,_,q,now,_,rfl⟩ := plan p' hp'
    have ht := retire_terminal (p := q) now
    rw [inFlight_alive hf] at ht
    exact absurd ht (by simp)

theorem Outstanding.placed_step (h : s.Outstanding) {op : Op} (hop : s.Attended std op)
    {k : UInt64} {p' : RecoveryPlan} (hp' : (s.step std op).plan? k = some p')
    (hf : p'.state.inFlight = true) : Placed (s.step std op).node.impl.ctx p' := by
  have hbefore := h.placed_before hop.within hp' hf
  cases op with
  | saveState => exact hbefore
  | loadState => exact absurd rfl hop.within.1.noLoad
  | restartCoordinator clock =>
    have ht := Impl.restartReloading_terminal hp'
    rw [inFlight_alive hf] at ht
    exact absurd ht (by simp)
  | act a =>
    cases hw : a.updatesWorld with
    | false =>
      have hctx := s.node.act_ctx std hw
      rw [step,hctx]
      exact hbefore
    | true =>
      cases a with
      | registerWorker w boot =>
        have hboot := hop.registered w boot rfl k p' hp' hf
        refine ⟨Finset.mem_insert_of_mem hbefore.alive,?_⟩
        simp only [step,Node.act,Impl.registerWorker,PlannerContext.registerWorker,
          SortedMap.find?_insert]
        split
        · rename_i hworker
          exact congrArg some (hboot hworker).symm
        · exact hbefore.boot
      | unregisterWorker w =>
        have hne := hop.unregistered w rfl k p' hp' hf
        exact ⟨Finset.mem_erase_of_ne_of_mem hne hbefore.alive,hbefore.boot⟩
      | setResource kind amount => exact ⟨hbefore.alive,hbefore.boot⟩
      | setRecomputeAvailable gen available =>
        simp only [step,Node.act,Impl.setRecomputeAvailable]
        split <;> exact ⟨hbefore.alive,hbefore.boot⟩
      | _ => exact absurd hw (by simp [Act.updatesWorld])

theorem Outstanding.step (h : s.Outstanding) {op : Op} (hop : s.Attended std op) :
    (s.step std op).Outstanding := by
  have hgrow : ∀ d ∈ s.node.handedOut, d ∈ (s.step std op).node.handedOut := by
    intro d hd
    rcases step_handedOut std s op with heq | ⟨k,now,p,_,_,_,heq⟩
    · exact heq ▸ hd
    · rw [heq,Node.handOff_handedOut]
      exact List.mem_cons_of_mem _ hd
  have hold : ∀ d ∈ s.node.handedOut, d.dispatchId = ⟨1⟩ ∧
      d.planId.value.toNat ≤ createdCount (s.step std op).node.log ∧
      ∀ p', (s.step std op).plan? d.planId.value = some p' → p'.stamp = d.stamp ∧
        (p'.state.inFlight = true ∨ p'.state.terminal = true) := by
    intro d hd
    obtain ⟨hone,hle,_⟩ := h.handed d hd
    exact ⟨hone,hle.trans (step_count_le std s op),fun p' hp' => h.handed_step hop.within hd hp'⟩
  refine ⟨step_inv std hop.within.1 h.inv,?_,?_,?_,fun k p' => h.placed_step hop⟩
  · intro d hd
    rcases step_handedOut std s op with heq | ⟨k,now,p,hp,hs,_,heq⟩
    · exact hold d (heq ▸ hd)
    · rw [heq,Node.handOff_handedOut,List.mem_cons] at hd
      rcases hd with rfl | hd
      · have hkept := h.inv.kept _ p hp
        have hone : p.lastAttempt.value+1 = 1 := by
          rw [hkept.sound.unattempted (.inr hs)]
          rfl
        refine ⟨congrArg Id.mk hone,?_,fun p' hp' => ?_⟩
        · have hle := h.inv.numbered.below _ p hp
          rw [← hkept.keyed] at hle
          exact hle.trans (step_count_le std s op)
        · have hplan : (s.step std op).plan? p.planId.value = some (p.dispatched now) := by
            rw [plan?,heq,Node.handOff_plans,hkept.keyed]
            simp
          obtain rfl := Option.some.inj (hplan.symm.trans hp')
          exact ⟨rfl,.inl rfl⟩
      · exact hold d hd
  · intro a m hm
    rcases step_entries std s op hm with hm | hnew
    · obtain ⟨d,hd,hid⟩ := h.entries a m hm
      exact ⟨d,hgrow d hd,hid⟩
    · exact hnew
  · intro r hr
    rcases step_pending std s op hr with hr | ⟨m,hm,hstamp⟩
    · obtain ⟨d,hd,hid⟩ := h.pending r hr
      exact ⟨d,hgrow d hd,hid⟩
    · obtain ⟨d,hd,hid,hd'⟩ := h.entries _ m hm
      exact ⟨d,hgrow d hd,congrArg Id.mk hid,hd'.trans hstamp.symm⟩

theorem construct_outstanding (hasStore : Bool) : (construct hasStore).Outstanding := by
  refine ⟨construct_inv hasStore,?_,?_,?_,?_⟩
  · exact fun d hd => absurd hd (by simp [construct,Node.construct,Node.handedOut])
  · exact fun a m hm => absurd hm (by simp [construct,Node.construct,Impl.construct])
  · exact fun r hr => absurd hr (by simp [construct,Node.construct])
  · exact fun k p hp => absurd hp (by simp [plan?,construct,Node.construct,Impl.construct])

/-- A report is checked against the plan and not against the world, so the callers have to keep
the two together: as long as they do, stale reports are without effect. -/
theorem run_fenced (std : StdSort) (hasStore : Bool) (ops : List Op)
    (h : Along (Attended std) (step std) (construct hasStore) ops) :
    Along (StepFenced std) (step std) (construct hasStore) ops :=
  h.yields (construct_outstanding hasStore) (fun _ _ hop hs => hs.step hop)
    fun _ _ hop hs => hs.stepFenced hop

def flyingRun : List Op :=
  [.act (.registerWorker ⟨1⟩ ⟨1⟩),.act (.plan ⟨0⟩ (requestNo 1) [readyCandidate]),
   .act (.authorizePlan ⟨0⟩ { planId := ⟨1⟩ }),.act (.dispatchBegin ⟨0⟩ { planId := ⟨1⟩ })]

def reportOnOne (dispatch : DispatchId) (outcome : ExecutionOutcome) : ExecutionReport :=
  { dispatch := dispatch
    planId := ⟨1⟩
    planGeneration := ⟨1⟩
    reporterBoot := ⟨1⟩
    outcome := outcome }

def answeredRun : List Op :=
  flyingRun ++ [.act (.adapterTake ⟨1⟩ .succeeded),.act (.adapterDeliver ⟨1⟩ 0),
    .act (.reportExecution ⟨2⟩ (reportOnOne ⟨1⟩ .failed)),.act (.registerWorker ⟨1⟩ ⟨2⟩)]

theorem run_fenced_answered :
    Along (Attended .insertion) (step .insertion) (construct false) answeredRun ∧
    Along (StepFenced .insertion) (step .insertion) (construct false) answeredRun ∧
    ((run (step .insertion) (construct false) answeredRun).plan? 1).map RecoveryPlan.state =
      some .succeeded := by
  have hflying : (run (step .insertion) (construct false) flyingRun).Flying 1 := by
    have hs : ((run (step .insertion) (construct false) flyingRun).plan? 1).map
        (fun p => p.state.inFlight) = some true := by decide +kernel
    exact Option.map_eq_some_iff.mp hs
  have htaken : (run (step .insertion) (construct false) (answeredRun.take 5)).Flying 1 := by
    have hs : ((run (step .insertion) (construct false) (answeredRun.take 5)).plan? 1).map
        (fun p => p.state.inFlight) = some true := by decide +kernel
    exact Option.map_eq_some_iff.mp hs
  have h : Along (Attended .insertion) (step .insertion) (construct false) answeredRun := by
    refine ⟨⟨⟨⟨nofun,nofun⟩,by decide +kernel⟩,?_,nofun,nofun,nofun,nofun⟩,
      ⟨⟨⟨nofun,nofun⟩,by decide +kernel⟩,nofun,nofun,nofun,nofun,nofun⟩,
      ⟨⟨⟨nofun,nofun⟩,by decide +kernel⟩,nofun,nofun,nofun,nofun,nofun⟩,
      ⟨⟨⟨nofun,nofun⟩,by decide +kernel⟩,nofun,nofun,nofun,nofun,nofun⟩,
      ⟨⟨⟨nofun,nofun⟩,by decide +kernel⟩,nofun,nofun,nofun,?_,nofun⟩,
      ⟨⟨⟨nofun,nofun⟩,by decide +kernel⟩,nofun,nofun,nofun,nofun,?_⟩,
      ⟨⟨⟨nofun,nofun⟩,by decide +kernel⟩,nofun,nofun,?_,nofun,nofun⟩,
      ⟨⟨⟨nofun,nofun⟩,by decide +kernel⟩,?_,nofun,nofun,nofun,nofun⟩,trivial⟩
    · exact fun _ _ _ k p hp => absurd hp (by simp [plan?,construct,Node.construct,Impl.construct])
    · intro dispatchId outcome m hop hm
      cases hop
      have hentry : (run (step .insertion) (construct false)
          flyingRun).node.impl.dispatchMeta.find? 1 = some ⟨⟨1⟩,⟨1⟩,⟨1⟩⟩ := by decide +kernel
      obtain rfl := Option.some.inj (hentry.symm.trans hm)
      exact hflying
    · intro now call r hop hr
      cases hop
      have hpending : (run (step .insertion) (construct false)
          (answeredRun.take 5)).node.pending[0]? = some (reportOnOne ⟨1⟩ .succeeded) := by
        decide +kernel
      obtain rfl := Option.some.inj (hpending.symm.trans hr)
      exact htaken
    · intro now r hop p hp _ ht
      cases hop
      have hs : ((run (step .insertion) (construct false) (answeredRun.take 6)).plan? 1).map
          (fun p => p.state.terminal) = some true := by decide +kernel
      obtain ⟨q,hq,hdone⟩ := Option.map_eq_some_iff.mp hs
      obtain rfl := Option.some.inj (hq.symm.trans hp)
      exact absurd (hdone.symm.trans ht) (by decide)
    · intro w boot _ k p hp hf
      have hs : ∀ e ∈ (run (step .insertion) (construct false)
          (answeredRun.take 7)).node.impl.plans.entries, e.2.state.inFlight = false := by
        decide +kernel
      have hdone := hs (k,p) ((SortedMap.mem_entries _).mpr hp)
      exact absurd (hdone.symm.trans hf) (by decide)
  exact ⟨h,run_fenced .insertion false answeredRun h,by decide +kernel⟩

def reincarnation : List Op := flyingRun ++ [.act (.registerWorker ⟨1⟩ ⟨2⟩)]

def replanned : List Op :=
  flyingRun ++ [.act (.plan ⟨1⟩ (requestNo 1) [readyCandidate])]

/-- A success from the boot that is gone, for a dispatch that never was, is accepted. A
completion for a plan that is superseded is ignored, and its entry is gone. -/
theorem late_success_accepted :
    let s := run (step .insertion) (construct false) reincarnation
    let s' := s.step .insertion (.act (.reportExecution ⟨1⟩ (reportOnOne ⟨99⟩ .succeeded)))
    let t := run (step .insertion) (construct false) replanned
    let t' := t.step .insertion (.act (.adapterTake ⟨1⟩ .succeeded))
    (s.node.impl.ctx.workerBoots.find? ⟨1⟩ = some ⟨2⟩ ∧
      (s'.plan? 1).map RecoveryPlan.state = some .succeeded ∧
      ¬ s.StepFenced .insertion
        (.act (.reportExecution ⟨1⟩ (reportOnOne ⟨99⟩ .succeeded)))) ∧
    ((t.plan? 1).map RecoveryPlan.state = some .superseded ∧
      t.node.impl.dispatchMeta.find? 1 = some ⟨⟨1⟩,⟨1⟩,⟨1⟩⟩ ∧
      t'.node.impl.dispatchMeta.find? 1 = none ∧
      ¬ t.StepFenced .insertion (.act (.adapterTake ⟨1⟩ .succeeded))) := by
  intro s s' t t'
  have hbefore : (s.plan? 1).map (fun p => (p.state,p.targetWorker)) =
      some (.dispatched,⟨1⟩) := by decide +kernel
  have hafter : (s'.plan? 1).map RecoveryPlan.state = some .succeeded := by decide +kernel
  have hboot : s.node.impl.ctx.workerBoots.find? ⟨1⟩ = some ⟨2⟩ := by decide +kernel
  have hover : (t.plan? 1).map RecoveryPlan.state = some .superseded := by decide +kernel
  have hheld : t.node.impl.dispatchMeta.find? 1 = some ⟨⟨1⟩,⟨1⟩,⟨1⟩⟩ := by decide +kernel
  have hgone : t'.node.impl.dispatchMeta.find? 1 = none := by decide +kernel
  refine ⟨⟨hboot,hafter,fun h => ?_⟩,hover,hheld,hgone,fun h => ?_⟩
  · obtain ⟨p,hp,hps⟩ := Option.map_eq_some_iff.mp hbefore
    obtain ⟨p',hp',hps'⟩ := Option.map_eq_some_iff.mp hafter
    simp only [Prod.mk.injEq] at hps
    have hf := h.state 1 p p' hp hp' (by rw [hps.1,hps']; simp)
    have hstale := hf.boot
    rw [hps.2,hboot] at hstale
    exact absurd hstale (by decide)
  · have hnone : ¬ ∃ p, t.node.impl.Fenced (reportOnOne ⟨1⟩ .succeeded) p := by
      rintro ⟨p,hf⟩
      obtain ⟨q,hq,hs⟩ := Option.map_eq_some_iff.mp hover
      obtain rfl := Option.some.inj (hf.stored.symm.trans hq)
      have hfly := (hf.dispatch (by decide)).1
      rw [hs] at hfly
      exact absurd hfly (by decide)
    have hsame := (h (reportOnOne ⟨1⟩ .succeeded) (by decide +kernel)).ignored hnone
    have hmeta : t'.node.impl.dispatchMeta.find? 1 = t.node.impl.dispatchMeta.find? 1 :=
      congrArg (fun im => im.dispatchMeta.find? 1) hsame
    rw [hgone,hheld] at hmeta
    exact absurd hmeta (by simp)

end Session

end RecoveryPlanner
