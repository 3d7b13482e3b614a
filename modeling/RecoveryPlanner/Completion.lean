import RecoveryPlanner.Session
set_option autoImplicit false

/-! Asynchronous completions. A dispatch id counts the attempts of one plan but keys a
map shared by all plans, so a completion finds its plan only while no id has been
handed out for two of them. -/

namespace RecoveryPlanner

attribute [local simp] PlanLifecycleState.inFlight Impl.settleReport

/-- What a completion is matched against: plan id, generation and target boot. -/
def RecoveryPlan.stamp (p : RecoveryPlan) : DispatchMeta := ⟨p.planId,p.generation,p.targetBoot⟩

def RecoveryDispatch.stamp (d : RecoveryDispatch) : DispatchMeta :=
  ⟨d.planId,d.planGeneration,d.targetBoot⟩

def ExecutionReport.stamp (r : ExecutionReport) : DispatchMeta :=
  ⟨r.planId,r.planGeneration,r.reporterBoot⟩

def Event.dispatch? : Event → Option RecoveryDispatch
  | .created _ => none
  | .handedOff _ _ d => some d

namespace Node

def handedOut (n : Node) : List RecoveryDispatch := n.log.filterMap Event.dispatch?

def dispatchFor (n : Node) (k : UInt64) : Option RecoveryDispatch :=
  n.handedOut.find? (fun d => d.planId.value == k)

end Node

theorem stamp_of_fence {p p' : RecoveryPlan} (h : p'.fence = p.fence) : p'.stamp = p.stamp := by
  have hid : p'.planId = p.planId := congrArg PlanFence.planId h
  have hgen : p'.generation = p.generation := congrArg PlanFence.generation h
  have hboot : p'.targetBoot = p.targetBoot := congrArg PlanFence.targetBoot h
  rw [RecoveryPlan.stamp,RecoveryPlan.stamp,hid,hgen,hboot]

theorem Evolves.stamp {p p' : RecoveryPlan} (h : Evolves p p') : p'.stamp = p.stamp :=
  stamp_of_fence h.fence

theorem Evolves.inFlight {p p' : RecoveryPlan} (h : Evolves p p')
    (hf : p'.state.inFlight = true) : p.state.inFlight = true := by
  cases h with
  | touch now => exact hf
  | execute now h => rw [h]; rfl
  | _ => exact absurd hf (by simp)

theorem stamp_planId {k : UInt64} {p : RecoveryPlan} {m : DispatchMeta} (hk : p.planId.value = k)
    (h : p.stamp = m) : m.planId.value = k := by
  rw [← h]
  exact hk

theorem inFlight_iff {s : PlanLifecycleState} :
    s.inFlight = true ↔ s = .dispatched ∨ s = .executing := by
  cases s <;> simp

theorem inFlight_alive {s : PlanLifecycleState} (h : s.inFlight = true) : s.terminal = false := by
  rcases inFlight_iff.mp h with rfl | rfl <;> rfl

namespace Impl

/-- Every plan in flight in `im'` is in flight in `im`, under the same stamp. -/
def Grounded (im im' : Impl) : Prop :=
  ∀ k p', im'.plans.find? k = some p' → p'.state.inFlight = true →
    ∃ p, im.plans.find? k = some p ∧ p.state.inFlight = true ∧ p.stamp = p'.stamp

theorem Settles.dispatchMeta {im im' : Impl} (h : Settles im im') :
    im'.dispatchMeta = im.dispatchMeta := by
  cases h <;> rfl

theorem reportExecution_other {im : Impl} (hkeyed : Keyed im.plans) (now : Timestamp)
    {r : ExecutionReport} {k : UInt64}
    (h : ∀ p, im.plans.find? k = some p → p.stamp ≠ r.stamp) :
    (im.reportExecution now r).plans.find? k = im.plans.find? k := by
  unfold reportExecution
  cases hr : im.plans.find? r.planId.value with
  | none => rfl
  | some q =>
    dsimp only
    split
    · rfl
    · rename_i hgen
      split
      · rfl
      · rename_i hboot
        split
        · rfl
        · rw [putPlan,SortedMap.find?_insert]
          split
          · rename_i hk
            subst hk
            have hid : q.planId = r.planId := congrArg Id.mk (hkeyed _ q hr)
            have hstamp : q.stamp = r.stamp := by
              rw [RecoveryPlan.stamp,ExecutionReport.stamp,hid,not_not.mp hgen,not_not.mp hboot]
            exact absurd hstamp (h q hr)
          · rfl

theorem reportExecution_own {im : Impl} (hkeyed : Keyed im.plans) (now : Timestamp)
    {r : ExecutionReport} {k : UInt64} {p : RecoveryPlan} (hk : im.plans.find? k = some p)
    (hf : p.state.inFlight = true) (h : p.stamp = r.stamp) :
    (im.reportExecution now r).plans.find? k =
      some { settleReport r.outcome p with updatedAt := now } := by
  have hid : r.planId.value = k := stamp_planId (hkeyed k p hk) h
  have hgen : p.generation = r.planGeneration := congrArg DispatchMeta.generation h
  have hboot : p.targetBoot = r.reporterBoot := congrArg DispatchMeta.targetBoot h
  unfold reportExecution
  simp [hid,hk,hgen,hboot,inFlight_alive hf,putPlan]

theorem settleReport_landed {outcome : ExecutionOutcome} {p : RecoveryPlan}
    (hf : p.state.inFlight = true) (ho : outcome.declared = true) :
    (settleReport outcome p).state.inFlight = false := by
  have hfail : validatePlanTransition p.state .failed = true :=
    validate_failed.mpr (inFlight_iff.mp hf)
  have hsucc : validatePlanTransition p.state .succeeded = true :=
    validate_succeeded.mpr (inFlight_iff.mp hf)
  cases outcome with
  | undeclared i => exact absurd ho (by simp [ExecutionOutcome.declared])
  | succeeded => simp [hsucc]
  | _ => simp [hfail]

theorem settleReport_succeeded {p : RecoveryPlan} (hf : p.state.inFlight = true) :
    (settleReport .succeeded p).state = .succeeded := by
  have hsucc : validatePlanTransition p.state .succeeded = true :=
    validate_succeeded.mpr (inFlight_iff.mp hf)
  simp [hsucc]

theorem onAdapterCompletion_known {im : Impl} {d : DispatchId} {m : DispatchMeta}
    (h : im.dispatchMeta.find? d.value = some m) (now : Timestamp) (outcome : ExecutionOutcome) :
    (im.onAdapterCompletion now d outcome).plans =
      (im.reportExecution now ⟨d,m.planId,m.generation,m.targetBoot,outcome⟩).plans := by
  simp only [onAdapterCompletion,adapterTake,h,reportExecution]
  cases im.plans.find? m.planId.value with
  | none => rfl
  | some p =>
    dsimp only
    repeat' split
    all_goals rfl

theorem onAdapterCompletion_unknown {im : Impl} {d : DispatchId}
    (h : im.dispatchMeta.find? d.value = none) (now : Timestamp) (outcome : ExecutionOutcome) :
    im.onAdapterCompletion now d outcome = im := by
  simp only [onAdapterCompletion,adapterTake,h]

end Impl

def Act.routes : Act → Bool
  | .dispatchBegin _ _ | .adapterTake _ _ | .adapterDeliver _ _ => true
  | _ => false

attribute [local simp] Act.routes

structure SameRoutes (n n' : Node) : Prop where
  dispatchMeta : n'.impl.dispatchMeta = n.impl.dispatchMeta
  pending : n'.pending = n.pending
  handedOut : n'.handedOut = n.handedOut

theorem Node.act_routes (std : StdSort) (n : Node) {a : Act} (h : a.routes = false) :
    SameRoutes n (n.act std a) := by
  cases a with
  | plan now request candidates =>
    rcases n.impl.plan_spec std now request candidates with ⟨hn,hp⟩ | ⟨p,hn,hp⟩
    · exact ⟨hp.dispatchMeta,rfl,by simp only [act,handedOut,hn]⟩
    · refine ⟨hp.dispatchMeta,rfl,?_⟩
      simp only [act,handedOut,hn]
      exact List.filterMap_cons_none rfl
  | authorizePlan now plan => exact ⟨(n.impl.authorizePlan_settles now plan).dispatchMeta,rfl,rfl⟩
  | dispatchEnd now call status =>
    simp only [act]
    split
    · exact ⟨(n.impl.dispatchEnd_settles now _ status).dispatchMeta,rfl,rfl⟩
    · exact ⟨rfl,rfl,rfl⟩
  | reportExecution now report =>
    exact ⟨(n.impl.reportExecution_settles now report).dispatchMeta,rfl,rfl⟩
  | cancelPlan now planId force =>
    exact ⟨(n.impl.cancelPlan_settles now planId force).dispatchMeta,rfl,rfl⟩
  | invalidatePlan now planId =>
    exact ⟨(n.impl.invalidatePlan_settles now planId).dispatchMeta,rfl,rfl⟩
  | setRecomputeAvailable gen available =>
    refine ⟨?_,rfl,rfl⟩
    simp only [act,Impl.setRecomputeAvailable]
    split <;> rfl
  | dispatchBegin now plan => exact absurd h (by simp)
  | adapterTake dispatchId outcome => exact absurd h (by simp)
  | adapterDeliver now call => exact absurd h (by simp)
  | _ => exact ⟨rfl,rfl,rfl⟩

theorem NodeStep.grounded {n n' : Node} (h : NodeStep n n')
    (hout : n'.handedOut = n.handedOut) : n.impl.Grounded n'.impl := by
  intro k p' hp' hf
  cases h with
  | quiet same log => exact ⟨p',same.plans ▸ hp',hf,rfl⟩
  | settles hk he impl log =>
    rw [impl,Impl.putPlan,SortedMap.find?_insert] at hp'
    split at hp'
    · rename_i hj
      subst hj
      obtain rfl := Option.some.inj hp'
      exact ⟨_,hk,he.inFlight hf,he.stamp.symm⟩
    · exact ⟨p',hp',hf,rfl⟩
  | plans h log =>
    rename_i req now p
    by_cases hk : k = p.planId.value
    · rw [hk,h.find?_new] at hp'
      obtain rfl := Option.some.inj hp'
      rw [h.fresh.state] at hf
      exact absurd hf (by decide)
    · rw [h.find?_old hk,Option.map_eq_some_iff] at hp'
      obtain ⟨q,hq,rfl⟩ := hp'
      rcases supersede_evolves req p.planId now q with he | he
      · rw [he] at hf ⊢
        exact ⟨q,hq,hf,rfl⟩
      · exact ⟨q,hq,he.inFlight hf,he.stamp.symm⟩
  | handsOff hk hs hcur impl log =>
    have hlen := congrArg List.length hout
    simp [Node.handedOut,log,Event.dispatch?] at hlen

/-- The invariant behind the routing of completions. A plan in flight is reached through
its own dispatch id, or by a completion that is already under way. -/
structure Answerable (n : Node) : Prop where
  keyed : Impl.Keyed n.impl.plans
  known : ∀ a m, n.impl.dispatchMeta.find? a = some m →
    ∃ d ∈ n.handedOut, d.dispatchId.value = a ∧ d.stamp = m
  taken : ∀ r ∈ n.pending, r.outcome.declared = true ∧
    ∃ d ∈ n.handedOut, d.dispatchId = r.dispatch ∧ d.stamp = r.stamp
  distinct : ∀ d ∈ n.handedOut, ∀ d' ∈ n.handedOut, d.dispatchId = d'.dispatchId →
    d.stamp = d'.stamp
  inFlight : ∀ k p, n.impl.plans.find? k = some p → p.state.inFlight = true →
    ∃ d, n.dispatchFor k = some d ∧ d.stamp = p.stamp ∧
      (n.impl.dispatchMeta.find? d.dispatchId.value = some p.stamp ∨
        ∃ r ∈ n.pending, r.dispatch = d.dispatchId ∧ r.stamp = p.stamp)

theorem Answerable.carry {n n' : Node} (h : Answerable n) (hr : SameRoutes n n')
    (hk : Impl.Keyed n'.impl.plans) (hg : n.impl.Grounded n'.impl) : Answerable n' := by
  refine ⟨hk,?_,?_,?_,fun k p' hp' hf => ?_⟩
  · rw [hr.dispatchMeta,hr.handedOut]
    exact h.known
  · rw [hr.pending,hr.handedOut]
    exact h.taken
  · rw [hr.handedOut]
    exact h.distinct
  · obtain ⟨p,hp,hpf,hstamp⟩ := hg k p' hp' hf
    rw [Node.dispatchFor,hr.handedOut,hr.dispatchMeta,hr.pending,← hstamp]
    exact h.inFlight k p hp hpf

theorem Node.handOff_plans (n : Node) (k : RecoveryPlanId) (p : RecoveryPlan) (now : Timestamp) :
    (n.handOff k p now).impl.plans = n.impl.plans.insert k.value (p.dispatched now) := rfl

theorem Node.handOff_dispatchMeta (n : Node) (k : RecoveryPlanId) (p : RecoveryPlan)
    (now : Timestamp) :
    (n.handOff k p now).impl.dispatchMeta =
      n.impl.dispatchMeta.insert (p.lastAttempt.value+1) p.stamp := rfl

theorem Node.handOff_handedOut (n : Node) (k : RecoveryPlanId) (p : RecoveryPlan)
    (now : Timestamp) :
    (n.handOff k p now).handedOut = .ofPlan (p.dispatched now) :: n.handedOut := rfl

theorem dispatched_id (p : RecoveryPlan) (now : Timestamp) :
    (RecoveryDispatch.ofPlan (p.dispatched now)).dispatchId.value = p.lastAttempt.value+1 := rfl

namespace Answerable

variable {n : Node}

theorem handOff_inFlight (h : Answerable n) {k : RecoveryPlanId} {p : RecoveryPlan}
    (now : Timestamp) (hk : n.impl.plans.find? k.value = some p)
    (hfresh : ∀ d ∈ n.handedOut, d.dispatchId.value = p.lastAttempt.value+1 → d.stamp = p.stamp)
    {j : UInt64} {q : RecoveryPlan} (hq : (n.handOff k p now).impl.plans.find? j = some q)
    (hf : q.state.inFlight = true) :
    ∃ d, (n.handOff k p now).dispatchFor j = some d ∧ d.stamp = q.stamp ∧
      ((n.handOff k p now).impl.dispatchMeta.find? d.dispatchId.value = some q.stamp ∨
        ∃ r ∈ (n.handOff k p now).pending, r.dispatch = d.dispatchId ∧ r.stamp = q.stamp) := by
  have hkey := h.keyed k.value p hk
  rw [Node.handOff_plans,SortedMap.find?_insert] at hq
  rw [Node.handOff_dispatchMeta,Node.dispatchFor,Node.handOff_handedOut]
  split at hq
  · rename_i hj
    obtain rfl := Option.some.inj hq
    refine ⟨.ofPlan (p.dispatched now),?_,rfl,.inl ?_⟩
    · exact List.find?_cons_of_pos (beq_iff_eq.mpr (hkey.trans hj.symm))
    · rw [dispatched_id,SortedMap.find?_insert,if_pos rfl]
      rfl
  · rename_i hj
    obtain ⟨d,hd,hds,hroute⟩ := h.inFlight j q hq hf
    have hne : (RecoveryDispatch.ofPlan (p.dispatched now)).planId.value ≠ j :=
      fun heq => hj (heq.symm.trans hkey)
    refine ⟨d,by rw [List.find?_cons_of_neg (by simpa using hne)]; exact hd,hds,?_⟩
    -- Had the new id been the other plan's too, the two would share a stamp.
    have hother : d.dispatchId.value ≠ p.lastAttempt.value+1 := by
      intro heq
      have hp := hfresh d (List.mem_of_find?_eq_some hd) heq
      exact hj ((stamp_planId (h.keyed j q hq) (hds.symm.trans hp)).symm.trans hkey)
    rw [SortedMap.find?_insert,if_neg hother]
    exact hroute

/-- A hand-off under an id that no other plan has had. -/
theorem handOff (h : Answerable n) {k : RecoveryPlanId} {p : RecoveryPlan} (now : Timestamp)
    (hk : n.impl.plans.find? k.value = some p)
    (hfresh : ∀ d ∈ n.handedOut, d.dispatchId.value = p.lastAttempt.value+1 → d.stamp = p.stamp) :
    Answerable (n.handOff k p now) := by
  have hkey := h.keyed k.value p hk
  refine ⟨?_,?_,?_,?_,?_⟩
  · intro j q hq
    rw [Node.handOff_plans,SortedMap.find?_insert] at hq
    split at hq
    · rename_i hj
      obtain rfl := Option.some.inj hq
      rw [hj]
      exact hkey
    · exact h.keyed j q hq
  · intro a m hm
    rw [Node.handOff_dispatchMeta,SortedMap.find?_insert] at hm
    rw [Node.handOff_handedOut]
    split at hm
    · rename_i ha
      exact ⟨_,List.mem_cons_self,ha.symm,Option.some.inj hm⟩
    · obtain ⟨d,hd,hda,hdm⟩ := h.known a m hm
      exact ⟨d,List.mem_cons_of_mem _ hd,hda,hdm⟩
  · intro r hr
    obtain ⟨hdec,d,hd,hdr,hds⟩ := h.taken r hr
    exact ⟨hdec,d,List.mem_cons_of_mem _ hd,hdr,hds⟩
  · intro d hd d' hd' heq
    rw [Node.handOff_handedOut,List.mem_cons] at hd hd'
    rcases hd with rfl | hd <;> rcases hd' with rfl | hd'
    · rfl
    · exact (hfresh d' hd' (by rw [← heq,dispatched_id])).symm
    · exact hfresh d hd (by rw [heq,dispatched_id])
    · exact h.distinct d hd d' hd' heq
  · exact fun j q => h.handOff_inFlight now hk hfresh

theorem adapterTake (h : Answerable n) (std : StdSort) {dispatchId : DispatchId}
    {outcome : ExecutionOutcome} (ho : outcome.declared = true) :
    Answerable (n.act std (.adapterTake dispatchId outcome)) := by
  simp only [Node.act,Impl.adapterTake]
  cases hm : n.impl.dispatchMeta.find? dispatchId.value with
  | none => exact h
  | some m =>
    refine ⟨h.keyed,?_,?_,h.distinct,?_⟩
    · intro a m' hm'
      simp only [SortedMap.find?_erase] at hm'
      split at hm'
      · exact absurd hm' (by simp)
      · exact h.known a m' hm'
    · intro r hr
      rcases List.mem_append.mp hr with hr | hr
      · exact h.taken r hr
      · obtain rfl := List.mem_singleton.mp hr
        obtain ⟨d,hd,hda,hdm⟩ := h.known _ m hm
        exact ⟨ho,d,hd,congrArg Id.mk hda,hdm⟩
    · intro k p hp hf
      obtain ⟨d,hd,hds,hroute⟩ := h.inFlight k p hp hf
      refine ⟨d,hd,hds,?_⟩
      rcases hroute with hroute | ⟨r,hr,hrd,hrs⟩
      · by_cases hid : d.dispatchId = dispatchId
        · rw [hid,hm] at hroute
          refine .inr ⟨_,List.mem_append_right _ (List.mem_singleton_self _),hid.symm,?_⟩
          exact Option.some.inj hroute
        · have hne : d.dispatchId.value ≠ dispatchId.value := fun heq => hid (congrArg Id.mk heq)
          exact .inl (by simpa [SortedMap.find?_erase,hne] using hroute)
      · exact .inr ⟨r,List.mem_append_left _ hr,hrd,hrs⟩

theorem adapterDeliver (h : Answerable n) (std : StdSort) (now : Timestamp) (call : Nat) :
    Answerable (n.act std (.adapterDeliver now call)) := by
  have hstep := n.act_step std (.adapterDeliver now call)
  have hkeyed := hstep.keyed h.keyed
  simp only [Node.act] at hstep hkeyed ⊢
  cases hr : n.pending[call]? with
  | none => exact h
  | some report =>
    simp only [hr] at hstep hkeyed ⊢
    have hmeta := (n.impl.reportExecution_settles now report).dispatchMeta
    have hgrounded := hstep.grounded rfl
    refine ⟨hkeyed,?_,?_,h.distinct,?_⟩
    · dsimp only
      rw [hmeta]
      exact h.known
    · intro r hr'
      exact h.taken r (List.mem_of_mem_eraseIdx hr')
    · intro k p' hp' hf
      obtain ⟨p,hp,hpf,hstamp⟩ := hgrounded k p' hp' hf
      obtain ⟨d,hd,hds,hroute⟩ := h.inFlight k p hp hpf
      -- A plan that is still in flight is not the one reported on.
      have hother : report.stamp ≠ p.stamp := by
        intro heq
        have hown := Impl.reportExecution_own h.keyed now hp hpf heq.symm
        obtain rfl := Option.some.inj (hown.symm.trans hp')
        have hdec := (h.taken report (List.mem_of_getElem? hr)).1
        rw [Impl.settleReport_landed hpf hdec] at hf
        exact absurd hf (by simp)
      rw [← hstamp]
      refine ⟨d,hd,hds,?_⟩
      rcases hroute with hroute | ⟨r,hr',hrd,hrs⟩
      · exact .inl (hmeta ▸ hroute)
      · obtain ⟨i,hi⟩ := List.mem_iff_getElem?.mp hr'
        have hne : i ≠ call := by
          rintro rfl
          obtain rfl := Option.some.inj (hr.symm.trans hi)
          exact hother hrs
        exact .inr ⟨r,List.mem_eraseIdx_iff_getElem?.mpr ⟨i,hne,hi⟩,hrd,hrs⟩

end Answerable

namespace Session

/-- An id is not handed out for a second plan, completions bring declared outcomes, and
a reload puts no plan back in flight. -/
structure Routable (s : Session) (op : Op) : Prop where
  unused : ∀ now plan p, op = .act (.dispatchBegin now plan) →
    s.plan? plan.planId.value = some p → p.state = .authorized →
    planAuthorityCurrent p s.node.impl.ctx = true →
    ∀ d ∈ s.node.handedOut, d.dispatchId.value = p.lastAttempt.value+1 → d.stamp = p.stamp
  declared : ∀ dispatchId outcome, op = .act (.adapterTake dispatchId outcome) →
    outcome.declared = true
  grounded : op = .loadState → s.node.impl.Grounded (s.node.impl.loadState s.disk).2

theorem routable_of_unrouted {s : Session} {a : Act} (h : a.routes = false) :
    s.Routable (.act a) := by
  constructor
  · rintro now plan p hop
    cases hop
    exact absurd h (by simp)
  · rintro dispatchId outcome hop
    cases hop
    exact absurd h (by simp)
  · exact nofun

theorem step_answerable {std : StdSort} {s : Session} {op : Op} (hop : s.Routable op)
    (h : Answerable s.node) : Answerable (s.step std op).node := by
  cases op with
  | act a =>
    show Answerable (s.node.act std a)
    have hstep := s.node.act_step std a
    cases hroutes : a.routes with
    | false =>
      have hsame := s.node.act_routes std hroutes
      exact h.carry hsame (hstep.keyed h.keyed) (hstep.grounded hsame.handedOut)
    | true =>
      cases a with
      | dispatchBegin now plan =>
        rcases s.node.act_dispatchBegin std now plan with hn | ⟨p,hk,hs,hcur,hn⟩
        · rw [hn]
          exact h
        · rw [hn]
          exact h.handOff now hk
            (hop.unused now plan p rfl hk hs ((planAuthorityCurrent_iff p _).mpr hcur))
      | adapterTake dispatchId outcome =>
        exact h.adapterTake std (hop.declared dispatchId outcome rfl)
      | adapterDeliver now call => exact h.adapterDeliver std now call
      | _ => exact absurd hroutes (by simp)
  | saveState => exact h
  | loadState =>
    have hframe := s.node.impl.loadState_frame s.disk
    exact h.carry ⟨hframe.dispatchMeta,rfl,rfl⟩ (Impl.loadState_keyed h.keyed s.disk)
      (hop.grounded rfl)
  | restartCoordinator clock =>
    have hframe := s.node.impl.restartReloading_frame clock (s.node.impl.saveState s.disk).2
    refine h.carry ⟨hframe.dispatchMeta,rfl,rfl⟩
      (Impl.restartReloading_keyed h.keyed clock (s.node.impl.saveState s.disk).2) ?_
    -- Nothing is in flight after a restart, although the map survives it.
    intro k p hp hf
    have ht := Impl.restartReloading_terminal hp
    rw [inFlight_alive hf] at ht
    exact absurd ht (by simp)

theorem construct_answerable (hasStore : Bool) : Answerable (construct hasStore).node := by
  refine ⟨?_,?_,?_,?_,?_⟩
  · exact (Impl.construct_wellKept hasStore).plansSound.keyed
  · exact fun a m hm => absurd hm (by simp [construct,Node.construct,Impl.construct])
  · exact fun r hr => absurd hr (by simp [construct,Node.construct])
  · exact fun d hd => absurd hd (by simp [construct,Node.construct,Node.handedOut])
  · exact fun k p hp => absurd hp (by simp [construct,Node.construct,Impl.construct])

structure Credits (s : Session) : Prop where
  /-- A completion with an id that was handed out touches the plan it was handed out for. -/
  others : ∀ d ∈ s.node.handedOut, ∀ now outcome k,
    (∀ p, s.plan? k = some p → p.stamp ≠ d.stamp) →
    (s.node.impl.onAdapterCompletion now d.dispatchId outcome).plans.find? k = s.plan? k
  /-- Success, reported with the id a plan in flight was dispatched under, makes it
  SUCCEEDED; the only exception is a completion with that id that is already under way. -/
  own : ∀ k p, s.plan? k = some p → p.state.inFlight = true →
    ∃ d, s.node.dispatchFor k = some d ∧ d.stamp = p.stamp ∧
      ((∃ r ∈ s.node.pending, r.dispatch = d.dispatchId ∧ r.stamp = p.stamp) ∨
        ∀ now, ∃ p', (s.node.impl.onAdapterCompletion now d.dispatchId
            .succeeded).plans.find? k = some p' ∧ p'.state = .succeeded)
  /-- A completion under way belongs to a dispatch, and ends the same way. -/
  underWay : ∀ r ∈ s.node.pending,
    (∃ d ∈ s.node.handedOut, d.dispatchId = r.dispatch ∧ d.stamp = r.stamp) ∧
    ∀ now k,
      ((∀ p, s.plan? k = some p → p.stamp ≠ r.stamp) →
        (s.node.impl.reportExecution now r).plans.find? k = s.plan? k) ∧
      (∀ p, s.plan? k = some p → p.state.inFlight = true → p.stamp = r.stamp →
        r.outcome = .succeeded →
        ∃ p', (s.node.impl.reportExecution now r).plans.find? k = some p' ∧
          p'.state = .succeeded)

theorem reports_success {im : Impl} (hkeyed : Impl.Keyed im.plans) (now : Timestamp)
    {r : ExecutionReport} {k : UInt64} {p : RecoveryPlan} (hk : im.plans.find? k = some p)
    (hf : p.state.inFlight = true) (h : p.stamp = r.stamp) (ho : r.outcome = .succeeded) :
    ∃ p', (im.reportExecution now r).plans.find? k = some p' ∧ p'.state = .succeeded :=
  ⟨_,Impl.reportExecution_own hkeyed now hk hf h,by rw [ho]; exact Impl.settleReport_succeeded hf⟩

theorem credits {s : Session} (h : Answerable s.node) : s.Credits := by
  refine ⟨fun d hd now outcome k hk => ?_,fun k p hp hf => ?_,fun r hr => ⟨(h.taken r hr).2,?_⟩⟩
  · cases hm : s.node.impl.dispatchMeta.find? d.dispatchId.value with
    | none =>
      rw [Impl.onAdapterCompletion_unknown hm]
      rfl
    | some m =>
      obtain ⟨d',hd',hid,hstamp⟩ := h.known _ m hm
      have hmd : m = d.stamp := hstamp.symm.trans (h.distinct d' hd' d hd (congrArg Id.mk hid))
      rw [Impl.onAdapterCompletion_known hm]
      refine Impl.reportExecution_other h.keyed now fun p hp => ?_
      exact fun heq => hk p hp (heq.trans hmd)
  · obtain ⟨d,hd,hds,hroute⟩ := h.inFlight k p hp hf
    refine ⟨d,hd,hds,hroute.symm.imp_right fun hm now => ?_⟩
    rw [Impl.onAdapterCompletion_known hm]
    exact reports_success h.keyed now hp hf rfl rfl
  · intro now k
    exact ⟨Impl.reportExecution_other h.keyed now,
      fun p hp hf hstamp ho => reports_success h.keyed now hp hf hstamp ho⟩

/-- In every state of a run whose steps are routable, completions reach their own plan
and no other. -/
theorem run_credits (std : StdSort) (hasStore : Bool) (ops : List Op)
    (h : Along Routable (step std) (construct hasStore) ops) :
    (run (step std) (construct hasStore) ops).Credits :=
  credits (h.invariant (I := fun s => Answerable s.node) (construct_answerable hasStore)
    fun _ _ hop hs => step_answerable hop hs)

def awaitedRun : List Op :=
  [.act (.registerWorker ⟨1⟩ ⟨1⟩),.act (.plan ⟨0⟩ (requestNo 1) [readyCandidate]),
   .act (.authorizePlan ⟨1⟩ { planId := ⟨1⟩ }),.act (.dispatchBegin ⟨2⟩ { planId := ⟨1⟩ }),
   .act (.dispatchEnd ⟨3⟩ 0 .dispatched)]

theorem run_credits_awaited :
    Along Routable (step .insertion) (construct true) awaitedRun ∧
    (run (step .insertion) (construct true) awaitedRun).Credits ∧
    ((run (step .insertion) (construct true) awaitedRun).plan? 1).map RecoveryPlan.state =
      some .executing ∧
    (run (step .insertion) (construct true) awaitedRun).node.pending = [] ∧
    ((run (step .insertion) (construct true) awaitedRun).node.dispatchFor 1).map
      (fun d => d.dispatchId.value) = some 1 := by
  have hnone : (run (step .insertion) (construct true) (awaitedRun.take 3)).node.handedOut = [] := by
    decide +kernel
  have hfirst : (run (step .insertion) (construct true) (awaitedRun.take 3)).Routable
      (.act (.dispatchBegin ⟨2⟩ { planId := ⟨1⟩ })) := by
    refine ⟨fun now plan p _ _ _ _ d hd => ?_,nofun,nofun⟩
    rw [hnone] at hd
    exact absurd hd List.not_mem_nil
  have h : Along Routable (step .insertion) (construct true) awaitedRun :=
    ⟨routable_of_unrouted rfl,routable_of_unrouted rfl,routable_of_unrouted rfl,hfirst,
      routable_of_unrouted rfl,trivial⟩
  exact ⟨h,run_credits .insertion true awaitedRun h,by decide +kernel,by decide +kernel,
    by decide +kernel⟩

def crossedRun : List Op :=
  [.act (.registerWorker ⟨1⟩ ⟨1⟩),.act (.plan ⟨0⟩ (requestNo 1) [readyCandidate]),
   .act (.plan ⟨0⟩ (requestNo 2) [readyCandidate]),.act (.authorizePlan ⟨1⟩ { planId := ⟨1⟩ }),
   .act (.authorizePlan ⟨1⟩ { planId := ⟨2⟩ }),.act (.dispatchBegin ⟨2⟩ { planId := ⟨1⟩ }),
   .act (.dispatchEnd ⟨3⟩ 0 .dispatched),.act (.dispatchBegin ⟨4⟩ { planId := ⟨2⟩ }),
   .act (.dispatchEnd ⟨5⟩ 0 .dispatched)]

def crossed : Session := run (step .insertion) (construct true) crossedRun

/-- Plan 1 was dispatched under id 1. Its success is credited to plan 2, and plan 1
stays in flight. -/
theorem crossed_credit :
    crossed.node.handedOut.map (fun d => (d.planId.value,d.dispatchId.value)) = [(2,1),(1,1)] ∧
    [crossed.plan? 1,crossed.plan? 2].map (Option.map RecoveryPlan.state) =
      [some .executing,some .executing] ∧
    [1,2].map (fun k => ((crossed.node.impl.onAdapterCompletion ⟨6⟩ ⟨1⟩
      .succeeded).plans.find? k).map RecoveryPlan.state) = [some .executing,some .succeeded] ∧
    ¬ crossed.Credits := by
  refine ⟨by decide +kernel,by decide +kernel,by decide +kernel,fun h => ?_⟩
  have hd : ∃ d ∈ crossed.node.handedOut, d.dispatchId = ⟨1⟩ ∧ d.planId = ⟨1⟩ := by
    decide +kernel
  obtain ⟨d,hd,hid,hplan⟩ := hd
  have hother : ∀ p, crossed.plan? 2 = some p → p.stamp ≠ d.stamp := by
    intro p hp heq
    have hp2 : (crossed.plan? 2).map RecoveryPlan.planId = some ⟨2⟩ := by decide +kernel
    rw [hp] at hp2
    have hpid : p.planId = d.planId := congrArg DispatchMeta.planId heq
    have hne : (⟨1⟩ : RecoveryPlanId) ≠ ⟨2⟩ := by decide
    exact hne (hplan.symm.trans (hpid.symm.trans (Option.some.inj hp2)))
  have hsame := congrArg (Option.map RecoveryPlan.state) (h.others d hd ⟨6⟩ .succeeded 2 hother)
  rw [hid] at hsame
  have hne : ((crossed.node.impl.onAdapterCompletion ⟨6⟩ ⟨1⟩ .succeeded).plans.find? 2).map
      RecoveryPlan.state ≠ (crossed.plan? 2).map RecoveryPlan.state := by decide +kernel
  exact hne hsame

end Session

end RecoveryPlanner
