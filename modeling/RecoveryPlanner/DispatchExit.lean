import RecoveryPlanner.Cancellation
import RecoveryPlanner.Completion
import RecoveryPlanner.Selection
import RecoveryPlanner.Transport
set_option autoImplicit false

/-! How `dispatch_plan` ends. The plan becomes DISPATCHED before the executor is called and
leaves that state in a second critical section, which an exception of the executor skips. -/

namespace RecoveryPlanner

/-- How the call of the executor ends. -/
inductive ExecutorExit where
  | receipt (status : DispatchStatus)
  | exception
  deriving DecidableEq

/-- One `dispatch_plan`, with all that goes on while the executor has the plan: the
completions that the executor reports itself, and the calls of others. -/
structure DispatchRun where
  plan : RecoveryPlan
  begins : Timestamp
  meanwhile : List Call := []
  exit : ExecutorExit
  ends : Timestamp := default

def DispatchRun.key (r : DispatchRun) : UInt64 := r.plan.planId.value

def Call.loads : Call → Bool
  | .loadState _ => true
  | _ => false

def RecoveryPlan.Settled (p : RecoveryPlan) : Prop :=
  p.state = .executing ∨ p.state.terminal = true

def drawnCount (k : UInt64) (log : List Event) : Nat :=
  log.countP (fun e => e.isCreated && e.key == k)

namespace Node

/-- After the first critical section. The second one is this call's own, so it is not among
those that others may run. -/
def handedOver (std : StdSort) (n : Node) (r : DispatchRun) : Node :=
  { n.act std (.dispatchBegin r.begins r.plan) with awaiting := n.awaiting }

def dispatchPlan (std : StdSort) (n : Node) (r : DispatchRun) :
    Option (Except RecoveryError RecoveryPlan) × Node :=
  match (n.impl.dispatchBegin r.begins r.plan).1 with
  | .error e => (some (.error e),n.handedOver std r)
  | .ok _ =>
    let n := run (call std) (n.handedOver std r) r.meanwhile
    match r.exit with
    | .exception => (none,n)
    | .receipt status =>
      let end' := n.impl.dispatchEnd r.ends r.plan.planId status
      (some end'.1,{ n with impl := end'.2 })

/-- Refused before the hand-off, nothing has changed; otherwise the plan, unless its id has
meanwhile gone to another one, is not left DISPATCHED. -/
structure ExitsSettled (std : StdSort) (n : Node) (r : DispatchRun) : Prop where
  refused : ∀ e, (n.impl.dispatchBegin r.begins r.plan).1 = .error e →
    (n.dispatchPlan std r).2 = n
  settled : ∀ d, (n.impl.dispatchBegin r.begins r.plan).1 = .ok d →
    drawnCount r.key (n.dispatchPlan std r).2.log = drawnCount r.key n.log →
    ∀ p, (n.dispatchPlan std r).2.impl.plans.find? r.key = some p → p.Settled

def HandsOff (n : Node) (r : DispatchRun) : Prop :=
  ∃ p, n.impl.plans.find? r.key = some p ∧ p.state = .authorized ∧ AuthorityCurrent p n.impl.ctx

/-- The report is one of the plan with this id, and says how it went. -/
def Lands (n : Node) (k : UInt64) (report : ExecutionReport) : Prop :=
  report.outcome.declared = true ∧
    ∃ p, n.impl.plans.find? k = some p ∧ p.stamp = report.stamp

/-- The calls that take a plan out of DISPATCHED, or its id away from it. -/
def Frees (n : Node) (k : UInt64) : Call → Prop
  | .act (.plan _ request candidates) =>
    candidates.filter (feasible n.impl.ctx request) ≠ [] ∧
      (n.impl.nextPlanId = k ∨
        ∃ p, n.impl.plans.find? k = some p ∧ p.requestId = request.requestId)
  | .act (.dispatchEnd _ call _) => ∃ id, n.awaiting[call]? = some id ∧ id.value = k
  | .act (.reportExecution _ report) => n.Lands k report
  | .act (.adapterDeliver _ call) => ∃ report, n.pending[call]? = some report ∧ n.Lands k report
  | .act (.invalidatePlan _ planId) => planId.value = k
  | .restartCoordinator _ _ => True
  | _ => False

/-- Something takes the plan out of DISPATCHED while the executor has it. -/
def Freed (std : StdSort) (n : Node) (r : DispatchRun) : Prop :=
  ∃ front c rest, r.meanwhile = front ++ c :: rest ∧
    (run (call std) (n.handedOver std r) front).Frees r.key c

end Node

/-! ### What one call does to the plan -/

theorem dispatched_next {s : PlanLifecycleState}
    (h : validatePlanTransition .dispatched s = true) :
    s = .dispatched ∨ s = .executing ∨ s.terminal = true := by
  cases s <;> simp [validatePlanTransition,PlanLifecycleState.terminal] at h ⊢

theorem executing_next {s : PlanLifecycleState}
    (h : validatePlanTransition .executing s = true) : s = .executing ∨ s.terminal = true := by
  cases s <;> simp [validatePlanTransition,PlanLifecycleState.terminal] at h ⊢

theorem Evolves.settled {p p' : RecoveryPlan} (h : Evolves p p') (hp : p.Settled) :
    p'.Settled := by
  rcases hp with hs | ht
  · rcases h.state with heq | hv
    · exact .inl (heq.trans hs)
    · exact executing_next (hs ▸ hv)
  · refine .inr ?_
    rw [(h.terminal ht).state]
    exact ht

theorem Evolves.leaves {p p' : RecoveryPlan} (h : Evolves p p') (hp : p.state = .dispatched)
    (hne : p'.state ≠ .dispatched) : p'.Settled := by
  rcases h.state with heq | hv
  · exact absurd (heq.trans hp) hne
  · exact (dispatched_next (hp ▸ hv)).resolve_left hne

theorem drawnCount_le (k : UInt64) (e : Event) (log : List Event) :
    drawnCount k log ≤ drawnCount k (e :: log) := by
  rw [drawnCount,drawnCount,List.countP_cons]
  omega

theorem drawnCount_handedOff (k : UInt64) (p : RecoveryPlan) (ctx : PlannerContext)
    (d : RecoveryDispatch) (log : List Event) :
    drawnCount k (.handedOff p ctx d :: log) = drawnCount k log :=
  List.countP_cons_of_neg (by simp [Event.isCreated])

theorem drawnCount_created {k : UInt64} {p : RecoveryPlan} (h : p.planId.value = k)
    (log : List Event) : drawnCount k (.created p :: log) = drawnCount k log+1 :=
  List.countP_cons_of_pos (by simp [Event.isCreated,Event.key,h])

theorem drawnCount_created_other {k : UInt64} {p : RecoveryPlan} (h : p.planId.value ≠ k)
    (log : List Event) : drawnCount k (.created p :: log) = drawnCount k log :=
  List.countP_cons_of_neg (by simp [Event.key,h])

theorem NodeStep.drawnCount_le {n n' : Node} (h : NodeStep n n') (k : UInt64) :
    drawnCount k n.log ≤ drawnCount k n'.log := by
  cases h with
  | quiet same log => rw [log]
  | settles hk he impl log => rw [log]
  | plans h log =>
    rw [log]
    exact RecoveryPlanner.drawnCount_le k _ _
  | handsOff hk hs hcur impl log =>
    rw [log]
    exact RecoveryPlanner.drawnCount_le k _ _

namespace Node

structure Waits (n : Node) (k : UInt64) (base : Nat) : Prop where
  plan : ∃ p, n.impl.plans.find? k = some p ∧ p.state = .dispatched
  drawn : drawnCount k n.log = base

structure Over (n : Node) (k : UInt64) (base : Nat) : Prop where
  drawn : base ≤ drawnCount k n.log
  settled : drawnCount k n.log = base →
    ∀ p, n.impl.plans.find? k = some p → p.Settled

structure Decided (std : StdSort) (n : Node) (k : UInt64) (base : Nat) (c : Call) : Prop where
  waits : ¬ n.Frees k c → (n.call std c).Waits k base
  frees : n.Frees k c → (n.call std c).Over k base

variable {n : Node} {k : UInt64} {base : Nat}

theorem Decided.idle {std : StdSort} {c : Call} (hf : ¬ n.Frees k c)
    (h : (n.call std c).Waits k base) : Decided std n k base c :=
  ⟨fun _ => h,fun hx => absurd hx hf⟩

theorem Over.afterAct (std : StdSort) (h : n.Over k base) (hk : Impl.Keyed n.impl.plans) (a : Act) :
    (n.act std a).Over k base := by
  have hstep := n.act_step std a
  have hle := hstep.drawnCount_le k
  refine ⟨h.drawn.trans hle,fun heq p' hp' => ?_⟩
  have hbase : drawnCount k n.log = base := le_antisymm (heq ▸ hle) h.drawn
  cases hstep.record hk k with
  | same plan life => exact h.settled hbase p' (plan.symm.trans hp')
  | created fresh key plan log =>
    have hcreated := drawnCount_created (key.trans (congrArg Id.value fresh.planId).symm).symm n.log
    rw [log,hcreated] at heq
    omega
  | evolved before he plan life =>
    obtain rfl := Option.some.inj (plan.symm.trans hp')
    exact he.settled (h.settled hbase _ before)
  | handedOff before hs hcur plan life =>
    rcases h.settled hbase _ before with hx | hx <;>
      simp [hs,PlanLifecycleState.terminal] at hx

theorem Over.afterCall (std : StdSort) (h : n.Over k base) (hk : Impl.Keyed n.impl.plans) {c : Call}
    (hc : c.loads = false) : (n.call std c).Over k base := by
  cases c with
  | act a => exact h.afterAct std hk a
  | saveState => exact h
  | loadState disk => exact absurd hc (by simp [Call.loads])
  | restartCoordinator clock reload =>
    exact ⟨h.drawn,fun _ p hp => .inr (Impl.restartReloading_terminal hp)⟩

theorem Waits.over_of_evolves {n' : Node} {p p' : RecoveryPlan} (h : n.Waits k base)
    (hlog : n'.log = n.log) (hp : n.impl.plans.find? k = some p) (he : Evolves p p')
    (hp' : n'.impl.plans.find? k = some p') (hne : p'.state ≠ .dispatched) : n'.Over k base := by
  refine ⟨by rw [hlog,h.drawn],fun _ q hq => ?_⟩
  obtain rfl := Option.some.inj (hp'.symm.trans hq)
  obtain ⟨r,hr,hs⟩ := h.plan
  obtain rfl := Option.some.inj (hr.symm.trans hp)
  exact he.leaves hs hne

theorem Waits.same {n' : Node} (h : n.Waits k base) (hlog : n'.log = n.log)
    (hp : n'.impl.plans.find? k = n.impl.plans.find? k) : n'.Waits k base :=
  ⟨by rw [hp]; exact h.plan,by rw [hlog]; exact h.drawn⟩

theorem authorizePlan_find? {im : Impl} {p : RecoveryPlan} (hp : im.plans.find? k = some p)
    (hs : p.state = .dispatched) (now : Timestamp) (plan : RecoveryPlan) :
    (im.authorizePlan now plan).2.plans.find? k = some p := by
  unfold Impl.authorizePlan
  by_cases hk : plan.planId.value = k
  · rw [hk,hp]
    dsimp only
    split
    · exact hp
    · simp [hs,validatePlanTransition,PlanLifecycleState.terminal,hp]
  · cases im.plans.find? plan.planId.value with
    | none => exact hp
    | some q =>
      dsimp only
      repeat' split
      · exact hp
      · exact hp
      · simp [Impl.putPlan,Ne.symm hk,hp]

theorem cancelPlan_find? {im : Impl} {p : RecoveryPlan} (hp : im.plans.find? k = some p)
    (hs : p.state = .dispatched) (now : Timestamp) (planId : RecoveryPlanId) (force : Bool) :
    (im.cancelPlan now planId force).2.plans.find? k = some p := by
  rw [Impl.cancelPlan_eq]
  cases hq : im.plans.find? planId.value with
  | none => exact hp
  | some q =>
    dsimp only
    split
    · rename_i hv
      have hk : k ≠ planId.value := by
        rintro rfl
        obtain rfl := Option.some.inj (hp.symm.trans hq)
        simp [hs,validatePlanTransition,PlanLifecycleState.terminal] at hv
      simp [Impl.putPlan,hk,hp]
    · exact hp

theorem invalidatePlan_other {im : Impl} {planId : RecoveryPlanId} (h : planId.value ≠ k)
    (now : Timestamp) : (im.invalidatePlan now planId).plans.find? k = im.plans.find? k := by
  unfold Impl.invalidatePlan
  cases im.plans.find? planId.value with
  | none => rfl
  | some q =>
    dsimp only
    repeat' split
    · rfl
    · simp [Impl.putPlan,Ne.symm h]
    · rfl

theorem dispatchEnd_other {im : Impl} {planId : RecoveryPlanId} (h : planId.value ≠ k)
    (now : Timestamp) (status : DispatchStatus) :
    (im.dispatchEnd now planId status).2.plans.find? k = im.plans.find? k := by
  unfold Impl.dispatchEnd
  cases im.plans.find? planId.value with
  | none => rfl
  | some q => simp [Impl.putPlan,Ne.symm h]

theorem settleReceipt_leaves {p : RecoveryPlan} (hs : p.state = .dispatched)
    (status : DispatchStatus) : (Impl.settleReceipt status p).state ≠ .dispatched := by
  by_cases h : status = .dispatched
  · simp [Impl.settleReceipt,hs,h,validatePlanTransition,PlanLifecycleState.terminal]
  · simp [Impl.settleReceipt,hs,h,validatePlanTransition,PlanLifecycleState.terminal]

theorem dispatchEnd_own {im : Impl} {planId : RecoveryPlanId} {p : RecoveryPlan}
    (hp : im.plans.find? planId.value = some p) (now : Timestamp) (status : DispatchStatus) :
    (im.dispatchEnd now planId status).2.plans.find? planId.value =
      some { Impl.settleReceipt status p with updatedAt := now } := by
  simp [Impl.dispatchEnd,hp,Impl.putPlan]

theorem Waits.dispatchEnd {n' : Node} {planId : RecoveryPlanId} {now : Timestamp}
    {status : DispatchStatus} (h : n.Waits planId.value base) (hlog : n'.log = n.log)
    (himpl : n'.impl = (n.impl.dispatchEnd now planId status).2) : n'.Over planId.value base := by
  obtain ⟨p,hp,hs⟩ := h.plan
  refine h.over_of_evolves hlog hp (settleReceipt_evolves status p now) ?_
    (settleReceipt_leaves hs status)
  rw [himpl]
  exact dispatchEnd_own hp now status

theorem Waits.report (n' : Node) {now : Timestamp} {report : ExecutionReport}
    (h : n.Waits k base) (hk : Impl.Keyed n.impl.plans) (hlog : n'.log = n.log)
    (himpl : n'.impl = n.impl.reportExecution now report) :
    (¬ n.Lands k report → n'.Waits k base) ∧ (n.Lands k report → n'.Over k base) := by
  obtain ⟨p,hp,hs⟩ := h.plan
  have hf : p.state.inFlight = true := inFlight_iff.mpr (.inl hs)
  by_cases hstamp : p.stamp = report.stamp
  · have hown := Impl.reportExecution_own hk now hp hf hstamp
    rw [← himpl] at hown
    cases hd : report.outcome.declared with
    | false =>
      have hkeep : Impl.settleReport report.outcome p = p := by
        cases ho : report.outcome with
        | undeclared i => rfl
        | _ => simp [ho,ExecutionOutcome.declared] at hd
      refine ⟨fun _ => ⟨⟨_,hown,by rw [hkeep]; exact hs⟩,by rw [hlog]; exact h.drawn⟩,?_⟩
      intro hl
      exact absurd hl.1 (by simp [hd])
    | true =>
      refine ⟨fun hl => absurd ⟨hd,p,hp,hstamp⟩ hl,fun _ => ?_⟩
      refine h.over_of_evolves hlog hp (settleReport_evolves report.outcome p now) hown ?_
      intro hs'
      have hl := Impl.settleReport_landed hf hd
      rw [inFlight_iff.mpr (.inl hs')] at hl
      exact absurd hl (by simp)
  · have hother : ∀ q, n.impl.plans.find? k = some q → q.stamp ≠ report.stamp := by
      intro q hq
      obtain rfl := Option.some.inj (hp.symm.trans hq)
      exact hstamp
    refine ⟨fun _ => h.same hlog ?_,?_⟩
    · rw [himpl]
      exact Impl.reportExecution_other hk now hother
    · rintro ⟨_,q,hq,heq⟩
      exact absurd heq (hother q hq)

theorem Waits.afterPlan (std : StdSort) (h : n.Waits k base) (hk : Impl.Keyed n.impl.plans)
    (now : Timestamp) (request : RecoveryRequest) (candidates : List RecoveryCandidate) :
    Decided std n k base (.act (.plan now request candidates)) := by
  obtain ⟨p,hp,hs⟩ := h.plan
  rcases n.impl.plan_spec std now request candidates with ⟨hnone,hsame⟩ | ⟨new,hnew,hplan⟩
  · refine .idle (fun hf => hf.1 (Impl.plan_eq_none_iff.mp hnone)) ?_
    exact h.same (by simp only [call,act,hnone]) (by simp only [call,act,hsame.plans])
  · have hF : candidates.filter (feasible n.impl.ctx request) ≠ [] := fun hF => by
      rw [Impl.plan_eq_none_iff.mpr hF] at hnew
      exact absurd hnew (by simp)
    have hlog : (n.call std (.act (.plan now request candidates))).log = .created new :: n.log := by
      simp only [call,act,hnew]
    have hid : new.planId.value = n.impl.nextPlanId := congrArg Id.value hplan.fresh.planId
    by_cases hnext : n.impl.nextPlanId = k
    · refine ⟨fun hf => absurd ⟨hF,.inl hnext⟩ hf,fun _ => ?_⟩
      have hcount : drawnCount k (n.call std (.act (.plan now request candidates))).log = base+1 := by
        rw [hlog,drawnCount_created (hid.trans hnext),h.drawn]
      exact ⟨by omega,fun heq => by omega⟩
    · have hne : new.planId.value ≠ k := by rw [hid]; exact hnext
      have hold : (n.call std (.act (.plan now request candidates))).impl.plans.find? k =
          some (Impl.supersede request new.planId now p) := by
        rw [call,act,hplan.find?_old (Ne.symm hne),hp]
        rfl
      have hdrawn : drawnCount k (n.call std (.act (.plan now request candidates))).log = base := by
        rw [hlog,drawnCount_created_other hne,h.drawn]
      have hkeep : p.planId ≠ new.planId := fun heq => by
        rw [← heq,hk k p hp] at hne
        exact hne rfl
      by_cases hreq : p.requestId = request.requestId
      · refine ⟨fun hf => absurd ⟨hF,.inr ⟨p,hp,hreq⟩⟩ hf,fun _ => ⟨hdrawn.ge,fun _ q hq => ?_⟩⟩
        obtain rfl := Option.some.inj (hold.symm.trans hq)
        right
        simp [Impl.supersede,hkeep,hreq,hs,validatePlanTransition,PlanLifecycleState.terminal]
      · refine ⟨fun _ => ⟨⟨p,?_,hs⟩,hdrawn⟩,?_⟩
        · rw [hold]
          simp [Impl.supersede,hreq]
        · rintro ⟨_,hx | ⟨q,hq,hqr⟩⟩
          · exact absurd hx hnext
          · obtain rfl := Option.some.inj (hp.symm.trans hq)
            exact absurd hqr hreq

theorem Waits.afterBegin (std : StdSort) (h : n.Waits k base) (now : Timestamp)
    (plan : RecoveryPlan) : Decided std n k base (.act (.dispatchBegin now plan)) := by
  obtain ⟨p,hp,hs⟩ := h.plan
  refine .idle id ?_
  rcases n.act_dispatchBegin std now plan with heq | ⟨q,hq,hqs,_,heq⟩
  · rw [call,heq]
    exact h
  · have hne : k ≠ plan.planId.value := by
      rintro rfl
      obtain rfl := Option.some.inj (hp.symm.trans hq)
      rw [hs] at hqs
      exact absurd hqs (by decide)
    rw [call,heq]
    refine ⟨⟨p,?_,hs⟩,?_⟩
    · simp [handOff,Impl.handOff,Impl.putPlan,hne,hp]
    · rw [handOff,drawnCount_handedOff,h.drawn]

theorem Waits.afterEnd (std : StdSort) (h : n.Waits k base) (now : Timestamp) (index : Nat)
    (status : DispatchStatus) : Decided std n k base (.act (.dispatchEnd now index status)) := by
  cases hid : n.awaiting[index]? with
  | none =>
    refine .idle ?_ ?_
    · rintro ⟨id,hx,_⟩
      rw [hid] at hx
      exact absurd hx (by simp)
    · rw [call,act,hid]
      exact h
  | some planId =>
    by_cases hkey : planId.value = k
    · refine ⟨fun hf => absurd ⟨planId,hid,hkey⟩ hf,fun _ => ?_⟩
      subst hkey
      rw [call,act,hid]
      exact h.dispatchEnd rfl rfl
    · refine .idle ?_ ?_
      · rintro ⟨id,hx,hv⟩
        obtain rfl := Option.some.inj (hid.symm.trans hx)
        exact hkey hv
      · rw [call,act,hid]
        exact h.same rfl (dispatchEnd_other hkey now status)

theorem Waits.afterDeliver (std : StdSort) (h : n.Waits k base) (hk : Impl.Keyed n.impl.plans)
    (now : Timestamp) (index : Nat) :
    Decided std n k base (.act (.adapterDeliver now index)) := by
  cases hr : n.pending[index]? with
  | none =>
    refine .idle ?_ ?_
    · rintro ⟨report,hx,_⟩
      rw [hr] at hx
      exact absurd hx (by simp)
    · rw [call,act,hr]
      exact h
  | some report =>
    have hrep := Waits.report { n with
      impl := n.impl.reportExecution now report
      pending := n.pending.eraseIdx index } h hk rfl rfl
    constructor
    · intro hf
      rw [call,act,hr]
      exact hrep.1 fun hl => hf ⟨report,hr,hl⟩
    · rintro ⟨r,hx,hl⟩
      obtain rfl := Option.some.inj (hr.symm.trans hx)
      rw [call,act,hr]
      exact hrep.2 hl

theorem Waits.afterInvalidate (std : StdSort) (h : n.Waits k base) (now : Timestamp)
    (planId : RecoveryPlanId) : Decided std n k base (.act (.invalidatePlan now planId)) := by
  obtain ⟨p,hp,hs⟩ := h.plan
  by_cases hkey : planId.value = k
  · refine ⟨fun hf => absurd hkey hf,fun _ => ?_⟩
    have hv : validatePlanTransition p.state .invalidated = true := by rw [hs]; rfl
    refine h.over_of_evolves rfl hp (.invalidate p now hv) ?_ (by simp)
    simp [call,act,Impl.invalidatePlan,hkey,hp,hs,validatePlanTransition,Impl.putPlan,
      PlanLifecycleState.terminal]
  · exact .idle hkey (h.same rfl (invalidatePlan_other hkey now))

/-- Every call decides whether the wait is over. -/
theorem Waits.afterCall (std : StdSort) (h : n.Waits k base) (hk : Impl.Keyed n.impl.plans) {c : Call}
    (hc : c.loads = false) : Decided std n k base c := by
  obtain ⟨p,hp,hs⟩ := h.plan
  cases c with
  | saveState => exact .idle id h
  | loadState disk => exact absurd hc (by simp [Call.loads])
  | restartCoordinator clock reload =>
    refine ⟨fun hf => absurd trivial hf,fun _ => ⟨h.drawn.ge,fun _ q hq => ?_⟩⟩
    exact .inr (Impl.restartReloading_terminal hq)
  | act a =>
    cases a with
    | plan now request candidates => exact h.afterPlan std hk now request candidates
    | authorizePlan now plan =>
      refine .idle id (h.same rfl ?_)
      rw [hp]
      exact authorizePlan_find? hp hs now plan
    | dispatchBegin now plan => exact h.afterBegin std now plan
    | dispatchEnd now index status => exact h.afterEnd std now index status
    | reportExecution now report =>
      have hrep := Waits.report (n.call std (.act (.reportExecution now report))) h hk rfl rfl
      exact ⟨hrep.1,hrep.2⟩
    | adapterTake dispatchId outcome =>
      refine .idle id ?_
      rw [call,act,Impl.adapterTake]
      cases n.impl.dispatchMeta.find? dispatchId.value with
      | none => exact h
      | some m => exact h.same rfl rfl
    | adapterDeliver now index => exact h.afterDeliver std hk now index
    | cancelPlan now planId force =>
      refine .idle id (h.same rfl ?_)
      rw [hp]
      exact cancelPlan_find? hp hs now planId force
    | invalidatePlan now planId => exact h.afterInvalidate std now planId
    | revalidatePlan plan => exact .idle id h
    | registerWorker w boot => exact .idle id (h.same rfl rfl)
    | unregisterWorker w => exact .idle id (h.same rfl rfl)
    | setResource kind amount => exact .idle id (h.same rfl rfl)
    | setRecomputeAvailable gen available =>
      refine .idle id (h.same rfl ?_)
      show (n.impl.setRecomputeAvailable gen available).plans.find? k = _
      unfold Impl.setRecomputeAvailable
      split <;> rfl

/-! ### What a row of calls does to it -/

theorem Over.afterCalls (std : StdSort) (h : n.Over k base) (ht : n.impl.Tidy) {cs : List Call}
    (hcs : ∀ c ∈ cs, c.loads = false) : (run (call std) n cs).Over k base := by
  refine (run_invariant (I := fun n : Node => n.impl.Tidy ∧ n.Over k base) ⟨ht,h⟩ ?_).2
  intro n c hc hn
  exact ⟨call_tidy std hn.1 c,hn.2.afterCall std hn.1.plansKeyed (hcs c hc)⟩

/-- The plan waits as long as no call ends the wait. -/
theorem Waits.afterCalls (std : StdSort) {cs : List Call} (h : n.Waits k base)
    (ht : n.impl.Tidy) (hcs : ∀ c ∈ cs, c.loads = false) :
    (Along (fun n c => ¬ n.Frees k c) (call std) n cs → (run (call std) n cs).Waits k base) ∧
    (¬ Along (fun n c => ¬ n.Frees k c) (call std) n cs → (run (call std) n cs).Over k base) := by
  induction cs generalizing n with
  | nil => exact ⟨fun _ => h,fun hno => absurd trivial hno⟩
  | cons c cs ih =>
    have hstep := h.afterCall std ht.plansKeyed (hcs c List.mem_cons_self)
    have htidy := call_tidy std ht c
    have hrest : ∀ c ∈ cs, c.loads = false := fun c hc => hcs c (List.mem_cons_of_mem _ hc)
    by_cases hf : n.Frees k c
    · refine ⟨fun ha => absurd hf ha.1,fun _ => ?_⟩
      exact (hstep.frees hf).afterCalls std htidy hrest
    · have hi := ih (hstep.waits hf) htidy hrest
      exact ⟨fun ha => hi.1 ha.2,fun hno => hi.2 fun ha => hno ⟨hf,ha⟩⟩

theorem Waits.not_settled (h : n.Waits k base) :
    ¬ (drawnCount k n.log = base → ∀ p, n.impl.plans.find? k = some p → p.Settled) := by
  intro hset
  obtain ⟨p,hp,hs⟩ := h.plan
  rcases hset h.drawn p hp with hx | hx <;> simp [hs,PlanLifecycleState.terminal] at hx

theorem receipt_over {planId : RecoveryPlanId}
    (h : n.Waits planId.value base ∨ n.Over planId.value base) (now : Timestamp)
    (status : DispatchStatus) :
    Over { n with impl := (n.impl.dispatchEnd now planId status).2 } planId.value base := by
  rcases h with h | h
  · exact h.dispatchEnd rfl rfl
  · refine ⟨h.drawn,fun heq q hq => ?_⟩
    cases hp : n.impl.plans.find? planId.value with
    | none =>
      have hsame : (n.impl.dispatchEnd now planId status).2 = n.impl := by
        simp [Impl.dispatchEnd,hp]
      rw [hsame,hp] at hq
      exact absurd hq (by simp)
    | some p =>
      obtain rfl := Option.some.inj ((dispatchEnd_own hp now status).symm.trans hq)
      exact (settleReceipt_evolves status p now).settled (h.settled heq p hp)

theorem handsOff_ok {r : DispatchRun} (h : n.HandsOff r) :
    ∃ d, (n.impl.dispatchBegin r.begins r.plan).1 = .ok d := by
  obtain ⟨p,hp,hs,hcur⟩ := h
  have hp : n.impl.plans.find? r.plan.planId.value = some p := hp
  simp [Impl.dispatchBegin,hp,hs,(planAuthorityCurrent_iff p n.impl.ctx).mpr hcur,
    validatePlanTransition,PlanLifecycleState.terminal]

theorem handedOver_refused (std : StdSort) {r : DispatchRun} {e : RecoveryError}
    (h : n.impl.dispatchBegin r.begins r.plan = (.error e,n.impl)) : n.handedOver std r = n := by
  rw [handedOver,act,h]
  cases n.impl.plans.find? r.plan.planId.value <;> rfl

theorem handedOver_waits (std : StdSort) {r : DispatchRun} {p : RecoveryPlan}
    (hp : n.impl.plans.find? r.plan.planId.value = some p)
    (hok : n.impl.dispatchBegin r.begins r.plan =
      (.ok (.ofPlan (p.dispatched r.begins)),n.impl.handOff r.plan.planId.value p r.begins)) :
    (n.handedOver std r).Waits r.key (drawnCount r.key n.log) := by
  have hnode : n.handedOver std r =
      { n.handOff r.plan.planId p r.begins with awaiting := n.awaiting } := by
    simp only [handedOver,act,hp,hok,handOff]
  rw [hnode]
  refine ⟨⟨p.dispatched r.begins,?_,rfl⟩,drawnCount_handedOff _ _ _ _ _⟩
  simp [handOff,Impl.handOff,Impl.putPlan,DispatchRun.key]

theorem freed_iff (std : StdSort) (r : DispatchRun) :
    n.Freed std r ↔
      ¬ Along (fun n c => ¬ n.Frees r.key c) (call std) (n.handedOver std r) r.meanwhile := by
  rw [along_iff_split]
  simp only [not_forall,not_not,Freed,exists_prop]

theorem exitsSettled_refused (std : StdSort) {r : DispatchRun} {e : RecoveryError}
    (h : n.impl.dispatchBegin r.begins r.plan = (.error e,n.impl)) : n.ExitsSettled std r := by
  have hrefused : (n.impl.dispatchBegin r.begins r.plan).1 = .error e := by rw [h]
  refine ⟨fun _ _ => ?_,fun d hd => ?_⟩
  · simp only [dispatchPlan,hrefused,handedOver_refused std h]
  · rw [hrefused] at hd
    exact absurd hd (by simp)

theorem dispatchPlan_settled_iff (std : StdSort) (ht : n.impl.Tidy) {r : DispatchRun}
    (hr : ∀ c ∈ r.meanwhile, c.loads = false) :
    n.ExitsSettled std r ↔ (n.HandsOff r → r.exit = .exception → n.Freed std r) := by
  rcases n.impl.dispatchBegin_spec r.begins r.plan with ⟨e,herr⟩ | ⟨p,hp,hs,hcur,hok⟩
  · refine iff_of_true (exitsSettled_refused std herr) fun hoff => ?_
    obtain ⟨d,hd⟩ := handsOff_ok hoff
    rw [herr] at hd
    exact absurd hd (by simp)
  have hoff : n.HandsOff r := ⟨p,hp,hs,hcur⟩
  have hbegun : (n.impl.dispatchBegin r.begins r.plan).1 =
      .ok (.ofPlan (p.dispatched r.begins)) := by rw [hok]
  have htidy : (n.handedOver std r).impl.Tidy := call_tidy std ht (.act (.dispatchBegin _ _))
  have hrow := (handedOver_waits std hp hok).afterCalls std htidy hr
  have hiff : n.ExitsSettled std r ↔
      (drawnCount r.key (n.dispatchPlan std r).2.log = drawnCount r.key n.log →
        ∀ p, (n.dispatchPlan std r).2.impl.plans.find? r.key = some p → p.Settled) := by
    refine ⟨fun h => h.settled _ hbegun,fun h => ⟨fun e he => ?_,fun _ _ => h⟩⟩
    rw [hbegun] at he
    exact absurd he (by simp)
  rw [hiff,forall_prop_of_true hoff]
  cases hexit : r.exit with
  | exception =>
    rw [forall_prop_of_true rfl,freed_iff]
    simp only [dispatchPlan,hbegun,hexit]
    constructor
    · exact fun h ha => (hrow.1 ha).not_settled h
    · exact fun ha => (hrow.2 ha).settled
  | receipt status =>
    refine ⟨fun _ hx => absurd hx (by simp),fun _ => ?_⟩
    simp only [dispatchPlan,hbegun,hexit]
    refine (receipt_over ?_ r.ends status).settled
    by_cases ha : Along (fun n c => ¬ n.Frees r.key c) (call std) (n.handedOver std r) r.meanwhile
    · exact .inl (hrow.1 ha)
    · exact .inr (hrow.2 ha)

/-- From every state of every run, whatever goes on while the executor has the plan: the
plan is left DISPATCHED exactly when the executor throws and nothing else has freed it. -/
theorem run_dispatch_iff (std : StdSort) (hasStore : Bool) (calls : List Call) (r : DispatchRun)
    (h : ∀ c ∈ r.meanwhile, c.loads = false) :
    (run (call std) (construct hasStore) calls).ExitsSettled std r ↔
      ((run (call std) (construct hasStore) calls).HandsOff r → r.exit = .exception →
        (run (call std) (construct hasStore) calls).Freed std r) :=
  dispatchPlan_settled_iff std (run_tidy std hasStore calls) h

def authorizedCalls : List Call :=
  [.act (.registerWorker ⟨1⟩ ⟨1⟩),.act (.plan ⟨0⟩ (Session.requestNo 1) [Session.readyCandidate]),
   .act (.authorizePlan ⟨1⟩ { planId := ⟨1⟩ })]

def reportedRun : DispatchRun where
  plan := { planId := ⟨1⟩ }
  begins := ⟨2⟩
  meanwhile := [.act (.adapterTake ⟨1⟩ .succeeded),.act (.adapterDeliver ⟨3⟩ 0)]
  exit := .exception

theorem run_dispatch_reported :
    (∀ c ∈ reportedRun.meanwhile, c.loads = false) ∧
    (run (call .insertion) (construct true) authorizedCalls).ExitsSettled .insertion reportedRun ∧
    (((run (call .insertion) (construct true) authorizedCalls).dispatchPlan .insertion
      reportedRun).2.impl.plans.find? 1).map RecoveryPlan.state = some .succeeded := by
  have hloads : ∀ c ∈ reportedRun.meanwhile, c.loads = false := by
    intro c hc
    simp only [reportedRun,List.mem_cons,List.not_mem_nil,or_false] at hc
    rcases hc with rfl | rfl <;> rfl
  refine ⟨hloads,?_,by decide +kernel⟩
  refine (run_dispatch_iff .insertion true authorizedCalls reportedRun hloads).mpr fun _ _ => ?_
  refine ⟨[.act (.adapterTake ⟨1⟩ .succeeded)],.act (.adapterDeliver ⟨3⟩ 0),[],rfl,?_⟩
  let n := run (call .insertion) ((run (call .insertion) (construct true) authorizedCalls).handedOver
    .insertion reportedRun) [.act (.adapterTake ⟨1⟩ .succeeded)]
  have hpending : n.pending[0]? = some ⟨⟨1⟩,⟨1⟩,⟨1⟩,⟨1⟩,.succeeded⟩ := by decide +kernel
  have hplan : (n.impl.plans.find? 1).map RecoveryPlan.stamp = some ⟨⟨1⟩,⟨1⟩,⟨1⟩⟩ := by
    decide +kernel
  obtain ⟨p,hp,hstamp⟩ := Option.map_eq_some_iff.mp hplan
  exact ⟨_,hpending,rfl,p,hp,hstamp⟩

def thrownRun : DispatchRun where
  plan := { planId := ⟨1⟩ }
  begins := ⟨2⟩
  exit := .exception

/-- Nine bytes that are no frame make `recv_frame` throw, and the plan stays DISPATCHED. -/
theorem thrown_dispatched :
    (recvFrame (.atMost 3) { data := List.replicate 9 0 }).1 =
      .error (text "malformed transport frame: bad magic") ∧
    (∀ c ∈ thrownRun.meanwhile, c.loads = false) ∧
    (((run (call .insertion) (construct true) authorizedCalls).dispatchPlan .insertion
      thrownRun).2.impl.plans.find? 1).map RecoveryPlan.state = some .dispatched ∧
    ¬ (run (call .insertion) (construct true) authorizedCalls).ExitsSettled .insertion
      thrownRun := by
  refine ⟨by decide +kernel,fun c hc => absurd hc List.not_mem_nil,by decide +kernel,fun h => ?_⟩
  have hfree := (dispatchPlan_settled_iff .insertion (run_tidy .insertion true authorizedCalls)
    (fun c hc => absurd hc List.not_mem_nil)).mp h
  have hoff : (run (call .insertion) (construct true) authorizedCalls).HandsOff thrownRun := by
    have hplan : ((run (call .insertion) (construct true) authorizedCalls).impl.plans.find?
        1).map (fun p => (p.state,planAuthorityCurrent p
          (run (call .insertion) (construct true) authorizedCalls).impl.ctx)) =
        some (.authorized,true) := by decide +kernel
    obtain ⟨p,hp,heq⟩ := Option.map_eq_some_iff.mp hplan
    obtain ⟨hs,hcur⟩ := Prod.mk.inj heq
    exact ⟨p,hp,hs,(planAuthorityCurrent_iff p _).mp hcur⟩
  obtain ⟨front,c,rest,hsplit,_⟩ := hfree hoff rfl
  exact absurd hsplit (by simp [thrownRun])

end Node

end RecoveryPlanner
