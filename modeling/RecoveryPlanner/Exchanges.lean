import RecoveryPlanner.CoordinatorMain
import RecoveryPlanner.WorldView
set_option autoImplicit false

/-! A coordinator that reads an answer to all it sends and gives a connection up when a socket
call fails: what the network executor reports over such a connection. -/

namespace RecoveryPlanner

open Proto

namespace Link

def exchange (l : Link) (calls : SocketCalls) (payload : Bytes) : Link :=
  ((l.send calls.sends payload).2.recv calls.receives).2

theorem send_worker (l : Link) (works : Bool) (payload : Bytes) :
    (l.send works payload).2.worker = l.worker := by
  unfold send
  split
  · rfl
  · split
    · exact l.turn_worker payload
    · rfl

theorem recv_worker (l : Link) (call : RecvCall) : (l.recv call).2.worker = l.worker := by
  unfold recv
  cases call with
  | fails => rfl
  | garbled what => rfl
  | works =>
    cases l.queue with
    | nil =>
      dsimp only
      split <;> rfl
    | cons p ps => rfl

theorem turn_queue {l : Link} (h : l.queue = []) (payload : Bytes) :
    (l.turn payload).queue.length ≤ 1 := by
  unfold turn
  split
  · simp [h]
  · split
    · simp [h]
    · split
      · simp [h]
      · split
        · simp [h]
        · rename_i r _
          obtain ⟨replies,hlen,hqueue,_⟩ := Link.reply_queue r
          rw [hqueue l,h,List.nil_append]
          exact hlen

theorem recv_drains {l : Link} (h : l.queue.length ≤ 1) : (l.recv .works).2.queue = [] := by
  unfold recv
  cases hq : l.queue with
  | nil => cases hr : l.running <;> simp [hq]
  | cons p ps =>
    rw [hq,List.length_cons] at h
    have hps : ps = [] := List.length_eq_zero_iff.mp (by omega)
    simp [hps]

theorem send_queue {l : Link} (h : l.queue = []) (works : Bool) (payload : Bytes) :
    (l.send works payload).2.queue.length ≤ 1 := by
  unfold send
  split
  · simp [h]
  · split
    · exact turn_queue h payload
    · simp [h]

theorem exchange_drained {l : Link} (h : l.queue = []) (payload : Bytes) :
    (l.exchange {} payload).queue = [] := recv_drains (send_queue h true payload)

theorem exchange_worker (l : Link) (calls : SocketCalls) (payload : Bytes) :
    (l.exchange calls payload).worker = l.worker :=
  (recv_worker _ _).trans (l.send_worker _ _)

end Link

theorem Link.send_failed {l l' : Link} {works : Bool} {payload : Bytes}
    (h : l.send works payload = (false,l')) : l' = l := by
  unfold send at h
  split at h
  · exact (congrArg Prod.snd h).symm
  · split at h
    · exact absurd (congrArg Prod.fst h) (by simp)
    · exact (congrArg Prod.snd h).symm

theorem networkDispatch_link (l : Link) (calls : SocketCalls) (now : Timestamp)
    (d : RecoveryDispatch) :
    (networkDispatch l calls now d).2 = l ∨
      (networkDispatch l calls now d).2 = l.exchange calls (encode (dispatchMsg d)) := by
  unfold networkDispatch Link.exchange
  cases hsend : l.send calls.sends (encode (dispatchMsg d)) with
  | mk sent l' =>
    cases sent with
    | false => exact .inl (Link.send_failed hsend)
    | true =>
      right
      dsimp only
      cases hrecv : l'.recv calls.receives with
      | mk received l'' =>
        cases received with
        | failed => rfl
        | throws what => rfl
        | waits => rfl
        | payload resp =>
          dsimp only
          cases accept resp.val <;> rfl

theorem Call.eq_of_tellsBoot {c : Call} {w : WorkerId} {boot : WorkerBootId}
    (h : c.tellsBoot w = some (some boot)) : c = .act (.registerWorker w boot) := by
  cases c with
  | act a =>
    cases a with
    | registerWorker w' boot' =>
      rw [tellsBoot] at h
      split at h
      · rename_i hw
        rw [hw,Option.some.inj (Option.some.inj h)]
      · exact absurd h (by simp)
    | unregisterWorker w' =>
      rw [tellsBoot] at h
      split at h <;> exact absurd h (by simp)
    | _ => exact absurd h (by simp [tellsBoot])
  | _ => exact absurd h (by simp [tellsBoot])

/-- What a coordinator does, exchange by exchange. -/
inductive Exchange where
  | call (c : Call)
  | exchange (calls : SocketCalls) (m : Msg)
  | dispatchPlan (o : DispatchCall)
  | kill

structure Talk where
  coordinator : Coordinator
  closed : Bool := false

namespace Talk

def start (hasStore : Bool) (w : Worker) : Talk :=
  { coordinator := ⟨.construct hasStore,((Link.connect w).recv .works).2⟩ }

def broken (calls : SocketCalls) : Bool := !(calls.sends && calls.receives = .works)

def step (std : StdSort) (t : Talk) : Exchange → Talk
  | .call c => { t with coordinator := t.coordinator.step std (.call c) }
  | .exchange calls m =>
    { coordinator := (t.coordinator.step std (.send calls.sends m)).step std (.recv calls.receives)
      closed := t.closed || broken calls }
  | .dispatchPlan o =>
    { coordinator := t.coordinator.step std (.dispatchPlan o)
      closed := t.closed || broken o.calls }
  | .kill => { t with coordinator := t.coordinator.step std .kill }

/-- A socket call that has failed fails from then on, the worker is registered under the boot
that it has, and what is dispatched over its connection is for it. -/
def Dependable (w : Worker) (t : Talk) : Exchange → Prop
  | .call c => ∀ boot, c = .act (.registerWorker ⟨w.workerId⟩ boot) → boot = ⟨w.bootId⟩
  | .exchange calls _ => t.closed = true → calls = ⟨false,.fails⟩
  | .dispatchPlan o => (t.closed = true → o.calls.sends = false) ∧
    ∀ p, t.coordinator.node.impl.plans.find? o.plan.planId.value = some p →
      p.targetWorker = ⟨w.workerId⟩
  | .kill => True

/-- Nothing unread on a connection that is still used, and no wrong word of the worker. -/
structure Paired (w : Worker) (t : Talk) : Prop where
  tidy : t.coordinator.node.impl.Tidy
  worker : t.coordinator.link.worker = w
  drained : t.closed = false → t.coordinator.link.queue = []
  boot : ∀ b, t.coordinator.node.impl.ctx.currentBoot ⟨w.workerId⟩ = some b → b = ⟨w.bootId⟩

theorem start_paired (hasStore : Bool) (w : Worker) : (start hasStore w).Paired w where
  tidy := Impl.construct_tidy hasStore
  worker := by
    have hconnect : (Link.connect w).worker = w := Link.reply_worker _ _
    exact (Link.recv_worker _ _).trans hconnect
  drained := fun _ => by
    obtain ⟨replies,hlen,hqueue,_⟩ := Link.reply_queue w.registration
    refine Link.recv_drains ?_
    rw [Link.connect,hqueue,List.nil_append]
    exact hlen
  boot := fun b hb => by
    rw [start,Node.construct,Impl.construct,currentBoot_empty rfl] at hb
    exact absurd hb (by simp)

theorem dispatchPlan_ctx (std : StdSort) (s : Coordinator) (o : DispatchCall) :
    (s.dispatchPlan std o).node.impl.ctx = s.node.impl.ctx := by
  have hbegun := s.node.act_ctx std (a := .dispatchBegin o.begins o.plan) rfl
  unfold Coordinator.dispatchPlan
  cases (s.node.impl.dispatchBegin o.begins o.plan).1 with
  | error e => exact hbegun
  | ok d =>
    dsimp only
    cases networkDispatch s.link o.calls o.receipt d with
    | mk x l =>
      cases x with
      | waits => exact hbegun
      | throws what => exact hbegun
      | returns x =>
        refine (Node.act_ctx std _ rfl).trans ?_
        cases x.completion with
        | none => exact hbegun
        | some c => exact (Node.act_ctx std _ rfl).trans ((Node.act_ctx std _ rfl).trans hbegun)

theorem dispatchPlan_link (std : StdSort) (s : Coordinator) (o : DispatchCall) :
    (s.dispatchPlan std o).link = s.link ∨
      ∃ payload, (s.dispatchPlan std o).link = s.link.exchange o.calls payload := by
  unfold Coordinator.dispatchPlan
  cases (s.node.impl.dispatchBegin o.begins o.plan).1 with
  | error e => exact .inl rfl
  | ok d =>
    have hlink := networkDispatch_link s.link o.calls o.receipt d
    dsimp only
    cases hx : networkDispatch s.link o.calls o.receipt d with
    | mk x l =>
      rw [hx] at hlink
      cases x <;> exact hlink.imp_right fun h => ⟨_,h⟩

theorem broken_false {calls : SocketCalls} (h : broken calls = false) : calls = {} := by
  cases calls
  simp [broken] at h
  simp [h]

theorem step_paired (std : StdSort) {w : Worker} {t : Talk} {e : Exchange} (he : Dependable w t e)
    (h : t.Paired w) : (t.step std e).Paired w := by
  cases e with
  | call c =>
    refine ⟨Node.call_tidy std h.tidy c,h.worker,h.drained,fun b hb => ?_⟩
    have hb : (t.coordinator.node.call std c).impl.ctx.currentBoot ⟨w.workerId⟩ = some b := hb
    rcases (Node.call_boot std t.coordinator.node c ⟨w.workerId⟩).1 with htold | hlost
    · rw [hb] at htold
      cases htells : c.tellsBoot ⟨w.workerId⟩ with
      | none =>
        rw [htells] at htold
        exact h.boot b htold.symm
      | some told =>
        rw [htells] at htold
        obtain rfl : told = some b := htold.symm
        exact he b (Call.eq_of_tellsBoot htells)
    · rw [hb] at hlost
      exact absurd hlost (by simp)
  | exchange calls m =>
    refine ⟨h.tidy,(Link.exchange_worker _ _ _).trans h.worker,fun hopen => ?_,h.boot⟩
    obtain ⟨hclosed,hcalls⟩ := Bool.or_eq_false_iff.mp hopen
    obtain rfl := broken_false hcalls
    exact Link.exchange_drained (h.drained hclosed) (encode m)
  | dispatchPlan o =>
    refine ⟨Coordinator.step_tidy std h.tidy (.dispatchPlan o),?_,fun hopen => ?_,fun b hb => ?_⟩
    · rcases dispatchPlan_link std t.coordinator o with hl | ⟨payload,hl⟩
      · exact (congrArg Link.worker hl).trans h.worker
      · exact (congrArg Link.worker hl).trans ((Link.exchange_worker _ _ _).trans h.worker)
    · obtain ⟨hclosed,hcalls⟩ := Bool.or_eq_false_iff.mp hopen
      rcases dispatchPlan_link std t.coordinator o with hl | ⟨payload,hl⟩
      · exact (congrArg Link.queue hl).trans (h.drained hclosed)
      · rw [broken_false hcalls] at hl
        exact (congrArg Link.queue hl).trans (Link.exchange_drained (h.drained hclosed) payload)
    · refine h.boot b ?_
      rw [← dispatchPlan_ctx std t.coordinator o]
      exact hb
  | kill => exact ⟨h.tidy,h.worker,h.drained,h.boot⟩

theorem handOff_taken_succeeds {im : Impl} {k : RecoveryPlanId} {p : RecoveryPlan}
    (hid : p.planId = k) (begins completes : Timestamp) :
    ∃ q, ((im.handOff k.value p begins).onAdapterCompletion completes ⟨p.lastAttempt.value+1⟩
      .succeeded).plans.find? k.value = some q ∧ q.state = .succeeded := by
  have hmeta : (im.handOff k.value p begins).dispatchMeta.find? (p.lastAttempt.value+1) =
      some p.stamp := by
    show (im.dispatchMeta.insert (p.lastAttempt.value+1) p.stamp).find? _ = _
    rw [SortedMap.find?_insert,if_pos rfl]
  have hk : (im.handOff k.value p begins).plans.find? p.planId.value =
      some (p.dispatched begins) := by
    show (im.plans.insert k.value (p.dispatched begins)).find? _ = _
    rw [hid,SortedMap.find?_insert,if_pos rfl]
  have hreport := reportExecution_eq (r := ⟨⟨p.lastAttempt.value+1⟩,p.planId,p.generation,
    p.targetBoot,.succeeded⟩) hk rfl rfl completes
  rw [Impl.onAdapterCompletion_known hmeta]
  rw [show (im.handOff k.value p begins).reportExecution completes ⟨⟨p.lastAttempt.value+1⟩,
    p.stamp.planId,p.stamp.generation,p.stamp.targetBoot,.succeeded⟩ = _ from hreport,hid]
  exact ⟨_,(SortedMap.find?_insert _ _ _ _).trans (if_pos rfl),
    Impl.settleReport_succeeded (p := p.dispatched begins) rfl⟩

theorem Node.onAdapterCompletion_awaiting (std : StdSort) (n : Node) (now : Timestamp)
    (dispatchId : DispatchId) (outcome : ExecutionOutcome) :
    (n.onAdapterCompletion std now dispatchId outcome).awaiting = n.awaiting := by
  have htake : (n.act std (.adapterTake dispatchId outcome)).awaiting = n.awaiting := by
    simp only [Node.act]
    split <;> rfl
  refine Eq.trans ?_ htake
  simp only [Node.onAdapterCompletion,Node.act]
  split <;> rfl

theorem dispatchEnd_keeps (std : StdSort) {n : Node} {k : RecoveryPlanId} {q : RecoveryPlan}
    {call : Nat} (hcall : n.awaiting[call]? = some k)
    (hk : n.impl.plans.find? k.value = some q) (hs : q.state = .succeeded) (ends : Timestamp) :
    (n.act std (.dispatchEnd ends call .dispatched)).impl.Succeeded k.value := by
  have hover : q.state.terminal = true := by rw [hs]; rfl
  have hend := dispatchEnd_eq hk ends .dispatched
  rw [settleReceipt_over hover] at hend
  simp only [Node.act,hcall,hend]
  exact ⟨_,(SortedMap.find?_insert _ _ _ _).trans (if_pos rfl),hs⟩

/-- A dispatch that the planner makes is answered with success by a worker that is running, over
a connection on which nothing else waits. -/
theorem dispatchPlan_answered (std : StdSort) {s : Coordinator} (ht : s.node.impl.Tidy)
    (hq : s.link.queue = []) (hr : s.link.running = true) {o : DispatchCall} (hc : o.calls = {})
    {p : RecoveryPlan} (hp : s.node.impl.plans.find? o.plan.planId.value = some p)
    (hs : p.state = .authorized) (hcur : AuthorityCurrent p s.node.impl.ctx) :
    (s.dispatchPlan std o).node.impl.Succeeded o.plan.planId.value := by
  have hid : p.planId = o.plan.planId := congrArg Id.mk (ht.plansKeyed _ p hp)
  have hpayload : (RecoveryDispatch.ofPlan (p.dispatched o.begins)).payload.length ≤ 4096 :=
    (ht.plans _ p hp).dispatchPayload.length
  rcases s.node.impl.dispatchBegin_spec o.begins o.plan with ⟨e,he⟩ | ⟨p',hp',_,_,hd⟩
  · obtain ⟨d,hok⟩ := Impl.dispatchBegin_ok_iff.mpr ⟨p,hp,hs,hcur⟩
    rw [he] at hok
    exact absurd hok (by simp)
  · obtain rfl := Option.some.inj (hp.symm.trans hp')
    have hbegun : s.node.act std (.dispatchBegin o.begins o.plan) =
        s.node.handOff o.plan.planId p o.begins := by
      simp only [Node.act,hp,hd,Node.handOff]
    obtain ⟨x,hx,hcomp⟩ := (@networkDispatch_reports s.link o.calls o.receipt _ hpayload
      ⟨_,.succeeded⟩).mpr (by rw [hc,hq]; exact ⟨rfl,rfl,hr,rfl⟩)
    have hreceipt := networkDispatch_receipt hx
    rw [hcomp] at hreceipt
    have hdispatch : (s.node.impl.dispatchBegin o.begins o.plan).1 =
        .ok (.ofPlan (p.dispatched o.begins)) := by rw [hd]
    have hend : s.dispatchPlan std o = ⟨((s.node.handOff o.plan.planId p o.begins).onAdapterCompletion
        std o.completes ⟨p.lastAttempt.value+1⟩ .succeeded).act std
          (.dispatchEnd o.ends s.node.awaiting.length .dispatched),
        (networkDispatch s.link o.calls o.receipt (.ofPlan (p.dispatched o.begins))).2⟩ := by
      unfold Coordinator.dispatchPlan
      rw [hdispatch,hbegun]
      dsimp only
      cases hnet : networkDispatch s.link o.calls o.receipt (.ofPlan (p.dispatched o.begins)) with
      | mk y l =>
        rw [hnet] at hx
        obtain rfl : y = .returns x := hx
        dsimp only
        rw [hcomp,hreceipt.1]
        rfl
    obtain ⟨q,hfind,hsucc⟩ := @handOff_taken_succeeds s.node.impl _ _ hid o.begins o.completes
    rw [hend]
    refine dispatchEnd_keeps std (q := q) ?_ ?_ hsucc o.ends
    · rw [Node.onAdapterCompletion_awaiting]
      show (s.node.awaiting ++ [o.plan.planId])[s.node.awaiting.length]? = _
      simp
    · rw [Node.onAdapterCompletion_impl]
      exact hfind

/-- Behind every such run each dispatch is honest: success is reported only on the COMPLETE that
this worker has sent for this plan. Over a connection that has not failed, to a worker that runs,
each dispatch that the planner makes succeeds. -/
theorem run_exchanges (std : StdSort) (hasStore : Bool) (w : Worker) (es : List Exchange)
    (h : Along (Dependable w) (step std) (start hasStore w) es) (o : DispatchCall)
    (ho : (run (step std) (start hasStore w) es).Dependable w (.dispatchPlan o)) :
    let t := run (step std) (start hasStore w) es
    t.coordinator.HonestSuccess std o ∧
    ∀ p, t.coordinator.node.impl.plans.find? o.plan.planId.value = some p →
      p.state = .authorized → AuthorityCurrent p t.coordinator.node.impl.ctx →
      t.closed = false → o.calls = {} → t.coordinator.link.running = true →
      (t.step std (.dispatchPlan o)).coordinator.node.impl.Succeeded o.plan.planId.value := by
  intro t
  have hpaired : t.Paired w :=
    h.invariant (start_paired hasStore w) fun _ _ he hp => step_paired std he hp
  refine ⟨(Coordinator.honest_iff std hpaired.tidy o).mpr fun p hp hs hcur hsends hrecv => ?_,
    fun p hp hs hcur hopen hcalls hrun => ?_⟩
  · have hopen : t.closed = false := by
      by_contra hclosed
      have hfails := ho.1 (by simpa using hclosed)
      rw [hsends] at hfails
      exact absurd hfails (by simp)
    have hcurrent : t.coordinator.node.impl.ctx.currentBoot p.targetWorker = some p.targetBoot :=
      (if_pos hcur.alive).trans hcur.boot
    rw [ho.2 p hp] at hcurrent
    rw [hpaired.drained hopen,hpaired.worker]
    exact fun _ => (hpaired.boot _ hcurrent).symm
  · exact dispatchPlan_answered std hpaired.tidy (hpaired.drained hopen) hrun hcalls hp hs hcur

def readExchanges : List Exchange :=
  [.call (.act (.registerWorker ⟨1⟩ ⟨1⟩)),
   .exchange {} { type := .run, a := 1, b := kProgress },
   .call (.act (.plan ⟨0⟩ (Session.requestNo 1) [Session.readyCandidate])),
   .call (.act (.authorizePlan ⟨0⟩ { planId := ⟨1⟩ })),.dispatchPlan (Coordinator.dispatchOf 1),
   .call (.act (.plan ⟨0⟩ (Session.requestNo 2) [Session.readyCandidate])),
   .call (.act (.authorizePlan ⟨0⟩ { planId := ⟨2⟩ }))]

theorem run_exchanges_second :
    let t := run (step .insertion) (start false ⟨1,1,1,text "target"⟩) readExchanges
    t.coordinator.HonestSuccess .insertion (Coordinator.dispatchOf 2) ∧
    (t.step .insertion (.dispatchPlan (Coordinator.dispatchOf 2))).coordinator.node.impl.Succeeded
      2 := by
  intro t
  have hwelcome : ∀ boot, Call.act (.registerWorker ⟨1⟩ ⟨1⟩) = .act (.registerWorker ⟨1⟩ boot) →
      boot = ⟨1⟩ := by
    intro boot hboot
    injection hboot with hact
    injection hact with _ hb
    exact hb.symm
  have htarget : ∀ {t : Talk} {k : UInt64}, (t.coordinator.node.impl.plans.find? k).map
      RecoveryPlan.targetWorker = some ⟨1⟩ → ∀ p, t.coordinator.node.impl.plans.find? k = some p →
      p.targetWorker = ⟨1⟩ := by
    intro t k hk p hp
    rw [hp] at hk
    exact Option.some.inj hk
  have h : Along (Dependable ⟨1,1,1,text "target"⟩) (step .insertion)
      (start false ⟨1,1,1,text "target"⟩) readExchanges := by
    refine ⟨hwelcome,fun hc => absurd hc (by decide +kernel),by simp [Dependable],
      by simp [Dependable],⟨fun hc => absurd hc (by decide +kernel),htarget (by decide +kernel)⟩,
      by simp [Dependable],by simp [Dependable],trivial⟩
  have ho : t.Dependable ⟨1,1,1,text "target"⟩ (.dispatchPlan (Coordinator.dispatchOf 2)) :=
    ⟨fun hc => absurd hc (by decide +kernel),htarget (by decide +kernel)⟩
  obtain ⟨hhonest,hanswered⟩ := run_exchanges .insertion false ⟨1,1,1,text "target"⟩ readExchanges
    h (Coordinator.dispatchOf 2) ho
  have hend : run (step .insertion) (start false ⟨1,1,1,text "target"⟩) readExchanges = t := rfl
  have hcalls : (Coordinator.dispatchOf 2).calls = {} := rfl
  rw [hend] at hhonest hanswered
  have hready : (t.coordinator.node.impl.plans.find? 2).map (fun p =>
      (p.state,planAuthorityCurrent p t.coordinator.node.impl.ctx)) = some (.authorized,true) := by
    decide +kernel
  obtain ⟨p,hp,hboth⟩ := Option.map_eq_some_iff.mp hready
  obtain ⟨hs,hcur⟩ := Prod.mk.inj hboth
  have hopen : t.closed = false := by decide +kernel
  have hrun : t.coordinator.link.running = true := by decide +kernel
  have hcurrent := (planAuthorityCurrent_iff p t.coordinator.node.impl.ctx).mp hcur
  exact ⟨hhonest,hanswered p hp hs hcurrent hopen hcalls hrun⟩

end Talk

end RecoveryPlanner
