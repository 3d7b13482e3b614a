import RecoveryPlanner.Completion
import RecoveryPlanner.Fencing
import RecoveryPlanner.Protocol
import RecoveryPlanner.RoundTrip
import RecoveryPlanner.Transport
set_option autoImplicit false

/-! The network executor of `coordinator_main.cpp` on a connection to the worker of
`worker_main.cpp`. The worker answers in order and the executor takes whatever comes first,
so what it takes is the answer to its own dispatch only if nothing was left unread. -/

namespace RecoveryPlanner

open Proto

abbrev Payload := { p : Bytes // Framable p }

structure Worker where
  workerId : UInt64
  bootId : UInt64
  engine : UInt64
  role : Str
  deriving DecidableEq

def checkpointFor (workerId progress : UInt64) (role : Str) : Bytes :=
  sha256 (role ++ text ":" ++ decimal workerId.toNat ++ text ":" ++ decimal progress.toNat)

namespace Worker

def registration (w : Worker) : Msg :=
  { type := .register, a := w.workerId, b := w.bootId, c := w.engine, s1 := w.role }

def workDone (w : Worker) (m : Msg) : Msg :=
  { type := .workDone
    a := w.workerId
    b := m.b
    c := m.a
    s1 := w.role
    blob := checkpointFor w.workerId m.b w.role }

def complete (w : Worker) (m : Msg) : Msg :=
  { type := .complete
    a := m.a
    b := m.b
    c := w.bootId
    d := 0
    s1 := (RecoveryStrategy.ofByte m.c.toUInt8).toString ++ text " performed by worker " ++
      decimal w.workerId.toNat
    s2 := decimal m.d.toNat }

def answer (w : Worker) (m : Msg) : Option Msg :=
  match m.type with
  | .run => some (w.workDone m)
  | .dispatch => some (w.complete m)
  | _ => none

end Worker

/-- A connection to one worker, with the payloads that it has sent and nobody has read. The
worker has dealt with all that was sent to it. -/
structure Link where
  worker : Worker
  running : Bool := true
  queue : List Payload := []
  deriving DecidableEq

/-- How a `recv_frame` goes: it works, the socket call fails, or what comes is no frame. -/
inductive RecvCall where
  | works
  | fails
  | garbled (what : Str)
  deriving DecidableEq

structure SocketCalls where
  sends : Bool := true
  receives : RecvCall := .works
  deriving DecidableEq

inductive Received where
  | payload (p : Payload)
  | failed
  | throws (what : Str)
  | waits
  deriving DecidableEq

namespace Link

/-- The worker sends a message; it does not look whether that worked. -/
def reply (l : Link) (m : Msg) : Link :=
  if h : (encode m).length ≤ kMaxFramePayload.toNat then
    { l with queue := l.queue ++ [⟨encode m,h⟩] }
  else l

def turn (l : Link) (payload : Bytes) : Link :=
  if !l.running then l
  else
    match decode payload with
    | none => l
    | some m =>
      if m.type = .stop then { l with running := false }
      else
        match l.worker.answer m with
        | none => l
        | some r => l.reply r

def connect (w : Worker) : Link := reply { worker := w } w.registration

def send (l : Link) (works : Bool) (payload : Bytes) : Bool × Link :=
  if kMaxFramePayload.toNat < payload.length then (false,l)
  else if works then (true,l.turn payload)
  else (false,l)

/-- Blocks while nothing has come from a worker that is still there. -/
def recv (l : Link) : RecvCall → Received × Link
  | .fails => (.failed,l)
  | .garbled what => (.throws what,l)
  | .works =>
    match l.queue with
    | p :: ps => (.payload p,{ l with queue := ps })
    | [] => if l.running then (.waits,l) else (.failed,l)

end Link

structure RecoveryReceipt where
  dispatchId : DispatchId
  status : DispatchStatus
  time : Timestamp
  detail : Str
  deriving DecidableEq

structure Completion where
  message : Msg
  outcome : ExecutionOutcome
  deriving DecidableEq

/-- What an executor call does to the planner and returns to it. -/
structure Executed where
  completion : Option Completion := none
  receipt : RecoveryReceipt
  deriving DecidableEq

/-- How an executor call ends, if it does. -/
inductive ExecutorEnd where
  | returns (x : Executed)
  | throws (what : Str)
  | waits
  deriving DecidableEq

def ExecutorEnd.executed : ExecutorEnd → Option Executed
  | .returns x => some x
  | _ => none

theorem ExecutorEnd.executed_eq {e : ExecutorEnd} {x : Executed} :
    e.executed = some x ↔ e = .returns x := by
  cases e <;> simp [executed]

def kProgress : UInt64 := 100

def dispatchMsg (d : RecoveryDispatch) : Msg :=
  { type := .dispatch
    a := d.planId.value
    b := d.planGeneration.value
    c := d.strategy.toByte.toUInt64
    d := kProgress
    s1 := d.payload }

/-- The completion that a response stands for, whatever it is a response to. -/
def accept (resp : Bytes) : Option Completion :=
  match decode resp with
  | none => none
  | some r =>
    if r.type ≠ .complete then none
    else some ⟨r,if r.d = 0 then .succeeded else .failed⟩

/-- `NetworkExecutor::dispatch`, which does not catch what `recv_frame` throws. -/
def networkDispatch (l : Link) (calls : SocketCalls) (now : Timestamp) (d : RecoveryDispatch) :
    ExecutorEnd × Link :=
  match l.send calls.sends (encode (dispatchMsg d)) with
  | (false,l) => (.returns { receipt := ⟨d.dispatchId,.rejected,now,text "send failed"⟩ },l)
  | (true,l) =>
    match l.recv calls.receives with
    | (.waits,l) => (.waits,l)
    | (.throws what,l) => (.throws what,l)
    | (.failed,l) => (.returns { receipt := ⟨d.dispatchId,.rejected,now,text "no response"⟩ },l)
    | (.payload resp,l) =>
      match accept resp with
      | none =>
        (.returns { receipt := ⟨d.dispatchId,.unknown,now,text "malformed complete"⟩ },l)
      | some c => (.returns ⟨some c,⟨d.dispatchId,.dispatched,now,text "complete"⟩⟩,l)

def Msg.stamp (m : Msg) : DispatchMeta := ⟨⟨m.a⟩,⟨m.b⟩,⟨m.c⟩⟩

structure Coordinator where
  node : Node
  link : Link

/-- One `dispatch_plan` with the network executor: the clock is read when the plan is handed
over, for the receipt, when the completion is delivered and at the end. -/
structure DispatchCall where
  plan : RecoveryPlan
  calls : SocketCalls := {}
  begins : Timestamp
  receipt : Timestamp
  completes : Timestamp
  ends : Timestamp

inductive CoordinatorOp where
  | call (c : Call)
  | send (works : Bool) (m : Msg)
  | recv (call : RecvCall)
  | kill
  | dispatchPlan (o : DispatchCall)

def Impl.Succeeded (im : Impl) (k : UInt64) : Prop :=
  ∃ p, im.plans.find? k = some p ∧ p.state = .succeeded

def Node.onAdapterCompletion (std : StdSort) (n : Node) (now : Timestamp)
    (dispatchId : DispatchId) (outcome : ExecutionOutcome) : Node :=
  (n.act std (.adapterTake dispatchId outcome)).act std (.adapterDeliver now n.pending.length)

namespace Coordinator

def dispatchPlan (std : StdSort) (s : Coordinator) (o : DispatchCall) : Coordinator :=
  let begun := s.node.act std (.dispatchBegin o.begins o.plan)
  match (s.node.impl.dispatchBegin o.begins o.plan).1 with
  | .error _ => { s with node := begun }
  | .ok d =>
    match networkDispatch s.link o.calls o.receipt d with
    | (.waits,l) => ⟨begun,l⟩
    | (.throws _,l) => ⟨begun,l⟩
    | (.returns x,l) =>
      let done := match x.completion with
        | none => begun
        | some c => begun.onAdapterCompletion std o.completes d.dispatchId c.outcome
      ⟨done.act std (.dispatchEnd o.ends s.node.awaiting.length x.receipt.status),l⟩

def step (std : StdSort) (s : Coordinator) : CoordinatorOp → Coordinator
  | .call c => { s with node := s.node.call std c }
  | .send works m => { s with link := (s.link.send works (encode m)).2 }
  | .recv call => { s with link := (s.link.recv call).2 }
  | .kill => { s with link := { s.link with running := false } }
  | .dispatchPlan o => s.dispatchPlan std o

def Reports (s : Coordinator) (o : DispatchCall) (d : RecoveryDispatch) (c : Completion) : Prop :=
  (s.node.impl.dispatchBegin o.begins o.plan).1 = .ok d ∧
    ∃ x, (networkDispatch s.link o.calls o.receipt d).1 = .returns x ∧ x.completion = some c

/-- Success is reported only on a COMPLETE of this very plan, and a plan becomes SUCCEEDED
only on a COMPLETE with its id. -/
structure HonestSuccess (std : StdSort) (s : Coordinator) (o : DispatchCall) : Prop where
  reported : ∀ d c, s.Reports o d c → c.outcome = .succeeded → c.message.stamp = d.stamp
  marked : ∀ k, (s.dispatchPlan std o).node.impl.Succeeded k → ¬ s.node.impl.Succeeded k →
    ∃ d c, s.Reports o d c ∧ c.message.a = k

end Coordinator

theorem Worker.complete_bounded (w : Worker) (m : Msg) :
    (w.complete m).Bounded ∧ Framable (encode (w.complete m)) := by
  have h1 := toString_length (RecoveryStrategy.ofByte m.c.toUInt8)
  have h2 := decimal_length w.workerId.toNat_lt
  have h3 := decimal_length m.d.toNat_lt
  have ht : (text " performed by worker ").length = 21 := by decide
  have hs1 : (w.complete m).s1.length ≤ 55 := by
    simp only [complete,List.length_append]
    omega
  have hs2 : (w.complete m).s2.length ≤ 20 := h3
  have hb : (w.complete m).blob.length = 0 := rfl
  have hmax : kStrMax.toNat = 65536 ∧ kMaxFramePayload.toNat = 2^20 := by decide
  refine ⟨⟨by omega,by omega,by omega⟩,?_⟩
  rw [Framable,encode_length]
  omega

theorem dispatchMsg_bounded {d : RecoveryDispatch} (h : d.payload.length ≤ 4096) :
    (dispatchMsg d).Bounded ∧ Framable (encode (dispatchMsg d)) := by
  have hs1 : (dispatchMsg d).s1.length ≤ 4096 := h
  have hs2 : (dispatchMsg d).s2.length = 0 := rfl
  have hb : (dispatchMsg d).blob.length = 0 := rfl
  have hmax : kStrMax.toNat = 65536 ∧ kMaxFramePayload.toNat = 2^20 := by decide
  refine ⟨⟨by omega,by omega,by omega⟩,?_⟩
  rw [Framable,encode_length]
  omega

theorem accept_complete (w : Worker) (m : Msg) :
    accept (encode (w.complete m)) = some ⟨w.complete m,.succeeded⟩ := by
  have hdec := decode_encode (w.complete_bounded m).1
  unfold accept
  rw [hdec]
  rfl

namespace Link

theorem send_dispatch (l : Link) {d : RecoveryDispatch} (h : d.payload.length ≤ 4096) :
    ∃ l', l.send true (encode (dispatchMsg d)) = (true,l') ∧ l'.running = l.running ∧
      l'.queue = l.queue ++ if l.running then
        [⟨encode (l.worker.complete (dispatchMsg d)),(l.worker.complete_bounded _).2⟩] else [] := by
  obtain ⟨hb,hf⟩ := dispatchMsg_bounded h
  have hdec := decode_encode hb
  have hreply : (encode (l.worker.complete (dispatchMsg d))).length ≤ kMaxFramePayload.toNat :=
    (l.worker.complete_bounded _).2
  have hanswer : l.worker.answer (dispatchMsg d) = some (l.worker.complete (dispatchMsg d)) := rfl
  have hstop : (dispatchMsg d).type ≠ .stop := nofun
  refine ⟨l.turn (encode (dispatchMsg d)),?_,?_⟩
  · unfold send
    rw [if_neg (Nat.not_lt.mpr hf),if_pos rfl]
  · unfold turn
    cases hr : l.running with
    | false => simp [hr]
    | true => simp [hdec,hanswer,hstop,reply,hreply,hr]

theorem recv_cons {l : Link} {p : Payload} {ps : List Payload} (h : l.queue = p :: ps) :
    l.recv .works = (.payload p,{ l with queue := ps }) := by
  simp [recv,h]

def stream (l : Link) : Bytes := l.queue.flatMap (fun p => frame p.val)

section Stream

variable {σ : Splitting} (hσ : σ.Reliable)

include hσ

theorem reply_stream (l : Link) (m : Msg) (calls : Nat) :
    ∃ calls' sent, sendFrame σ (encode m) ⟨calls,l.stream⟩ =
      (sent,⟨calls',(l.reply m).stream⟩) := by
  unfold reply
  split
  · rename_i h
    obtain ⟨calls',hsend⟩ := sendFrame_spec hσ h ⟨calls,l.stream⟩
    refine ⟨calls',true,?_⟩
    rw [hsend]
    simp [stream]
  · rename_i h
    exact ⟨calls,false,by rw [sendFrame,if_pos (Nat.lt_of_not_le h)]⟩

theorem recv_stream (l : Link) (calls : Nat) :
    match l.recv .works with
    | (.payload p,l') => ∃ calls',
      recvFrame σ ⟨calls,l.stream⟩ = (.ok (some p.val),⟨calls',l'.stream⟩)
    | (.failed,l') => ∃ calls',
      recvFrame σ ⟨calls,l.stream⟩ = (.ok none,⟨calls',l'.stream⟩)
    | (.throws _,_) => False
    | (.waits,l') => l'.stream = [] := by
  cases hq : l.queue with
  | nil =>
    have hstream : l.stream = [] := by rw [stream,hq]; rfl
    cases hr : l.running with
    | false =>
      have hshort : l.stream.length < 9 := by simp [hstream]
      obtain ⟨calls',hrecv⟩ := recvFrame_short hσ hshort calls
      simp only [recv,hq,hr]
      show ∃ calls', recvFrame σ ⟨calls,l.stream⟩ = (.ok none,⟨calls',l.stream⟩)
      exact ⟨calls',by rw [hrecv,hstream]⟩
    | true =>
      simp only [recv,hq,hr]
      exact hstream
  | cons p ps =>
    obtain ⟨calls',hrecv⟩ := recvFrame_spec hσ p.property calls (ps.flatMap fun p => frame p.val)
    rw [recv_cons hq]
    exact ⟨calls',by rw [stream,hq,List.flatMap_cons,hrecv]; rfl⟩

end Stream

/-- The response that the executor gets to the dispatch of a plan with this stamp does not
pass for the success of another. -/
def Clear (l : Link) (calls : SocketCalls) (m : DispatchMeta) : Prop :=
  calls.sends = true → calls.receives = .works →
    match l.queue with
    | [] => l.running = true → ⟨l.worker.bootId⟩ = m.targetBoot
    | resp :: _ => ∀ c, accept resp.val = some c → c.outcome = .succeeded → c.message.stamp = m

end Link

theorem networkDispatch_reports {l : Link} {calls : SocketCalls} {now : Timestamp}
    {d : RecoveryDispatch} (h : d.payload.length ≤ 4096) (c : Completion) :
    (∃ x, (networkDispatch l calls now d).1 = .returns x ∧ x.completion = some c) ↔
      calls.sends = true ∧ calls.receives = .works ∧
      match l.queue with
      | [] => l.running = true ∧ c = ⟨l.worker.complete (dispatchMsg d),.succeeded⟩
      | resp :: _ => accept resp.val = some c := by
  unfold networkDispatch
  cases hsend : calls.sends with
  | false =>
    have hfail : l.send false (encode (dispatchMsg d)) = (false,l) := by
      unfold Link.send
      split <;> rfl
    simp [hfail]
  | true =>
    obtain ⟨l',hl,hrun,hqueue⟩ := l.send_dispatch h
    rw [hl]
    cases hrecv : calls.receives with
    | fails => simp [Link.recv]
    | garbled what => simp [Link.recv]
    | works =>
      cases hq : l.queue with
      | nil =>
        rw [hq,List.nil_append] at hqueue
        cases hr : l.running with
        | false =>
          rw [hr] at hrun hqueue
          simp [Link.recv,hrun,hqueue]
        | true =>
          rw [if_pos hr] at hqueue
          simp [Link.recv_cons hqueue,accept_complete,eq_comm]
      | cons resp queue =>
        -- The answer to this dispatch waits behind what was not read before it.
        rw [hq,List.cons_append] at hqueue
        dsimp only
        rw [Link.recv_cons hqueue]
        cases hacc : accept resp.val <;> simp [hacc]

theorem networkDispatch_clear {l : Link} {calls : SocketCalls} {now : Timestamp}
    {d : RecoveryDispatch} (h : d.payload.length ≤ 4096) :
    (∀ c, (∃ x, (networkDispatch l calls now d).1 = .returns x ∧ x.completion = some c) →
      c.outcome = .succeeded → c.message.stamp = d.stamp) ↔ l.Clear calls d.stamp := by
  simp only [networkDispatch_reports h,Link.Clear]
  cases hq : l.queue with
  | nil =>
    constructor
    · intro hall hs hr hrun
      exact congrArg DispatchMeta.targetBoot (hall _ ⟨hs,hr,hrun,rfl⟩ rfl)
    · rintro hclear c ⟨hs,hr,hrun,rfl⟩ _
      have hboot : (⟨l.worker.bootId⟩ : WorkerBootId) = d.targetBoot := hclear hs hr hrun
      show DispatchMeta.mk d.planId d.planGeneration ⟨l.worker.bootId⟩ = d.stamp
      rw [hboot]
      rfl
  | cons resp queue =>
    constructor
    · exact fun hall hs hr c hacc ho => hall c ⟨hs,hr,hacc⟩ ho
    · exact fun hclear c hc ho => hclear hc.1 hc.2.1 c hc.2.2 ho

namespace Impl

theorem settleReport_succeeds {outcome : ExecutionOutcome} {p : RecoveryPlan}
    (h : (settleReport outcome p).state = .succeeded) :
    p.state = .succeeded ∨ outcome = .succeeded := by
  cases outcome with
  | succeeded => exact .inr rfl
  | undeclared i => exact .inl h
  | failed | ambiguous | unknown | cancelled =>
    left
    unfold settleReport at h
    dsimp only at h
    split at h
    · exact absurd h (by simp)
    · exact h

theorem settleReceipt_succeeds {status : DispatchStatus} {p : RecoveryPlan}
    (h : (settleReceipt status p).state = .succeeded) : p.state = .succeeded := by
  unfold settleReceipt at h
  repeat' split at h
  · exact absurd h (by simp)
  · exact h
  · exact absurd h (by simp)
  · exact h
  · exact h

theorem putPlan_succeeds {im : Impl} {j k : UInt64} {p' : RecoveryPlan}
    (h : (im.putPlan j p').Succeeded k) :
    im.Succeeded k ∨ (k = j ∧ p'.state = .succeeded) := by
  obtain ⟨q,hq,hs⟩ := h
  rw [putPlan,SortedMap.find?_insert] at hq
  split at hq
  · rename_i hkj
    obtain rfl := Option.some.inj hq
    exact .inr ⟨hkj,hs⟩
  · exact .inl ⟨q,hq,hs⟩

theorem reportExecution_succeeds {im : Impl} {now : Timestamp} {r : ExecutionReport}
    {k : UInt64} (h : (im.reportExecution now r).Succeeded k) :
    im.Succeeded k ∨ (k = r.planId.value ∧ r.outcome = .succeeded) := by
  unfold reportExecution at h
  cases hr : im.plans.find? r.planId.value with
  | none =>
    rw [hr] at h
    exact .inl h
  | some p =>
    rw [hr] at h
    dsimp only at h
    split at h
    · exact .inl h
    · split at h
      · exact .inl h
      · split at h
        · exact .inl h
        · rcases putPlan_succeeds h with h | ⟨rfl,hs⟩
          · exact .inl h
          · exact (settleReport_succeeds hs).imp (fun hp => ⟨p,hr,hp⟩) (fun ho => ⟨rfl,ho⟩)

theorem dispatchEnd_succeeds {im : Impl} {now : Timestamp} {planId : RecoveryPlanId}
    {status : DispatchStatus} {k : UInt64}
    (h : (im.dispatchEnd now planId status).2.Succeeded k) : im.Succeeded k := by
  unfold dispatchEnd at h
  cases hr : im.plans.find? planId.value with
  | none =>
    rw [hr] at h
    exact h
  | some p =>
    rw [hr] at h
    rcases putPlan_succeeds h with h | ⟨rfl,hs⟩
    · exact h
    · exact ⟨p,hr,settleReceipt_succeeds hs⟩

theorem handOff_succeeds {im : Impl} {j k : UInt64} {p : RecoveryPlan} {now : Timestamp}
    (h : (im.handOff j p now).Succeeded k) : im.Succeeded k := by
  have h : (im.putPlan j (p.dispatched now)).Succeeded k := h
  rcases putPlan_succeeds h with h | ⟨_,hs⟩
  · exact h
  · exact absurd hs (by simp [RecoveryPlan.dispatched])

theorem completion_succeeds {im : Impl} {j k : UInt64} {p : RecoveryPlan} {now t : Timestamp}
    {outcome : ExecutionOutcome}
    (h : ((im.handOff j p now).onAdapterCompletion t
      (RecoveryDispatch.ofPlan (p.dispatched now)).dispatchId outcome).Succeeded k) :
    im.Succeeded k ∨ (k = p.planId.value ∧ outcome = .succeeded) := by
  have hm : (im.handOff j p now).dispatchMeta.find?
      (RecoveryDispatch.ofPlan (p.dispatched now)).dispatchId.value = some p.stamp := by
    rw [handOff,dispatched_id,SortedMap.find?_insert,if_pos rfl]
    rfl
  unfold Succeeded at h
  rw [onAdapterCompletion_known hm] at h
  exact (reportExecution_succeeds h).imp_left handOff_succeeds

end Impl

namespace Node

theorem onAdapterCompletion_impl (std : StdSort) (n : Node) (now : Timestamp)
    (dispatchId : DispatchId) (outcome : ExecutionOutcome) :
    (n.onAdapterCompletion std now dispatchId outcome).impl =
      n.impl.onAdapterCompletion now dispatchId outcome := by
  unfold onAdapterCompletion Impl.onAdapterCompletion Impl.adapterTake
  cases hm : n.impl.dispatchMeta.find? dispatchId.value with
  | none => simp [act,Impl.adapterTake,hm]
  | some m => simp [act,Impl.adapterTake,hm]

theorem dispatchEnd_succeeds (std : StdSort) {n : Node} {now : Timestamp} {call : Nat}
    {status : DispatchStatus} {k : UInt64}
    (h : (n.act std (.dispatchEnd now call status)).impl.Succeeded k) : n.impl.Succeeded k := by
  simp only [act] at h
  split at h
  · exact Impl.dispatchEnd_succeeds h
  · exact h

end Node

namespace Coordinator

theorem begun (std : StdSort) {s : Coordinator} {o : DispatchCall} {d : RecoveryDispatch}
    (h : (s.node.impl.dispatchBegin o.begins o.plan).1 = .ok d) :
    ∃ p, s.node.impl.plans.find? o.plan.planId.value = some p ∧ p.state = .authorized ∧
      AuthorityCurrent p s.node.impl.ctx ∧ d = .ofPlan (p.dispatched o.begins) ∧
      s.node.act std (.dispatchBegin o.begins o.plan) =
        s.node.handOff o.plan.planId p o.begins := by
  rcases s.node.impl.dispatchBegin_spec o.begins o.plan with ⟨e,he⟩ | ⟨p,hk,hs,hcur,hd⟩
  · rw [he] at h
    exact absurd h (by simp)
  · rw [hd] at h
    refine ⟨p,hk,hs,hcur,(Except.ok.inj h).symm,?_⟩
    simp only [Node.act,hk,hd,Node.handOff]

/-- Only a success that the executor reports makes a plan SUCCEEDED, and only the plan that
was dispatched. -/
theorem dispatchPlan_succeeds {std : StdSort} {s : Coordinator} {o : DispatchCall} {k : UInt64}
    (h : (s.dispatchPlan std o).node.impl.Succeeded k) :
    s.node.impl.Succeeded k ∨
      ∃ d c, s.Reports o d c ∧ c.outcome = .succeeded ∧ k = d.planId.value := by
  unfold dispatchPlan at h
  cases hd : (s.node.impl.dispatchBegin o.begins o.plan).1 with
  | error e =>
    rw [hd] at h
    rcases s.node.act_dispatchBegin std o.begins o.plan with heq | ⟨p,hp,hps,hcur,_⟩
    · rw [heq] at h
      exact .inl h
    · obtain ⟨d,hok⟩ := Impl.dispatchBegin_ok_iff.mpr ⟨p,hp,hps,hcur⟩
      exact nomatch hd.symm.trans hok
  | ok d =>
    obtain ⟨p,hp,hps,hcur,rfl,hbegun⟩ := begun std hd
    rw [hd,hbegun] at h
    dsimp only at h
    cases hx : networkDispatch s.link o.calls o.receipt (.ofPlan (p.dispatched o.begins)) with
    | mk x l =>
      rw [hx] at h
      cases x with
      | waits => exact .inl (Impl.handOff_succeeds h)
      | throws what => exact .inl (Impl.handOff_succeeds h)
      | returns x =>
        have h := Node.dispatchEnd_succeeds std h
        cases hc : x.completion with
        | none =>
          rw [hc] at h
          exact .inl (Impl.handOff_succeeds h)
        | some c =>
          rw [hc] at h
          dsimp only at h
          rw [Node.onAdapterCompletion_impl] at h
          refine (Impl.completion_succeeds h).imp_right fun ⟨hk,ho⟩ => ?_
          exact ⟨_,c,⟨hd,x,by rw [hx],hc⟩,ho,hk⟩

/-- Where a plan can be handed over, nothing on the connection passes for its success. -/
def Undisturbed (s : Coordinator) (o : DispatchCall) : Prop :=
  ∀ p, s.node.impl.plans.find? o.plan.planId.value = some p → p.state = .authorized →
    AuthorityCurrent p s.node.impl.ctx → s.link.Clear o.calls p.stamp

theorem honest_iff (std : StdSort) {s : Coordinator} (ht : s.node.impl.Tidy) (o : DispatchCall) :
    s.HonestSuccess std o ↔ s.Undisturbed o := by
  have hpayload : ∀ p, s.node.impl.plans.find? o.plan.planId.value = some p →
      (RecoveryDispatch.ofPlan (p.dispatched o.begins)).payload.length ≤ 4096 :=
    fun p hp => (ht.plans _ p hp).dispatchPayload.length
  constructor
  · intro h p hp hps hcur
    obtain ⟨d,hd⟩ : ∃ d, (s.node.impl.dispatchBegin o.begins o.plan).1 = .ok d :=
      Impl.dispatchBegin_ok_iff.mpr ⟨p,hp,hps,hcur⟩
    obtain ⟨q,hq,_,_,rfl,_⟩ := begun std hd
    obtain rfl := Option.some.inj (hp.symm.trans hq)
    exact (networkDispatch_clear (hpayload p hp)).mp fun c hc ho => h.reported _ c ⟨hd,hc⟩ ho
  · intro h
    have hreported : ∀ d c, s.Reports o d c → c.outcome = .succeeded →
        c.message.stamp = d.stamp := by
      rintro d c ⟨hd,hc⟩ ho
      obtain ⟨p,hp,hps,hcur,rfl,_⟩ := begun std hd
      exact (networkDispatch_clear (hpayload p hp)).mpr (h p hp hps hcur) c hc ho
    refine ⟨hreported,fun k hk hnew => ?_⟩
    rcases dispatchPlan_succeeds hk with hold | ⟨d,c,hc,ho,rfl⟩
    · exact absurd hold hnew
    · have hplan := congrArg DispatchMeta.planId (hreported d c hc ho)
      exact ⟨d,c,hc,congrArg Id.value hplan⟩

theorem step_tidy (std : StdSort) {s : Coordinator} (h : s.node.impl.Tidy) (op : CoordinatorOp) :
    (s.step std op).node.impl.Tidy := by
  cases op with
  | call c => exact Node.call_tidy std h c
  | send _ m => exact h
  | recv _ => exact h
  | kill => exact h
  | dispatchPlan o =>
    have hbegun := Node.act_tidy std h (.dispatchBegin o.begins o.plan)
    simp only [step,dispatchPlan]
    split
    · exact hbegun
    · split
      · exact hbegun
      · exact hbegun
      · refine Node.act_tidy std ?_ _
        split
        · exact hbegun
        · exact Node.act_tidy std (Node.act_tidy std hbegun _) _

def EachDispatch (P : Coordinator → DispatchCall → Prop) (s : Coordinator) :
    CoordinatorOp → Prop
  | .dispatchPlan o => P s o
  | _ => True

/-- Whatever is in flight at the start and however it gets there later: the executor takes the
first COMPLETE for the answer to its dispatch, so the outcomes are right exactly when each
dispatch finds a connection on which that is so. -/
theorem run_honest_iff (std : StdSort) (hasStore : Bool) (l : Link) (ops : List CoordinatorOp) :
    Along (EachDispatch (HonestSuccess std)) (step std) ⟨.construct hasStore,l⟩ ops ↔
      Along (EachDispatch Undisturbed) (step std) ⟨.construct hasStore,l⟩ ops := by
  refine along_congr_inv (I := fun s => s.node.impl.Tidy) (fun s op h => step_tidy std h op)
    (fun s op h => ?_) (Impl.construct_tidy hasStore) ops
  cases op with
  | dispatchPlan o => exact honest_iff std h o
  | _ => exact Iff.rfl

def connected : Coordinator := ⟨.construct false,.connect ⟨1,1,1,text "target"⟩⟩

def dispatchOf (k : UInt64) : DispatchCall :=
  { plan := { planId := ⟨k⟩ }, begins := ⟨0⟩, receipt := ⟨0⟩, completes := ⟨0⟩, ends := ⟨0⟩ }

/-- The WORK_DONE of a run is not read, so the first dispatch reads it, and leaves its own
COMPLETE to the second. -/
def unreadOps : List CoordinatorOp :=
  [.recv .works,.call (.act (.registerWorker ⟨1⟩ ⟨1⟩)),
   .send true { type := .run, a := 1, b := kProgress },
   .call (.act (.plan ⟨0⟩ (Session.requestNo 1) [Session.readyCandidate])),
   .call (.act (.authorizePlan ⟨0⟩ { planId := ⟨1⟩ })),.dispatchPlan (dispatchOf 1),
   .call (.act (.plan ⟨0⟩ (Session.requestNo 2) [Session.readyCandidate])),
   .call (.act (.authorizePlan ⟨0⟩ { planId := ⟨2⟩ }))]

theorem unread_complete_credited :
    let s := run (step .insertion) connected unreadOps
    (s.node.impl.plans.find? 1).map RecoveryPlan.state = some .failed ∧
    (s.node.impl.plans.find? 2).map RecoveryPlan.state = some .authorized ∧
    s.link.queue.map (fun p => (accept p.val).map (fun c => c.message.a)) = [some 1] ∧
    ((s.dispatchPlan .insertion (dispatchOf 2)).node.impl.plans.find? 2).map
      RecoveryPlan.state = some .succeeded ∧
    ¬ Along (EachDispatch (HonestSuccess .insertion)) (step .insertion) connected
      (unreadOps ++ [.dispatchPlan (dispatchOf 2)]) := by
  intro s
  refine ⟨by decide +kernel,by decide +kernel,by decide +kernel,by decide +kernel,fun h => ?_⟩
  have hrun : (s.node.impl.dispatchBegin ⟨0⟩ { planId := ⟨2⟩ }).1.toOption.bind (fun d =>
      ((networkDispatch s.link {} ⟨0⟩ d).1.executed.bind Executed.completion).map
        (fun c => (d.planId.value,c.message.a,c.outcome))) = some (2,1,.succeeded) := by
    decide +kernel
  obtain ⟨d,hd,hx⟩ := Option.bind_eq_some_iff.mp hrun
  obtain ⟨c,hc,hvals⟩ := Option.map_eq_some_iff.mp hx
  simp only [Prod.mk.injEq] at hvals
  obtain ⟨hplan,ha,ho⟩ := hvals
  obtain ⟨x,hreturns,hcomp⟩ := Option.bind_eq_some_iff.mp hc
  have hok : (s.node.impl.dispatchBegin ⟨0⟩ { planId := ⟨2⟩ }).1 = .ok d := by
    cases hb : (s.node.impl.dispatchBegin ⟨0⟩ { planId := ⟨2⟩ }).1 with
    | error e => rw [hb] at hd; exact nomatch hd
    | ok d' => rw [hb] at hd; exact congrArg Except.ok (Option.some.inj hd)
  have hstep : s.HonestSuccess .insertion (dispatchOf 2) := (along_append.mp h).2.1
  have hstamp := hstep.reported d c ⟨hok,x,ExecutorEnd.executed_eq.mp hreturns,hcomp⟩ ho
  have hid : c.message.a = d.planId.value := congrArg (fun m => m.planId.value) hstamp
  rw [ha,hplan] at hid
  exact absurd hid (by decide)

end Coordinator

end RecoveryPlanner
