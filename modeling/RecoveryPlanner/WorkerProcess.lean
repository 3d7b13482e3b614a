import RecoveryPlanner.NetworkExecutor
set_option autoImplicit false

/-! The worker of `worker_main.cpp` as a process of its own. The coordinator and the worker take
their steps in any order, each direction between them is a byte stream that the calls of both
sides may split anywhere, and either side may be gone in the middle of a frame. -/

namespace RecoveryPlanner

open Proto

/-- A worker process and its connection. What `send_frame` has accepted and what `recv_frame` has
returned on the coordinator's side is written down. -/
structure Wire where
  worker : Worker
  registered : Bool := false
  running : Bool := true
  /-- The coordinator's end still takes bytes. -/
  writable : Bool := true
  down : Channel UInt8 := {}
  up : Channel UInt8 := {}
  sent : List Payload := []
  received : List Bytes := []
  /-- Some `recv_frame` has thrown. -/
  aborted : Bool := false

inductive WireOp where
  | send (payload : Bytes)
  /-- `send_frame` fails behind so many bytes, and so does every later call. -/
  | sendFails (payload : Bytes) (written : Nat)
  | turn
  /-- The worker dies in a turn, when so many bytes of its answer are written. -/
  | kill (written : Nat)
  | recv

namespace Wire

/-- The worker's `send`, whose result nobody looks at. -/
def say (τ : Splitting) (s : Wire) (m : Msg) : Wire :=
  { s with up := (sendFrame τ (encode m) s.up).2 }

def handle (τ : Splitting) (s : Wire) (payload : Bytes) : Wire :=
  match decode payload with
  | none => s
  | some m =>
    if m.type = .stop then { s with running := false }
    else
      match s.worker.answer m with
      | none => s
      | some r => s.say τ r

/-- The worker registers, and from then on takes one frame a turn. With nothing to read it waits
for as long as the coordinator may write. -/
def turn (τ : Splitting) (s : Wire) : Wire :=
  if !s.running then s
  else if !s.registered then { s with registered := true }.say τ s.worker.registration
  else
    match recvFrame τ s.down with
    | (.error _,c) => { s with down := c, running := false, aborted := true }
    | (.ok none,c) => if s.writable then s else { s with down := c, running := false }
    | (.ok (some payload),c) => { s with down := c }.handle τ payload

def kill (τ : Splitting) (s : Wire) (written : Nat) : Wire :=
  let t := s.turn τ
  { t with
    running := false
    up := ⟨t.up.calls,s.up.data ++ (t.up.data.drop s.up.data.length).take written⟩ }

def send (σ : Splitting) (s : Wire) (payload : Bytes) : Wire :=
  if h : payload.length ≤ kMaxFramePayload.toNat then
    if s.writable then
      { s with down := (sendFrame σ payload s.down).2, sent := s.sent ++ [⟨payload,h⟩] }
    else s
  else s

def sendFails (s : Wire) (payload : Bytes) (written : Nat) : Wire :=
  if payload.length ≤ kMaxFramePayload.toNat then
    if s.writable then
      { s with
        writable := false
        down := ⟨s.down.calls,s.down.data ++ (frame payload).dropLast.take written⟩ }
    else s
  else s

def recv (σ : Splitting) (s : Wire) : Wire :=
  match recvFrame σ s.up with
  | (.error _,c) => { s with up := c, aborted := true }
  | (.ok none,c) => if s.running then s else { s with up := c }
  | (.ok (some payload),c) => { s with up := c, received := s.received ++ [payload] }

def step (σ τ : Splitting) (s : Wire) : WireOp → Wire
  | .send payload => s.send σ payload
  | .sendFails payload written => s.sendFails payload written
  | .turn => s.turn τ
  | .kill written => s.kill τ written
  | .recv => s.recv σ

end Wire

namespace Link

def after (w : Worker) (payloads : List Payload) : Link :=
  run (fun l (p : Payload) => l.turn p.val) (.connect w) payloads

def said (w : Worker) (payloads : List Payload) : List Bytes :=
  (after w payloads).queue.map Subtype.val

theorem after_append (w : Worker) (ps qs : List Payload) :
    after w (ps ++ qs) = run (fun l (p : Payload) => l.turn p.val) (after w ps) qs :=
  run_append _ _ _ _

theorem reply_worker (l : Link) (m : Msg) : (l.reply m).worker = l.worker := by
  unfold reply
  split <;> rfl

theorem reply_running (l : Link) (m : Msg) : (l.reply m).running = l.running := by
  unfold reply
  split <;> rfl

theorem turn_worker (l : Link) (payload : Bytes) : (l.turn payload).worker = l.worker := by
  unfold turn
  repeat' split
  · rfl
  · rfl
  · rfl
  · rfl
  · exact reply_worker _ _

theorem turn_stopped {l : Link} (h : l.running = false) (payload : Bytes) : l.turn payload = l := by
  simp [turn,h]

theorem reply_grows (l : Link) (m : Msg) : l.queue <+: (l.reply m).queue := by
  unfold reply
  split
  · exact List.prefix_append _ _
  · exact List.prefix_rfl

theorem turn_grows (l : Link) (payload : Bytes) : l.queue <+: (l.turn payload).queue := by
  unfold turn
  repeat' split
  · exact List.prefix_rfl
  · exact List.prefix_rfl
  · exact List.prefix_rfl
  · exact List.prefix_rfl
  · exact reply_grows _ _

theorem turns_grow (l : Link) (ps : List Payload) :
    l.queue <+: (run (fun l (p : Payload) => l.turn p.val) l ps).queue := by
  induction ps generalizing l with
  | nil => exact List.prefix_rfl
  | cons p ps ih => exact (turn_grows l p.val).trans (ih _)

theorem turns_worker (l : Link) (ps : List Payload) :
    (run (fun l (p : Payload) => l.turn p.val) l ps).worker = l.worker := by
  induction ps generalizing l with
  | nil => rfl
  | cons p ps ih => exact (ih _).trans (turn_worker l p.val)

theorem after_worker (w : Worker) (ps : List Payload) : (after w ps).worker = w :=
  (turns_worker _ ps).trans (reply_worker _ _)

theorem turns_stopped {l : Link} (h : l.running = false) (ps : List Payload) :
    run (fun l (p : Payload) => l.turn p.val) l ps = l := by
  induction ps with
  | nil => rfl
  | cons p ps ih => rw [run_cons,turn_stopped h,ih]

theorem said_grows (w : Worker) (ps qs : List Payload) : said w ps <+: said w (ps ++ qs) := by
  rw [said,said,after_append]
  exact (turns_grow _ qs).map _

theorem reply_queue (m : Msg) : ∃ replies : List Payload, replies.length ≤ 1 ∧
    (∀ k : Link, (k.reply m).queue = k.queue ++ replies) ∧
    ∀ {σ : Splitting}, σ.Reliable → ∀ c, ∃ calls, (sendFrame σ (encode m) c).2 =
      ⟨calls,c.data ++ replies.flatMap (fun p => frame p.val)⟩ := by
  by_cases h : (encode m).length ≤ kMaxFramePayload.toNat
  · refine ⟨[⟨encode m,h⟩],le_rfl,fun k => by simp [reply,h],fun hσ c => ?_⟩
    obtain ⟨calls,hs⟩ := sendFrame_spec hσ h c
    exact ⟨calls,by rw [hs]; simp⟩
  · refine ⟨[],by simp,fun k => by simp [reply,h],fun _ c => ⟨c.calls,?_⟩⟩
    rw [sendFrame,if_pos (Nat.lt_of_not_le h)]
    simp

end Link

namespace Wire

def frames (ps : List Payload) : Bytes := ps.flatMap (fun p => frame p.val)

/-- What is left of a frame that is not all there, possibly nothing. -/
def Torn (bs : Bytes) : Prop :=
  ∃ p : Payload, ∃ k, k < (frame p.val).length ∧ bs = (frame p.val).take k

/-- What was sent has been read or waits in front of the end of the stream to the worker, and
what the worker has said to it has been received or waits in the other one. A frame is torn only
where the side that writes it is gone. -/
structure Flow (w : Worker) (s : Wire) (read unread pending : List Payload)
    (cutDown cutUp : Bytes) : Prop where
  worker : s.worker = w
  sent : s.sent = read ++ unread
  down : s.down.data = frames unread ++ cutDown
  tornDown : Torn cutDown
  wholeDown : s.writable = true → cutDown = []
  up : s.up.data = frames pending ++ cutUp
  tornUp : Torn cutUp
  wholeUp : s.running = true → cutUp = []
  calm : s.aborted = false
  silent : s.registered = false → read = [] ∧ s.received = [] ∧ pending = []
  inOrder : s.received ++ pending.map Subtype.val <+: Link.said w read
  current : s.running = true → s.registered = true →
    s.received ++ pending.map Subtype.val = Link.said w read ∧
      (Link.after w read).running = true

@[simp] theorem frames_nil : frames [] = [] := rfl

@[simp] theorem frames_cons (p : Payload) (ps : List Payload) :
    frames (p :: ps) = frame p.val ++ frames ps := List.flatMap_cons

@[simp] theorem frames_append (ps qs : List Payload) :
    frames (ps ++ qs) = frames ps ++ frames qs := List.flatMap_append

theorem torn_nil : Torn [] := by
  refine ⟨⟨[],Nat.zero_le _⟩,0,?_,rfl⟩
  rw [frame_length]
  omega

theorem frames_take {ps : List Payload} (h : ps.length ≤ 1) (k : Nat) :
    ∃ whole cut, (frames ps).take k = frames whole ++ cut ∧ Torn cut ∧ whole <+: ps := by
  match ps,h with
  | [],_ => exact ⟨[],[],by simp,torn_nil,List.prefix_rfl⟩
  | [p],_ =>
    by_cases hk : k < (frame p.val).length
    · exact ⟨[],(frame p.val).take k,by simp,⟨p,k,hk,rfl⟩,List.nil_prefix⟩
    · refine ⟨[p],[],?_,torn_nil,List.prefix_rfl⟩
      rw [List.take_of_length_le (by simpa using Nat.le_of_not_lt hk),List.append_nil]

theorem torn_dropLast (p : Payload) (k : Nat) : Torn ((frame p.val).dropLast.take k) := by
  have hlen := frame_length p.val
  refine ⟨p,min k ((frame p.val).length-1),by omega,?_⟩
  rw [List.dropLast_eq_take,List.take_take]

theorem recvFrame_torn {σ : Splitting} (hσ : σ.Reliable) {bs : Bytes} (h : Torn bs)
    (calls : Nat) : ∃ calls', recvFrame σ ⟨calls,bs⟩ = (.ok none,⟨calls',[]⟩) := by
  obtain ⟨p,k,hk,rfl⟩ := h
  exact recvFrame_cut hσ p.property hk calls

section Steps

variable {σ τ : Splitting}

/-- The worker does to one payload what the connection that answers at once does. -/
theorem handle_spec (hτ : τ.Reliable) {s : Wire} {l : Link} (hw : l.worker = s.worker)
    (hl : l.running = true) (hs : s.running = true) (payload : Bytes) :
    ∃ replies : List Payload, replies.length ≤ 1 ∧
      (l.turn payload).queue = l.queue ++ replies ∧ ∃ calls, s.handle τ payload =
        { s with
          running := (l.turn payload).running
          up := ⟨calls,s.up.data ++ frames replies⟩ } := by
  have hquiet : ∀ b : Bool, ∃ calls, { s with running := b } =
      { s with running := b, up := ⟨calls,s.up.data ++ frames []⟩ } :=
    fun b => ⟨s.up.calls,by simp⟩
  have hself : ∃ calls, s = { s with running := l.running, up := ⟨calls,s.up.data ++ frames []⟩ } :=
    ⟨s.up.calls,by simp [hl,← hs]⟩
  unfold handle Link.turn
  simp only [hl,Bool.not_true,Bool.false_eq_true,if_false]
  cases decode payload with
  | none => exact ⟨[],by simp,by simp,hself⟩
  | some m =>
    dsimp only
    by_cases hstop : m.type = .stop
    · simp only [if_pos hstop]
      exact ⟨[],by simp,by simp,hquiet false⟩
    · simp only [if_neg hstop,hw]
      cases s.worker.answer m with
      | none => exact ⟨[],by simp,by simp,hself⟩
      | some r =>
        obtain ⟨replies,hlen,hqueue,hsend⟩ := Link.reply_queue r
        obtain ⟨calls,hcalls⟩ := hsend hτ s.up
        refine ⟨replies,hlen,hqueue l,calls,?_⟩
        show { s with up := (sendFrame τ (encode r) s.up).2 } = _
        rw [hcalls,Link.reply_running,hl,← hs]
        rfl

theorem turn_registers (hτ : τ.Reliable) {s : Wire} (hr : s.running = true)
    (hreg : s.registered = false) :
    ∃ replies : List Payload, replies.length ≤ 1 ∧
      Link.said s.worker [] = replies.map Subtype.val ∧
      (Link.after s.worker []).running = true ∧ ∃ calls, s.turn τ =
        { s with registered := true, up := ⟨calls,s.up.data ++ frames replies⟩ } := by
  obtain ⟨replies,hlen,hqueue,hsend⟩ := Link.reply_queue s.worker.registration
  obtain ⟨calls,hcalls⟩ := hsend hτ s.up
  refine ⟨replies,hlen,?_,Link.reply_running _ _,calls,?_⟩
  · exact congrArg (List.map Subtype.val) (hqueue { worker := s.worker })
  · unfold turn
    rw [if_neg (by simp [hr]),if_pos (by simp [hreg])]
    show { s with registered := true, up := (sendFrame τ (encode s.worker.registration) s.up).2 } = _
    rw [hcalls]
    rfl

theorem turn_reads (hτ : τ.Reliable) {s : Wire} {l : Link} (hw : l.worker = s.worker)
    (hl : l.running = true) (hr : s.running = true) (hreg : s.registered = true) {p : Payload}
    {rest : Bytes} (hdown : s.down.data = frame p.val ++ rest) :
    ∃ replies : List Payload, replies.length ≤ 1 ∧
      (l.turn p.val).queue = l.queue ++ replies ∧ ∃ calls calls', s.turn τ =
        { s with
          running := (l.turn p.val).running
          down := ⟨calls',rest⟩
          up := ⟨calls,s.up.data ++ frames replies⟩ } := by
  obtain ⟨calls',hrecv⟩ := recvFrame_spec hτ p.property s.down.calls rest
  have hrecv : recvFrame τ s.down = (.ok (some p.val),⟨calls',rest⟩) := by
    rw [← hrecv,← hdown]
  obtain ⟨replies,hlen,hqueue,calls,hhandle⟩ :=
    handle_spec hτ (s := { s with down := ⟨calls',rest⟩ }) hw hl hr p.val
  refine ⟨replies,hlen,hqueue,calls,calls',?_⟩
  unfold turn
  rw [if_neg (by simp [hr]),if_neg (by simp [hreg])]
  simp only [hrecv]
  exact hhandle

theorem turn_ends (hτ : τ.Reliable) {s : Wire} (hr : s.running = true)
    (hreg : s.registered = true) (hdown : Torn s.down.data) :
    ∃ calls, s.turn τ =
      if s.writable then s else { s with down := ⟨calls,[]⟩, running := false } := by
  obtain ⟨calls,hrecv⟩ := recvFrame_torn hτ hdown s.down.calls
  refine ⟨calls,?_⟩
  unfold turn
  rw [if_neg (by simp [hr]),if_neg (by simp [hreg])]
  simp only [hrecv]

theorem turn_dead {s : Wire} (hr : s.running = false) : s.turn τ = s := by
  simp [turn,hr]

theorem turn_first (hτ : τ.Reliable) {w : Worker} {s : Wire} {read unread pending : List Payload}
    {cutDown cutUp : Bytes} (h : Flow w s read unread pending cutDown cutUp)
    (hr : s.running = true) (hreg : s.registered = false) :
    ∃ replies : List Payload, replies.length ≤ 1 ∧
      (s.turn τ).up.data = s.up.data ++ frames replies ∧
      Flow w (s.turn τ) [] unread replies cutDown [] ∧
      (s.turn τ).running = true ∧ (s.turn τ).registered = true := by
  obtain ⟨replies,hlen,hsaid,hrun,calls,hturn⟩ := turn_registers hτ hr hreg
  obtain ⟨rfl,hrec,rfl⟩ := h.silent hreg
  obtain rfl := h.wholeUp hr
  rw [h.worker] at hsaid hrun
  have hall : s.received ++ replies.map Subtype.val = Link.said w [] := by
    rw [hrec,List.nil_append,hsaid]
  rw [hturn]
  refine ⟨replies,hlen,rfl,⟨h.worker,h.sent,h.down,h.tornDown,h.wholeDown,?_,torn_nil,fun _ => rfl,
    h.calm,nofun,hall ▸ List.prefix_rfl,fun _ _ => ⟨hall,hrun⟩⟩,hr,rfl⟩
  simp [h.up]

theorem turn_next (hτ : τ.Reliable) {w : Worker} {s : Wire} {p : Payload}
    {read ps pending : List Payload} {cutDown cutUp : Bytes}
    (h : Flow w s read (p :: ps) pending cutDown cutUp) (hr : s.running = true)
    (hreg : s.registered = true) :
    ∃ replies : List Payload, replies.length ≤ 1 ∧
      (s.turn τ).up.data = s.up.data ++ frames replies ∧
      Flow w (s.turn τ) (read ++ [p]) ps (pending ++ replies) cutDown [] ∧
      (s.turn τ).received ++ (pending ++ replies).map Subtype.val = Link.said w (read ++ [p]) ∧
      (Link.after w (read ++ [p])).running = (s.turn τ).running ∧
      (s.turn τ).registered = true := by
  obtain ⟨hcur,hlrun⟩ := h.current hr hreg
  obtain rfl := h.wholeUp hr
  have hlw : (Link.after w read).worker = s.worker :=
    (Link.after_worker w read).trans h.worker.symm
  have hdown : s.down.data = frame p.val ++ (frames ps ++ cutDown) := by
    rw [h.down,frames_cons,List.append_assoc]
  obtain ⟨replies,hlen,hqueue,calls,calls',hturn⟩ := turn_reads hτ hlw hlrun hr hreg hdown
  have hafter : Link.after w (read ++ [p]) = (Link.after w read).turn p.val :=
    Link.after_append w read [p]
  have hall : s.received ++ (pending ++ replies).map Subtype.val =
      Link.said w (read ++ [p]) := by
    rw [List.map_append,← List.append_assoc,hcur,Link.said,Link.said,hafter,hqueue,
      List.map_append]
  rw [hturn]
  refine ⟨replies,hlen,rfl,⟨h.worker,by simp [h.sent],rfl,h.tornDown,h.wholeDown,?_,torn_nil,
    fun _ => rfl,h.calm,fun hf => absurd (hreg.symm.trans hf) nofun,hall ▸ List.prefix_rfl,
    fun hrun _ => ⟨hall,by rw [hafter]; exact hrun⟩⟩,hall,by rw [hafter],hreg⟩
  simp [h.up]

/-- A turn reads at most one payload and says at most one thing. -/
theorem turn_flow (hτ : τ.Reliable) {w : Worker} {s : Wire} {read unread pending : List Payload}
    {cutDown cutUp : Bytes} (h : Flow w s read unread pending cutDown cutUp) :
    ∃ read' unread' cutDown' replies, replies.length ≤ 1 ∧
      (s.turn τ).up.data = s.up.data ++ frames replies ∧ (s.running = false → replies = []) ∧
      Flow w (s.turn τ) read' unread' (pending ++ replies) cutDown' cutUp := by
  cases hr : s.running with
  | false =>
    rw [turn_dead hr]
    exact ⟨read,unread,cutDown,[],by simp,by simp,fun _ => rfl,by simpa using h⟩
  | true =>
    obtain rfl := h.wholeUp hr
    cases hreg : s.registered with
    | false =>
      obtain ⟨replies,hlen,hup,ht,_⟩ := turn_first hτ h hr hreg
      obtain ⟨rfl,_,rfl⟩ := h.silent hreg
      exact ⟨[],unread,cutDown,replies,hlen,hup,nofun,ht⟩
    | true =>
      cases hun : unread with
      | nil =>
        subst hun
        have htorn : Torn s.down.data := by simpa [h.down] using h.tornDown
        obtain ⟨calls,hturn⟩ := turn_ends hτ hr hreg htorn
        rw [hturn]
        split
        · exact ⟨read,[],cutDown,[],by simp,by simp,fun _ => rfl,by simpa using h⟩
        · refine ⟨read,[],[],[],by simp,by simp,fun _ => rfl,?_⟩
          exact ⟨h.worker,h.sent,by simp,torn_nil,fun _ => rfl,by simpa using h.up,torn_nil,
            nofun,h.calm,fun hf => absurd (hreg.symm.trans hf) nofun,by simpa using h.inOrder,nofun⟩
      | cons p ps =>
        subst hun
        obtain ⟨replies,hlen,hup,ht,_⟩ := turn_next hτ h hr hreg
        exact ⟨read ++ [p],ps,cutDown,replies,hlen,hup,nofun,ht⟩

theorem kill_flow (hτ : τ.Reliable) {w : Worker} {s : Wire} {read unread pending : List Payload}
    {cutDown cutUp : Bytes} (h : Flow w s read unread pending cutDown cutUp) (written : Nat) :
    ∃ read' unread' pending' cutDown' cutUp',
      Flow w (s.kill τ written) read' unread' pending' cutDown' cutUp' := by
  obtain ⟨read',unread',cutDown',replies,hlen,hup,hdead,ht⟩ := turn_flow hτ h
  have hdrop : (s.turn τ).up.data.drop s.up.data.length = frames replies := by
    rw [hup,List.drop_left]
  obtain ⟨whole,cut,hcut,htorn,hwhole⟩ := frames_take hlen written
  have hpart : (pending ++ whole).map Subtype.val <+: (pending ++ replies).map Subtype.val :=
    ((List.prefix_append_right_inj pending).mpr hwhole).map _
  have hall : (s.turn τ).received ++ (pending ++ whole).map Subtype.val <+:
      Link.said w read' :=
    ((List.prefix_append_right_inj _).mpr hpart).trans ht.inOrder
  refine ⟨read',unread',pending ++ whole,cutDown',cutUp ++ cut,⟨ht.worker,ht.sent,ht.down,
    ht.tornDown,ht.wholeDown,?_,?_,nofun,ht.calm,fun hreg => ?_,hall,nofun⟩⟩
  · show s.up.data ++ ((s.turn τ).up.data.drop s.up.data.length).take written = _
    rw [hdrop,hcut,h.up]
    cases hr : s.running with
    | true => simp [h.wholeUp hr]
    | false =>
      obtain rfl := hdead hr
      obtain rfl := List.prefix_nil.mp hwhole
      simp
  · cases hr : s.running with
    | true => simpa [h.wholeUp hr] using htorn
    | false =>
      obtain rfl := hdead hr
      obtain rfl := List.prefix_nil.mp hwhole
      have hnil : cut = [] := by simpa using hcut.symm
      simpa [hnil] using h.tornUp
  · obtain ⟨hread,hrec,hpend⟩ := ht.silent hreg
    obtain ⟨rfl,rfl⟩ := List.append_eq_nil_iff.mp hpend
    exact ⟨hread,hrec,by simpa using hwhole⟩

theorem send_flow (hσ : σ.Reliable) {w : Worker} {s : Wire} {read unread pending : List Payload}
    {cutDown cutUp : Bytes} (h : Flow w s read unread pending cutDown cutUp) (payload : Bytes) :
    ∃ unread', Flow w (s.send σ payload) read unread' pending cutDown cutUp := by
  unfold send
  split
  · rename_i hlen
    split
    · rename_i hopen
      obtain ⟨calls,hsend⟩ := sendFrame_spec hσ hlen s.down
      refine ⟨unread ++ [⟨payload,hlen⟩],h.worker,by simp [h.sent],?_,h.tornDown,h.wholeDown,h.up,
        h.tornUp,h.wholeUp,h.calm,h.silent,h.inOrder,h.current⟩
      simp [hsend,h.down,h.wholeDown hopen]
    · exact ⟨unread,h⟩
  · exact ⟨unread,h⟩

theorem sendFails_flow {w : Worker} {s : Wire} {read unread pending : List Payload}
    {cutDown cutUp : Bytes} (h : Flow w s read unread pending cutDown cutUp) (payload : Bytes)
    (written : Nat) :
    ∃ cutDown', Flow w (s.sendFails payload written) read unread pending cutDown' cutUp := by
  unfold sendFails
  split
  · rename_i hlen
    split
    · rename_i hopen
      refine ⟨(frame payload).dropLast.take written,h.worker,h.sent,?_,
        torn_dropLast ⟨payload,hlen⟩ written,nofun,h.up,h.tornUp,h.wholeUp,h.calm,h.silent,
        h.inOrder,h.current⟩
      simp [h.down,h.wholeDown hopen]
    · exact ⟨cutDown,h⟩
  · exact ⟨cutDown,h⟩

theorem recv_flow (hσ : σ.Reliable) {w : Worker} {s : Wire} {read unread pending : List Payload}
    {cutDown cutUp : Bytes} (h : Flow w s read unread pending cutDown cutUp) :
    ∃ cutUp', Flow w (s.recv σ) read unread pending.tail cutDown cutUp' ∧
      (s.recv σ).received = s.received ++ (pending.take 1).map Subtype.val := by
  cases hp : pending with
  | nil =>
    subst hp
    have hup : s.up.data = cutUp := by simpa using h.up
    obtain ⟨calls,hrecv⟩ := recvFrame_torn hσ (hup ▸ h.tornUp) s.up.calls
    have hrecv : recvFrame σ s.up = (.ok none,⟨calls,[]⟩) := hrecv
    unfold recv
    rw [hrecv]
    dsimp only
    split
    · exact ⟨cutUp,h,by simp⟩
    · exact ⟨[],⟨h.worker,h.sent,h.down,h.tornDown,h.wholeDown,rfl,torn_nil,fun _ => rfl,h.calm,
        h.silent,h.inOrder,h.current⟩,by simp⟩
  | cons p ps =>
    subst hp
    have hup : s.up.data = frame p.val ++ (frames ps ++ cutUp) := by
      rw [h.up,frames_cons,List.append_assoc]
    obtain ⟨calls,hrecv⟩ := recvFrame_spec hσ p.property s.up.calls (frames ps ++ cutUp)
    have hrecv : recvFrame σ s.up = (.ok (some p.val),⟨calls,frames ps ++ cutUp⟩) := by
      rw [← hrecv,← hup]
    unfold recv
    rw [hrecv]
    refine ⟨cutUp,⟨h.worker,h.sent,h.down,h.tornDown,h.wholeDown,rfl,h.tornUp,h.wholeUp,h.calm,
      fun hreg => ?_,?_,fun hr hreg => ?_⟩,by simp⟩
    · exact absurd (h.silent hreg).2.2 (by simp)
    · simpa using h.inOrder
    · simpa using h.current hr hreg

theorem step_flow (hσ : σ.Reliable) (hτ : τ.Reliable) {w : Worker} {s : Wire}
    (h : ∃ read unread pending cutDown cutUp, Flow w s read unread pending cutDown cutUp)
    (op : WireOp) :
    ∃ read unread pending cutDown cutUp,
      Flow w (s.step σ τ op) read unread pending cutDown cutUp := by
  obtain ⟨read,unread,pending,cutDown,cutUp,h⟩ := h
  cases op with
  | send payload =>
    obtain ⟨unread',h'⟩ := send_flow hσ h payload
    exact ⟨read,unread',pending,cutDown,cutUp,h'⟩
  | sendFails payload written =>
    obtain ⟨cutDown',h'⟩ := sendFails_flow h payload written
    exact ⟨read,unread,pending,cutDown',cutUp,h'⟩
  | turn =>
    obtain ⟨read',unread',cutDown',replies,_,_,_,h'⟩ := turn_flow hτ h
    exact ⟨read',unread',pending ++ replies,cutDown',cutUp,h'⟩
  | kill written => exact kill_flow hτ h written
  | recv =>
    obtain ⟨cutUp',h',_⟩ := recv_flow hσ h
    exact ⟨read,unread,pending.tail,cutDown,cutUp',h'⟩

def start (w : Worker) : Wire := { worker := w }

theorem start_flow (w : Worker) : Flow w (start w) [] [] [] [] [] :=
  ⟨rfl,rfl,rfl,torn_nil,fun _ => rfl,rfl,torn_nil,fun _ => rfl,rfl,fun _ => ⟨rfl,rfl,rfl⟩,
    List.nil_prefix,nofun⟩

theorem run_flow (hσ : σ.Reliable) (hτ : τ.Reliable) (w : Worker) (ops : List WireOp) :
    ∃ read unread pending cutDown cutUp,
      Flow w (run (step σ τ) (start w) ops) read unread pending cutDown cutUp :=
  run_invariant (I := fun s => ∃ read unread pending cutDown cutUp,
      Flow w s read unread pending cutDown cutUp)
    ⟨[],[],[],[],[],start_flow w⟩ fun _ op _ h => step_flow hσ hτ h op

theorem turns_say (σ : Splitting) (hτ : τ.Reliable) {w : Worker} {s : Wire}
    {read unread pending : List Payload} {cutDown cutUp : Bytes}
    (h : Flow w s read unread pending cutDown cutUp) (hr : s.running = true)
    (hreg : s.registered = true) :
    ∃ turns read' unread' pending' cutDown' cutUp',
      Flow w (run (step σ τ) s (List.replicate turns .turn)) read' unread' pending' cutDown'
        cutUp' ∧ read' ++ unread' = read ++ unread ∧
      (run (step σ τ) s (List.replicate turns .turn)).received ++ pending'.map Subtype.val =
        Link.said w (read ++ unread) := by
  induction unread generalizing s read pending cutUp with
  | nil =>
    refine ⟨0,read,[],pending,cutDown,cutUp,h,rfl,?_⟩
    rw [List.append_nil]
    exact (h.current hr hreg).1
  | cons p ps ih =>
    obtain ⟨replies,_,_,ht,hall,hrun,hreg'⟩ := turn_next hτ h hr hreg
    have hsplit : read ++ p :: ps = read ++ [p] ++ ps := by simp
    rw [hsplit]
    cases hr' : (s.turn τ).running with
    | true =>
      obtain ⟨turns,read',unread',pending',cutDown',cutUp',hf,hsent,hsay⟩ := ih ht hr' hreg'
      exact ⟨turns+1,read',unread',pending',cutDown',cutUp',hf,hsent,hsay⟩
    | false =>
      refine ⟨1,read ++ [p],ps,pending ++ replies,cutDown,[],ht,rfl,hall.trans ?_⟩
      rw [Link.said,Link.said,Link.after_append w (read ++ [p]) ps,
        Link.turns_stopped (hrun.trans hr')]

theorem recvs_take (hσ : σ.Reliable) {w : Worker} {s : Wire}
    {read unread pending : List Payload} {cutDown cutUp : Bytes}
    (h : Flow w s read unread pending cutDown cutUp) :
    (run (step σ τ) s (List.replicate pending.length .recv)).received =
      s.received ++ pending.map Subtype.val := by
  induction pending generalizing s cutUp with
  | nil => simp
  | cons p ps ih =>
    obtain ⟨cutUp',h',hrec⟩ := recv_flow hσ h
    have hstep : (s.recv σ).received = s.received ++ [p.val] := hrec
    rw [List.length_cons,List.replicate_succ,run_cons]
    show (run (step σ τ) (s.recv σ) _).received = _
    rw [ih h',hstep]
    simp

/-- From any state in which the worker runs, its turns and the coordinator's receives bring over
everything that it has to say to what was sent. -/
theorem flow_drains (hσ : σ.Reliable) (hτ : τ.Reliable) {w : Worker} {s : Wire}
    {read unread pending : List Payload} {cutDown cutUp : Bytes}
    (h : Flow w s read unread pending cutDown cutUp) (hr : s.running = true) :
    ∃ turns receives, (run (step σ τ) s (List.replicate turns .turn ++
      List.replicate receives .recv)).received = Link.said w s.sent := by
  have hregistered : ∀ {s : Wire} {read pending : List Payload} {cutUp : Bytes},
      Flow w s read unread pending cutDown cutUp → s.running = true → s.registered = true →
      ∃ turns receives, (run (step σ τ) s (List.replicate turns .turn ++
        List.replicate receives .recv)).received = Link.said w s.sent := by
    intro s read pending cutUp h hr hreg
    obtain ⟨turns,read',unread',pending',cutDown',cutUp',hf,_,hsay⟩ := turns_say σ hτ h hr hreg
    refine ⟨turns,pending'.length,?_⟩
    rw [run_append,recvs_take hσ hf,hsay,h.sent]
  cases hreg : s.registered with
  | true => exact hregistered h hr hreg
  | false =>
    obtain ⟨replies,_,_,ht,hr',hreg'⟩ := turn_first hτ h hr hreg
    obtain ⟨turns,receives,hdone⟩ := hregistered ht hr' hreg'
    refine ⟨turns+1,receives,?_⟩
    obtain ⟨rfl,_,_⟩ := h.silent hreg
    rw [h.sent,← ht.sent]
    exact hdone

/-- In any order of the two sides' steps, however the streams are split and wherever a side
dies: the coordinator receives what a worker that answers at once would have queued, in order,
nothing twice and nothing else, no frame is ever found malformed, and as long as the worker
runs nothing is lost. -/
theorem run_inOrder (hσ : σ.Reliable) (hτ : τ.Reliable) (w : Worker) (ops : List WireOp) :
    (run (step σ τ) (start w) ops).aborted = false ∧
    (run (step σ τ) (start w) ops).received <+:
      Link.said w (run (step σ τ) (start w) ops).sent ∧
    ((run (step σ τ) (start w) ops).running = true → ∃ turns receives,
      (run (step σ τ) (start w) (ops ++ (List.replicate turns .turn ++
        List.replicate receives .recv))).received =
        Link.said w (run (step σ τ) (start w) ops).sent) := by
  obtain ⟨read,unread,pending,cutDown,cutUp,h⟩ := run_flow hσ hτ w ops
  refine ⟨h.calm,?_,fun hr => ?_⟩
  · rw [h.sent]
    exact (List.prefix_append _ _).trans (h.inOrder.trans (Link.said_grows w read unread))
  · obtain ⟨turns,receives,hdone⟩ := flow_drains hσ hτ h hr
    exact ⟨turns,receives,by rw [run_append]; exact hdone⟩

end Steps

def dyingOps : List WireOp :=
  [.turn,.send (encode { type := .dispatch, a := 4, b := 5 }),.turn,.recv,.recv,
   .send (encode { type := .dispatch, a := 6, b := 7 }),.kill 20,.recv]

def workerSeven : Worker := ⟨1,7,1,[]⟩

theorem run_inOrder_split :
    (run (step (.atMost 0) (.atMost 2)) (start workerSeven) dyingOps).aborted = false ∧
    (run (step (.atMost 0) (.atMost 2)) (start workerSeven) dyingOps).received <+:
      Link.said workerSeven
        (run (step (.atMost 0) (.atMost 2)) (start workerSeven) dyingOps).sent ∧
    ∃ turns receives, (run (step (.atMost 0) (.atMost 2)) (start workerSeven)
      (dyingOps.take 2 ++ (List.replicate turns .turn ++ List.replicate receives .recv))).received =
        [encode workerSeven.registration,
         encode (workerSeven.complete { type := .dispatch, a := 4, b := 5 })] := by
  have hσ := Splitting.atMost_reliable 0
  have hτ := Splitting.atMost_reliable 2
  obtain ⟨hcalm,hreceived,_⟩ := run_inOrder hσ hτ workerSeven dyingOps
  obtain ⟨turns,receives,hall⟩ := (run_inOrder hσ hτ workerSeven (dyingOps.take 2)).2.2 rfl
  have hsaid : Link.said workerSeven
      (run (step (.atMost 0) (.atMost 2)) (start workerSeven) (dyingOps.take 2)).sent =
      [encode workerSeven.registration,
       encode (workerSeven.complete { type := .dispatch, a := 4, b := 5 })] := by
    decide +kernel
  exact ⟨hcalm,hreceived,turns,receives,hall.trans hsaid⟩

end Wire

def dispatched (p : Payload) : Option Msg :=
  (decode p.val).filter (fun m => m.type = .dispatch)

theorem decode_encode_type {m m' : Msg} (h : decode (encode m) = some m') : m'.type = m.type := by
  have hhead := congrArg (fun p : Bytes => p.headD 0) (encode_decode h).2
  simp only [encode,putU8,List.singleton_append,List.headD_cons] at hhead
  rw [← MsgType.ofByte_toByte m'.type,hhead,MsgType.ofByte_toByte]

theorem accept_other {m : Msg} (h : m.type ≠ .complete) : accept (encode m) = none := by
  unfold accept
  cases hd : decode (encode m) with
  | none => rfl
  | some m' => simp [decode_encode_type hd,h]

namespace Link

theorem reply_other (l : Link) {m : Msg} (h : m.type ≠ .complete) :
    (l.reply m).queue.filterMap (fun p => accept p.val) =
      l.queue.filterMap (fun p => accept p.val) := by
  unfold reply
  split
  · simp [accept_other h]
  · rfl

/-- The worker completes a DISPATCH and nothing else. -/
theorem turn_completes {l : Link} (h : l.running = true) (p : Payload) :
    (l.turn p.val).queue.filterMap (fun p => accept p.val) =
      l.queue.filterMap (fun p => accept p.val) ++
        ((dispatched p).map (fun m => (⟨l.worker.complete m,.succeeded⟩ : Completion))).toList := by
  unfold turn dispatched
  rw [h]
  cases hd : decode p.val with
  | none => simp
  | some m =>
    cases ht : m.type with
    | run => simp [ht,Worker.answer,reply_other l (m := l.worker.workDone m) nofun]
    | dispatch =>
      have hframe : (encode (l.worker.complete m)).length ≤ kMaxFramePayload.toNat :=
        (l.worker.complete_bounded m).2
      simp [ht,Worker.answer,reply,hframe,accept_complete,Option.filter]
    | _ => simp [ht,Worker.answer]

theorem turns_complete (l : Link) (ps : List Payload) :
    (run (fun l (p : Payload) => l.turn p.val) l ps).queue.filterMap (fun p => accept p.val) <+:
      l.queue.filterMap (fun p => accept p.val) ++
        (ps.filterMap dispatched).map (fun m => ⟨l.worker.complete m,.succeeded⟩) := by
  induction ps generalizing l with
  | nil => simp
  | cons p ps ih =>
    cases h : l.running with
    | false =>
      rw [run_cons,turn_stopped h,turns_stopped h]
      exact List.prefix_append _ _
    | true =>
      have hrest := ih (l.turn p.val)
      rw [turn_completes h,turn_worker,List.append_assoc] at hrest
      rw [run_cons]
      cases hd : dispatched p with
      | none => simpa [hd] using hrest
      | some m => simpa [hd] using hrest

end Link

/-- Whatever the order of steps: the completions that the coordinator receives are those of the
first so many DISPATCH messages that it sent, one for each and in their order, and each is a
success with the plan id and the generation of that message and the worker's own boot. -/
theorem Wire.run_completes {σ τ : Splitting} (hσ : σ.Reliable) (hτ : τ.Reliable) (w : Worker)
    (ops : List WireOp) :
    ((run (step σ τ) (start w) ops).received.filterMap accept).map
        (fun c => (c.message.stamp,c.outcome)) <+:
      ((run (step σ τ) (start w) ops).sent.filterMap dispatched).map
        (fun m => (⟨⟨m.a⟩,⟨m.b⟩,⟨w.bootId⟩⟩,.succeeded)) := by
  obtain ⟨read,unread,pending,cutDown,cutUp,h⟩ := run_flow hσ hτ w ops
  have hsaid : (run (step σ τ) (start w) ops).received <+:
      Link.said w (run (step σ τ) (start w) ops).sent := by
    rw [h.sent]
    exact (List.prefix_append _ _).trans (h.inOrder.trans (Link.said_grows w read unread))
  have hconnect : (Link.connect w).queue.filterMap (fun p => accept p.val) = [] :=
    Link.reply_other _ nofun
  have hall := Link.turns_complete (Link.connect w) (run (step σ τ) (start w) ops).sent
  rw [hconnect,List.nil_append,show (Link.connect w).worker = w from Link.after_worker w []] at hall
  have hsame : (Link.said w (run (step σ τ) (start w) ops).sent).filterMap accept =
      (Link.after w (run (step σ τ) (start w) ops).sent).queue.filterMap (fun p => accept p.val) :=
    List.filterMap_map
  have hfinal := ((hsaid.filterMap accept).trans (hsame ▸ hall)).map
    (fun c => (c.message.stamp,c.outcome))
  rw [List.map_map] at hfinal
  exact hfinal

theorem Wire.run_completes_once :
    ∃ turns receives,
      let more := List.replicate turns WireOp.turn ++ List.replicate receives WireOp.recv
      let s := run (step (.atMost 0) (.atMost 2)) (start workerSeven) (dyingOps.take 2 ++ more)
      let first : DispatchMeta × ExecutionOutcome := (⟨⟨4⟩,⟨5⟩,⟨7⟩⟩,.succeeded)
      (s.received.filterMap accept).map (fun c => (c.message.stamp,c.outcome)) = [first] ∧
      [first] <+: (s.sent.filterMap dispatched).map
        (fun m => (⟨⟨m.a⟩,⟨m.b⟩,⟨workerSeven.bootId⟩⟩,.succeeded)) := by
  have hσ := Splitting.atMost_reliable 0
  have hτ := Splitting.atMost_reliable 2
  obtain ⟨_,_,_,_,_,h⟩ := run_flow hσ hτ workerSeven (dyingOps.take 2)
  obtain ⟨turns,receives,hall⟩ := flow_drains hσ hτ h rfl
  rw [← run_append] at hall
  refine ⟨turns,receives,?_⟩
  have hfirst := run_completes hσ hτ workerSeven
    (dyingOps.take 2 ++ (List.replicate turns .turn ++ List.replicate receives .recv))
  have hone : ((Link.said workerSeven (run (step (.atMost 0) (.atMost 2)) (start workerSeven)
      (dyingOps.take 2)).sent).filterMap accept).map (fun c => (c.message.stamp,c.outcome)) =
      [(⟨⟨4⟩,⟨5⟩,⟨7⟩⟩,.succeeded)] := by decide +kernel
  rw [hall,hone] at hfirst
  exact ⟨by rw [hall,hone],hfirst⟩

end RecoveryPlanner
