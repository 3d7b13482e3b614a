import RecoveryPlanner.Digest
import RecoveryPlanner.Segments
set_option autoImplicit false

/-! The framed transport of `transport.cpp` over a byte stream that may be split anywhere.
A call that is interrupted is repeated as it was, so only the others count; and how far the
sender has got when the receiver calls shows only in how many bytes the call returns. -/

namespace RecoveryPlanner

open Channel

def kFrameMagic : UInt32 := 0x52504631
def kFrameVersion : UInt8 := 1
def kMaxFramePayload : UInt32 := 1024*1024

/-- The transport's own copy of the checksum, with a table and a loop of its own. -/
def crc32cBytesTable : Vector UInt32 256 := Vector.ofFn (fun i => crcShift 8 i.val.toUInt32)

def crc32cBytes (data : Bytes) : UInt32 :=
  ~~~ data.foldl
    (fun crc b => crc32cBytesTable.get (crcIndex (crc ^^^ b.toUInt32)) ^^^ (crc >>> 8)) (~~~ 0)

def readU32 (p : Bytes) : UInt32 := (fromBigEndian (p.take 4)).toUInt32

def writeU32 (v : UInt32) : Bytes := bigEndian 4 v.toNat

def recvAll (σ : Splitting) (len : Nat) (c : Channel UInt8) : Option Bytes × Channel UInt8 :=
  readAll σ len c

def sendAll (σ : Splitting) (buf : Bytes) (c : Channel UInt8) : Bool × Channel UInt8 :=
  writeAll σ buf c

def frameHeader (payload : Bytes) : Bytes :=
  writeU32 kFrameMagic ++ [kFrameVersion] ++ writeU32 payload.length.toUInt32

def sendFrame (σ : Splitting) (payload : Bytes) (c : Channel UInt8) : Bool × Channel UInt8 :=
  if kMaxFramePayload.toNat < payload.length then (false,c)
  else
    let header := frameHeader payload
    let tail := writeU32 (crc32cBytes payload)
    match sendAll σ header c with
    | (false,c) => (false,c)
    | (true,c) =>
      match if payload.isEmpty then (true,c) else sendAll σ payload c with
      | (false,c) => (false,c)
      | (true,c) => sendAll σ tail c

def recvBody (σ : Splitting) (len : UInt32) (c : Channel UInt8) :
    Except Str (Option Bytes) × Channel UInt8 :=
  match if len = 0 then (some [],c) else recvAll σ len.toNat c with
  | (none,c) => (.ok none,c)
  | (some payload,c) =>
    match recvAll σ 4 c with
    | (none,c) => (.ok none,c)
    | (some crcbuf,c) =>
      if crc32cBytes payload ≠ readU32 crcbuf then
        (.error (text "malformed transport frame: checksum mismatch"),c)
      else (.ok (some payload),c)

def recvFrame (σ : Splitting) (c : Channel UInt8) :
    Except Str (Option Bytes) × Channel UInt8 :=
  match recvAll σ 9 c with
  | (none,c) => (.ok none,c)
  | (some header,c) =>
    if readU32 header ≠ kFrameMagic then
      (.error (text "malformed transport frame: bad magic"),c)
    else if header.getD 4 0 ≠ kFrameVersion then
      (.error (text "malformed transport frame: unsupported version"),c)
    else if kMaxFramePayload < readU32 (header.drop 5) then
      (.error (text "malformed transport frame: oversized payload"),c)
    else recvBody σ (readU32 (header.drop 5)) c

def frame (payload : Bytes) : Bytes :=
  frameHeader payload ++ (payload ++ writeU32 (crc32cBytes payload))

def Framable (payload : Bytes) : Prop := payload.length ≤ kMaxFramePayload.toNat

theorem writeU32_length (v : UInt32) : (writeU32 v).length = 4 := bigEndian_length 4 _

theorem readU32_writeU32 (v : UInt32) (rest : Bytes) : readU32 (writeU32 v ++ rest) = v := by
  rw [readU32,List.take_left' (writeU32_length v)]
  exact toUInt32_bigEndian v

theorem frameHeader_length (payload : Bytes) : (frameHeader payload).length = 9 := by
  simp [frameHeader,writeU32_length]

theorem frame_length (payload : Bytes) : (frame payload).length = payload.length+13 := by
  simp only [frame,List.length_append,frameHeader_length,writeU32_length]
  omega

theorem frameHeader_fields (payload : Bytes) :
    readU32 (frameHeader payload) = kFrameMagic ∧
    (frameHeader payload).getD 4 0 = kFrameVersion ∧
    readU32 ((frameHeader payload).drop 5) = payload.length.toUInt32 := by
  have hm := writeU32_length kFrameMagic
  refine ⟨?_,?_,?_⟩
  · rw [frameHeader,List.append_assoc]
    exact readU32_writeU32 _ _
  · rw [frameHeader,List.append_assoc,List.getD_append_right _ _ _ _ (by omega),hm]
    rfl
  · have hdrop : (frameHeader payload).drop 5 = writeU32 payload.length.toUInt32 := by
      rw [frameHeader,List.drop_left' (by simp [hm])]
    have hread := readU32_writeU32 payload.length.toUInt32 []
    rw [hdrop]
    simpa using hread

theorem length_toUInt32 {payload : Bytes} (h : Framable payload) :
    payload.length.toUInt32.toNat = payload.length := by
  have hmax : kMaxFramePayload.toNat = 2^20 := by decide
  unfold Framable at h
  exact toNat_length_toUInt32 (by omega)

theorem sendFrame_spec {σ : Splitting} (hσ : σ.Reliable) {payload : Bytes}
    (h : Framable payload) (c : Channel UInt8) :
    ∃ calls, sendFrame σ payload c = (true,⟨calls,c.data ++ frame payload⟩) := by
  obtain ⟨calls1,h1⟩ := writeAll_spec hσ (frameHeader payload) c
  unfold sendFrame sendAll
  rw [if_neg (Nat.not_lt.mpr h)]
  simp only [h1]
  by_cases hp : payload = []
  · obtain ⟨calls2,h2⟩ := writeAll_spec hσ (writeU32 (crc32cBytes payload))
      ⟨calls1,c.data ++ frameHeader payload⟩
    refine ⟨calls2,?_⟩
    simp only [hp,List.isEmpty_nil,if_true] at h2 ⊢
    rw [h2]
    simp [frame]
  · obtain ⟨calls2,h2⟩ := writeAll_spec hσ payload ⟨calls1,c.data ++ frameHeader payload⟩
    obtain ⟨calls3,h3⟩ := writeAll_spec hσ (writeU32 (crc32cBytes payload))
      ⟨calls2,c.data ++ frameHeader payload ++ payload⟩
    refine ⟨calls3,?_⟩
    have hne : payload.isEmpty = false := by simpa using hp
    simp only [hne,Bool.false_eq_true,if_false,h2,h3]
    simp [frame,List.append_assoc]

section Receive

variable {σ : Splitting} (hσ : σ.Reliable) {payload : Bytes} (h : Framable payload)

include hσ h

theorem recvFrame_header (calls : Nat) (rest : Bytes) :
    ∃ calls', recvFrame σ ⟨calls,frameHeader payload ++ rest⟩ =
      recvBody σ payload.length.toUInt32 ⟨calls',rest⟩ := by
  obtain ⟨calls',hr⟩ := readAll_append hσ (frameHeader_length payload) rest calls
  obtain ⟨hmagic,hversion,hlen⟩ := frameHeader_fields payload
  have hsmall : ¬ kMaxFramePayload < payload.length.toUInt32 := by
    rw [UInt32.lt_iff_toNat_lt,length_toUInt32 h]
    exact Nat.not_lt.mpr h
  refine ⟨calls',?_⟩
  simp only [recvFrame,recvAll,hr,hmagic,hversion,hlen,ne_eq,not_true,if_false,if_neg hsmall]

omit hσ in
theorem length_eq_zero_iff : payload.length.toUInt32 = 0 ↔ payload = [] := by
  have hlen := length_toUInt32 h
  constructor
  · intro h0
    rw [h0] at hlen
    exact List.eq_nil_of_length_eq_zero hlen.symm
  · rintro rfl
    rfl

theorem recvBody_spec (calls : Nat) (rest : Bytes) :
    ∃ calls', recvBody σ payload.length.toUInt32
      ⟨calls,payload ++ (writeU32 (crc32cBytes payload) ++ rest)⟩ =
      (.ok (some payload),⟨calls',rest⟩) := by
  have hcrc := readU32_writeU32 (crc32cBytes payload) []
  rw [List.append_nil] at hcrc
  unfold recvBody recvAll
  rw [length_toUInt32 h]
  by_cases hp : payload = []
  · obtain ⟨calls1,h1⟩ := readAll_append hσ (writeU32_length (crc32cBytes payload)) rest calls
    refine ⟨calls1,?_⟩
    rw [if_pos ((length_eq_zero_iff h).mpr hp)]
    subst hp
    simp only [List.nil_append,h1,hcrc,ne_eq,not_true,if_false]
  · obtain ⟨calls1,h1⟩ := readAll_append hσ (Eq.refl payload.length)
      (writeU32 (crc32cBytes payload) ++ rest) calls
    obtain ⟨calls2,h2⟩ := readAll_append hσ (writeU32_length (crc32cBytes payload)) rest calls1
    refine ⟨calls2,?_⟩
    rw [if_neg (mt (length_eq_zero_iff h).mp hp)]
    simp only [h1,h2,hcrc,ne_eq,not_true,if_false]

theorem recvFrame_spec (calls : Nat) (rest : Bytes) :
    ∃ calls', recvFrame σ ⟨calls,frame payload ++ rest⟩ = (.ok (some payload),⟨calls',rest⟩) := by
  obtain ⟨calls1,h1⟩ := recvFrame_header hσ h calls
    (payload ++ (writeU32 (crc32cBytes payload) ++ rest))
  obtain ⟨calls2,h2⟩ := recvBody_spec hσ h calls1 rest
  refine ⟨calls2,?_⟩
  rw [frame,List.append_assoc,List.append_assoc,h1,h2]

omit h in
theorem recvFrame_short {cut : Bytes} (hcut : cut.length < 9) (calls : Nat) :
    ∃ calls', recvFrame σ ⟨calls,cut⟩ = (.ok none,⟨calls',[]⟩) := by
  obtain ⟨calls',hr⟩ := readAll_short hσ hcut calls
  refine ⟨calls',?_⟩
  simp only [recvFrame,recvAll,hr]

/-- The data ends in the payload or in the checksum. -/
theorem recvBody_cut {k : Nat} (hk : k < payload.length+4) (calls : Nat) :
    ∃ calls', recvBody σ payload.length.toUInt32
      ⟨calls,(payload ++ writeU32 (crc32cBytes payload)).take k⟩ = (.ok none,⟨calls',[]⟩) := by
  have htail := writeU32_length (crc32cBytes payload)
  unfold recvBody recvAll
  rw [length_toUInt32 h]
  by_cases hp : payload = []
  · have hshort : ((payload ++ writeU32 (crc32cBytes payload)).take k).length < 4 := by
      rw [hp,List.length_nil] at hk
      rw [List.length_take]
      omega
    obtain ⟨calls1,h1⟩ := readAll_short hσ hshort calls
    refine ⟨calls1,?_⟩
    rw [if_pos ((length_eq_zero_iff h).mpr hp)]
    simp only [h1]
  · rw [if_neg (mt (length_eq_zero_iff h).mp hp)]
    by_cases hk' : k < payload.length
    · have hshort :
          ((payload ++ writeU32 (crc32cBytes payload)).take k).length < payload.length := by
        rw [List.length_take]
        omega
      obtain ⟨calls1,h1⟩ := readAll_short hσ hshort calls
      refine ⟨calls1,?_⟩
      simp only [h1]
    · have hsplit : (payload ++ writeU32 (crc32cBytes payload)).take k =
          payload ++ (writeU32 (crc32cBytes payload)).take (k-payload.length) := by
        rw [List.take_append,List.take_of_length_le (by omega)]
      have hshort : ((writeU32 (crc32cBytes payload)).take (k-payload.length)).length < 4 := by
        rw [List.length_take]
        omega
      obtain ⟨calls1,h1⟩ := readAll_append hσ (Eq.refl payload.length)
        ((writeU32 (crc32cBytes payload)).take (k-payload.length)) calls
      obtain ⟨calls2,h2⟩ := readAll_short hσ hshort calls1
      refine ⟨calls2,?_⟩
      rw [hsplit]
      simp only [h1,h2]

theorem recvFrame_cut {k : Nat} (hk : k < (frame payload).length) (calls : Nat) :
    ∃ calls', recvFrame σ ⟨calls,(frame payload).take k⟩ = (.ok none,⟨calls',[]⟩) := by
  rw [frame_length] at hk
  have hheader := frameHeader_length payload
  by_cases hshort : k < 9
  · refine recvFrame_short hσ ?_ calls
    rw [List.length_take]
    omega
  · have hsplit : (frame payload).take k = frameHeader payload ++
        (payload ++ writeU32 (crc32cBytes payload)).take (k-9) := by
      rw [frame,List.take_append,List.take_of_length_le (by omega),hheader]
    obtain ⟨calls1,h1⟩ := recvFrame_header hσ h calls
      ((payload ++ writeU32 (crc32cBytes payload)).take (k-9))
    obtain ⟨calls2,h2⟩ := recvBody_cut hσ h (k := k-9) (by omega) calls1
    exact ⟨calls2,by rw [hsplit,h1,h2]⟩

end Receive

def sentStream (σ : Splitting) (payloads : List Bytes) : Bytes :=
  (sends (sendFrame σ) payloads {}).2.data

theorem sends_frame {σ : Splitting} (hσ : σ.Reliable) {payloads : List Bytes}
    (h : ∀ p ∈ payloads, Framable p) :
    (sends (sendFrame σ) payloads {}).1 = List.replicate payloads.length true ∧
    sentStream σ payloads = payloads.flatMap frame := by
  obtain ⟨calls,hs⟩ := sends_frames (fun p c hp => sendFrame_spec hσ hp c) h {}
  rw [sentStream,hs]
  exact ⟨rfl,List.nil_append _⟩

theorem receives_sent {σ τ : Splitting} (hσ : σ.Reliable) (hτ : τ.Reliable)
    {payloads : List Bytes} (h : ∀ p ∈ payloads, Framable p) :
    (receives (recvFrame τ) payloads.length { data := sentStream σ payloads }).1 =
      payloads.map (fun p => .ok (some p)) := by
  obtain ⟨calls,hr⟩ := receives_frames (fun p calls rest hp => recvFrame_spec hτ hp calls rest)
    h 0 []
  rw [List.append_nil] at hr
  rw [(sends_frame hσ h).2,hr]

theorem receives_cut {τ : Splitting} (hτ : τ.Reliable) {front : List Bytes}
    (hfront : ∀ p ∈ front, Framable p) {p : Bytes} (hp : Framable p) {k : Nat}
    (hk : k < (frame p).length) (more : Nat) :
    (receives (recvFrame τ) (front.length+more)
        { data := front.flatMap frame ++ (frame p).take k }).1 =
      front.map (fun p => .ok (some p)) ++ List.replicate more (.ok none) := by
  obtain ⟨calls,hr⟩ := receives_frames
    (fun p calls rest hp => recvFrame_spec hτ hp calls rest) hfront 0 ((frame p).take k)
  rw [receives_add,hr]
  congr 1
  cases more with
  | zero => rfl
  | succ more =>
    obtain ⟨calls1,h1⟩ := recvFrame_cut hτ hp hk calls
    simp only [receives,h1,List.replicate_succ]
    rw [receives_end (fun calls => recvFrame_short hτ (by simp) calls) more calls1]

theorem sentStream_take {σ : Splitting} (hσ : σ.Reliable) {front back : List Bytes} {p : Bytes}
    (h : ∀ q ∈ front ++ p :: back, Framable q) {k : Nat}
    (hlo : (sentStream σ front).length ≤ k) (hhi : k < (sentStream σ (front ++ [p])).length) :
    ∃ j, j < (frame p).length ∧
      (sentStream σ (front ++ p :: back)).take k = front.flatMap frame ++ (frame p).take j := by
  have hfront : ∀ q ∈ front, Framable q := fun q hq => h q (List.mem_append_left _ hq)
  have hfp : ∀ q ∈ front ++ [p], Framable q := by
    intro q hq
    rcases List.mem_append.mp hq with hq | hq
    · exact hfront q hq
    · exact h q (by simp [List.mem_singleton.mp hq])
  rw [(sends_frame hσ hfront).2] at hlo
  rw [(sends_frame hσ hfp).2,List.flatMap_append,List.flatMap_singleton,
    List.length_append] at hhi
  refine ⟨k-(front.flatMap frame).length,by omega,?_⟩
  rw [(sends_frame hσ h).2,List.flatMap_append,List.flatMap_cons,List.take_append,
    List.take_of_length_le hlo,List.take_append_of_le_length (by omega)]

/-- However the two sides' calls split the bytes: all payloads are sent, and they are received
in order and unchanged; on a stream that ends inside the frame of `p`, the payloads in front of
it are, and every further call returns `false`. -/
theorem frames_arrive {σ τ : Splitting} (hσ : σ.Reliable) (hτ : τ.Reliable)
    {payloads : List Bytes} (h : ∀ p ∈ payloads, p.length ≤ kMaxFramePayload.toNat) :
    (sends (sendFrame σ) payloads {}).1 = List.replicate payloads.length true ∧
    (receives (recvFrame τ) payloads.length { data := sentStream σ payloads }).1 =
      payloads.map (fun p => .ok (some p)) ∧
    ∀ front p back, payloads = front ++ p :: back → ∀ k more,
      (sentStream σ front).length ≤ k → k < (sentStream σ (front ++ [p])).length →
      (receives (recvFrame τ) (front.length+more)
          { data := (sentStream σ payloads).take k }).1 =
        front.map (fun p => .ok (some p)) ++ List.replicate more (.ok none) := by
  refine ⟨(sends_frame hσ h).1,receives_sent hσ hτ h,?_⟩
  rintro front p back rfl k more hlo hhi
  obtain ⟨j,hj,hcut⟩ := sentStream_take hσ h hlo hhi
  rw [hcut]
  exact receives_cut hτ (fun q hq => h q (List.mem_append_left _ hq)) (h p (by simp)) hj more

theorem frames_arrive_fragmented :
    let stream := sentStream (.atMost 0) [[],[7,8,9]]
    (receives (recvFrame (.atMost 2)) 2 { data := stream }).1 =
      [.ok (some []),.ok (some [7,8,9])] ∧
    (receives (recvFrame (.atMost 2)) 2 { data := stream.take 24 }).1 =
      [.ok (some []),.ok none] := by
  have hsmall : ∀ p ∈ ([[],[7,8,9]] : List Bytes), p.length ≤ kMaxFramePayload.toNat := by decide
  have h := frames_arrive (Splitting.atMost_reliable 0) (Splitting.atMost_reliable 2) hsmall
  exact ⟨h.2.1,h.2.2 [[]] [7,8,9] [] rfl 24 1 (by decide +kernel) (by decide +kernel)⟩

end RecoveryPlanner
