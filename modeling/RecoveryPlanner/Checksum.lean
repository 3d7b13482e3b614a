import RecoveryPlanner.CrcRegister
import RecoveryPlanner.FrameFormat
import RecoveryPlanner.Transport
set_option autoImplicit false

/-! The checksum of the persisted and of the transported frames is the one shift register that
takes a message bit by bit, and what it sees of a damaged payload. -/

namespace RecoveryPlanner

open CrcRegister

/-- The polynomial 0x82F63B78, reflected. -/
def castagnoli : BitVec 32 := 0x82F63B78#32

def messageBits (data : Bytes) : List Bool := data.flatMap (fun b => lsbBits b.toBitVec)

def crc32cBitwise (data : Bytes) (seed : UInt32) : UInt32 :=
  ⟨checksum castagnoli seed.toBitVec (messageBits data)⟩

theorem and_one_ne_zero (crc : UInt32) : crc &&& 1 ≠ 0 ↔ crc.toBitVec.getLsbD 0 = true := by
  have hand : (crc &&& 1).toBitVec = (BitVec.ofBool (crc.toBitVec.getLsbD 0)).setWidth 32 :=
    BitVec.and_one_eq_setWidth_ofBool_getLsbD
  rw [ne_eq,← UInt32.toBitVec_inj,hand]
  cases crc.toBitVec.getLsbD 0 <;> decide

theorem crcShift_toBitVec (n : Nat) (crc : UInt32) :
    (crcShift n crc).toBitVec = (clock castagnoli)^[n] crc.toBitVec := by
  induction n generalizing crc with
  | zero => rfl
  | succ n ih =>
    rw [crcShift,ih,Function.iterate_succ_apply]
    congr 1
    by_cases hlow : crc &&& 1 ≠ 0
    · rw [if_pos hlow,clock,if_pos ((and_one_ne_zero crc).mp hlow),UInt32.toBitVec_xor,
        BitVec.xor_comm]
      rfl
    · rw [if_neg hlow,clock,if_neg (mt (and_one_ne_zero crc).mpr hlow)]
      rfl

theorem crcIndex_toBitVec (x : UInt32) :
    (crcIndex x).val.toUInt32.toBitVec = (x.toBitVec.setWidth 8).setWidth 32 := by
  have hval : (crcIndex x).val.toUInt32 = x &&& 0xFF := UInt32.ofNat_toNat
  rw [hval]
  apply BitVec.eq_of_toNat_eq
  have hand : (x &&& 0xFF).toNat = x.toNat%2^8 := by
    rw [UInt32.toNat_and]
    exact Nat.and_two_pow_sub_one_eq_mod x.toNat 8
  have hlt : x.toNat%2^8 < 2^32 := by omega
  rw [UInt32.toNat_toBitVec,hand,BitVec.toNat_setWidth,BitVec.toNat_setWidth,
    UInt32.toNat_toBitVec,Nat.mod_eq_of_lt hlt]

theorem messageBits_append (a b : Bytes) :
    messageBits (a ++ b) = messageBits a ++ messageBits b := List.flatMap_append

theorem messageBits_length (data : Bytes) : (messageBits data).length = 8*data.length := by
  induction data with
  | nil => rfl
  | cons b data ih =>
    have hcons : messageBits (b :: data) = lsbBits b.toBitVec ++ messageBits data := rfl
    rw [hcons,List.length_append,lsbBits_length,ih,List.length_cons]
    omega

theorem messageBits_injective : Function.Injective messageBits := by
  intro a
  induction a with
  | nil =>
    intro b h
    have hlen := congrArg List.length h
    rw [messageBits_length,messageBits_length,List.length_nil] at hlen
    exact (List.eq_nil_of_length_eq_zero (by omega)).symm
  | cons x a ih =>
    intro b h
    cases b with
    | nil =>
      have hlen := congrArg List.length h
      rw [messageBits_length,messageBits_length,List.length_cons,List.length_nil] at hlen
      omega
    | cons y b =>
      obtain ⟨hx,hb⟩ := List.append_inj
        (h : lsbBits x.toBitVec ++ messageBits a = lsbBits y.toBitVec ++ messageBits b)
        (by rw [lsbBits_length,lsbBits_length])
      rw [UInt8.toBitVec_inj.mp (lsbBits_injective hx),ih hb]

section Table

variable (table : Vector UInt32 256)
  (h : table = Vector.ofFn (fun i => crcShift 8 i.val.toUInt32))

include h

theorem table_step (crc : UInt32) (b : UInt8) :
    (table.get (crcIndex (crc ^^^ b.toUInt32)) ^^^ (crc >>> 8)).toBitVec =
      feedBits castagnoli (lsbBits b.toBitVec) crc.toBitVec := by
  have hget : table.get (crcIndex (crc ^^^ b.toUInt32)) =
      crcShift 8 (crcIndex (crc ^^^ b.toUInt32)).val.toUInt32 := by
    simp [h,Vector.get]
  rw [hget,UInt32.toBitVec_xor,crcShift_toBitVec,crcIndex_toBitVec,UInt32.toBitVec_xor,
    feedBits_table castagnoli b.toBitVec crc.toBitVec (by decide)]
  rfl

theorem table_loop (data : Bytes) (crc : UInt32) :
    (data.foldl (fun crc b => table.get (crcIndex (crc ^^^ b.toUInt32)) ^^^ (crc >>> 8))
      crc).toBitVec = feedBits castagnoli (messageBits data) crc.toBitVec := by
  induction data generalizing crc with
  | nil => rfl
  | cons b data ih =>
    rw [List.foldl_cons,ih,table_step table h,← feedBits_append]
    rfl

end Table

theorem crc32c_eq (data : Bytes) (seed : UInt32) : crc32c data seed = crc32cBitwise data seed := by
  apply UInt32.toBitVec_inj.mp
  rw [crc32c,UInt32.toBitVec_not,table_loop crc32cTable rfl,UInt32.toBitVec_not]
  rfl

theorem crc32cBytes_eq (data : Bytes) : crc32cBytes data = crc32cBitwise data 0 := by
  apply UInt32.toBitVec_inj.mp
  rw [crc32cBytes,UInt32.toBitVec_not,table_loop crc32cBytesTable rfl,UInt32.toBitVec_not]
  rfl

theorem crc32c_append (a b : Bytes) (seed : UInt32) :
    crc32c (a ++ b) seed = crc32c b (crc32c a seed) := by
  rw [crc32c_eq,crc32c_eq,crc32c_eq]
  apply UInt32.toBitVec_inj.mp
  rw [crc32cBitwise,messageBits_append]
  exact checksum_append castagnoli seed.toBitVec (messageBits a) (messageBits b)

/-- The three loops over a table are the one register, and a message may come in parts. -/
theorem crc32c_bitwise (a b : Bytes) (seed : UInt32) :
    crc32c a seed = crc32cBitwise a seed ∧
    crc32c (a ++ b) seed = crc32c b (crc32c a seed) ∧
    crc32cBytes a = crc32c a 0 :=
  ⟨crc32c_eq a seed,crc32c_append a b seed,by rw [crc32cBytes_eq,crc32c_eq]⟩

example : crc32cBitwise (text "123456789") 0 = 0xE3069283 := by decide +kernel

/-- Two payloads of one length that differ only within four consecutive bytes. -/
structure Altered (p q : Bytes) : Prop where
  ne : p ≠ q
  window : ∃ front w w' back : Bytes, p = front ++ w ++ back ∧ q = front ++ w' ++ back ∧
    w.length = w'.length ∧ w.length ≤ 4

theorem Altered.length_eq {p q : Bytes} (h : Altered p q) : p.length = q.length := by
  obtain ⟨front,w,w',back,rfl,rfl,hl,_⟩ := h.window
  simp [hl]

theorem Altered.crc32c_ne {p q : Bytes} (h : Altered p q) (seed : UInt32) :
    crc32c p seed ≠ crc32c q seed := by
  obtain ⟨front,w,w',back,hp,hq,hl,hw⟩ := h.window
  intro hcrc
  rw [crc32c_eq,crc32c_eq,hp,hq] at hcrc
  have hbits := congrArg UInt32.toBitVec hcrc
  simp only [crc32cBitwise,messageBits_append] at hbits
  have hsame : messageBits w = messageBits w' :=
    burst_detected (by decide) seed.toBitVec
      (by rw [messageBits_length,messageBits_length,hl])
      (by rw [messageBits_length]; omega) hbits
  apply h.ne
  rw [hp,hq,messageBits_injective hsame]

theorem Altered.symm {p q : Bytes} (h : Altered p q) : Altered q p := by
  obtain ⟨front,w,w',back,hp,hq,hl,hw⟩ := h.window
  exact ⟨h.ne.symm,⟨front,w',w,back,hq,hp,hl.symm,by omega⟩⟩

def overwrite (raw : Bytes) (i : Nat) (bytes : Bytes) : Bytes :=
  raw.take i ++ bytes ++ raw.drop (i+bytes.length)

theorem overwrite_append (head : Bytes) {old : Bytes} (tail : Bytes) {bytes : Bytes}
    (hl : old.length = bytes.length) :
    overwrite (head ++ (old ++ tail)) head.length bytes = head ++ (bytes ++ tail) := by
  have hdrop : (head ++ (old ++ tail)).drop (head.length+bytes.length) = tail := by
    rw [← List.append_assoc,List.drop_left' (by rw [List.length_append,hl])]
  rw [overwrite,List.take_left,hdrop,List.append_assoc]

namespace FilePersistenceStore

theorem overwrite_encodeFrame {p q : Bytes} (hl : p.length = q.length) :
    overwrite (encodeFrame p) 12 q =
      ByteWriter.u32 kPersistenceMagic ++ (ByteWriter.u32 kPersistenceFormatVersion ++
        (ByteWriter.u32 p.length.toUInt32 ++ (q ++ ByteWriter.u32 (crc32c p 0)))) := by
  have h := overwrite_append (ByteWriter.u32 kPersistenceMagic ++
    (ByteWriter.u32 kPersistenceFormatVersion ++ ByteWriter.u32 p.length.toUInt32))
    (ByteWriter.u32 (crc32c p 0)) hl
  simp only [List.length_append,u32_length,List.append_assoc] at h
  rw [encodeFrame,flatMap_u8]
  exact h

theorem decodeFrame_altered {p q : Bytes} (h : Altered p q) :
    decodeFrame (overwrite (encodeFrame p) 12 q) = none := by
  refine decodeFrame_eq_none fun payload _ heq => ?_
  rw [overwrite_encodeFrame h.length_eq,encodeFrame_eq,frameWith] at heq
  have htotal := congrArg List.length heq
  simp only [List.length_append,u32_length] at htotal
  obtain ⟨_,heq⟩ := List.append_inj heq rfl
  obtain ⟨_,heq⟩ := List.append_inj heq rfl
  obtain ⟨_,heq⟩ := List.append_inj heq (by rw [u32_length,u32_length])
  obtain ⟨hq,hcrc⟩ := List.append_inj heq (by omega)
  rw [← hq] at hcrc
  exact h.crc32c_ne 0 (u32_injective hcrc)

end FilePersistenceStore

theorem overwrite_frame {p q : Bytes} (hl : p.length = q.length) :
    overwrite (frame p) 9 q = frameHeader p ++ (q ++ writeU32 (crc32cBytes p)) := by
  have h := overwrite_append (frameHeader p) (writeU32 (crc32cBytes p)) hl
  rwa [frameHeader_length] at h

def Mismatched (σ : Splitting) (rest : Bytes) (r : Except Str (Option Bytes) × Channel UInt8) :
    Prop :=
  (r.1 = .ok none ∧ ¬ σ.Reliable) ∨
  ∃ calls, r = (.error (text "malformed transport frame: checksum mismatch"),⟨calls,rest⟩)

theorem recvBody_altered (σ : Splitting) {p q : Bytes} (hp : Framable p) (h : Altered p q)
    (calls : Nat) (rest : Bytes) :
    Mismatched σ rest (recvBody σ p.length.toUInt32
      ⟨calls,q ++ (writeU32 (crc32cBytes p) ++ rest)⟩) := by
  have hcrc := readU32_writeU32 (crc32cBytes p) []
  rw [List.append_nil] at hcrc
  have hne : crc32cBytes q ≠ crc32cBytes p := by
    rw [crc32cBytes_eq,crc32cBytes_eq,← crc32c_eq,← crc32c_eq]
    exact h.symm.crc32c_ne 0
  have hlong : p.length.toUInt32 ≠ 0 := by
    intro h0
    have hnil := (length_eq_zero_iff hp).mp h0
    have hlen := h.length_eq
    rw [hnil,List.length_nil] at hlen
    exact h.ne (hnil.trans (List.eq_nil_of_length_eq_zero hlen.symm).symm)
  unfold recvBody recvAll
  rw [length_toUInt32 hp,if_neg hlong]
  rcases Channel.readAll_cases σ h.length_eq.symm (writeU32 (crc32cBytes p) ++ rest) calls with
    ⟨calls1,h1⟩ | ⟨⟨c,h1⟩,hσ⟩
  · simp only [h1]
    rcases Channel.readAll_cases σ (writeU32_length (crc32cBytes p)) rest calls1 with
      ⟨calls2,h2⟩ | ⟨⟨c,h2⟩,hσ⟩
    · simp only [h2,hcrc]
      exact .inr ⟨calls2,by rw [if_pos hne]⟩
    · simp only [h2]
      exact .inl ⟨rfl,hσ⟩
  · simp only [h1]
    exact .inl ⟨rfl,hσ⟩

theorem recvFrame_altered (σ : Splitting) {p q : Bytes} (hp : Framable p) (h : Altered p q)
    (calls : Nat) (rest : Bytes) :
    Mismatched σ rest (recvFrame σ ⟨calls,overwrite (frame p) 9 q ++ rest⟩) := by
  obtain ⟨hmagic,hversion,hlen⟩ := frameHeader_fields p
  have hsmall : ¬ kMaxFramePayload < p.length.toUInt32 := by
    rw [UInt32.lt_iff_toNat_lt,length_toUInt32 hp]
    exact Nat.not_lt.mpr hp
  rw [overwrite_frame h.length_eq,List.append_assoc,List.append_assoc]
  unfold recvFrame recvAll
  rcases Channel.readAll_cases σ (frameHeader_length p)
      (q ++ (writeU32 (crc32cBytes p) ++ rest)) calls with
    ⟨calls1,h1⟩ | ⟨⟨c,h1⟩,hσ⟩
  · simp only [h1,hmagic,hversion,hlen,ne_eq,not_true,if_false,if_neg hsmall]
    exact recvBody_altered σ hp h calls1 rest
  · simp only [h1]
    exact .inl ⟨rfl,hσ⟩

def Refused (r : Except Str (Option Bytes) × Channel UInt8) : Prop :=
  ∀ payload, r.1 ≠ .ok (some payload)

theorem Mismatched.refused {σ : Splitting} {rest : Bytes}
    {r : Except Str (Option Bytes) × Channel UInt8} (h : Mismatched σ rest r) : Refused r := by
  intro payload
  rcases h with ⟨h,_⟩ | ⟨calls,h⟩
  · simp [h]
  · simp [h]

theorem recvFrame_oversized (σ : Splitting) {p : Bytes} (hlong : ¬ Framable p)
    (hp : p.length < 2^32) (calls : Nat) (rest : Bytes) :
    Refused (recvFrame σ ⟨calls,frameHeader p ++ rest⟩) := by
  obtain ⟨hmagic,hversion,hlen⟩ := frameHeader_fields p
  have hbig : kMaxFramePayload < p.length.toUInt32 := by
    rw [UInt32.lt_iff_toNat_lt,toNat_length_toUInt32 hp]
    exact Nat.lt_of_not_le hlong
  unfold recvFrame recvAll
  rcases Channel.readAll_cases σ (frameHeader_length p) rest calls with
    ⟨calls1,h1⟩ | ⟨⟨c,h1⟩,_⟩
  · simp only [h1,hmagic,hversion,hlen,ne_eq,not_true,if_false,if_pos hbig]
    exact fun payload heq => absurd heq (by simp)
  · simp only [h1]
    exact fun payload heq => absurd heq (by simp)

theorem recvFrame_refused (σ : Splitting) {p q : Bytes} (hp : p.length < 2^32) (h : Altered p q)
    (calls : Nat) (rest : Bytes) :
    Refused (recvFrame σ ⟨calls,overwrite (frame p) 9 q ++ rest⟩) := by
  by_cases hf : Framable p
  · exact (recvFrame_altered σ hf h calls rest).refused
  · rw [overwrite_frame h.length_eq,List.append_assoc]
    exact recvFrame_oversized σ hf hp calls _

/-- An altered window of four bytes is always seen: by the checksum, by `load`, and by
`recv_frame` over every connection; over one without faults it is the checksum that is blamed. -/
theorem altered_detected {p q : Bytes} (h : Altered p q) :
    (∀ seed, crc32c p seed ≠ crc32c q seed) ∧
    (∀ (files : FilePersistenceStore.Directory) (key : Str),
      FilePersistenceStore.load (files.insert (FilePersistenceStore.path key)
        (overwrite (FilePersistenceStore.encodeFrame p) 12 q)) key = none) ∧
    (∀ (σ : Splitting) (calls : Nat) (rest : Bytes), p.length < 2^32 →
      Refused (recvFrame σ ⟨calls,overwrite (frame p) 9 q ++ rest⟩)) ∧
    ∀ (σ : Splitting) (calls : Nat) (rest : Bytes), σ.Reliable → Framable p →
      ∃ calls', recvFrame σ ⟨calls,overwrite (frame p) 9 q ++ rest⟩ =
        (.error (text "malformed transport frame: checksum mismatch"),⟨calls',rest⟩) := by
  refine ⟨h.crc32c_ne,fun files key => ?_,fun σ calls rest hp => recvFrame_refused σ hp h calls rest,
    fun σ calls rest hσ hp => ?_⟩
  · rw [FilePersistenceStore.load_file]
    exact FilePersistenceStore.decodeFrame_altered h
  · rcases recvFrame_altered σ hp h calls rest with ⟨_,hn⟩ | hm
    · exact absurd hσ hn
    · exact hm

theorem altered_detected_bytes :
    crc32c [1,2,3,4,5] 7 ≠ crc32c [1,9,3,4,0] 7 ∧
    FilePersistenceStore.load
      ((FilePersistenceStore.holding (text "state") []).insert
        (FilePersistenceStore.path (text "state"))
        (overwrite (FilePersistenceStore.encodeFrame [1,2,3,4,5]) 12 [1,9,3,4,0]))
      (text "state") = none ∧
    Refused (recvFrame (Splitting.atMost 2)
      ⟨0,overwrite (frame [1,2,3,4,5]) 9 [1,9,3,4,0] ++ [6]⟩) ∧
    ∃ calls, recvFrame (Splitting.atMost 2)
      ⟨0,overwrite (frame [1,2,3,4,5]) 9 [1,9,3,4,0] ++ [6]⟩ =
        (.error (text "malformed transport frame: checksum mismatch"),⟨calls,[6]⟩) := by
  have h : Altered [1,2,3,4,5] [1,9,3,4,0] :=
    ⟨by decide,⟨[1],[2,3,4,5],[9,3,4,0],[],rfl,rfl,rfl,by decide⟩⟩
  obtain ⟨hcrc,hload,hrefused,hblamed⟩ := altered_detected h
  exact ⟨hcrc 7,hload _ _,hrefused _ 0 [6] (by decide),
    hblamed _ 0 [6] (Splitting.atMost_reliable 2) (by unfold Framable; decide)⟩

end RecoveryPlanner
