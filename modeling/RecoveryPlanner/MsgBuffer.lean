import RecoveryPlanner.Protocol
set_option autoImplicit false

/-! The decoder of `protocol.cpp` as it runs: it reads the payload by index and fills the
caller's message as it goes, whether it accepts the payload in the end or not. -/

namespace RecoveryPlanner

namespace Proto

/-- The bytes from `pos` on, one after the other; a read behind the end has no value. -/
def readRange (input : Bytes) (pos : Nat) : Nat → Option Bytes
  | 0 => some []
  | n+1 => do
      let b ← input[pos]?
      let bs ← readRange input (pos+1) n
      some (b :: bs)

def readU64 (input : Bytes) (pos : Nat) : Option UInt64 :=
  (readRange input pos 8).map fun w => (fromBigEndian w).toUInt64

def readU32 (input : Bytes) (pos : Nat) : Option UInt32 :=
  (readRange input pos 4).map fun w => (fromBigEndian w).toUInt32

/-- `get_str` and `get_blob` at a position: outside, `none` is a read behind the end;
inside, it is the refusal. -/
def getCountedAt (max : UInt32) (input : Bytes) (pos : Nat) : Option (Option (Bytes × Nat)) :=
  if input.length < pos+4 then some none
  else do
    let n ← readU32 input pos
    let pos := pos+4
    if max < n then some none
    else if input.length < pos+n.toNat then some none
    else do
      let s ← readRange input pos n.toNat
      some (some (s,pos+n.toNat))

def getStrAt (input : Bytes) (pos : Nat) : Option (Option (Str × Nat)) :=
  getCountedAt kStrMax input pos

def getBlobAt (input : Bytes) (pos : Nat) : Option (Option (Bytes × Nat)) :=
  getCountedAt kBlobMax input pos

/-- The flag that `decode` returns and what it leaves in its output message. -/
def decodeInto (input : Bytes) (out : Msg) : Option (Bool × Msg) :=
  if input.length < 1+32 then some (false,out)
  else do
    let type ← input[0]?
    let a ← readU64 input 1
    let b ← readU64 input 9
    let c ← readU64 input 17
    let d ← readU64 input 25
    let out := { out with type := .ofByte type, a := a, b := b, c := c, d := d }
    match ← getStrAt input 33 with
    | none => some (false,out)
    | some (s1,pos) =>
      let out := { out with s1 := s1 }
      match ← getStrAt input pos with
      | none => some (false,out)
      | some (s2,pos) =>
        let out := { out with s2 := s2 }
        match ← getBlobAt input pos with
        | none => some (false,out)
        | some (blob,pos) => some (pos = input.length,{ out with blob := blob })

theorem readRange_eq (input : Bytes) (pos n : Nat) (h : pos+n ≤ input.length) :
    readRange input pos n = some ((input.drop pos).take n) := by
  induction n generalizing pos with
  | zero => simp [readRange]
  | succ n ih =>
    have hpos : pos < input.length := by omega
    have hrest := ih (pos+1) (by omega)
    rw [List.drop_eq_getElem_cons hpos,List.take_succ_cons]
    simp [readRange,hpos,hrest]

theorem readU64_eq (input : Bytes) (pos : Nat) (h : pos+8 ≤ input.length) :
    readU64 input pos = some (getU64 (input.drop pos)) := by
  rw [readU64,readRange_eq input pos 8 h]
  rfl

theorem readU32_eq (input : Bytes) (pos : Nat) (h : pos+4 ≤ input.length) :
    readU32 input pos = some (getU32 (input.drop pos)) := by
  rw [readU32,readRange_eq input pos 4 h]
  rfl

/-- Reading at a position within the input is reading off the front of what is left there,
and never leaves the input. -/
theorem getCountedAt_eq (max : UInt32) {input : Bytes} {pos : Nat} (h : pos ≤ input.length) :
    (getCounted max (input.drop pos) = none ∧ getCountedAt max input pos = some none) ∨
    ∃ s pos', getCounted max (input.drop pos) = some (s,input.drop pos') ∧
      getCountedAt max input pos = some (some (s,pos')) ∧ pos' ≤ input.length := by
  by_cases h4 : input.length < pos+4
  · refine .inl ⟨?_,by simp [getCountedAt,h4]⟩
    rw [getCounted,if_pos (by rw [List.length_drop]; omega)]
  have hlong : ¬ (input.drop pos).length < 4 := by rw [List.length_drop]; omega
  have hn := readU32_eq input pos (by omega)
  by_cases hmax : max < getU32 (input.drop pos)
  · exact .inl ⟨by simp only [getCounted,if_neg hlong,if_pos hmax],
      by simp [getCountedAt,h4,hn,hmax]⟩
  have hdrop : (input.drop pos).drop 4 = input.drop (pos+4) := List.drop_drop
  by_cases hlen : input.length < pos+4+(getU32 (input.drop pos)).toNat
  · have hshort : (input.drop (pos+4)).length < (getU32 (input.drop pos)).toNat := by
      rw [List.length_drop]; omega
    exact .inl ⟨by simp only [getCounted,if_neg hlong,if_neg hmax,hdrop,if_pos hshort],
      by simp [getCountedAt,h4,hn,hmax,hlen]⟩
  · have hshort : ¬ (input.drop (pos+4)).length < (getU32 (input.drop pos)).toNat := by
      rw [List.length_drop]; omega
    have hread := readRange_eq input (pos+4) (getU32 (input.drop pos)).toNat (by omega)
    refine .inr ⟨(input.drop (pos+4)).take (getU32 (input.drop pos)).toNat,
      pos+4+(getU32 (input.drop pos)).toNat,?_,?_,by omega⟩
    · simp only [getCounted,if_neg hlong,if_neg hmax,hdrop,if_neg hshort,List.drop_drop]
    · simp [getCountedAt,h4,hn,hmax,hlen,hread]

theorem decodeInto_short {input : Bytes} (h : input.length < 33) (out : Msg) :
    decodeInto input out = some (false,out) ∧ decode input = none := by
  have h' : input.length < 1+32 := by omega
  exact ⟨by rw [decodeInto,if_pos h'],by rw [decode,if_pos h']⟩

def filled (input : Bytes) (out : Msg) : Msg :=
  { out with
    type := .ofByte (input.headD 0)
    a := getU64 (input.drop 1)
    b := getU64 (input.drop 9)
    c := getU64 (input.drop 17)
    d := getU64 (input.drop 25) }

/-- On a payload with all its fixed fields the message's own are overwritten, and the rest
as far as the decoder gets. Where it gets to the end the message is the one decoded. -/
theorem decodeInto_long {input : Bytes} (h : 33 ≤ input.length) (out : Msg) :
    ∃ m, decodeInto input out = some ((decode input).isSome,m) ∧
      m.type = .ofByte (input.headD 0) ∧ ∀ m', decode input = some m' → m = m' := by
  have hlong : ¬ input.length < 1+32 := by omega
  have htype : input[0]? = some (input.headD 0) := by
    cases input with
    | nil => simp at h
    | cons b input => rfl
  have ha := readU64_eq input 1 (by omega)
  have hb := readU64_eq input 9 (by omega)
  have hc := readU64_eq input 17 (by omega)
  have hd := readU64_eq input 25 (by omega)
  simp only [decodeInto,decode,if_neg hlong,htype,ha,hb,hc,hd,Option.bind_eq_bind,Option.bind_some,
    getStr,getBlob,getStrAt,getBlobAt]
  rcases getCountedAt_eq kStrMax h with ⟨h1,h1'⟩ | ⟨s1,p1,h1,h1',hp1⟩
  · refine ⟨filled input out,?_,rfl,by simp [h1]⟩
    simp only [h1,h1',Option.bind_some,Option.bind_none]
    rfl
  rcases getCountedAt_eq kStrMax hp1 with ⟨h2,h2'⟩ | ⟨s2,p2,h2,h2',hp2⟩
  · refine ⟨{ filled input out with s1 := s1 },?_,rfl,by simp [h1,h2]⟩
    simp only [h1,h1',h2,h2',Option.bind_some,Option.bind_none]
    rfl
  rcases getCountedAt_eq kBlobMax hp2 with ⟨h3,h3'⟩ | ⟨blob,p3,h3,h3',hp3⟩
  · refine ⟨{ filled input out with s1 := s1, s2 := s2 },?_,rfl,by simp [h1,h2,h3]⟩
    simp only [h1,h1',h2,h2',h3,h3',Option.bind_some,Option.bind_none]
    rfl
  · refine ⟨{ filled input out with s1 := s1, s2 := s2, blob := blob },?_,rfl,?_⟩
    · simp only [h1,h1',h2,h2',h3,h3',Option.bind_some]
      by_cases hend : p3 = input.length
      · simp [hend,filled]
      · have hleft : ¬ input.length ≤ p3 := by omega
        simp [hend,hleft,filled]
    · simp only [h1,h2,h3,Option.bind_some]
      intro m' hm'
      split at hm'
      · exact Option.some.inj hm'
      · simp at hm'

/-- The decoder in place never reads behind the input, and accepts what `decode` accepts,
with the same message, whatever the message held before. -/
theorem decodeInto_spec (input : Bytes) (out : Msg) :
    ∃ m, decodeInto input out = some ((decode input).isSome,m) ∧
      ∀ m', decode input = some m' → m = m' := by
  by_cases h : input.length < 33
  · obtain ⟨hinto,hnone⟩ := decodeInto_short h out
    exact ⟨out,by rw [hinto,hnone]; rfl,by simp [hnone]⟩
  · obtain ⟨m,hm,_,hsame⟩ := decodeInto_long (Nat.le_of_not_lt h) out
    exact ⟨m,hm,hsame⟩

theorem decodeInto_accepts (input : Bytes) (out m : Msg) :
    decodeInto input out = some (true,m) ↔ decode input = some m := by
  obtain ⟨m',hinto,hsame⟩ := decodeInto_spec input out
  rw [hinto]
  cases hd : decode input with
  | none => simp
  | some m'' => simp [hsame m'' hd]

/-- Encoding and decoding are inverse between the messages within the bounds and the
payloads accepted; no payload makes the decoder read outside it. -/
theorem codec_exact (out : Msg) :
    (∀ m : Msg, decodeInto (encode m) out = some (true,m) ↔
      m.s1.length ≤ 65536 ∧ m.s2.length ≤ 65536 ∧ m.blob.length ≤ 1048576) ∧
    (∀ input m, decodeInto input out = some (true,m) →
      encode m = input ∧ m.s1.length ≤ 65536 ∧ m.s2.length ≤ 65536 ∧ m.blob.length ≤ 1048576) ∧
    (∀ input, decodeInto input out ≠ none) := by
  have hbounds (m : Msg) : m.Bounded ↔
      m.s1.length ≤ 65536 ∧ m.s2.length ≤ 65536 ∧ m.blob.length ≤ 1048576 :=
    ⟨fun h => ⟨h.s1,h.s2,h.blob⟩,fun h => ⟨h.1,h.2.1,h.2.2⟩⟩
  refine ⟨fun m => ?_,fun input m h => ?_,fun input => ?_⟩
  · rw [decodeInto_accepts,decode_eq_some_iff,hbounds]
    exact and_iff_left rfl
  · obtain ⟨hm,henc⟩ := (decode_eq_some_iff input m).mp ((decodeInto_accepts input out m).mp h)
    exact ⟨henc,(hbounds m).mp hm⟩
  · obtain ⟨m,hm,_⟩ := decodeInto_spec input out
    rw [hm]
    simp

def LeavesOutput (input : Bytes) : Prop :=
  ∀ out m, decodeInto input out = some (false,m) → m = out

def WellFormed (input : Bytes) : Prop := ∃ m : Msg, m.Bounded ∧ encode m = input

theorem wellFormed_iff (input : Bytes) : WellFormed input ↔ (decode input).isSome = true := by
  simp only [WellFormed,Option.isSome_iff_exists,decode_eq_some_iff]

theorem decodeInto_rejects (input : Bytes) (out : Msg) :
    (∃ m, decodeInto input out = some (false,m)) ↔ ¬ WellFormed input := by
  obtain ⟨m,hinto,_⟩ := decodeInto_spec input out
  rw [hinto,wellFormed_iff]
  simp

theorem rejected_type {input : Bytes} {out m : Msg} (h : decodeInto input out = some (false,m)) :
    m.type = if input.length < 33 then out.type else .ofByte (input.headD 0) := by
  split
  · rename_i hshort
    rw [(decodeInto_short hshort out).1] at h
    rw [(Prod.mk.inj (Option.some.inj h)).2]
  · rename_i hlong
    obtain ⟨m',hinto,htype,_⟩ := decodeInto_long (Nat.le_of_not_lt hlong) out
    rw [hinto] at h
    rw [← (Prod.mk.inj (Option.some.inj h)).2,htype]

theorem leavesOutput_iff (input : Bytes) :
    LeavesOutput input ↔ input.length < 33 ∨ WellFormed input := by
  constructor
  · intro h
    by_contra hne
    obtain ⟨hlong,hbad⟩ := not_or.mp hne
    -- A message of another type is changed.
    have hout (out : Msg) : out.type = .ofByte (input.headD 0) := by
      obtain ⟨m,hm⟩ := (decodeInto_rejects input out).mpr hbad
      have htype := rejected_type hm
      rwa [if_neg hlong,h out m hm] at htype
    have htwo := (hout { type := .none }).trans (hout { type := .register }).symm
    exact absurd htwo (by decide)
  · rintro (hshort | hgood) out m hm
    · rw [(decodeInto_short hshort out).1] at hm
      exact (Prod.mk.inj (Option.some.inj hm)).2.symm
    · exact absurd hgood ((decodeInto_rejects input out).mp ⟨m,hm⟩)

/-- The output survives a rejection exactly when the payload is too short for the fixed
fields, or is not rejected. A default message takes its type from every other payload. -/
theorem output_atomic_iff (input : Bytes) :
    (LeavesOutput input ↔ input.length < 33 ∨ WellFormed input) ∧
    (∀ t, t ≠ .none → ((∃ m, decodeInto input {} = some (false,m) ∧ m.type = t) ↔
      ¬ (input.length < 33 ∨ WellFormed input) ∧ input.headD 0 = t.toByte)) := by
  refine ⟨leavesOutput_iff input,fun t ht => ⟨?_,?_⟩⟩
  · rintro ⟨m,hm,htype⟩
    have hkind := rejected_type hm
    have hbad := (decodeInto_rejects input {}).mp ⟨m,hm⟩
    split at hkind
    · exact absurd (htype.symm.trans hkind) ht
    · rename_i hlong
      refine ⟨not_or.mpr ⟨hlong,hbad⟩,?_⟩
      rw [← htype,hkind,MsgType.toByte_ofByte]
  · rintro ⟨hne,hhead⟩
    obtain ⟨hlong,hbad⟩ := not_or.mp hne
    obtain ⟨m,hm⟩ := (decodeInto_rejects input {}).mpr hbad
    refine ⟨m,hm,?_⟩
    rw [rejected_type hm,if_neg hlong,hhead,MsgType.ofByte_toByte]

/-- Thirty-three bytes and no strings: refused, and the default message reads as a
registration. -/
theorem rejected_register :
    ¬ LeavesOutput (1 :: List.replicate 32 0) ∧
    decodeInto (1 :: List.replicate 32 0) {} = some (false,{ type := .register }) := by
  have hinto : decodeInto (1 :: List.replicate 32 0) {} = some (false,{ type := .register }) := by
    decide +kernel
  exact ⟨fun h => absurd (h _ _ hinto) (by decide),hinto⟩

end Proto

end RecoveryPlanner
