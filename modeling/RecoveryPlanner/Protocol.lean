import RecoveryPlanner.Digest
set_option autoImplicit false

/-! The messages of `protocol.hpp` and `protocol.cpp`. A payload is read with bounds checks,
and what is accepted is exactly what is written for a message within the bounds. -/

namespace RecoveryPlanner

/-- The type byte is cast from the wire unchecked, so the byte values without an enumerator
are values of the type too. -/
inductive MsgType where
  | none | register | registerAck | run | workDone | dispatch | complete | ping | stop
  | undeclared (i : Fin 247)
  deriving DecidableEq, Repr

namespace MsgType

def toByte : MsgType → UInt8
  | .none => 0
  | .register => 1
  | .registerAck => 2
  | .run => 3
  | .workDone => 4
  | .dispatch => 5
  | .complete => 6
  | .ping => 7
  | .stop => 8
  | .undeclared i => (9+i.val).toUInt8

def ofByte (b : UInt8) : MsgType :=
  match b.toNat with
  | 0 => .none
  | 1 => .register
  | 2 => .registerAck
  | 3 => .run
  | 4 => .workDone
  | 5 => .dispatch
  | 6 => .complete
  | 7 => .ping
  | 8 => .stop
  | n => if h : n-9 < 247 then .undeclared ⟨n-9,h⟩ else .none

theorem ofByte_toByte (t : MsgType) : ofByte t.toByte = t := by
  cases t with
  | undeclared i => revert i; decide +kernel
  | _ => rfl

theorem toByte_ofByte (b : UInt8) : (ofByte b).toByte = b := by
  have h : ∀ i : Fin 256, (ofByte (UInt8.ofFin i)).toByte = UInt8.ofFin i := by decide +kernel
  simpa using h b.toFin

end MsgType

structure Msg where
  type : MsgType := .none
  a : UInt64 := 0
  b : UInt64 := 0
  c : UInt64 := 0
  d : UInt64 := 0
  s1 : Str := []
  s2 : Str := []
  blob : Bytes := []
  deriving DecidableEq, Repr

namespace Proto

def putU64 (x : UInt64) : Bytes := bigEndian 8 x.toNat
def getU64 (p : Bytes) : UInt64 := (fromBigEndian (p.take 8)).toUInt64
def putU8 (x : UInt8) : Bytes := [x]
def putU32 (x : UInt32) : Bytes := bigEndian 4 x.toNat
def getU32 (p : Bytes) : UInt32 := (fromBigEndian (p.take 4)).toUInt32

def putCounted (s : Bytes) : Bytes := putU32 s.length.toUInt32 ++ s

def putStr (s : Str) : Bytes := putCounted s
def putBlob (b : Bytes) : Bytes := putCounted b

def kStrMax : UInt32 := 65536
def kBlobMax : UInt32 := 1024*1024

/-- The common body of `get_str` and `get_blob`, on what is left of the payload. -/
def getCounted (max : UInt32) (p : Bytes) : Option (Bytes × Bytes) :=
  if p.length < 4 then none
  else
    let n := getU32 p
    let p := p.drop 4
    if max < n then none
    else if p.length < n.toNat then none
    else some (p.take n.toNat,p.drop n.toNat)

def getStr (p : Bytes) : Option (Str × Bytes) := getCounted kStrMax p
def getBlob (p : Bytes) : Option (Bytes × Bytes) := getCounted kBlobMax p

def encode (msg : Msg) : Bytes :=
  putU8 msg.type.toByte ++ (putU64 msg.a ++ (putU64 msg.b ++ (putU64 msg.c ++ (putU64 msg.d ++
    (putStr msg.s1 ++ (putStr msg.s2 ++ putBlob msg.blob))))))

def decode (p : Bytes) : Option Msg :=
  if p.length < 1+32 then none
  else do
    let (s1,rest) ← getStr (p.drop 33)
    let (s2,rest) ← getStr rest
    let (blob,rest) ← getBlob rest
    if rest.isEmpty then
      some
        { type := .ofByte (p.headD 0)
          a := getU64 (p.drop 1)
          b := getU64 (p.drop 9)
          c := getU64 (p.drop 17)
          d := getU64 (p.drop 25)
          s1 := s1
          s2 := s2
          blob := blob }
    else none

theorem putU64_length (x : UInt64) : (putU64 x).length = 8 := bigEndian_length 8 _

theorem putU32_length (x : UInt32) : (putU32 x).length = 4 := bigEndian_length 4 _

theorem getU64_put (x : UInt64) (rest : Bytes) : getU64 (putU64 x ++ rest) = x := by
  rw [getU64,List.take_left' (putU64_length x)]
  exact toUInt64_bigEndian x

theorem getU32_put (x : UInt32) (rest : Bytes) : getU32 (putU32 x ++ rest) = x := by
  rw [getU32,List.take_left' (putU32_length x)]
  exact toUInt32_bigEndian x

theorem putU64_get {p : Bytes} (h : 8 ≤ p.length) : putU64 (getU64 p) ++ p.drop 8 = p := by
  have hval : (getU64 p).toNat = fromBigEndian (p.take 8) :=
    Nat.mod_eq_of_lt (fromBigEndian_take_lt 8 p)
  rw [putU64,hval]
  exact bigEndian_take h

theorem putU32_get {p : Bytes} (h : 4 ≤ p.length) : putU32 (getU32 p) ++ p.drop 4 = p := by
  have hval : (getU32 p).toNat = fromBigEndian (p.take 4) :=
    Nat.mod_eq_of_lt (fromBigEndian_take_lt 4 p)
  rw [putU32,hval]
  exact bigEndian_take h

theorem putU64_drop {p : Bytes} {i : Nat} (h : i+8 ≤ p.length) :
    putU64 (getU64 (p.drop i)) ++ p.drop (i+8) = p.drop i := by
  rw [← List.drop_drop]
  exact putU64_get (by rw [List.length_drop]; omega)

theorem getU64_drop {p rest : Bytes} {i : Nat} {x : UInt64} (h : p.drop i = putU64 x ++ rest) :
    getU64 (p.drop i) = x ∧ p.drop (i+8) = rest := by
  rw [← List.drop_drop,h]
  exact ⟨getU64_put x rest,List.drop_left' (putU64_length x)⟩

theorem getCounted_iff {max : UInt32} {p s rest : Bytes} :
    getCounted max p = some (s,rest) ↔ s.length ≤ max.toNat ∧ putCounted s ++ rest = p := by
  constructor
  · intro h
    unfold getCounted at h
    split at h
    · exact absurd h (by simp)
    · rename_i h4
      dsimp only at h
      split at h
      · exact absurd h (by simp)
      · rename_i hmax
        split at h
        · exact absurd h (by simp)
        · rename_i hlen
          obtain ⟨rfl,rfl⟩ := Prod.mk.inj (Option.some.inj h)
          have hs : ((p.drop 4).take (getU32 p).toNat).length = (getU32 p).toNat := by
            rw [List.length_take]
            omega
          refine ⟨by rw [hs]; exact UInt32.le_iff_toNat_le.mp (UInt32.not_lt.mp hmax),?_⟩
          rw [putCounted,hs]
          simpa using putU32_get (Nat.le_of_not_lt h4)
  · rintro ⟨hs,rfl⟩
    have hlt : s.length < 2^32 := Nat.lt_of_le_of_lt hs max.toNat_lt
    have hn : s.length.toUInt32.toNat = s.length := toNat_length_toUInt32 hlt
    have hl := putU32_length s.length.toUInt32
    have hmax : ¬ max < s.length.toUInt32 := by
      rw [UInt32.lt_iff_toNat_lt,hn]
      omega
    unfold getCounted putCounted
    rw [List.append_assoc,getU32_put,List.drop_left' hl]
    simp [hl,hmax,hn]

end Proto

open Proto

structure Msg.Bounded (m : Msg) : Prop where
  s1 : m.s1.length ≤ kStrMax.toNat
  s2 : m.s2.length ≤ kStrMax.toNat
  blob : m.blob.length ≤ kBlobMax.toNat

namespace Proto

theorem encode_length (m : Msg) :
    (encode m).length = 45+m.s1.length+m.s2.length+m.blob.length := by
  simp only [encode,putU8,putStr,putBlob,putCounted,List.length_append,putU64_length,
    putU32_length,List.length_singleton]
  omega

theorem decode_encode {m : Msg} (h : m.Bounded) : decode (encode m) = some m := by
  have hlen : ¬ (encode m).length < 1+32 := by
    rw [encode_length]
    omega
  have htype : MsgType.ofByte ((encode m).headD 0) = m.type := MsgType.ofByte_toByte m.type
  have h1 : (encode m).drop 1 = putU64 m.a ++ _ := rfl
  obtain ⟨ha,h9⟩ := getU64_drop h1
  obtain ⟨hb,h17⟩ := getU64_drop h9
  obtain ⟨hc,h25⟩ := getU64_drop h17
  obtain ⟨hd,h33⟩ := getU64_drop h25
  have hs1 : getStr ((encode m).drop 33) = some (m.s1,putStr m.s2 ++ putBlob m.blob) :=
    getCounted_iff.mpr ⟨h.s1,h33.symm⟩
  have hs2 : getStr (putStr m.s2 ++ putBlob m.blob) = some (m.s2,putBlob m.blob) :=
    getCounted_iff.mpr ⟨h.s2,rfl⟩
  have hblob : getBlob (putBlob m.blob) = some (m.blob,[]) :=
    getCounted_iff.mpr ⟨h.blob,List.append_nil _⟩
  simp only [Nat.reduceAdd] at hb hc hd
  unfold decode
  rw [if_neg hlen,hs1]
  simp only [Option.bind_eq_bind,Option.bind_some,hs2,hblob,List.isEmpty_nil,if_true,htype,ha,hb,
    hc,hd]

theorem encode_decode {p : Bytes} {m : Msg} (h : decode p = some m) :
    m.Bounded ∧ encode m = p := by
  unfold decode at h
  split at h
  · exact absurd h (by simp)
  · rename_i hlen
    simp only [Option.bind_eq_bind,Option.bind_eq_some_iff,Prod.exists] at h
    obtain ⟨s1,r1,h1,s2,r2,h2,blob,r3,h3,h⟩ := h
    obtain ⟨hs1,hp⟩ := getCounted_iff.mp h1
    obtain ⟨hs2,rfl⟩ := getCounted_iff.mp h2
    obtain ⟨hb,rfl⟩ := getCounted_iff.mp h3
    split at h
    · rename_i hend
      obtain rfl := Option.some.inj h
      obtain rfl : r3 = [] := by simpa using hend
      have htype : putU8 (MsgType.ofByte (p.headD 0)).toByte ++ p.drop 1 = p := by
        rw [MsgType.toByte_ofByte]
        cases p with
        | nil => simp at hlen
        | cons b p => rfl
      have htail : putStr s1 ++ (putStr s2 ++ putBlob blob) = p.drop 33 := by
        rw [← hp,List.append_nil]
        rfl
      refine ⟨⟨hs1,hs2,hb⟩,?_⟩
      calc encode _ = putU8 (MsgType.ofByte (p.headD 0)).toByte ++
            (putU64 (getU64 (p.drop 1)) ++ (putU64 (getU64 (p.drop 9)) ++
              (putU64 (getU64 (p.drop 17)) ++ (putU64 (getU64 (p.drop 25)) ++ p.drop 33)))) := by
            rw [← htail]
            rfl
        _ = p := by
            rw [putU64_drop (i := 25) (by omega),putU64_drop (i := 17) (by omega),
              putU64_drop (i := 9) (by omega),putU64_drop (i := 1) (by omega),htype]
    · exact absurd h (by simp)

/-- The decoder accepts what is written for a message within the bounds, and nothing else. -/
theorem decode_eq_some_iff (p : Bytes) (m : Msg) :
    decode p = some m ↔ m.Bounded ∧ encode m = p :=
  ⟨encode_decode,fun h => h.2 ▸ decode_encode h.1⟩

end Proto

end RecoveryPlanner
