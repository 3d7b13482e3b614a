import Mathlib.Data.List.TakeWhile
import Mathlib.Data.Nat.Bitwise
import Mathlib.Tactic.Ring
import RecoveryPlanner.ReadBack
import RecoveryPlanner.Types
set_option autoImplicit false

/-! Integrity primitives and the canonical big-endian writer and reader of
`digest.hpp` and `digest.cpp`. -/

namespace RecoveryPlanner

def crcShift : Nat → UInt32 → UInt32
  | 0, crc => crc
  | n+1, crc => crcShift n (if crc &&& 1 ≠ 0 then (0x82F63B78 : UInt32) ^^^ (crc >>> 1) else crc >>> 1)

def crc32cTable : Vector UInt32 256 := Vector.ofFn (fun i => crcShift 8 i.val.toUInt32)

def crcIndex (x : UInt32) : Fin 256 :=
  ⟨(x &&& 0xFF).toNat,by
    have h : x.toNat &&& 0xFF ≤ 0xFF := Nat.and_le_right
    simpa using Nat.lt_succ_of_le h⟩

def crc32c (data : Bytes) (seed : UInt32) : UInt32 :=
  ~~~ data.foldl (fun crc b => crc32cTable.get (crcIndex (crc ^^^ b.toUInt32)) ^^^ (crc >>> 8))
    (~~~ seed)

def sha256K : List UInt32 :=
  [0x428a2f98,0x71374491,0xb5c0fbcf,0xe9b5dba5,0x3956c25b,0x59f111f1,
   0x923f82a4,0xab1c5ed5,0xd807aa98,0x12835b01,0x243185be,0x550c7dc3,
   0x72be5d74,0x80deb1fe,0x9bdc06a7,0xc19bf174,0xe49b69c1,0xefbe4786,
   0x0fc19dc6,0x240ca1cc,0x2de92c6f,0x4a7484aa,0x5cb0a9dc,0x76f988da,
   0x983e5152,0xa831c66d,0xb00327c8,0xbf597fc7,0xc6e00bf3,0xd5a79147,
   0x06ca6351,0x14292967,0x27b70a85,0x2e1b2138,0x4d2c6dfc,0x53380d13,
   0x650a7354,0x766a0abb,0x81c2c92e,0x92722c85,0xa2bfe8a1,0xa81a664b,
   0xc24b8b70,0xc76c51a3,0xd192e819,0xd6990624,0xf40e3585,0x106aa070,
   0x19a4c116,0x1e376c08,0x2748774c,0x34b0bcb5,0x391c0cb3,0x4ed8aa4a,
   0x5b9cca4f,0x682e6ff3,0x748f82ee,0x78a5636f,0x84c87814,0x8cc70208,
   0x90befffa,0xa4506ceb,0xbef9a3f7,0xc67178f2]

structure Sha256State where
  a : UInt32
  b : UInt32
  c : UInt32
  d : UInt32
  e : UInt32
  f : UInt32
  g : UInt32
  h : UInt32
  deriving DecidableEq

def Sha256State.initial : Sha256State :=
  ⟨0x6a09e667,0xbb67ae85,0x3c6ef372,0xa54ff53a,0x510e527f,0x9b05688c,0x1f83d9ab,0x5be0cd19⟩

/-- The padding loop; at most 63 zero bytes are ever pushed. -/
def sha256PadZeros : Nat → Bytes → Bytes
  | 0, msg => msg
  | n+1, msg => if msg.length%64 ≠ 56 then sha256PadZeros n (msg ++ [0]) else msg

def sha256Pad (data : Bytes) : Bytes :=
  let bitLen : UInt64 := data.length.toUInt64*8
  sha256PadZeros 64 (data ++ [0x80]) ++
    [7,6,5,4,3,2,1,0].map (fun i : UInt64 => ((bitLen >>> (8*i)) &&& 0xFF).toUInt8)

def sha256Word (msg : Bytes) (i : Nat) : UInt32 :=
  (msg.getD i 0).toUInt32 <<< 24 ||| (msg.getD (i+1) 0).toUInt32 <<< 16 |||
    (msg.getD (i+2) 0).toUInt32 <<< 8 ||| (msg.getD (i+3) 0).toUInt32

def sha256Extend : Nat → List UInt32 → List UInt32
  | 0, w => w
  | n+1, w =>
    let i := w.length
    let x := w.getD (i-15) 0
    let y := w.getD (i-2) 0
    let s0 := (x >>> 7 ||| x <<< 25) ^^^ (x >>> 18 ||| x <<< 14) ^^^ (x >>> 3)
    let s1 := (y >>> 17 ||| y <<< 15) ^^^ (y >>> 19 ||| y <<< 13) ^^^ (y >>> 10)
    sha256Extend n (w ++ [w.getD (i-16) 0+s0+w.getD (i-7) 0+s1])

def sha256Schedule (msg : Bytes) (off : Nat) : List UInt32 :=
  sha256Extend 48 ((List.range 16).map (fun i => sha256Word msg (off+4*i)))

def sha256Round (s : Sha256State) (kw : UInt32 × UInt32) : Sha256State :=
  let S1 := (s.e >>> 6 ||| s.e <<< 26) ^^^ (s.e >>> 11 ||| s.e <<< 21) ^^^
    (s.e >>> 25 ||| s.e <<< 7)
  let ch := (s.e &&& s.f) ^^^ (~~~ s.e &&& s.g)
  let temp1 := s.h+S1+ch+kw.1+kw.2
  let S0 := (s.a >>> 2 ||| s.a <<< 30) ^^^ (s.a >>> 13 ||| s.a <<< 19) ^^^
    (s.a >>> 22 ||| s.a <<< 10)
  let maj := (s.a &&& s.b) ^^^ (s.a &&& s.c) ^^^ (s.b &&& s.c)
  ⟨temp1+(S0+maj),s.a,s.b,s.c,s.d+temp1,s.e,s.f,s.g⟩

def sha256Block (msg : Bytes) (off : Nat) (s : Sha256State) : Sha256State :=
  let t := (sha256K.zip (sha256Schedule msg off)).foldl sha256Round s
  ⟨s.a+t.a,s.b+t.b,s.c+t.c,s.d+t.d,s.e+t.e,s.f+t.f,s.g+t.g,s.h+t.h⟩

def sha256Blocks (msg : Bytes) : Nat → Nat → Sha256State → Sha256State
  | 0, _, s => s
  | n+1, off, s =>
    if off < msg.length then sha256Blocks msg n (off+64) (sha256Block msg off s) else s

def sha256 (data : Bytes) : Bytes :=
  let msg := sha256Pad data
  let s := sha256Blocks msg msg.length 0 .initial
  [s.a,s.b,s.c,s.d,s.e,s.f,s.g,s.h].flatMap (fun w : UInt32 =>
    [((w >>> 24) &&& 0xFF).toUInt8,((w >>> 16) &&& 0xFF).toUInt8,
     ((w >>> 8) &&& 0xFF).toUInt8,(w &&& 0xFF).toUInt8])

def hexDigit (n : Nat) : UInt8 := (text "0123456789abcdef").getD n 0

def hexEncode (data : Bytes) : Str :=
  data.flatMap (fun b => [hexDigit (b.toNat/16%16),hexDigit (b.toNat%16)])

def bigEndian : Nat → Nat → Bytes
  | 0, _ => []
  | n+1, v => (v >>> (8*n)).toUInt8 :: bigEndian n v

def fromBigEndian (w : Bytes) : Nat := w.foldl (fun v b => v <<< 8 ||| b.toNat) 0

/-- The part of a string that `c_str` shows to a C function. -/
def cut (s : Str) : Str := s.takeWhile (fun b => b ≠ 0)

namespace ByteWriter

def u8 (v : UInt8) : Bytes := [v]
def u16 (v : UInt16) : Bytes := bigEndian 2 v.toNat
def u32 (v : UInt32) : Bytes := bigEndian 4 v.toNat
def u64 (v : UInt64) : Bytes := bigEndian 8 v.toNat
def i64 (v : Int64) : Bytes := u64 v.toUInt64
def bytes (data : Bytes) : Bytes := data
def cstring (s : Str) : Bytes := cut s ++ [0]

end ByteWriter

abbrev ByteReader := Cursor UInt8

namespace ByteReader

def u8 : Scan UInt8 UInt8 := Scan.window 1 0 (fun w => w.headD 0)
def u16 : Scan UInt8 UInt16 := Scan.window 2 0 (fun w => (fromBigEndian w).toUInt16)
def u32 : Scan UInt8 UInt32 := Scan.window 4 0 (fun w => (fromBigEndian w).toUInt32)
def u64 : Scan UInt8 UInt64 := Scan.window 8 0 (fun w => (fromBigEndian w).toUInt64)
def i64 : Scan UInt8 Int64 := do
  let v ← u64
  pure v.toInt64

/-- An empty result stands for the `false` that leaves the output vector alone. -/
def take (n : Nat) : Scan UInt8 (Option Bytes) := Scan.window n none some

def takeBlob : Scan UInt8 (Option Bytes) := fun r =>
  if r.has 4 then take (u32 r).1.toNat (u32 r).2 else (none,r.fail)

/-- The bytes read, their number with the terminator, and whether reading failed;
`size` is the length of the string so far. -/
def cstringLoop : Bytes → Nat → Str × Nat × Bool
  | [], _ => ([],0,true)
  | b :: bs, size =>
    if b = 0 then ([],1,false)
    else if 4096 < size+1 then ([b],1,true)
    else
      let t := cstringLoop bs (size+1)
      (b :: t.1,t.2.1+1,t.2.2)

def cstring : Scan UInt8 Str := fun r =>
  if r.failed then ([],r)
  else
    let t := cstringLoop r.rest 0
    (t.1,{ r with pos := r.pos+t.2.1, failed := t.2.2 })

end ByteReader

theorem shiftLeft_or_byte (v : Nat) (b : UInt8) : v <<< 8 ||| b.toNat = v*256+b.toNat := by
  have hb : b.toNat < 2^8 := b.toNat_lt
  rw [Nat.shiftLeft_eq,Nat.mul_comm,← Nat.two_pow_add_eq_or_of_lt hb v]

theorem fromBigEndian_foldl (w : Bytes) (a : Nat) :
    w.foldl (fun v b => v <<< 8 ||| b.toNat) a = a*256^w.length+fromBigEndian w := by
  induction w generalizing a with
  | nil => simp [fromBigEndian]
  | cons b w ih =>
    have h0 := ih (0 <<< 8 ||| b.toNat)
    have ha := ih (a <<< 8 ||| b.toNat)
    simp only [fromBigEndian,List.foldl_cons,List.length_cons] at h0 ha ⊢
    rw [ha,h0,shiftLeft_or_byte,shiftLeft_or_byte,Nat.pow_succ]
    ring

theorem toUInt32_foldl (w : Bytes) (v : Nat) :
    w.foldl (fun (v : UInt32) b => v <<< 8 ||| b.toUInt32) v.toUInt32 =
      (w.foldl (fun v b => v <<< 8 ||| b.toNat) v).toUInt32 := by
  induction w generalizing v with
  | nil => rfl
  | cons b w ih =>
    have hstep : v.toUInt32 <<< 8 ||| b.toUInt32 = (v <<< 8 ||| b.toNat).toUInt32 := by
      apply UInt32.toBitVec_inj.mp
      apply BitVec.eq_of_getLsbD_eq
      intro i hi
      simp
    rw [List.foldl_cons,List.foldl_cons,hstep,ih]

theorem toUInt64_foldl (w : Bytes) (v : Nat) :
    w.foldl (fun (v : UInt64) b => v <<< 8 ||| b.toUInt64) v.toUInt64 =
      (w.foldl (fun v b => v <<< 8 ||| b.toNat) v).toUInt64 := by
  induction w generalizing v with
  | nil => rfl
  | cons b w ih =>
    have hstep : v.toUInt64 <<< 8 ||| b.toUInt64 = (v <<< 8 ||| b.toNat).toUInt64 := by
      apply UInt64.toBitVec_inj.mp
      apply BitVec.eq_of_getLsbD_eq
      intro i hi
      simp
    rw [List.foldl_cons,List.foldl_cons,hstep,ih]

theorem bigEndian_length (n v : Nat) : (bigEndian n v).length = n := by
  induction n with
  | zero => rfl
  | succ n ih => simp [bigEndian,ih]

theorem fromBigEndian_bigEndian (n v : Nat) : fromBigEndian (bigEndian n v) = v%256^n := by
  induction n with
  | zero => simp [bigEndian,fromBigEndian,Nat.mod_one]
  | succ n ih =>
    have h := fromBigEndian_foldl (bigEndian n v) (0 <<< 8 ||| (v >>> (8*n)).toUInt8.toNat)
    simp only [shiftLeft_or_byte,Nat.zero_mul,Nat.zero_add,bigEndian_length,ih] at h
    have hb : (v >>> (8*n)).toUInt8.toNat = v/256^n%256 := by
      rw [show v >>> (8*n) = v/256^n by
        rw [Nat.shiftRight_eq_div_pow,Nat.pow_mul]]
      exact UInt8.toNat_ofNat'
    have hm : v%256^(n+1) = v%256^n+256^n*(v/256^n%256) := by
      rw [Nat.pow_succ,Nat.mod_mul]
    simp only [bigEndian,fromBigEndian,List.foldl_cons,shiftLeft_or_byte,Nat.zero_mul,
      Nat.zero_add]
    rw [hm,h,hb,Nat.mul_comm,Nat.add_comm]

theorem toUInt32_bigEndian (v : UInt32) : (fromBigEndian (bigEndian 4 v.toNat)).toUInt32 = v := by
  have hv : v.toNat%256^4 = v.toNat := Nat.mod_eq_of_lt v.toNat_lt
  rw [fromBigEndian_bigEndian,hv]
  exact UInt32.ofNat_toNat

theorem toUInt64_bigEndian (v : UInt64) : (fromBigEndian (bigEndian 8 v.toNat)).toUInt64 = v := by
  have hv : v.toNat%256^8 = v.toNat := Nat.mod_eq_of_lt v.toNat_lt
  rw [fromBigEndian_bigEndian,hv]
  exact UInt64.ofNat_toNat

theorem toNat_length_toUInt32 {α : Type} {xs : List α} (h : xs.length < 2^32) :
    xs.length.toUInt32.toNat = xs.length := by
  simpa using Nat.mod_eq_of_lt h

theorem fromBigEndian_cons (b : UInt8) (w : Bytes) :
    fromBigEndian (b :: w) = b.toNat*256^w.length+fromBigEndian w := by
  have h := fromBigEndian_foldl w (0 <<< 8 ||| b.toNat)
  simpa [fromBigEndian] using h

theorem fromBigEndian_lt (w : Bytes) : fromBigEndian w < 256^w.length := by
  induction w with
  | nil => simp [fromBigEndian]
  | cons b w ih =>
    have hb : b.toNat < 256 := b.toNat_lt
    rw [fromBigEndian_cons,List.length_cons,Nat.pow_succ]
    nlinarith

theorem bigEndian_add_mul (n k v : Nat) : bigEndian n (k*256^n+v) = bigEndian n v := by
  induction n generalizing k with
  | zero => rfl
  | succ n ih =>
    have hpow : k*256^(n+1)+v = k*256*256^n+v := by ring
    have hdiv : (k*256*256^n+v) >>> (8*n) = k*256+v >>> (8*n) := by
      rw [Nat.shiftRight_eq_div_pow,Nat.shiftRight_eq_div_pow,Nat.pow_mul,Nat.add_comm,
        Nat.add_mul_div_right _ _ (by positivity),Nat.add_comm]
    have hbyte : (k*256+v >>> (8*n)).toUInt8 = (v >>> (8*n)).toUInt8 := by
      apply UInt8.toNat_inj.mp
      simp
    rw [hpow,bigEndian,bigEndian,ih,hdiv,hbyte]

theorem bigEndian_fromBigEndian (w : Bytes) : bigEndian w.length (fromBigEndian w) = w := by
  induction w with
  | nil => rfl
  | cons b w ih =>
    have hlt := fromBigEndian_lt w
    have hdiv : fromBigEndian (b :: w) >>> (8*w.length) = b.toNat := by
      rw [fromBigEndian_cons,Nat.shiftRight_eq_div_pow,Nat.pow_mul,Nat.add_comm,
        Nat.add_mul_div_right _ _ (by positivity),Nat.div_eq_of_lt hlt,Nat.zero_add]
    rw [List.length_cons,bigEndian,hdiv,fromBigEndian_cons,bigEndian_add_mul,ih]
    simp

theorem bigEndian_take {n : Nat} {p : Bytes} (h : n ≤ p.length) :
    bigEndian n (fromBigEndian (p.take n)) ++ p.drop n = p := by
  have hword := bigEndian_fromBigEndian (p.take n)
  rw [List.length_take,Nat.min_eq_left h] at hword
  rw [hword,List.take_append_drop]

theorem fromBigEndian_take_lt (n : Nat) (p : Bytes) : fromBigEndian (p.take n) < 256^n :=
  Nat.lt_of_lt_of_le (fromBigEndian_lt _)
    (Nat.pow_le_pow_right (by decide) (List.length_take_le n p))

theorem cut_ne_zero {s : Str} {b : UInt8} (h : b ∈ cut s) : b ≠ 0 := by
  simpa using List.mem_takeWhile_imp h

theorem cut_eq_self {s : Str} (h : ∀ b ∈ s, b ≠ 0) : cut s = s :=
  List.takeWhile_eq_self_iff.mpr (by simpa using h)

@[simp] theorem cut_cut (s : Str) : cut (cut s) = cut s := cut_eq_self fun _ => cut_ne_zero

namespace ByteReader

open Scan

theorem sticky_u8 : Sticky u8 := sticky_window _ _ _
theorem sticky_u32 : Sticky u32 := sticky_window _ _ _
theorem sticky_u64 : Sticky u64 := sticky_window _ _ _
theorem sticky_i64 : Sticky i64 := sticky_u64.bind fun _ => sticky_pure _

theorem sticky_cstring : Sticky cstring := by
  intro r h
  simp [cstring,h]

theorem decodes_u8 (v : UInt8) : Decodes u8 (ByteWriter.u8 v) True v :=
  decodes_window rfl rfl

theorem decodes_u32 (v : UInt32) : Decodes u32 (ByteWriter.u32 v) True v :=
  decodes_window (bigEndian_length 4 _) (toUInt32_bigEndian v)

theorem decodes_u64 (v : UInt64) : Decodes u64 (ByteWriter.u64 v) True v :=
  decodes_window (bigEndian_length 8 _) (toUInt64_bigEndian v)

theorem decodes_i64 (v : Int64) : Decodes i64 (ByteWriter.i64 v) True v :=
  (decodes_u64 v.toUInt64).map (by simp)

theorem cstringLoop_short (s : Str) (tail : Bytes) (size : Nat) (hs : ∀ b ∈ s, b ≠ 0)
    (hl : size+s.length ≤ 4096) :
    cstringLoop (s ++ 0 :: tail) size = (s,s.length+1,false) := by
  induction s generalizing size with
  | nil => simp [cstringLoop]
  | cons b s ih =>
    have hb := hs b List.mem_cons_self
    have ht := ih (size+1) (fun x hx => hs x (List.mem_cons_of_mem _ hx))
      (by simp only [List.length_cons] at hl; omega)
    have hn : ¬ 4096 < size+1 := by simp only [List.length_cons] at hl; omega
    simp [cstringLoop,hb,hn,ht]

theorem cstringLoop_long (s : Str) (tail : Bytes) (size : Nat) (hs : ∀ b ∈ s, b ≠ 0)
    (h0 : size ≤ 4096) (hl : 4096 < size+s.length) :
    (cstringLoop (s ++ 0 :: tail) size).2.2 = true := by
  induction s generalizing size with
  | nil => simp only [List.length_nil] at hl; omega
  | cons b s ih =>
    have hb := hs b List.mem_cons_self
    by_cases hn : 4096 < size+1
    · simp [cstringLoop,hb,hn]
    · have ht := ih (size+1) (fun x hx => hs x (List.mem_cons_of_mem _ hx)) (by omega)
        (by simp only [List.length_cons] at hl; omega)
      simp [cstringLoop,hb,hn,ht]

theorem decodes_cstring (s : Str) :
    Decodes cstring (ByteWriter.cstring s) ((cut s).length ≤ 4096) (cut s) := by
  intro r tail hf hr
  have hrest : r.rest = cut s ++ 0 :: tail := by simpa [ByteWriter.cstring] using hr
  constructor
  · intro hl
    have h := cstringLoop_short (cut s) tail 0 (fun _ => cut_ne_zero) (by omega)
    simp [cstring,hf,hrest,h,Cursor.advance,ByteWriter.cstring]
  · intro hl
    have h := cstringLoop_long (cut s) tail 0 (fun _ => cut_ne_zero) (by omega) (by omega)
    simp [cstring,hf,hrest,h]

theorem rewrites_u8 : Rewrites u8 [] ByteWriter.u8 (fun _ => True) := by
  refine rewrites_window fun w hw => ?_
  obtain ⟨b,rfl⟩ := List.length_eq_one_iff.mp hw
  rfl

theorem rewrites_u32 : Rewrites u32 [] ByteWriter.u32 (fun _ => True) := by
  refine rewrites_window fun w hw => ?_
  have hlt := fromBigEndian_lt w
  rw [hw] at hlt
  have hval : (fromBigEndian w).toUInt32.toNat = fromBigEndian w := Nat.mod_eq_of_lt hlt
  rw [ByteWriter.u32,hval,← hw]
  exact bigEndian_fromBigEndian w

theorem rewrites_u64 : Rewrites u64 [] ByteWriter.u64 (fun _ => True) := by
  refine rewrites_window fun w hw => ?_
  have hlt := fromBigEndian_lt w
  rw [hw] at hlt
  have hval : (fromBigEndian w).toUInt64.toNat = fromBigEndian w := Nat.mod_eq_of_lt hlt
  rw [ByteWriter.u64,hval,← hw]
  exact bigEndian_fromBigEndian w

theorem rewrites_i64 : Rewrites i64 [] ByteWriter.i64 (fun _ => True) := by
  refine rewrites_u64.andThen (b := fun _ _ => True) fun v => rewrites_pure ?_
  simp [ByteWriter.i64]

theorem cstringLoop_ne_zero (bs : Bytes) (size : Nat) :
    ∀ b ∈ (cstringLoop bs size).1, b ≠ 0 := by
  induction bs generalizing size with
  | nil => exact fun b hb => absurd hb List.not_mem_nil
  | cons x bs ih =>
    unfold cstringLoop
    split
    · exact fun b hb => absurd hb List.not_mem_nil
    · rename_i hx
      split
      · intro b hb
        rw [List.mem_singleton.mp hb]
        exact hx
      · intro b hb
        rcases List.mem_cons.mp hb with rfl | hb
        · exact hx
        · exact ih (size+1) b hb

theorem cstringLoop_text (bs : Bytes) (size : Nat) (h : (cstringLoop bs size).2.2 = false) :
    bs = (cstringLoop bs size).1 ++ 0 :: bs.drop (cstringLoop bs size).2.1 := by
  induction bs generalizing size with
  | nil => simp [cstringLoop] at h
  | cons x bs ih =>
    unfold cstringLoop at h ⊢
    split at h
    · rename_i hx
      simp [hx]
    · rename_i hx
      split at h
      · simp at h
      · rename_i hn
        simp only [hx,hn,if_false,List.cons_append,List.drop_succ_cons]
        exact congrArg (x :: ·) (ih (size+1) h)

theorem rewrites_cstring : Rewrites cstring [] ByteWriter.cstring (fun _ => True) := by
  intro r h
  cases hf : r.failed with
  | true => simp [cstring,hf] at h
  | false =>
    have h : (cstringLoop r.rest 0).2.2 = false := by simpa [cstring,hf] using h
    have hbs := cstringLoop_text r.rest 0 h
    have hne := cstringLoop_ne_zero r.rest 0
    refine ⟨rfl,(cstringLoop r.rest 0).1 ++ [0],(cstringLoop r.rest 0).1 ++ [0],?_,?_,rfl,by simp⟩
    · have hrest : (cstring r).2.rest = r.rest.drop (cstringLoop r.rest 0).2.1 := by
        simp [cstring,hf,Cursor.rest]
      rw [hrest,List.append_assoc]
      exact hbs
    · simp [cstring,hf,ByteWriter.cstring,cut_eq_self hne]

end ByteReader

end RecoveryPlanner
