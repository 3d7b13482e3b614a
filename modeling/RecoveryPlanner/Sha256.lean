import RecoveryPlanner.Digest
import RecoveryPlanner.Fips180
set_option autoImplicit false

/-! `sha256` of `digest.cpp` is the hash function of the standard on the bits of its input. -/

namespace RecoveryPlanner

open Fips180

def bitString (data : Bytes) : List Bool := data.flatMap (fun b => natBits 8 b.toNat)

theorem bitString_cons (b : UInt8) (data : Bytes) :
    bitString (b :: data) = natBits 8 b.toNat ++ bitString data := rfl

theorem bitString_append (a b : Bytes) : bitString (a ++ b) = bitString a ++ bitString b :=
  List.flatMap_append

theorem bitString_length (data : Bytes) : (bitString data).length = 8*data.length := by
  induction data with
  | nil => rfl
  | cons b data ih =>
    rw [bitString_cons,List.length_append,natBits_length,ih,List.length_cons]
    omega

theorem bitString_cut {data : Bytes} {n : Nat} (h : n ≤ data.length) :
    bitString data = bitString (data.take n) ++ bitString (data.drop n) ∧
      (bitString (data.take n)).length = 8*n := by
  constructor
  · rw [← bitString_append,List.take_append_drop]
  · rw [bitString_length,List.length_take,Nat.min_eq_left h]

theorem bitString_drop (data : Bytes) (n : Nat) :
    (bitString data).drop (8*n) = bitString (data.drop n) := by
  by_cases h : n ≤ data.length
  · obtain ⟨hsplit,hlen⟩ := bitString_cut h
    rw [hsplit,List.drop_left' hlen]
  · rw [List.drop_eq_nil_of_le (by rw [bitString_length]; omega),
      List.drop_eq_nil_of_le (by omega)]
    rfl

theorem bitString_take (data : Bytes) {n : Nat} (h : n ≤ data.length) :
    (bitString data).take (8*n) = bitString (data.take n) := by
  obtain ⟨hsplit,hlen⟩ := bitString_cut h
  rw [hsplit,List.take_left' hlen]

theorem bitsToNat_bitString (w : Bytes) : bitsToNat (bitString w) = fromBigEndian w := by
  induction w with
  | nil => rfl
  | cons b w ih =>
    have hb : b.toNat%2^8 = b.toNat := Nat.mod_eq_of_lt b.toNat_lt
    rw [bitString_cons,bitsToNat_append,ih,bitsToNat_natBits,hb,bitString_length,Nat.pow_mul,
      fromBigEndian_cons]

theorem bitString_bigEndian (n v : Nat) : bitString (bigEndian n v) = natBits (8*n) v := by
  induction n with
  | zero => rfl
  | succ n ih =>
    have hb : (v >>> (8*n)).toUInt8.toNat = (v >>> (8*n))%2^8 := UInt8.toNat_ofNat'
    rw [bigEndian,bitString_cons,ih,hb,natBits_mod,show 8*(n+1) = 8+8*n by omega,natBits_add]

theorem drop_take_four {msg : Bytes} {i : Nat} (h : i+4 ≤ msg.length) :
    (msg.drop i).take 4 =
      [msg.getD i 0,msg.getD (i+1) 0,msg.getD (i+2) 0,msg.getD (i+3) 0] := by
  rw [List.drop_eq_getElem_cons (by omega : i < msg.length),
    List.drop_eq_getElem_cons (by omega : i+1 < msg.length),
    List.drop_eq_getElem_cons (by omega : i+2 < msg.length),
    List.drop_eq_getElem_cons (by omega : i+3 < msg.length),
    List.getD_eq_getElem _ _ (by omega : i < msg.length),
    List.getD_eq_getElem _ _ (by omega : i+1 < msg.length),
    List.getD_eq_getElem _ _ (by omega : i+2 < msg.length),
    List.getD_eq_getElem _ _ (by omega : i+3 < msg.length)]
  rfl

theorem word_of_bytes (a b c d : UInt8) :
    a.toUInt32 <<< 24 ||| b.toUInt32 <<< 16 ||| c.toUInt32 <<< 8 ||| d.toUInt32 =
      (fromBigEndian [a,b,c,d]).toUInt32 := by
  have hfold := toUInt32_foldl [a,b,c,d] 0
  have hsum : a.toUInt32 <<< 24 ||| b.toUInt32 <<< 16 ||| c.toUInt32 <<< 8 ||| d.toUInt32 =
      ((((0 : UInt32) <<< 8 ||| a.toUInt32) <<< 8 ||| b.toUInt32) <<< 8 ||| c.toUInt32) <<< 8 |||
        d.toUInt32 := by
    apply UInt32.toBitVec_inj.mp
    simp [BitVec.shiftLeft_or_distrib,← BitVec.shiftLeft_add]
  rw [hsum]
  exact hfold

theorem sha256Word_eq (msg : Bytes) {i : Nat} (h : i+4 ≤ msg.length) :
    (sha256Word msg i).toBitVec = bitsWord (((bitString msg).drop (8*i)).take 32) := by
  have hlen : (msg.drop i).length = msg.length-i := List.length_drop
  have hbits : (bitString (msg.drop i)).take 32 = bitString ((msg.drop i).take 4) :=
    bitString_take (msg.drop i) (n := 4) (by omega)
  rw [bitString_drop,hbits,bitsWord,bitsToNat_bitString,drop_take_four h,sha256Word,word_of_bytes]
  rfl

/-! The padding. -/

theorem sha256PadZeros_eq {fuel : Nat} (msg : Bytes) (h : (120-msg.length%64)%64 ≤ fuel) :
    sha256PadZeros fuel msg = msg ++ List.replicate ((120-msg.length%64)%64) 0 := by
  induction fuel generalizing msg with
  | zero =>
    have hz : (120-msg.length%64)%64 = 0 := by omega
    rw [hz]
    simp [sha256PadZeros]
  | succ fuel ih =>
    unfold sha256PadZeros
    by_cases hm : msg.length%64 = 56
    · simp [hm]
    · have hnext := ih (msg ++ [0]) (by rw [List.length_append,List.length_singleton]; omega)
      have hz : (120-msg.length%64)%64 = (120-(msg ++ [(0 : UInt8)]).length%64)%64+1 := by
        rw [List.length_append,List.length_singleton]
        omega
      rw [if_pos hm,hnext,hz,List.replicate_succ,List.append_assoc]
      rfl

/-- The loop ends, with fuel to spare. -/
theorem sha256PadZeros_ends {fuel : Nat} (msg : Bytes) (h : 63 ≤ fuel) :
    sha256PadZeros fuel msg = sha256PadZeros 64 msg ∧ (sha256PadZeros fuel msg).length%64 = 56 := by
  rw [sha256PadZeros_eq msg (by omega),sha256PadZeros_eq msg (by omega)]
  refine ⟨rfl,?_⟩
  rw [List.length_append,List.length_replicate]
  omega

theorem bitString_replicate (n : Nat) :
    bitString (List.replicate n 0) = List.replicate (8*n) false := by
  induction n with
  | zero => rfl
  | succ n ih =>
    rw [List.replicate_succ,bitString_cons,ih,show 8*(n+1) = 8+8*n by omega,List.replicate_add]
    rfl

theorem mask_toUInt8 (v : Nat) : (v &&& 255)%2^8 = v.toUInt8.toNat := by
  have hmask : v &&& 255 = v%2^8 := Nat.and_two_pow_sub_one_eq_mod v 8
  rw [hmask,Nat.mod_mod]
  exact UInt8.toNat_ofNat'.symm

theorem byte_of_uint64 (v k : UInt64) (hk : k.toNat < 64) :
    ((v >>> k) &&& 0xFF).toUInt8 = (v.toNat >>> k.toNat).toUInt8 := by
  apply UInt8.toNat_inj.mp
  rw [UInt64.toNat_toUInt8,UInt64.toNat_and,UInt64.toNat_shiftRight,Nat.mod_eq_of_lt hk]
  exact mask_toUInt8 (v.toNat >>> k.toNat)

theorem length_field (v : UInt64) :
    [7,6,5,4,3,2,1,0].map (fun i : UInt64 => ((v >>> (8*i)) &&& 0xFF).toUInt8) =
      bigEndian 8 v.toNat := by
  simp only [List.map_cons,List.map_nil]
  rw [byte_of_uint64 v (8*7) (by decide),byte_of_uint64 v (8*6) (by decide),
    byte_of_uint64 v (8*5) (by decide),byte_of_uint64 v (8*4) (by decide),
    byte_of_uint64 v (8*3) (by decide),byte_of_uint64 v (8*2) (by decide),
    byte_of_uint64 v (8*1) (by decide),byte_of_uint64 v (8*0) (by decide)]
  rfl

theorem bitString_pad {data : Bytes} (h : data.length < 2^61) :
    bitString (sha256Pad data) = pad (bitString data) := by
  have hlen : (data.length.toUInt64*8).toNat = 8*data.length := by
    have h8 : (8 : UInt64).toNat = 8 := rfl
    rw [UInt64.toNat_mul,UInt64.toNat_ofNat',h8]
    omega
  have hzeros : zeroBits (bitString data).length =
      7+8*((120-(data ++ [(0x80 : UInt8)]).length%64)%64) := by
    rw [zeroBits_eq,bitString_length,List.length_append,List.length_singleton]
    omega
  rw [sha256Pad,sha256PadZeros_eq _ (by omega),length_field,hlen,bitString_append,
    bitString_append,bitString_append,bitString_replicate,bitString_bigEndian,pad,hzeros,
    List.replicate_add,bitString_length]
  simp only [List.append_assoc]
  rfl

/-! One round. -/

/-- A shift to either side is a rotation. -/
theorem rotate_toBitVec (x n m : UInt32) (h : n.toNat+m.toNat = 32) (hn : 0 < n.toNat)
    (hm : 0 < m.toNat) : (x >>> n ||| x <<< m).toBitVec = x.toBitVec.rotateRight n.toNat := by
  have hmod : ∀ k : UInt32, k.toNat < 32 → (k.toBitVec%32).toNat = k.toNat := by
    intro k hk
    exact Nat.mod_eq_of_lt hk
  rw [BitVec.rotateRight_def,UInt32.toBitVec_or,UInt32.toBitVec_shiftRight,
    UInt32.toBitVec_shiftLeft,BitVec.ushiftRight_eq',BitVec.shiftLeft_eq',
    hmod n (by omega),hmod m (by omega),Nat.mod_eq_of_lt (by omega : n.toNat < 32)]
  congr 2
  omega

theorem bigSigma0_toBitVec (x : UInt32) :
    ((x >>> 2 ||| x <<< 30) ^^^ (x >>> 13 ||| x <<< 19) ^^^ (x >>> 22 ||| x <<< 10)).toBitVec =
      bigSigma0 x.toBitVec := by
  rw [UInt32.toBitVec_xor,UInt32.toBitVec_xor,rotate_toBitVec x 2 30 rfl (by decide) (by decide),
    rotate_toBitVec x 13 19 rfl (by decide) (by decide),
    rotate_toBitVec x 22 10 rfl (by decide) (by decide)]
  rfl

theorem bigSigma1_toBitVec (x : UInt32) :
    ((x >>> 6 ||| x <<< 26) ^^^ (x >>> 11 ||| x <<< 21) ^^^ (x >>> 25 ||| x <<< 7)).toBitVec =
      bigSigma1 x.toBitVec := by
  rw [UInt32.toBitVec_xor,UInt32.toBitVec_xor,rotate_toBitVec x 6 26 rfl (by decide) (by decide),
    rotate_toBitVec x 11 21 rfl (by decide) (by decide),
    rotate_toBitVec x 25 7 rfl (by decide) (by decide)]
  rfl

theorem smallSigma0_toBitVec (x : UInt32) :
    ((x >>> 7 ||| x <<< 25) ^^^ (x >>> 18 ||| x <<< 14) ^^^ (x >>> 3)).toBitVec =
      smallSigma0 x.toBitVec := by
  rw [UInt32.toBitVec_xor,UInt32.toBitVec_xor,rotate_toBitVec x 7 25 rfl (by decide) (by decide),
    rotate_toBitVec x 18 14 rfl (by decide) (by decide)]
  rfl

theorem smallSigma1_toBitVec (x : UInt32) :
    ((x >>> 17 ||| x <<< 15) ^^^ (x >>> 19 ||| x <<< 13) ^^^ (x >>> 10)).toBitVec =
      smallSigma1 x.toBitVec := by
  rw [UInt32.toBitVec_xor,UInt32.toBitVec_xor,rotate_toBitVec x 17 15 rfl (by decide) (by decide),
    rotate_toBitVec x 19 13 rfl (by decide) (by decide)]
  rfl

def Sha256State.hash (s : Sha256State) : Hash :=
  ⟨s.a.toBitVec,s.b.toBitVec,s.c.toBitVec,s.d.toBitVec,s.e.toBitVec,s.f.toBitVec,s.g.toBitVec,
   s.h.toBitVec⟩

theorem sha256Round_hash (s : Sha256State) (kw : UInt32 × UInt32) :
    (sha256Round s kw).hash = Fips180.round kw.1.toBitVec kw.2.toBitVec s.hash := by
  have h0 := bigSigma0_toBitVec s.a
  have h1 := bigSigma1_toBitVec s.e
  unfold sha256Round Sha256State.hash Fips180.round
  simp only [UInt32.toBitVec_add]
  rw [h0,h1]
  rfl

/-- The same round as it stands in the loop: one assignment after the other. -/
def sha256RoundInPlace (s : Sha256State) (k w : UInt32) : Sha256State := Id.run do
  let mut s := s
  let S1 := (s.e >>> 6 ||| s.e <<< 26) ^^^ (s.e >>> 11 ||| s.e <<< 21) ^^^
    (s.e >>> 25 ||| s.e <<< 7)
  let ch := (s.e &&& s.f) ^^^ (~~~ s.e &&& s.g)
  let temp1 := s.h+S1+ch+k+w
  let S0 := (s.a >>> 2 ||| s.a <<< 30) ^^^ (s.a >>> 13 ||| s.a <<< 19) ^^^
    (s.a >>> 22 ||| s.a <<< 10)
  let maj := (s.a &&& s.b) ^^^ (s.a &&& s.c) ^^^ (s.b &&& s.c)
  let temp2 := S0+maj
  s := { s with h := s.g }
  s := { s with g := s.f }
  s := { s with f := s.e }
  s := { s with e := s.d+temp1 }
  s := { s with d := s.c }
  s := { s with c := s.b }
  s := { s with b := s.a }
  s := { s with a := temp1+temp2 }
  return s

theorem sha256RoundInPlace_eq (s : Sha256State) (k w : UInt32) :
    sha256RoundInPlace s k w = sha256Round s (k,w) := rfl

theorem rounds_hash (l : List (UInt32 × UInt32)) (s : Sha256State) :
    (l.foldl sha256Round s).hash =
      l.foldl (fun v kw => Fips180.round kw.1.toBitVec kw.2.toBitVec v) s.hash := by
  induction l generalizing s with
  | nil => rfl
  | cons kw l ih => rw [List.foldl_cons,List.foldl_cons,ih,sha256Round_hash]

/-! The message schedule. -/

theorem sha256Extend_spec (M : Nat → Word) (n : Nat) {w : List UInt32} (hlen : 16 ≤ w.length)
    (hw : ∀ t < w.length, (w.getD t 0).toBitVec = schedule M t) :
    (sha256Extend n w).length = w.length+n ∧
    ∀ t < w.length+n, ((sha256Extend n w).getD t 0).toBitVec = schedule M t := by
  induction n generalizing w with
  | zero => exact ⟨rfl,hw⟩
  | succ n ih =>
    obtain ⟨k,hk⟩ := Nat.exists_eq_add_of_le' hlen
    rw [sha256Extend]
    generalize hx : w.getD (w.length-16) 0+_+w.getD (w.length-7) 0+_ = x
    have hnext : x.toBitVec = schedule M w.length := by
      have h0 := smallSigma0_toBitVec (w.getD (w.length-15) 0)
      have h1 := smallSigma1_toBitVec (w.getD (w.length-2) 0)
      rw [← hx,UInt32.toBitVec_add,UInt32.toBitVec_add,UInt32.toBitVec_add,h0,h1,hw _ (by omega),
        hw _ (by omega),hw _ (by omega),hw _ (by omega),hk,schedule_add]
      simp only [Nat.add_sub_cancel,show k+16-15 = k+1 by omega,show k+16-7 = k+9 by omega,
        show k+16-2 = k+14 by omega]
      ac_rfl
    have happ : (w ++ [x]).length = w.length+1 := by simp
    have hall : ∀ t < (w ++ [x]).length, ((w ++ [x]).getD t 0).toBitVec = schedule M t := by
      intro t ht
      rw [happ] at ht
      by_cases hlt : t < w.length
      · rw [List.getD_append _ _ _ _ hlt]
        exact hw t hlt
      · obtain rfl : t = w.length := by omega
        rw [List.getD_append_right _ _ _ _ (Nat.le_refl _),Nat.sub_self]
        exact hnext
    obtain ⟨hl,hs⟩ := ih (w := w ++ [x]) (by omega) hall
    rw [happ] at hl hs
    exact ⟨by omega,fun t ht => hs t (by omega)⟩

theorem sha256Schedule_spec {M : Nat → Word} {msg : Bytes} {off : Nat}
    (hM : ∀ t < 16, (sha256Word msg (off+4*t)).toBitVec = M t) :
    (sha256Schedule msg off).length = 64 ∧
    ∀ t < 64, ((sha256Schedule msg off).getD t 0).toBitVec = schedule M t := by
  have hlen : ((List.range 16).map (fun i => sha256Word msg (off+4*i))).length = 16 := by simp
  have h := sha256Extend_spec M 48 (w := (List.range 16).map (fun i => sha256Word msg (off+4*i)))
    (by omega) (fun t ht => by
      rw [hlen] at ht
      rw [schedule_lt M ht,← hM t ht,List.getD_eq_getElem?_getD]
      simp [ht])
  rw [hlen] at h
  exact h

/-! The constants, and one block. -/

theorem sha256K_eq : ∀ t < 64, (sha256K.getD t 0).toBitVec = K t := by
  unfold K
  rw [primes_eq]
  decide +kernel

theorem initial_hash : Sha256State.initial.hash = Hash.initial := by
  decide +kernel

theorem zip_eq_map {ks ws : List UInt32} {n : Nat} (hk : ks.length = n) (hw : ws.length = n) :
    ks.zip ws = (List.range n).map (fun t => (ks.getD t 0,ws.getD t 0)) := by
  refine List.ext_getElem (by simp [hk,hw]) fun i h1 h2 => ?_
  have hi : i < n := by simpa using h2
  simp [hk,hw,hi]

theorem add_hash (s t : Sha256State) :
    (⟨s.a+t.a,s.b+t.b,s.c+t.c,s.d+t.d,s.e+t.e,s.f+t.f,s.g+t.g,s.h+t.h⟩ : Sha256State).hash =
      s.hash.add t.hash := rfl

theorem sha256Block_hash {M : Nat → Word} {msg : Bytes} {off : Nat}
    (hM : ∀ t < 16, (sha256Word msg (off+4*t)).toBitVec = M t) (s : Sha256State) :
    (sha256Block msg off s).hash = compress s.hash M := by
  obtain ⟨hlen,hw⟩ := sha256Schedule_spec hM
  have hrounds : ((sha256K.zip (sha256Schedule msg off)).foldl sha256Round s).hash =
      (List.range 64).foldl (fun v t => Fips180.round (K t) (schedule M t) v) s.hash := by
    rw [rounds_hash,zip_eq_map rfl hlen,List.foldl_map]
    refine List.foldl_ext _ _ _ fun v t ht => ?_
    have ht := List.mem_range.mp ht
    rw [sha256K_eq t ht,hw t ht]
  rw [sha256Block,add_hash,hrounds]
  rfl

/-! The whole message. -/

theorem blockWord_eq {msg : Bytes} {i t : Nat} (ht : t < 16) (hi : 64*i+64 ≤ msg.length) :
    (sha256Word msg (64*i+4*t)).toBitVec = blockWord (block (bitString msg) i) t := by
  rw [sha256Word_eq msg (by omega),blockWord,block,List.drop_take,List.take_take,List.drop_drop,
    Nat.min_eq_left (by omega)]
  congr 3
  omega

theorem sha256Blocks_hash {msg : Bytes} {n : Nat} (hn : msg.length = 64*n) {fuel i : Nat}
    (hi : i ≤ n) (hf : n-i ≤ fuel) (s : Sha256State) :
    (sha256Blocks msg fuel (64*i) s).hash = (List.range' i (n-i)).foldl
      (fun H i => compress H (blockWord (block (bitString msg) i))) s.hash := by
  induction fuel generalizing i s with
  | zero =>
    have hzero : n-i = 0 := by omega
    rw [hzero]
    rfl
  | succ fuel ih =>
    unfold sha256Blocks
    by_cases hlt : i < n
    · have hstep := ih (i := i+1) (by omega) (by omega) (sha256Block msg (64*i) s)
      have hcons : List.range' i (n-i) = i :: List.range' (i+1) (n-(i+1)) := by
        rw [show n-i = (n-(i+1))+1 by omega]
        rfl
      rw [if_pos (by omega),show 64*i+64 = 64*(i+1) by omega,hstep,hcons,List.foldl_cons,
        sha256Block_hash (fun t ht => blockWord_eq ht (by omega)) s]
    · have hzero : n-i = 0 := by omega
      rw [if_neg (by omega),hzero]
      rfl

theorem byte_of_uint32 (v k : UInt32) (hk : k.toNat < 32) :
    ((v >>> k) &&& 0xFF).toUInt8 = (v.toNat >>> k.toNat).toUInt8 := by
  apply UInt8.toNat_inj.mp
  rw [UInt32.toNat_toUInt8,UInt32.toNat_and,UInt32.toNat_shiftRight,Nat.mod_eq_of_lt hk]
  exact mask_toUInt8 (v.toNat >>> k.toNat)

theorem bitString_word (w : UInt32) :
    bitString [((w >>> 24) &&& 0xFF).toUInt8,((w >>> 16) &&& 0xFF).toUInt8,
      ((w >>> 8) &&& 0xFF).toUInt8,(w &&& 0xFF).toUInt8] = wordBits w.toBitVec := by
  have h0 := byte_of_uint32 w 0 (by decide)
  rw [UInt32.shiftRight_zero] at h0
  rw [byte_of_uint32 w 24 (by decide),byte_of_uint32 w 16 (by decide),
    byte_of_uint32 w 8 (by decide),h0]
  exact bitString_bigEndian 4 w.toNat

theorem sha256Pad_length {data : Bytes} (h : data.length < 2^61) : (sha256Pad data).length%64 = 0 := by
  have hbits := congrArg List.length (bitString_pad h)
  have hpad := pad_length (bitString data)
  rw [bitString_length] at hbits
  omega

theorem sha256_bits {data : Bytes} (h : data.length < 2^61) :
    bitString (sha256 data) = Fips180.sha256 (bitString data) := by
  have hpad := bitString_pad h
  have hmod := sha256Pad_length h
  have hlen := congrArg List.length hpad
  rw [bitString_length] at hlen
  have hn : (pad (bitString data)).length/512 = (sha256Pad data).length/64 := by omega
  have hwhole : (sha256Pad data).length = 64*((sha256Pad data).length/64) := by omega
  have hfuel : (sha256Pad data).length/64-0 ≤ (sha256Pad data).length := by omega
  have hblocks := sha256Blocks_hash hwhole (Nat.zero_le _) hfuel .initial
  rw [Nat.mul_zero,Nat.sub_zero,hpad,initial_hash,← List.range_eq_range'] at hblocks
  rw [Fips180.sha256,hn,← hblocks,sha256]
  generalize sha256Blocks (sha256Pad data) (sha256Pad data).length 0 .initial = s
  have hwords : s.hash.words = [s.a,s.b,s.c,s.d,s.e,s.f,s.g,s.h].map UInt32.toBitVec := rfl
  rw [hwords,List.flatMap_map,bitString,List.flatMap_assoc]
  exact List.flatMap_congr fun w _ => bitString_word w

/-- On every string shorter than 2^61 bytes the hash is the one of the standard: the padding loop
ends, its result is the standard's padding and a whole number of blocks, and the assignments of a
round are a round of the standard. -/
theorem sha256_fips180 (data : Bytes) (h : data.length < 2^61) :
    bitString (sha256 data) = Fips180.sha256 (bitString data) ∧
    bitString (sha256Pad data) = pad (bitString data) ∧
    (sha256Pad data).length%64 = 0 ∧
    (∀ fuel, 63 ≤ fuel → sha256PadZeros fuel (data ++ [0x80]) = sha256PadZeros 64 (data ++ [0x80]) ∧
      (sha256PadZeros fuel (data ++ [0x80])).length%64 = 56) ∧
    ∀ (s : Sha256State) (k w : UInt32),
      (sha256RoundInPlace s k w).hash = Fips180.round k.toBitVec w.toBitVec s.hash := by
  refine ⟨sha256_bits h,bitString_pad h,sha256Pad_length h,
    fun fuel => sha256PadZeros_ends (data ++ [0x80]),fun s k w => ?_⟩
  rw [sha256RoundInPlace_eq]
  exact sha256Round_hash s (k,w)

theorem sha256_fips180_abc :
    bitString (sha256 (text "abc")) = Fips180.sha256 (bitString (text "abc")) :=
  (sha256_fips180 (text "abc") (by decide)).1

example : hexEncode (sha256 (text "abc")) =
    text "ba7816bf8f01cfea414140de5dae2223b00361a396177a9cb410ff61f20015ad" := by decide +kernel

end RecoveryPlanner
