import Mathlib.Data.List.OfFn
import Mathlib.Logic.Function.Iterate
set_option autoImplicit false

/-! A reflected shift register over a polynomial of any width: the bits of a message enter at
the low end, the lowest bit of each word first. One step is linear in exclusive or, so feeding
a whole word is as many steps from the register with the word added to it. -/

namespace CrcRegister

variable {w : Nat}

def clock (poly r : BitVec w) : BitVec w := if r.getLsbD 0 then (r >>> 1) ^^^ poly else r >>> 1

/-- The bit that leaves is compared with the bit that enters. -/
def feed (poly r : BitVec w) (b : Bool) : BitVec w :=
  if r.getLsbD 0 ^^ b then (r >>> 1) ^^^ poly else r >>> 1

def feedBits (poly : BitVec w) (bits : List Bool) (r : BitVec w) : BitVec w :=
  bits.foldl (feed poly) r

def lsbBits {k : Nat} (x : BitVec k) : List Bool := List.ofFn (fun i : Fin k => x.getLsbD i)

def word (w : Nat) : List Bool → BitVec w
  | [] => 0#w
  | b :: bs => (BitVec.ofBool b).setWidth w ^^^ (word w bs <<< 1)

/-- The complemented register around the bits of a message. -/
def checksum (poly seed : BitVec w) (bits : List Bool) : BitVec w :=
  ~~~ feedBits poly bits (~~~ seed)

@[simp] theorem lsbBits_length {k : Nat} (x : BitVec k) : (lsbBits x).length = k :=
  List.length_ofFn

theorem lsbBits_injective {k : Nat} : Function.Injective (lsbBits (k := k)) := by
  intro x y h
  apply BitVec.eq_of_getLsbD_eq
  intro i hi
  exact congrFun (List.ofFn_inj.mp h) ⟨i,hi⟩

theorem word_getLsbD (bits : List Bool) (i : Nat) :
    (word w bits).getLsbD i = (decide (i < w) && bits.getD i false) := by
  induction bits generalizing i with
  | nil => simp [word]
  | cons b bs ih =>
    cases i with
    | zero => simp [word]
    | succ i =>
      by_cases hi : i+1 < w
      · have hiw : i < w := by omega
        have ih := ih i
        rw [BitVec.getLsbD_eq_getElem hiw] at ih
        simp [word,hi,ih,hiw]
      · simp [word,hi]

theorem word_lsbBits {k : Nat} (x : BitVec k) : word w (lsbBits x) = x.setWidth w := by
  apply BitVec.eq_of_getLsbD_eq
  intro i hi
  rw [word_getLsbD,BitVec.getLsbD_setWidth]
  by_cases hk : i < k
  · simp [lsbBits,List.getD_eq_getElem?_getD,hk]
  · have hx : x.getLsbD i = false := BitVec.getLsbD_of_ge _ _ (by omega)
    simp [lsbBits,List.getD_eq_getElem?_getD,hk,hx]

theorem word_injective {bits bits' : List Bool} (hl : bits.length = bits'.length)
    (hw : bits.length ≤ w) (h : word w bits = word w bits') : bits = bits' := by
  apply List.ext_getElem hl
  intro i h1 h2
  have hi := congrArg (fun x : BitVec w => x.getLsbD i) h
  have hiw : i < w := by omega
  simp only [word_getLsbD,hiw,decide_true,Bool.true_and,List.getD_eq_getElem?_getD] at hi
  simpa [h1,h2] using hi

theorem clock_xor (poly a b : BitVec w) : clock poly (a ^^^ b) = clock poly a ^^^ clock poly b := by
  unfold clock
  rw [BitVec.getLsbD_xor,BitVec.ushiftRight_xor_distrib]
  cases a.getLsbD 0 <;> cases b.getLsbD 0
  · simp
  · simp [BitVec.xor_assoc]
  · simp only [Bool.xor_false,if_true,Bool.false_eq_true,if_false]
    rw [BitVec.xor_assoc,BitVec.xor_assoc,BitVec.xor_comm poly]
  · have hp : (b >>> 1) ^^^ poly ^^^ poly = b >>> 1 := by
      rw [BitVec.xor_assoc,BitVec.xor_self,BitVec.xor_zero]
    simp only [Bool.xor_true,Bool.not_true,Bool.false_eq_true,if_false,if_true]
    rw [BitVec.xor_assoc,BitVec.xor_comm poly,hp]

theorem clocks_xor (poly : BitVec w) (n : Nat) (a b : BitVec w) :
    (clock poly)^[n] (a ^^^ b) = (clock poly)^[n] a ^^^ (clock poly)^[n] b := by
  induction n generalizing a b with
  | zero => rfl
  | succ n ih => rw [Function.iterate_succ_apply,clock_xor,ih]; rfl

theorem clock_eq_zero {poly r : BitVec w} (hp : poly.msb = true) (h : clock poly r = 0#w) :
    r = 0#w := by
  have hw : 0 < w := by
    rcases Nat.eq_zero_or_pos w with rfl | hw
    · rw [BitVec.eq_nil poly] at hp
      exact absurd hp (by decide)
    · exact hw
  have hlow : r.getLsbD 0 = false := by
    by_contra hne
    have hbit : r.getLsbD 0 = true := by simpa using hne
    have htop := congrArg BitVec.msb h
    simp [clock,hbit,BitVec.msb_xor,hp,BitVec.msb_ushiftRight] at htop
  simp only [clock,hlow,Bool.false_eq_true,if_false] at h
  apply BitVec.eq_of_getLsbD_eq
  intro i hi
  rw [BitVec.getLsbD_zero]
  cases i with
  | zero => exact hlow
  | succ i =>
    have hb := congrArg (fun x : BitVec w => x.getLsbD i) h
    simpa [Nat.add_comm] using hb

theorem clock_injective {poly : BitVec w} (hp : poly.msb = true) :
    Function.Injective (clock poly) := by
  intro a b h
  have hz : clock poly (a ^^^ b) = 0#w := by rw [clock_xor,h,BitVec.xor_self]
  exact BitVec.xor_eq_zero_iff.mp (clock_eq_zero hp hz)

/-- While the low bits are clear the register only moves down. -/
theorem clocks_of_low_clear (poly : BitVec w) (n : Nat) (r : BitVec w)
    (h : ∀ i < n, r.getLsbD i = false) : (clock poly)^[n] r = r >>> n := by
  induction n generalizing r with
  | zero => simp
  | succ n ih =>
    have h0 : clock poly r = r >>> 1 := by simp [clock,h 0 (by omega)]
    rw [Function.iterate_succ_apply,h0,ih]
    · rw [← BitVec.shiftRight_add,Nat.add_comm]
    · intro i hi
      rw [BitVec.getLsbD_ushiftRight]
      exact h (1+i) (by omega)

theorem feed_eq (poly r : BitVec w) (b : Bool) :
    feed poly r b = clock poly (r ^^^ (BitVec.ofBool b).setWidth w) := by
  have hshift : ((BitVec.ofBool b).setWidth w) >>> 1 = 0#w := by
    apply BitVec.eq_of_getLsbD_eq
    intro i _
    simp
  rcases Nat.eq_zero_or_pos w with rfl | hw
  · exact Subsingleton.elim _ _
  · simp [feed,clock,hw,BitVec.ushiftRight_xor_distrib,hshift]

theorem feedBits_word (poly : BitVec w) (bits : List Bool) (r : BitVec w) (h : bits.length ≤ w) :
    feedBits poly bits r = (clock poly)^[bits.length] (r ^^^ word w bits) := by
  induction bits generalizing r with
  | nil => simp [feedBits,word]
  | cons b bs ih =>
    have hl : bs.length < w := h
    have htop : clock poly (word w bs <<< 1) = word w bs := by
      apply BitVec.eq_of_getLsbD_eq
      intro i hi
      have hdown : clock poly (word w bs <<< 1) = (word w bs <<< 1) >>> 1 := by simp [clock]
      rw [hdown,BitVec.getLsbD_ushiftRight,BitVec.getLsbD_shiftLeft,Nat.add_sub_cancel_left]
      by_cases hiw : 1+i < w
      · simp [hiw]
      · have hbs : bs.getD i false = false := by
          rw [List.getD_eq_getElem?_getD,List.getElem?_eq_none (by omega)]
          rfl
        rw [word_getLsbD,hbs]
        simp
    have hstep : clock poly (r ^^^ word w (b :: bs)) = feed poly r b ^^^ word w bs := by
      rw [word,← BitVec.xor_assoc,clock_xor,htop,feed_eq]
    have ih := ih (feed poly r b) (by omega)
    rw [List.length_cons,Function.iterate_succ_apply,hstep,← ih]
    rfl

theorem feedBits_append (poly : BitVec w) (xs ys : List Bool) (r : BitVec w) :
    feedBits poly (xs ++ ys) r = feedBits poly ys (feedBits poly xs r) := List.foldl_append

theorem checksum_append (poly seed : BitVec w) (xs ys : List Bool) :
    checksum poly seed (xs ++ ys) = checksum poly (checksum poly seed xs) ys := by
  simp [checksum,feedBits_append]

theorem feedBits_injective {poly : BitVec w} (hp : poly.msb = true) (bits : List Bool) :
    Function.Injective (feedBits poly bits) := by
  induction bits with
  | nil => exact fun _ _ h => h
  | cons b bs ih =>
    intro a c h
    have hfeed : feed poly a b = feed poly c b := ih h
    rw [feed_eq,feed_eq] at hfeed
    exact (BitVec.xor_left_inj _).mp (clock_injective hp hfeed)

/-- A change within as many bits as the register is wide never goes unseen. -/
theorem burst_detected {poly : BitVec w} (hp : poly.msb = true) (seed : BitVec w)
    {xs ys ys' zs : List Bool} (hl : ys.length = ys'.length) (hw : ys.length ≤ w)
    (h : checksum poly seed (xs ++ ys ++ zs) = checksum poly seed (xs ++ ys' ++ zs)) :
    ys = ys' := by
  have hend : feedBits poly (xs ++ ys ++ zs) (~~~ seed) =
      feedBits poly (xs ++ ys' ++ zs) (~~~ seed) := by
    simpa [checksum] using h
  rw [feedBits_append,feedBits_append _ (xs ++ ys')] at hend
  have hmid := feedBits_injective hp zs hend
  rw [feedBits_append,feedBits_append,feedBits_word poly ys _ hw,
    feedBits_word poly ys' _ (by omega),← hl] at hmid
  have hword := (clock_injective hp).iterate ys.length hmid
  exact word_injective hl hw ((BitVec.xor_right_inj _).mp hword)

/-- The table of a register read `k` bits at a time. -/
def tableEntry (poly : BitVec w) {k : Nat} (i : BitVec k) : BitVec w :=
  (clock poly)^[k] (i.setWidth w)

theorem clocks_split (poly : BitVec w) (k : Nat) (r : BitVec w) :
    (clock poly)^[k] r = tableEntry poly (r.setWidth k) ^^^ (r >>> k) := by
  have hhigh : ∀ i < k, (r ^^^ (r.setWidth k).setWidth w).getLsbD i = false := by
    intro i hi
    by_cases hiw : i < w
    · simp [hi,hiw]
    · simp [BitVec.getLsbD_of_ge _ i (by omega : w ≤ i)]
  have hdown : (r ^^^ (r.setWidth k).setWidth w) >>> k = r >>> k := by
    apply BitVec.eq_of_getLsbD_eq
    intro i _
    simp
  have hsum : (r.setWidth k).setWidth w ^^^ (r ^^^ (r.setWidth k).setWidth w) = r := by
    rw [BitVec.xor_comm r,← BitVec.xor_assoc,BitVec.xor_self,BitVec.zero_xor]
  calc (clock poly)^[k] r
      = (clock poly)^[k] ((r.setWidth k).setWidth w ^^^ (r ^^^ (r.setWidth k).setWidth w)) := by
        rw [hsum]
    _ = tableEntry poly (r.setWidth k) ^^^ (r >>> k) := by
        rw [clocks_xor,clocks_of_low_clear _ _ _ hhigh,hdown]
        rfl

/-- One look into the table is `k` bits of the message. -/
theorem feedBits_table (poly : BitVec w) {k : Nat} (x : BitVec k) (r : BitVec w) (hk : k ≤ w) :
    feedBits poly (lsbBits x) r =
      tableEntry poly ((r ^^^ x.setWidth w).setWidth k) ^^^ (r >>> k) := by
  have hdown : (r ^^^ x.setWidth w) >>> k = r >>> k := by
    apply BitVec.eq_of_getLsbD_eq
    intro i _
    simp
  rw [feedBits_word _ _ _ (by simpa using hk),word_lsbBits,lsbBits_length,clocks_split,hdown]

end CrcRegister
