import Mathlib.Data.List.Basic
set_option autoImplicit false

/-! Tokens that are written and read in calls which may each move fewer of them than they are
asked to, but at least one. -/

/-- How many tokens the `i`-th call moves when it is asked for `n`; a call without an answer
has failed. -/
structure Splitting where
  moved : Nat → Nat → Option Nat
  pos : ∀ {i n m : Nat}, moved i n = some m → 0 < n → 0 < m
  le : ∀ {i n m : Nat}, moved i n = some m → m ≤ n

namespace Splitting

/-- No call fails. -/
def Reliable (σ : Splitting) : Prop := ∀ i n, ∃ m, σ.moved i n = some m

def atMost (k : Nat) : Splitting where
  moved := fun _ n => some (min n (k+1))
  pos := by
    intro i n m h hn
    obtain rfl := Option.some.inj h
    omega
  le := by
    intro i n m h
    obtain rfl := Option.some.inj h
    exact Nat.min_le_left n (k+1)

theorem atMost_reliable (k : Nat) : (atMost k).Reliable := fun _ n => ⟨min n (k+1),rfl⟩

end Splitting

/-- One direction of a connection, seen from one end: the calls made so far, and the tokens
that are in it. -/
structure Channel (τ : Type) where
  calls : Nat := 0
  data : List τ := []
  deriving DecidableEq

namespace Channel

variable {τ : Type}

/-- Read until `n` tokens have come in; the end of the data is a failure as well. Each call
moves a token, so `n` calls are enough. -/
def readLoop (σ : Splitting) : Nat → Nat → Channel τ → Option (List τ) × Channel τ
  | 0, _, c => (some [],c)
  | fuel+1, n, c =>
    if n = 0 then (some [],c)
    else if c.data.isEmpty then (none,⟨c.calls+1,c.data⟩)
    else match σ.moved c.calls n with
      | none => (none,⟨c.calls+1,c.data⟩)
      | some m =>
        let r := readLoop σ fuel (n-(c.data.take m).length) ⟨c.calls+1,c.data.drop m⟩
        (r.1.map (c.data.take m ++ ·),r.2)

def readAll (σ : Splitting) (n : Nat) (c : Channel τ) : Option (List τ) × Channel τ :=
  readLoop σ n n c

def writeLoop (σ : Splitting) : Nat → List τ → Channel τ → Bool × Channel τ
  | 0, _, c => (true,c)
  | fuel+1, ts, c =>
    if ts.isEmpty then (true,c)
    else match σ.moved c.calls ts.length with
      | none => (false,⟨c.calls+1,c.data⟩)
      | some m => writeLoop σ fuel (ts.drop m) ⟨c.calls+1,c.data ++ ts.take m⟩

def writeAll (σ : Splitting) (ts : List τ) (c : Channel τ) : Bool × Channel τ :=
  writeLoop σ ts.length ts c

theorem readLoop_spec {σ : Splitting} (hσ : σ.Reliable) {fuel n : Nat} (hf : n ≤ fuel)
    (c : Channel τ) : ∃ calls, readLoop σ fuel n c =
      if n ≤ c.data.length then (some (c.data.take n),⟨calls,c.data.drop n⟩)
      else (none,⟨calls,[]⟩) := by
  induction fuel generalizing n c with
  | zero =>
    obtain rfl : n = 0 := by omega
    exact ⟨c.calls,by simp [readLoop]⟩
  | succ fuel ih =>
    unfold readLoop
    by_cases hn : n = 0
    · exact ⟨c.calls,by simp [hn]⟩
    rw [if_neg hn]
    by_cases hd : c.data = []
    · exact ⟨c.calls+1,by simp [hd,hn]⟩
    rw [if_neg (by simpa using hd)]
    obtain ⟨m,hm⟩ := hσ c.calls n
    have hpos := σ.pos hm (by omega)
    have hle := σ.le hm
    have hlen : 0 < c.data.length := List.length_pos_of_ne_nil hd
    rw [hm]
    obtain ⟨calls,hr⟩ := ih (n := n-(c.data.take m).length)
      (by rw [List.length_take]; omega) ⟨c.calls+1,c.data.drop m⟩
    refine ⟨calls,?_⟩
    simp only [hr]
    simp only [List.length_drop,List.length_take]
    by_cases hall : n ≤ c.data.length
    · have hmin : min m c.data.length = m := by omega
      rw [if_pos (by omega),if_pos hall,hmin,Option.map_some,List.drop_drop,← List.take_add]
      have hsum : m+(n-m) = n := by omega
      rw [hsum]
    · rw [if_neg (by omega),if_neg hall]
      rfl

theorem readAll_spec {σ : Splitting} (hσ : σ.Reliable) (n : Nat) (c : Channel τ) :
    ∃ calls, readAll σ n c =
      if n ≤ c.data.length then (some (c.data.take n),⟨calls,c.data.drop n⟩)
      else (none,⟨calls,[]⟩) :=
  readLoop_spec hσ (Nat.le_refl n) c

theorem readAll_append {σ : Splitting} (hσ : σ.Reliable) {n : Nat} {ts : List τ}
    (hn : ts.length = n) (rest : List τ) (calls : Nat) :
    ∃ calls', readAll σ n ⟨calls,ts ++ rest⟩ = (some ts,⟨calls',rest⟩) := by
  obtain ⟨calls',h⟩ := readAll_spec hσ n ⟨calls,ts ++ rest⟩
  refine ⟨calls',?_⟩
  rw [h,if_pos (by simp [hn])]
  simp [← hn]

theorem readAll_short {σ : Splitting} (hσ : σ.Reliable) {n : Nat} {ts : List τ}
    (hn : ts.length < n) (calls : Nat) :
    ∃ calls', readAll σ n ⟨calls,ts⟩ = (none,⟨calls',[]⟩) := by
  obtain ⟨calls',h⟩ := readAll_spec hσ n ⟨calls,ts⟩
  exact ⟨calls',by rw [h,if_neg (by simpa using hn)]⟩

/-- Where calls may fail a loop with enough data still reads nothing else. -/
theorem readLoop_cases (σ : Splitting) {fuel n : Nat} (hf : n ≤ fuel) (c : Channel τ)
    (hc : n ≤ c.data.length) :
    (∃ calls, readLoop σ fuel n c = (some (c.data.take n),⟨calls,c.data.drop n⟩)) ∨
      (readLoop σ fuel n c).1 = none := by
  induction fuel generalizing n c with
  | zero =>
    obtain rfl : n = 0 := by omega
    exact .inl ⟨c.calls,by simp [readLoop]⟩
  | succ fuel ih =>
    unfold readLoop
    by_cases hn : n = 0
    · exact .inl ⟨c.calls,by simp [hn]⟩
    have hd : ¬ c.data.isEmpty := by
      rw [List.isEmpty_iff_length_eq_zero]
      omega
    rw [if_neg hn,if_neg hd]
    cases hm : σ.moved c.calls n with
    | none => exact .inr rfl
    | some m =>
      have hpos := σ.pos hm (by omega)
      have hle := σ.le hm
      have hlen : (c.data.take m).length = m := by
        rw [List.length_take]
        omega
      have hsum : m+(n-m) = n := by omega
      have ih := ih (n := n-(c.data.take m).length) (by omega) ⟨c.calls+1,c.data.drop m⟩
        (by rw [List.length_drop]; omega)
      rw [hlen] at ih
      simp only [hlen]
      rcases ih with ⟨calls,hr⟩ | hr
      · refine .inl ⟨calls,?_⟩
        rw [hr,Option.map_some,List.drop_drop,← List.take_add,hsum]
      · right
        rw [hr,Option.map_none]

theorem readAll_cases (σ : Splitting) {n : Nat} {ts : List τ} (hn : ts.length = n)
    (rest : List τ) (calls : Nat) :
    (∃ calls', readAll σ n ⟨calls,ts ++ rest⟩ = (some ts,⟨calls',rest⟩)) ∨
      (∃ c, readAll σ n ⟨calls,ts ++ rest⟩ = (none,c)) ∧ ¬ σ.Reliable := by
  by_cases hσ : σ.Reliable
  · exact .inl (readAll_append hσ hn rest calls)
  · have hlen : n ≤ (ts ++ rest).length := by
      rw [List.length_append]
      omega
    rcases readLoop_cases σ (Nat.le_refl n) ⟨calls,ts ++ rest⟩ hlen with ⟨calls',h⟩ | h
    · refine .inl ⟨calls',?_⟩
      rw [List.take_left' hn,List.drop_left' hn] at h
      exact h
    · exact .inr ⟨⟨_,Prod.ext h rfl⟩,hσ⟩

theorem writeLoop_spec {σ : Splitting} (hσ : σ.Reliable) {fuel : Nat} {ts : List τ}
    (hf : ts.length ≤ fuel) (c : Channel τ) :
    ∃ calls, writeLoop σ fuel ts c = (true,⟨calls,c.data ++ ts⟩) := by
  induction fuel generalizing ts c with
  | zero =>
    obtain rfl : ts = [] := List.eq_nil_of_length_eq_zero (by omega)
    exact ⟨c.calls,by simp [writeLoop]⟩
  | succ fuel ih =>
    unfold writeLoop
    by_cases ht : ts = []
    · exact ⟨c.calls,by simp [ht]⟩
    rw [if_neg (by simpa using ht)]
    have hlen : 0 < ts.length := List.length_pos_of_ne_nil ht
    obtain ⟨m,hm⟩ := hσ c.calls ts.length
    have hpos := σ.pos hm hlen
    rw [hm]
    have hdrop : (ts.drop m).length ≤ fuel := by
      rw [List.length_drop]
      omega
    obtain ⟨calls,hw⟩ := ih hdrop ⟨c.calls+1,c.data ++ ts.take m⟩
    refine ⟨calls,?_⟩
    simp only [hw,List.append_assoc,List.take_append_drop]

theorem writeAll_spec {σ : Splitting} (hσ : σ.Reliable) (ts : List τ) (c : Channel τ) :
    ∃ calls, writeAll σ ts c = (true,⟨calls,c.data ++ ts⟩) :=
  writeLoop_spec hσ (Nat.le_refl _) c

def sends {π : Type} (send : π → Channel τ → Bool × Channel τ) :
    List π → Channel τ → List Bool × Channel τ
  | [], c => ([],c)
  | p :: ps, c =>
    let r := send p c
    let rs := sends send ps r.2
    (r.1 :: rs.1,rs.2)

def receives {ρ : Type} (recv : Channel τ → ρ × Channel τ) :
    Nat → Channel τ → List ρ × Channel τ
  | 0, c => ([],c)
  | n+1, c =>
    let r := recv c
    let rs := receives recv n r.2
    (r.1 :: rs.1,rs.2)

section Frames

variable {π ρ : Type} {frame : π → List τ} {good : π → Prop}

theorem sends_frames {send : π → Channel τ → Bool × Channel τ}
    (h : ∀ p c, good p → ∃ calls, send p c = (true,⟨calls,c.data ++ frame p⟩))
    {ps : List π} (hps : ∀ p ∈ ps, good p) (c : Channel τ) :
    ∃ calls, sends send ps c =
      (List.replicate ps.length true,⟨calls,c.data ++ ps.flatMap frame⟩) := by
  induction ps generalizing c with
  | nil => exact ⟨c.calls,by simp [sends]⟩
  | cons p ps ih =>
    obtain ⟨calls,hp⟩ := h p c (hps p List.mem_cons_self)
    obtain ⟨calls',hs⟩ := ih (fun q hq => hps q (List.mem_cons_of_mem p hq))
      ⟨calls,c.data ++ frame p⟩
    refine ⟨calls',?_⟩
    simp only [sends,hp,hs,List.append_assoc,List.flatMap_cons,List.length_cons]
    rfl

/-- A receiver that takes one frame off the front takes a row of them one by one. -/
theorem receives_frames {recv : Channel τ → ρ × Channel τ} {got : π → ρ}
    (h : ∀ p calls rest, good p →
      ∃ calls', recv ⟨calls,frame p ++ rest⟩ = (got p,⟨calls',rest⟩))
    {ps : List π} (hps : ∀ p ∈ ps, good p) (calls : Nat) (rest : List τ) :
    ∃ calls', receives recv ps.length ⟨calls,ps.flatMap frame ++ rest⟩ =
      (ps.map got,⟨calls',rest⟩) := by
  induction ps generalizing calls with
  | nil => exact ⟨calls,rfl⟩
  | cons p ps ih =>
    obtain ⟨calls1,hp⟩ := h p calls (ps.flatMap frame ++ rest) (hps p List.mem_cons_self)
    obtain ⟨calls2,hs⟩ := ih (fun q hq => hps q (List.mem_cons_of_mem p hq)) calls1
    refine ⟨calls2,?_⟩
    simp only [List.length_cons,receives,List.flatMap_cons,List.append_assoc,hp,hs,List.map_cons]

theorem receives_add (recv : Channel τ → ρ × Channel τ) (m n : Nat) (c : Channel τ) :
    (receives recv (m+n) c).1 =
      (receives recv m c).1 ++ (receives recv n (receives recv m c).2).1 := by
  induction m generalizing c with
  | zero => rw [Nat.zero_add]; rfl
  | succ m ih =>
    rw [Nat.succ_add]
    simp only [receives,ih,List.cons_append]

theorem receives_end {recv : Channel τ → ρ × Channel τ} {eof : ρ}
    (h : ∀ calls, ∃ calls', recv ⟨calls,[]⟩ = (eof,⟨calls',[]⟩)) (n calls : Nat) :
    (receives recv n ⟨calls,[]⟩).1 = List.replicate n eof := by
  induction n generalizing calls with
  | zero => rfl
  | succ n ih =>
    obtain ⟨calls',hr⟩ := h calls
    simp only [receives,hr,ih,List.replicate_succ]

end Frames

end Channel
