import Mathlib.Data.List.Basic
set_option autoImplicit false

/-! Scanning a token list with a failure flag that is raised once and stays up.
A scan that runs out of tokens returns a default and goes on, so what a program
reads after the failure is meaningless but the flag is not. -/

structure Cursor (τ : Type) where
  data : List τ
  pos : Nat := 0
  failed : Bool := false
  deriving DecidableEq

namespace Cursor

def ok {τ : Type} (c : Cursor τ) : Bool := !c.failed
def remaining {τ : Type} (c : Cursor τ) : Nat := c.data.length-c.pos
def has {τ : Type} (c : Cursor τ) (n : Nat) : Bool := !c.failed && decide (n ≤ c.remaining)
def rest {τ : Type} (c : Cursor τ) : List τ := c.data.drop c.pos
def fail {τ : Type} (c : Cursor τ) : Cursor τ := { c with failed := true }
def advance {τ : Type} (c : Cursor τ) (n : Nat) : Cursor τ := { c with pos := c.pos+n }

@[simp] theorem fail_failed {τ : Type} (c : Cursor τ) : c.fail.failed = true := rfl
@[simp] theorem advance_failed {τ : Type} (c : Cursor τ) (n : Nat) :
    (c.advance n).failed = c.failed := rfl

theorem fail_of_failed {τ : Type} {c : Cursor τ} (h : c.failed = true) : c.fail = c := by
  cases c
  exact congrArg _ h.symm

theorem advance_rest {τ : Type} (c : Cursor τ) (n : Nat) :
    (c.advance n).rest = c.rest.drop n := by simp [advance,rest]

theorem advance_advance {τ : Type} (c : Cursor τ) (m n : Nat) :
    (c.advance m).advance n = c.advance (m+n) := by simp [advance,Nat.add_assoc]

theorem rest_length {τ : Type} (c : Cursor τ) : c.rest.length = c.remaining := by
  simp [rest,remaining]

theorem has_iff {τ : Type} (c : Cursor τ) (n : Nat) :
    c.has n = true ↔ c.failed = false ∧ n ≤ c.rest.length := by
  simp [has,rest_length]

end Cursor

abbrev Scan (τ α : Type) := StateM (Cursor τ) α

namespace Scan

theorem bind_apply {τ α β : Type} (p : Scan τ α) (f : α → Scan τ β) (c : Cursor τ) :
    (p >>= f) c = f (p c).1 (p c).2 := rfl

theorem pure_apply {τ α : Type} (x : α) (c : Cursor τ) : (pure x : Scan τ α) c = (x,c) := rfl

/-- Read the next `n` tokens as one value, or fail with a default. -/
def window {τ α : Type} (n : Nat) (dflt : α) (f : List τ → α) : Scan τ α := fun c =>
  if c.has n then (f (c.rest.take n),c.advance n) else (dflt,c.fail)

/-- `n` values in a row, with no look at the failure flag in between. -/
def times {τ α : Type} (p : Scan τ α) : Nat → Scan τ (List α)
  | 0 => pure []
  | n+1 => do
      let x ← p
      let xs ← times p n
      pure (x :: xs)

/-- `n` values in a row, each stored once the flag has been looked at. The flag
returned says whether the loop ran to its end. -/
def collect {τ α μ : Type} (p : Scan τ α) (put : μ → α → μ) : Nat → μ → Scan τ (Bool × μ)
  | 0, m => pure (true,m)
  | n+1, m => fun c =>
      if (p c).2.failed then ((false,m),(p c).2)
      else collect p put n (put m (p c).1) (p c).2

def Sticky {τ α : Type} (p : Scan τ α) : Prop := ∀ c, c.failed = true → (p c).2.failed = true

/-- On tokens that start with `ts` the scan reads exactly `ts` and returns `x`
when the guard holds, and fails when it does not. -/
def Decodes {τ α : Type} (p : Scan τ α) (ts : List τ) (guard : Prop) (x : α) : Prop :=
  ∀ (c : Cursor τ) (tail : List τ), c.failed = false → c.rest = ts ++ tail →
    (guard → p c = (x,c.advance ts.length)) ∧ (¬ guard → (p c).2.failed = true)

theorem sticky_pure {τ α : Type} (x : α) : Sticky (pure x : Scan τ α) := fun _ h => h

theorem Sticky.bind {τ α β : Type} {p : Scan τ α} {f : α → Scan τ β}
    (hp : Sticky p) (hf : ∀ x, Sticky (f x)) : Sticky (p >>= f) := by
  intro c h
  rw [bind_apply]
  exact hf _ _ (hp c h)

theorem sticky_window {τ α : Type} (n : Nat) (dflt : α) (f : List τ → α) :
    Sticky (window n dflt f) := by
  intro c h
  simp [window,Cursor.has,h]

theorem Sticky.times {τ α : Type} {p : Scan τ α} (hp : Sticky p) (n : Nat) :
    Sticky (times p n) := by
  induction n with
  | zero => exact sticky_pure _
  | succ n ih => exact hp.bind fun _ => ih.bind fun _ => sticky_pure _

theorem Sticky.collect {τ α μ : Type} {p : Scan τ α} (hp : Sticky p) (put : μ → α → μ)
    (n : Nat) (m : μ) : Sticky (collect p put n m) := by
  cases n with
  | zero => exact sticky_pure _
  | succ n =>
    intro c h
    have hf := hp c h
    simp [Scan.collect,hf]

theorem Decodes.congr {τ α : Type} {p : Scan τ α} {ts : List τ} {a b : Prop} {x : α}
    (h : Decodes p ts a x) (hab : a ↔ b) : Decodes p ts b x := by
  intro c tail hc hr
  have h := h c tail hc hr
  exact ⟨fun hb => h.1 (hab.mpr hb),fun hb => h.2 (fun ha => hb (hab.mp ha))⟩

theorem decodes_pure {τ α : Type} (x : α) : Decodes (pure x : Scan τ α) [] True x := by
  intro c tail _ _
  exact ⟨fun _ => rfl,fun h => absurd trivial h⟩

theorem Decodes.bind {τ α β : Type} {p : Scan τ α} {f : α → Scan τ β} {ts us : List τ}
    {a b : Prop} {x : α} {y : β} (hp : Decodes p ts a x) (hs : ∀ z, Sticky (f z))
    (hf : Decodes (f x) us b y) : Decodes (p >>= f) (ts ++ us) (a ∧ b) y := by
  intro c tail hc hr
  have hpc := hp c (us ++ tail) hc (by rw [hr,List.append_assoc])
  have hrest : (c.advance ts.length).rest = us ++ tail := by
    rw [Cursor.advance_rest,hr,List.append_assoc,List.drop_left]
  have hfc := hf (c.advance ts.length) tail hc hrest
  rw [bind_apply]
  by_cases ha : a
  · rw [hpc.1 ha]
    refine ⟨fun h => ?_,fun h => hfc.2 (fun hb => h ⟨ha,hb⟩)⟩
    rw [hfc.1 h.2,Cursor.advance_advance,List.length_append]
  · exact ⟨fun h => absurd h.1 ha,fun _ => hs _ _ (hpc.2 ha)⟩

/-- A scan that cannot fail on its tokens needs no care for what follows a failure. -/
theorem Decodes.andThen {τ α β : Type} {p : Scan τ α} {f : α → Scan τ β} {ts us : List τ}
    {b : Prop} {x : α} {y : β} (hp : Decodes p ts True x) (hf : Decodes (f x) us b y) :
    Decodes (p >>= f) (ts ++ us) b y := by
  intro c tail hc hr
  have hpc := hp c (us ++ tail) hc (by rw [hr,List.append_assoc])
  have hrest : (c.advance ts.length).rest = us ++ tail := by
    rw [Cursor.advance_rest,hr,List.append_assoc,List.drop_left]
  have hfc := hf (c.advance ts.length) tail hc hrest
  rw [bind_apply,hpc.1 trivial,List.length_append,← Cursor.advance_advance]
  exact hfc

theorem Decodes.map {τ α β : Type} {p : Scan τ α} {g : α → β} {ts : List τ} {a : Prop} {x : α}
    {y : β} (hp : Decodes p ts a x) (hg : g x = y) :
    Decodes (p >>= fun z => pure (g z)) ts a y := by
  have h := hp.bind (f := fun z => pure (g z)) (fun _ => sticky_pure _) (decodes_pure (g x))
  rw [List.append_nil,hg] at h
  exact h.congr (by simp)

theorem decodes_window {τ α : Type} {n : Nat} {dflt x : α} {f : List τ → α} {ts : List τ}
    (hn : ts.length = n) (hx : f ts = x) : Decodes (window n dflt f) ts True x := by
  intro c tail hc hr
  refine ⟨fun _ => ?_,fun h => absurd trivial h⟩
  have hh : c.has n = true := by
    rw [Cursor.has_iff,hr,List.length_append]
    exact ⟨hc,by omega⟩
  have ht : c.rest.take n = ts := by rw [hr,← hn,List.take_left]
  simp [window,hh,ht,hx,hn]

theorem Decodes.times {τ α β : Type} {p : Scan τ α} (hp : Sticky p) (enc : β → List τ)
    (dec : β → α) (guard : β → Prop) (bs : List β)
    (h : ∀ b ∈ bs, Decodes p (enc b) (guard b) (dec b)) :
    Decodes (times p bs.length) (bs.flatMap enc) (∀ b ∈ bs, guard b) (bs.map dec) := by
  induction bs with
  | nil => exact (decodes_pure _).congr (by simp)
  | cons b bs ih =>
    have ht := ih (fun x hx => h x (List.mem_cons_of_mem _ hx))
    have hb := h b List.mem_cons_self
    have hstep := hb.bind (f := fun x => Scan.times p bs.length >>= fun xs => pure (x :: xs))
      (fun _ => (hp.times _).bind fun _ => sticky_pure _)
      (ht.bind (fun _ => sticky_pure _) (decodes_pure (dec b :: bs.map dec)))
    have hcat : enc b ++ (bs.flatMap enc ++ []) = (b :: bs).flatMap enc := by simp
    rw [hcat] at hstep
    exact hstep.congr (by simp)

/-- Where the unchecked loop ends without failure the checked loop stores the same
values. -/
theorem collect_of_times {τ α μ : Type} {p : Scan τ α} (hp : Sticky p) (put : μ → α → μ)
    (n : Nat) (m : μ) (c : Cursor τ) (h : (times p n c).2.failed = false) :
    collect p put n m c = ((true,(times p n c).1.foldl put m),(times p n c).2) := by
  induction n generalizing m c with
  | zero => rfl
  | succ n ih =>
    have hx : (p c).2.failed = false := by
      by_contra hne
      have ht := hp.times n (p c).2 (by simpa using hne)
      have hf : (times p n (p c).2).2.failed = false := h
      rw [ht] at hf
      exact absurd hf (by simp)
    have hr : (times p n (p c).2).2.failed = false := h
    have ih := ih (put m (p c).1) (p c).2 hr
    simp only [collect,hx,Bool.false_eq_true,if_false,ih]
    rfl

theorem collect_stops {τ α μ : Type} {p : Scan τ α} (put : μ → α → μ)
    (n : Nat) (m : μ) (c : Cursor τ) (hc : c.failed = false)
    (h : (times p n c).2.failed = true) :
    (collect p put n m c).1.1 = false ∧ (collect p put n m c).2.failed = true := by
  induction n generalizing m c with
  | zero =>
    have h : c.failed = true := h
    rw [hc] at h
    exact absurd h (by simp)
  | succ n ih =>
    by_cases hx : (p c).2.failed = true
    · simp [collect,hx]
    · have hx : (p c).2.failed = false := by simpa using hx
      have hr : (times p n (p c).2).2.failed = true := h
      simpa [collect,hx] using ih (put m (p c).1) (p c).2 hx hr

def Yields {τ α : Type} (p : Scan τ α) (P : α → Prop) : Prop :=
  ∀ c, (p c).2.failed = false → P (p c).1

theorem yields_pure {τ α : Type} {P : α → Prop} {x : α} (h : P x) :
    Yields (pure x : Scan τ α) P := fun _ _ => h

theorem Yields.skip {τ α β : Type} {p : Scan τ α} {f : α → Scan τ β} {Q : β → Prop}
    (hf : ∀ x, Yields (f x) Q) : Yields (p >>= f) Q := fun c h => hf _ (p c).2 h

theorem Yields.bind {τ α β : Type} {p : Scan τ α} {f : α → Scan τ β} {P : α → Prop}
    {Q : β → Prop} (hp : Yields p P) (hs : ∀ x, Sticky (f x))
    (hf : ∀ x, P x → Yields (f x) Q) : Yields (p >>= f) Q := by
  intro c h
  rw [bind_apply] at h ⊢
  have hx : (p c).2.failed = false := by
    by_contra hne
    have hend := hs (p c).1 (p c).2 (by simpa using hne)
    rw [h] at hend
    exact absurd hend (by simp)
  exact hf _ (hp c hx) _ h

theorem Yields.times {τ α : Type} {p : Scan τ α} {P : α → Prop} (hp : Yields p P)
    (hs : Sticky p) (n : Nat) : Yields (times p n) (fun xs => ∀ x ∈ xs, P x) := by
  induction n with
  | zero => exact yields_pure fun x hx => absurd hx List.not_mem_nil
  | succ n ih =>
    refine hp.bind (fun _ => (hs.times n).bind fun _ => sticky_pure _) fun y hy => ?_
    refine ih.bind (fun _ => sticky_pure _) fun xs hxs => yields_pure ?_
    intro x hx
    rcases List.mem_cons.mp hx with rfl | hx
    · exact hy
    · exact hxs x hx

theorem collect_yields {τ α μ : Type} {p : Scan τ α} {put : μ → α → μ} {P : α → Prop}
    {I : μ → Prop} (hp : Yields p P) (hput : ∀ m x, P x → I m → I (put m x)) (n : Nat) (m : μ)
    (c : Cursor τ) (h : I m) : I (collect p put n m c).1.2 := by
  induction n generalizing m c with
  | zero => exact h
  | succ n ih =>
    by_cases hx : (p c).2.failed = true
    · simpa [collect,hx] using h
    · have hP := hp c (by simpa using hx)
      simpa [collect,hx] using ih (put m (p c).1) (p c).2 (hput m _ hP h)

theorem collect_preserves {τ α μ : Type} {p : Scan τ α} {put : μ → α → μ} {I : μ → Prop}
    (hput : ∀ m x, I m → I (put m x)) (n : Nat) (m : μ) (c : Cursor τ) (h : I m) :
    I (collect p put n m c).1.2 :=
  collect_yields (P := fun _ => True) (fun _ _ => trivial) (fun m x _ => hput m x) n m c h

theorem mem_times {τ α : Type} {p : Scan τ α} {P : α → Prop} (hp : ∀ c, P (p c).1) (n : Nat)
    (c : Cursor τ) : ∀ x ∈ (times p n c).1, P x := by
  induction n generalizing c with
  | zero =>
    intro x hx
    exact absurd hx (List.not_mem_nil)
  | succ n ih =>
    intro x hx
    have hx : x ∈ (p c).1 :: (times p n (p c).2).1 := hx
    rcases List.mem_cons.mp hx with rfl | hx
    · exact hp c
    · exact ih (p c).2 x hx

def Refuses {τ α : Type} (p : Scan τ α) (x : α) : Prop := ∀ c, c.failed = true → p c = (x,c)

theorem refuses_window {τ α : Type} (n : Nat) (dflt : α) (f : List τ → α) :
    Refuses (window n dflt f) dflt := by
  intro c h
  simp [window,Cursor.has,h,Cursor.fail_of_failed h]

theorem Refuses.map {τ α β : Type} {p : Scan τ α} {x : α} (h : Refuses p x) (g : α → β) :
    Refuses (p >>= fun z => pure (g z)) (g x) := by
  intro c hc
  rw [bind_apply,h c hc,pure_apply]

def Within {τ α : Type} (p : Scan τ α) : Prop :=
  ∀ c, c.pos ≤ c.data.length → (p c).2.pos ≤ c.data.length ∧ (p c).2.data = c.data

theorem within_window {τ α : Type} (n : Nat) (dflt : α) (f : List τ → α) :
    Within (window n dflt f) := by
  intro c h
  by_cases hn : c.has n = true
  · have hlen := ((Cursor.has_iff c n).mp hn).2
    rw [Cursor.rest,List.length_drop] at hlen
    rw [window,if_pos hn]
    exact ⟨by show c.pos+n ≤ c.data.length; omega,rfl⟩
  · rw [window,if_neg hn]
    exact ⟨h,rfl⟩

theorem Within.map {τ α β : Type} {p : Scan τ α} (h : Within p) (g : α → β) :
    Within (p >>= fun z => pure (g z)) := fun c hc => h c hc

end Scan
