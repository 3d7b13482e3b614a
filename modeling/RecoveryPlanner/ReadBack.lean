import RecoveryPlanner.Cursor
set_option autoImplicit false

/-! What a scan has read, against what a writer writes for the value it returned. -/

namespace Scan

/-- Where the scan does not fail, the writer's text for its value is `front` and as many
tokens as were read; they are the tokens read exactly where `canon` holds. -/
def Rewrites {τ α : Type} (p : Scan τ α) (front : List τ) (enc : α → List τ)
    (canon : Cursor τ → Prop) : Prop :=
  ∀ c, (p c).2.failed = false → c.failed = false ∧ ∃ ts us,
    c.rest = ts ++ (p c).2.rest ∧ enc (p c).1 = front ++ us ∧ us.length = ts.length ∧
      (us = ts ↔ canon c)

theorem Rewrites.congr {τ α : Type} {p : Scan τ α} {front : List τ} {enc : α → List τ}
    {a b : Cursor τ → Prop} (h : Rewrites p front enc a) (hab : ∀ c, a c ↔ b c) :
    Rewrites p front enc b := by
  intro c hc
  obtain ⟨hf,ts,us,hr,he,hl,hiff⟩ := h c hc
  exact ⟨hf,ts,us,hr,he,hl,hiff.trans (hab c)⟩

theorem rewrites_pure {τ α : Type} {x : α} {front : List τ} {enc : α → List τ}
    (h : enc x = front) : Rewrites (pure x : Scan τ α) front enc (fun _ => True) := by
  intro c hc
  exact ⟨hc,[],[],rfl,by rw [List.append_nil]; exact h,rfl,by simp⟩

theorem Rewrites.bind {τ α β : Type} {p : Scan τ α} {f : α → Scan τ β} {front : List τ}
    {encp : α → List τ} {enc : β → List τ} {a : Cursor τ → Prop} {b : α → Cursor τ → Prop}
    (hp : Rewrites p [] encp a) (hf : ∀ x, Rewrites (f x) (front ++ encp x) enc (b x)) :
    Rewrites (p >>= f) front enc (fun c => a c ∧ b (p c).1 (p c).2) := by
  intro c hc
  rw [bind_apply] at hc ⊢
  obtain ⟨hmid,ts,us,hr,he,hl,hiff⟩ := hf _ (p c).2 hc
  obtain ⟨hf,ts0,us0,hr0,he0,hl0,hiff0⟩ := hp c hmid
  rw [List.nil_append] at he0
  refine ⟨hf,ts0 ++ ts,us0 ++ us,by rw [hr0,hr,List.append_assoc],?_,by simp [hl0,hl],?_⟩
  · rw [he,he0,List.append_assoc]
  · change us0 ++ us = ts0 ++ ts ↔ a c ∧ b (p c).1 (p c).2
    rw [← hiff0,← hiff]
    exact ⟨fun h => List.append_inj h hl0,fun h => by rw [h.1,h.2]⟩

theorem Rewrites.andThen {τ α β : Type} {p : Scan τ α} {f : α → Scan τ β} {front : List τ}
    {encp : α → List τ} {enc : β → List τ} {b : α → Cursor τ → Prop}
    (hp : Rewrites p [] encp (fun _ => True))
    (hf : ∀ x, Rewrites (f x) (front ++ encp x) enc (b x)) :
    Rewrites (p >>= f) front enc (fun c => b (p c).1 (p c).2) :=
  (hp.bind hf).congr fun _ => iff_of_eq (true_and _)

theorem Rewrites.under {τ α : Type} {p : Scan τ α} {front : List τ} {enc enc' : α → List τ}
    {canon : Cursor τ → Prop} (h : Rewrites p [] enc canon)
    (henc : ∀ c, enc' (p c).1 = front ++ enc (p c).1) : Rewrites p front enc' canon := by
  intro c hc
  obtain ⟨hf,ts,us,hr,he,hl,hiff⟩ := h c hc
  exact ⟨hf,ts,us,hr,by rw [henc,he,List.nil_append],hl,hiff⟩

theorem Rewrites.exact {τ α : Type} {p : Scan τ α} {enc : α → List τ}
    (h : Rewrites p [] enc (fun _ => True)) {c : Cursor τ} (hc : (p c).2.failed = false) :
    c.rest = enc (p c).1 ++ (p c).2.rest := by
  obtain ⟨_,ts,us,hr,he,_,hiff⟩ := h c hc
  rw [List.nil_append] at he
  rw [he,hiff.mpr trivial,hr]

theorem Rewrites.back {τ α : Type} {p : Scan τ α} {enc : α → List τ}
    (h : Rewrites p [] enc (fun _ => True)) {c : Cursor τ} {r : α × Cursor τ} (hp : p c = r)
    (hr : r.2.failed = false) : c.failed = false ∧ c.rest = enc r.1 ++ r.2.rest := by
  subst hp
  exact ⟨(h c hr).1,h.exact hr⟩

theorem Rewrites.length {τ α : Type} {p : Scan τ α} {enc : α → List τ} {canon : Cursor τ → Prop}
    (h : Rewrites p [] enc canon) {c : Cursor τ} (hc : (p c).2.failed = false) :
    c.rest.length = (enc (p c).1).length+(p c).2.rest.length := by
  obtain ⟨_,ts,us,hr,he,hl,_⟩ := h c hc
  rw [List.nil_append] at he
  rw [hr,List.length_append,he,hl]

theorem rewrites_window {τ α : Type} {n : Nat} {dflt : α} {f : List τ → α} {enc : α → List τ}
    (h : ∀ w, w.length = n → enc (f w) = w) :
    Rewrites (window n dflt f) [] enc (fun _ => True) := by
  intro c hc
  by_cases hh : c.has n = true
  · have hn := (Cursor.has_iff c n).mp hh
    have hw : (c.rest.take n).length = n := by rw [List.length_take]; omega
    refine ⟨hn.1,c.rest.take n,c.rest.take n,?_,?_,rfl,by simp⟩
    · simp [window,hh,Cursor.advance_rest,List.take_append_drop]
    · simpa [window,hh] using h _ hw
  · simp [window,hh] at hc

def attempts {τ α : Type} (p : Scan τ α) : Nat → Cursor τ → List (Cursor τ)
  | 0, _ => []
  | n+1, c => c :: if (p c).2.failed then [] else attempts p n (p c).2

theorem Rewrites.times {τ α : Type} {p : Scan τ α} {enc : α → List τ} {canon : Cursor τ → Prop}
    (hp : Rewrites p [] enc canon) (n : Nat) :
    Rewrites (times p n) [] (fun xs => xs.flatMap enc) (fun c => ∀ s ∈ attempts p n c, canon s) := by
  induction n with
  | zero => exact (rewrites_pure rfl).congr fun c => by simp [attempts]
  | succ n ih =>
    intro c hc
    have hrest : (Scan.times p n (p c).2).2.failed = false := hc
    obtain ⟨hmid,ts,us,hr,he,hl,hiff⟩ := ih (p c).2 hrest
    obtain ⟨hf,ts0,us0,hr0,he0,hl0,hiff0⟩ := hp c hmid
    refine ⟨hf,ts0 ++ ts,us0 ++ us,?_,?_,by simp [hl0,hl],?_⟩
    · rw [hr0,hr,List.append_assoc]
      rfl
    · change ((p c).1 :: (Scan.times p n (p c).2).1).flatMap enc = _
      simp only [List.nil_append] at he he0
      simp [he,he0]
    · simp only [attempts,hmid,Bool.false_eq_true,if_false,List.forall_mem_cons,← hiff0,← hiff]
      exact ⟨fun h => List.append_inj h hl0,fun h => by rw [h.1,h.2]⟩

theorem times_none {τ α : Type} (p : Scan τ α) (c : Cursor τ) : (times p 0 c).2 = c := rfl

theorem times_after {τ α : Type} (p : Scan τ α) (n : Nat) (c : Cursor τ) :
    (times p (n+1) c).2 = (times p n (p c).2).2 := by
  rw [times]
  rfl

theorem times_length {τ α : Type} (p : Scan τ α) (n : Nat) (c : Cursor τ) :
    (times p n c).1.length = n := by
  induction n generalizing c with
  | zero => rfl
  | succ n ih =>
    change ((p c).1 :: (times p n (p c).2).1).length = n+1
    rw [List.length_cons,ih]

theorem collect_size {τ α μ : Type} {p : Scan τ α} {put : μ → α → μ} (size : μ → Nat)
    (hput : ∀ m x, size (put m x) ≤ size m+1)
    (hp : ∀ c, (p c).2.failed = false → (p c).2.rest.length < c.rest.length) (n : Nat) (m : μ)
    (c : Cursor τ) : size (collect p put n m c).1.2 ≤ size m+c.rest.length := by
  induction n generalizing m c with
  | zero => exact Nat.le_add_right _ _
  | succ n ih =>
    by_cases hx : (p c).2.failed = true
    · simp [collect,hx]
    · have hlt := hp c (by simpa using hx)
      have hone := hput m (p c).1
      have ih := ih (put m (p c).1) (p c).2
      simp only [collect,hx,Bool.false_eq_true,if_false]
      omega

def Onward {τ α : Type} (p : Scan τ α) : Prop := ∀ c, (p c).2.rest.length ≤ c.rest.length

theorem onward_window {τ α : Type} (n : Nat) (dflt : α) (f : List τ → α) :
    Onward (window n dflt f) := by
  intro c
  by_cases h : c.has n = true
  · simp [window,h,Cursor.advance_rest]
  · simp [window,h,Cursor.fail,Cursor.rest]

theorem Onward.bind {τ α β : Type} {p : Scan τ α} {f : α → Scan τ β} (hp : Onward p)
    (hf : ∀ x, Onward (f x)) : Onward (p >>= f) :=
  fun c => Nat.le_trans (hf (p c).1 (p c).2) (hp c)

theorem onward_pure {τ α : Type} (x : α) : Onward (pure x : Scan τ α) := fun _ => Nat.le_refl _

theorem Onward.times {τ α : Type} {p : Scan τ α} (hp : Onward p) (n : Nat) :
    Onward (times p n) := by
  induction n with
  | zero => exact onward_pure _
  | succ n ih => exact hp.bind fun _ => ih.bind fun _ => onward_pure _

theorem collect_onward {τ α μ : Type} {p : Scan τ α} {put : μ → α → μ}
    (hp : ∀ c, (p c).2.failed = false → (p c).2.rest.length ≤ c.rest.length) (n : Nat) (m : μ)
    (c : Cursor τ) (h : (collect p put n m c).1.1 = true) :
    (collect p put n m c).2.rest.length ≤ c.rest.length := by
  induction n generalizing m c with
  | zero => exact Nat.le_refl _
  | succ n ih =>
    by_cases hx : (p c).2.failed = true
    · simp [collect,hx] at h
    · simp only [collect,hx,Bool.false_eq_true,if_false] at h ⊢
      exact Nat.le_trans (ih _ _ h) (hp c (by simpa using hx))

end Scan
