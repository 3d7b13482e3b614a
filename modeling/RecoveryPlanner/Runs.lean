import Mathlib.Data.List.Basic
set_option autoImplicit false

/-! Runs of a deterministic step function over a list of operations, and what
holds along them. -/

def run {σ ι : Type} (step : σ → ι → σ) (s : σ) (ops : List ι) : σ := ops.foldl step s

def Along {σ ι : Type} (ok : σ → ι → Prop) (step : σ → ι → σ) : σ → List ι → Prop
  | _, [] => True
  | s, op :: ops => ok s op ∧ Along ok step (step s op) ops

@[simp] theorem run_nil {σ ι : Type} (step : σ → ι → σ) (s : σ) : run step s [] = s := rfl

@[simp] theorem run_cons {σ ι : Type} (step : σ → ι → σ) (s : σ) (op : ι) (ops : List ι) :
    run step s (op :: ops) = run step (step s op) ops := rfl

theorem run_append {σ ι : Type} (step : σ → ι → σ) (s : σ) (xs ys : List ι) :
    run step s (xs ++ ys) = run step (run step s xs) ys := List.foldl_append

theorem along_append {σ ι : Type} {ok : σ → ι → Prop} {step : σ → ι → σ} {s : σ}
    {xs ys : List ι} :
    Along ok step s (xs ++ ys) ↔ Along ok step s xs ∧ Along ok step (run step s xs) ys := by
  induction xs generalizing s with
  | nil => simp [Along]
  | cons x xs ih => simp [Along,ih,and_assoc]

/-- The invariant rule. -/
theorem Along.invariant {σ ι : Type} {ok : σ → ι → Prop} {step : σ → ι → σ} {s : σ}
    {ops : List ι} {I : σ → Prop} (h : Along ok step s ops) (h0 : I s)
    (hstep : ∀ s op, ok s op → I s → I (step s op)) : I (run step s ops) := by
  induction ops generalizing s with
  | nil => exact h0
  | cons op ops ih => exact ih h.2 (hstep s op h.1 h0)

/-- What each permitted operation brings about where the invariant holds. -/
theorem Along.yields {σ ι : Type} {ok P : σ → ι → Prop} {step : σ → ι → σ} {s : σ}
    {ops : List ι} {I : σ → Prop} (h : Along ok step s ops) (h0 : I s)
    (hstep : ∀ s op, ok s op → I s → I (step s op)) (hP : ∀ s op, ok s op → I s → P s op) :
    Along P step s ops := by
  induction ops generalizing s with
  | nil => trivial
  | cons op ops ih => exact ⟨hP s op h.1 h0,ih h.2 (hstep s op h.1 h0)⟩

theorem along_congr_inv {σ ι : Type} {P Q : σ → ι → Prop} {step : σ → ι → σ} {I : σ → Prop}
    (hstep : ∀ s op, I s → I (step s op)) (hiff : ∀ s op, I s → (P s op ↔ Q s op))
    {s : σ} (h0 : I s) (ops : List ι) : Along P step s ops ↔ Along Q step s ops := by
  induction ops generalizing s with
  | nil => exact Iff.rfl
  | cons op ops ih => exact and_congr (hiff s op h0) (ih (hstep s op h0))

/-- The invariant rule where only the operations themselves matter. -/
theorem run_invariant {σ ι : Type} {step : σ → ι → σ} {s : σ} {I : σ → Prop} {ops : List ι}
    (h0 : I s) (hstep : ∀ s, ∀ op ∈ ops, I s → I (step s op)) : I (run step s ops) := by
  induction ops generalizing s with
  | nil => exact h0
  | cons op ops ih =>
    exact ih (hstep s op List.mem_cons_self h0) fun s o ho => hstep s o (List.mem_cons_of_mem _ ho)

theorem Along.congr_inv {σ ι : Type} {ok P Q : σ → ι → Prop} {step : σ → ι → σ} {s : σ}
    {ops : List ι} {I : σ → Prop} (h : Along ok step s ops) (h0 : I s)
    (hstep : ∀ s op, ok s op → I s → I (step s op))
    (hiff : ∀ s op, ok s op → I s → (P s op ↔ Q s op)) :
    Along P step s ops ↔ Along Q step s ops := by
  induction ops generalizing s with
  | nil => exact Iff.rfl
  | cons op ops ih => exact and_congr (hiff s op h.1 h0) (ih h.2 (hstep s op h.1 h0))

/-- Along a run is at every operation, in the state the operations in front of it lead to. -/
theorem along_iff_split {σ ι : Type} {ok : σ → ι → Prop} {step : σ → ι → σ} {s : σ}
    {ops : List ι} :
    Along ok step s ops ↔ ∀ xs op ys, ops = xs ++ op :: ys → ok (run step s xs) op := by
  constructor
  · rintro h xs op ys rfl
    exact (along_append.mp h).2.1
  · intro h
    induction ops generalizing s with
    | nil => trivial
    | cons op ops ih =>
      refine ⟨h [] op ops rfl,ih fun xs o ys heq => ?_⟩
      exact h (op :: xs) o ys (by rw [heq,List.cons_append])

/-- Where each operation keeps a property exactly when it meets `ok`, the property holds in
all states of a run exactly when all of its operations do. -/
theorem along_iff_states {σ ι : Type} {ok : σ → ι → Prop} {step : σ → ι → σ} {I P : σ → Prop}
    (hstep : ∀ s op, I s → I (step s op))
    (hiff : ∀ s op, I s → P s → (ok s op ↔ P (step s op))) {s : σ} (hI : I s) (hP : P s)
    (ops : List ι) : Along ok step s ops ↔ ∀ front, front <+: ops → P (run step s front) := by
  induction ops generalizing s with
  | nil =>
    refine ⟨fun _ front h => ?_,fun _ => trivial⟩
    rw [List.prefix_nil.mp h]
    exact hP
  | cons op ops ih =>
    have hone := hiff s op hI hP
    constructor
    · rintro ⟨hok,hrest⟩ front hfront
      cases front with
      | nil => exact hP
      | cons x xs =>
        obtain ⟨rfl,hxs⟩ := List.cons_prefix_cons.mp hfront
        exact (ih (hstep s x hI) (hone.mp hok)).mp hrest xs hxs
    · intro h
      have hnext : P (step s op) := h [op] (List.cons_prefix_cons.mpr ⟨rfl,List.nil_prefix⟩)
      refine ⟨hone.mpr hnext,(ih (hstep s op hI) hnext).mpr fun front hfront => ?_⟩
      exact h (op :: front) (List.cons_prefix_cons.mpr ⟨rfl,hfront⟩)

/-- The operations of another machine that stand for those of a run, where `means` says which
ones stand for one operation. -/
def meaning {σ ι κ : Type} (step : σ → ι → σ) (means : σ → ι → List κ) : σ → List ι → List κ
  | _, [] => []
  | s, op :: ops => means s op ++ meaning step means (step s op) ops

/-- The simulation rule. -/
theorem Along.simulates {σ τ ι κ : Type} {ok : σ → ι → Prop} {step : σ → ι → σ}
    {step' : τ → κ → τ} {means : σ → ι → List κ} {R : σ → τ → Prop} {s : σ} {t : τ}
    {ops : List ι} (h : Along ok step s ops) (h0 : R s t)
    (hstep : ∀ s t op, ok s op → R s t → R (step s op) (run step' t (means s op))) :
    R (run step s ops) (run step' t (meaning step means s ops)) := by
  induction ops generalizing s t with
  | nil => exact h0
  | cons op ops ih =>
    rw [meaning,run_append]
    exact ih h.2 (hstep s t op h.1 h0)

/-- Two machines in lockstep. -/
theorem run_lockstep {σ τ ι κ : Type} {step : σ → ι → σ} {step' : τ → κ → τ}
    {R : σ → τ → Prop} {C : ι → κ → Prop}
    (hstep : ∀ s t op op', C op op' → R s t → R (step s op) (step' t op'))
    {ops : List ι} {ops' : List κ} (h : List.Forall₂ C ops ops') {s : σ} {t : τ} (h0 : R s t) :
    R (run step s ops) (run step' t ops') := by
  induction h generalizing s t with
  | nil => exact h0
  | cons hop _ ih => exact ih (hstep s t _ _ hop h0)

def spent {σ ι : Type} (cost : σ → ι → Nat) (step : σ → ι → σ) : σ → List ι → Nat
  | _, [] => 0
  | s, op :: ops => cost s op + spent cost step (step s op) ops

/-- The potential rule. Each operation is paid for by the potential it uses up and by what it
adds to the income. -/
theorem Along.spent_le {σ ι : Type} {ok : σ → ι → Prop} {step : σ → ι → σ} {I : σ → Prop}
    {cost : σ → ι → Nat} {potential income : σ → Nat} {s : σ} {ops : List ι}
    (h : Along ok step s ops) (h0 : I s) (hstep : ∀ s op, ok s op → I s → I (step s op))
    (hpay : ∀ s op, ok s op → I s →
      cost s op + potential (step s op) + income s ≤ potential s + income (step s op)) :
    spent cost step s ops + potential (run step s ops) + income s ≤
      potential s + income (run step s ops) := by
  induction ops generalizing s with
  | nil => exact Nat.le_of_eq (by rw [spent,Nat.zero_add]; rfl)
  | cons op ops ih =>
    have hone := hpay s op h.1 h0
    have hrest := ih h.2 (hstep s op h.1 h0)
    rw [spent,run_cons]
    omega

theorem run_snoc {ι : Type} (written ops : List ι) :
    run (fun es e => es ++ [e]) written ops = written ++ ops := by
  induction ops generalizing written with
  | nil => exact (List.append_nil written).symm
  | cons op ops ih => rw [run_cons,ih,List.append_assoc,List.singleton_append]

def lastTold {ι β : Type} (tells : ι → Option β) (ops : List ι) : Option β :=
  ops.reverse.findSome? tells

theorem lastTold_cons {ι β : Type} (tells : ι → Option β) (op : ι) (ops : List ι) :
    lastTold tells (op :: ops) = (lastTold tells ops).or (tells op) := by
  rw [lastTold,List.reverse_cons,List.findSome?_append,List.findSome?_singleton,lastTold]

/-- The last-writer rule. What a state shows is what was told last, up to what may be lost
meanwhile. -/
theorem run_lastTold {σ ι β : Type} {step : σ → ι → σ} (view : σ → β) (tells : ι → Option β)
    {R : β → β → Prop} (hrefl : ∀ b, R b b) (htrans : ∀ a b c, R a b → R b c → R a c)
    {ops : List ι} (hstep : ∀ s, ∀ op ∈ ops, R (view (step s op)) ((tells op).getD (view s)))
    (s : σ) : R (view (run step s ops)) ((lastTold tells ops).getD (view s)) := by
  induction ops generalizing s with
  | nil => exact hrefl (view s)
  | cons op ops ih =>
    have hone := hstep s op List.mem_cons_self
    have hrest := ih (fun s o ho => hstep s o (List.mem_cons_of_mem op ho)) (step s op)
    rw [run_cons,lastTold_cons]
    cases hlast : lastTold tells ops with
    | none =>
      rw [hlast] at hrest
      exact htrans _ _ _ hrest hone
    | some b =>
      rw [hlast] at hrest
      exact hrest

theorem run_lastTold_eq {σ ι β : Type} {step : σ → ι → σ} (view : σ → β) (tells : ι → Option β)
    {ops : List ι} (hstep : ∀ s, ∀ op ∈ ops, view (step s op) = (tells op).getD (view s)) (s : σ) :
    view (run step s ops) = (lastTold tells ops).getD (view s) :=
  run_lastTold view tells (fun _ => rfl) (fun _ _ _ => Eq.trans) hstep s
