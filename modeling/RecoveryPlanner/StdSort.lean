import Mathlib.Data.List.Lex
import Mathlib.Data.List.Rotate
import Mathlib.Data.List.Sort
import Mathlib.Data.Set.Function
import Mathlib.Order.Interval.Set.Defs
set_option autoImplicit false

/-! An unstable comparison sort: what it promises, and nothing about ties. -/

/-- The contract a comparator owes the sort. -/
structure StrictWeak {α : Type} (lt : α → α → Bool) : Prop where
  irrefl : ∀ a, lt a a = false
  trans : ∀ a b c, lt a b = true → lt b c = true → lt a c = true
  incomparable_trans : ∀ a b c, lt a b = false → lt b a = false → lt b c = false →
    lt c b = false → lt a c = false ∧ lt c a = false

theorem StrictWeak.asymm {α : Type} {lt : α → α → Bool} (h : StrictWeak lt) {a b : α}
    (hab : lt a b = true) : lt b a = false := by
  by_contra hba
  have haa := h.trans a b a hab (by simpa using hba)
  rw [h.irrefl a] at haa
  exact absurd haa (by simp)

theorem StrictWeak.not_lt_trans {α : Type} {lt : α → α → Bool} (h : StrictWeak lt) {a b c : α}
    (hba : lt b a = false) (hcb : lt c b = false) : lt c a = false := by
  by_contra hca
  have hca : lt c a = true := by simpa using hca
  have hab : lt a b = false := by
    by_contra hab
    have hc := h.trans c a b hca (by simpa using hab)
    rw [hcb] at hc
    exact absurd hc (by simp)
  have hbc : lt b c = false := by
    by_contra hbc
    have hb := h.trans b c a (by simpa using hbc) hca
    rw [hba] at hb
    exact absurd hb (by simp)
  have hi := (h.incomparable_trans a b c hab hba hbc hcb).2
  rw [hca] at hi
  exact absurd hi (by simp)

/-- Any sort that permutes its input and orders it whenever the comparator keeps
its contract. -/
structure StdSort where
  sort : {α : Type} → (α → α → Bool) → List α → List α
  perm : ∀ {α : Type} (lt : α → α → Bool) (l : List α), (sort lt l).Perm l
  sorted : ∀ {α : Type} (lt : α → α → Bool) (l : List α), StrictWeak lt →
    (sort lt l).Pairwise (fun a b => lt b a = false)

def StdSort.insertion : StdSort where
  sort := fun lt l => l.insertionSort (fun a b => lt b a = false)
  perm := fun lt l => List.perm_insertionSort _ l
  sorted := fun lt l h => by
    have ht : IsTrans _ (fun a b => lt b a = false) := ⟨fun _ _ _ => h.not_lt_trans⟩
    have htotal : Std.Total (fun a b => lt b a = false) := ⟨fun a b => by
      cases hab : lt b a with
      | false => exact .inl rfl
      | true => exact .inr (h.asymm hab)⟩
    exact List.pairwise_insertionSort _ l

/-- A comparator that decides a linear order of keys keeps the contract. -/
theorem StrictWeak.of_key {α β : Type} [LinearOrder β] {lt : α → α → Bool} (key : α → β)
    (h : ∀ a b, lt a b = true ↔ key a < key b) : StrictWeak lt := by
  have hn : ∀ a b, lt a b = false ↔ key b ≤ key a := by
    intro a b
    rw [← Bool.not_eq_true,h,not_lt]
  refine ⟨fun a => (hn a a).mpr le_rfl,fun a b c hab hbc => ?_,fun a b c h1 h2 h3 h4 => ?_⟩
  · exact (h a c).mpr (((h a b).mp hab).trans ((h b c).mp hbc))
  · have hab := ((hn a b).mp h1).antisymm ((hn b a).mp h2)
    have hbc := ((hn b c).mp h3).antisymm ((hn c b).mp h4)
    exact ⟨(hn a c).mpr (hbc.trans hab).le,(hn c a).mpr (hbc.trans hab).ge⟩

structure IsFirst {α : Type} (lt : α → α → Bool) (l : List α) (x : α) : Prop where
  mem : x ∈ l
  first : ∀ y ∈ l, lt y x = false

theorem IsFirst.of_perm {α : Type} {lt : α → α → Bool} {l l' : List α} {x : α}
    (h : IsFirst lt l x) (hl : l.Perm l') : IsFirst lt l' x :=
  ⟨hl.mem_iff.mp h.mem,fun y hy => h.first y (hl.mem_iff.mpr hy)⟩

theorem IsFirst.map {α β : Type} {lt : β → β → Bool} {f : α → β} {l : List α} {x : α}
    (h : IsFirst (fun a b => lt (f a) (f b)) l x) : IsFirst lt (l.map f) (f x) := by
  refine ⟨List.mem_map_of_mem h.mem,fun y hy => ?_⟩
  obtain ⟨a,ha,rfl⟩ := List.mem_map.mp hy
  exact h.first a ha

theorem IsFirst.key_eq {α β : Type} [LinearOrder β] {lt : α → α → Bool} {key : α → β}
    (h : ∀ a b, lt a b = true ↔ key a < key b) {l : List α} {x y : α}
    (hx : IsFirst lt l x) (hy : IsFirst lt l y) : key x = key y := by
  have hxy : ¬ key x < key y := fun hlt => by
    simpa [hy.first x hx.mem] using (h x y).mpr hlt
  have hyx : ¬ key y < key x := fun hlt => by
    simpa [hx.first y hy.mem] using (h y x).mpr hlt
  exact (not_lt.mp hyx).antisymm (not_lt.mp hxy)

namespace StdSort

theorem mem_sort (std : StdSort) {α : Type} (lt : α → α → Bool) {l : List α} {x : α} :
    x ∈ std.sort lt l ↔ x ∈ l := (std.perm lt l).mem_iff

theorem sort_ne_nil (std : StdSort) {α : Type} (lt : α → α → Bool) {l : List α} (h : l ≠ []) :
    std.sort lt l ≠ [] := fun hs => by
  have hp := std.perm lt l
  rw [hs] at hp
  exact h hp.symm.eq_nil

theorem isFirst_head (std : StdSort) {α : Type} {lt : α → α → Bool} (h : StrictWeak lt)
    {l : List α} {x : α} {rest : List α} (hs : std.sort lt l = x :: rest) :
    IsFirst lt l x := by
  have hsorted := std.sorted lt l h
  rw [hs] at hsorted
  refine ⟨?_,fun y hy => ?_⟩
  · rw [← std.mem_sort lt,hs]
    exact List.mem_cons_self
  · rw [← std.mem_sort lt,hs] at hy
    rcases List.mem_cons.mp hy with rfl | hy
    · exact h.irrefl y
    · exact (List.pairwise_cons.mp hsorted).1 y hy

/-- Where the members of a list are told apart by their keys, neither their order nor the
choice of the sort shows in the result. -/
theorem sort_eq_of_perm (std std' : StdSort) {α β : Type} [LinearOrder β] {lt : α → α → Bool}
    (key : α → β) (h : ∀ a b, lt a b = true ↔ key a < key b) {l l' : List α}
    (hinj : ∀ a ∈ l, ∀ b ∈ l, key a = key b → a = b) (hp : l.Perm l') :
    std.sort lt l = std'.sort lt l' := by
  have hlt := StrictWeak.of_key key h
  have hle : ∀ a b, lt b a = false → key a ≤ key b := by
    intro a b hba
    rw [← not_lt,← h,hba]
    simp
  refine List.Perm.eq_of_pairwise (fun a b ha hb hab hba => ?_) (std.sorted lt l hlt)
    (std'.sorted lt l' hlt) ((std.perm lt l).trans (hp.trans (std'.perm lt l').symm))
  have ha := (std.mem_sort lt).mp ha
  have hb := hp.mem_iff.mpr ((std'.mem_sort lt).mp hb)
  exact hinj a ha b hb ((hle a b hab).antisymm (hle b a hba))

def rotated (k : Nat) : StdSort where
  sort := fun lt l => insertion.sort lt (l.rotate k)
  perm := fun lt l => (insertion.perm lt _).trans (List.rotate_perm l k)
  sorted := fun lt _ h => insertion.sorted lt _ h

theorem insertion_head {α : Type} {lt : α → α → Bool} {l : List α} {x : α}
    (h : ∀ y ∈ l, lt y x = false) : (insertion.sort lt (x :: l)).head? = some x := by
  show (List.insertionSort (fun a b => lt b a = false) (x :: l)).head? = some x
  rw [List.insertionSort_cons]
  cases hs : List.insertionSort (fun a b => lt b a = false) l with
  | nil => rfl
  | cons y ys =>
    have hy : y ∈ l := (List.perm_insertionSort _ l).mem_iff.mp (hs ▸ List.mem_cons_self)
    simp [h y hy]

/-- Nothing is promised about ties: any first member can come out in front. -/
theorem exists_head {α : Type} {lt : α → α → Bool} {l : List α} {x : α}
    (h : IsFirst lt l x) : ∃ std : StdSort, (std.sort lt l).head? = some x := by
  obtain ⟨pre,post,rfl⟩ := List.append_of_mem h.mem
  refine ⟨rotated pre.length,?_⟩
  show (insertion.sort lt ((pre ++ x :: post).rotate pre.length)).head? = some x
  rw [List.rotate_append_length_eq]
  refine insertion_head fun y hy => h.first y ?_
  rcases List.mem_append.mp hy with hy | hy
  · exact List.mem_append_right pre (List.mem_cons_of_mem x hy)
  · exact List.mem_append_left _ hy

end StdSort

theorem idxOf_lt_idxOf {α : Type} [DecidableEq α] {lt : α → α → Bool} (h : StrictWeak lt)
    {l : List α} (hs : l.Pairwise (fun a b => lt b a = false)) {x y : α} (hx : x ∈ l)
    (hy : y ∈ l) (hxy : lt x y = true) : l.idxOf x < l.idxOf y := by
  by_contra hle
  have hix := List.idxOf_lt_length_of_mem hx
  have hiy := List.idxOf_lt_length_of_mem hy
  rcases Nat.lt_or_eq_of_le (not_lt.mp hle) with hlt | heq
  · have hpair := List.pairwise_iff_getElem.mp hs _ _ hiy hix hlt
    rw [List.getElem_idxOf hiy,List.getElem_idxOf hix,hxy] at hpair
    exact absurd hpair (by simp)
  · obtain rfl := (List.idxOf_inj hy).mp heq
    rw [h.irrefl y] at hxy
    exact absurd hxy (by simp)

theorem bijOn_idxOf {α : Type} [DecidableEq α] {l : List α} (h : l.Nodup) :
    Set.BijOn (fun x => l.idxOf x+1) {x | x ∈ l} (Set.Icc 1 l.length) := by
  refine ⟨fun x hx => ?_,fun x hx y hy hxy => ?_,fun k hk => ?_⟩
  · have := List.idxOf_lt_length_of_mem hx
    show 1 ≤ l.idxOf x+1 ∧ l.idxOf x+1 ≤ l.length
    omega
  · exact (List.idxOf_inj hx).mp (by simpa using hxy)
  · obtain ⟨h1,h2⟩ := hk
    have hk : k-1 < l.length := by omega
    refine ⟨l[k-1],List.getElem_mem hk,?_⟩
    show l.idxOf l[k-1]+1 = k
    rw [h.idxOf_getElem]
    omega

/-! Filtering a list by way of its indices. -/

theorem map_range_getD {α : Type} (l : List α) (d : α) :
    (List.range l.length).map (fun i => l.getD i d) = l := by
  refine List.ext_getElem (by simp) fun i h _ => ?_
  have h : i < l.length := by simpa using h
  simp [h]

theorem map_filter_range {α : Type} (l : List α) (d : α) (p : α → Bool) :
    ((List.range l.length).filter (fun i => p (l.getD i d))).map (fun i => l.getD i d) =
      l.filter p := by
  conv_rhs => rw [← map_range_getD l d]
  rw [List.filter_map]
  rfl

theorem mem_filter_range {α : Type} {l : List α} {d : α} {p : α → Bool} {i : Nat} :
    i ∈ (List.range l.length).filter (fun i => p (l.getD i d)) ↔
      ∃ a, l[i]? = some a ∧ p a = true := by
  simp only [List.mem_filter,List.mem_range]
  constructor
  · rintro ⟨hi,hp⟩
    exact ⟨l[i],List.getElem?_eq_getElem hi,by simpa [hi] using hp⟩
  · rintro ⟨a,ha,hp⟩
    obtain ⟨hi,rfl⟩ := List.getElem?_eq_some_iff.mp ha
    exact ⟨hi,by simpa [hi] using hp⟩
