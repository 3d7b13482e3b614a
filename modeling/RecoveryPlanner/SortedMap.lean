import Mathlib.Algebra.GroupWithZero.Nat
import Mathlib.Order.Lattice
import Mathlib.Data.List.Basic
set_option autoImplicit false

/-! Finite maps kept as their strictly increasing entry list: the behaviour of an
ordered tree map, where iteration order is part of the meaning. -/

/-- The order proof travels with the entries, so a map with a repeated or
misplaced key cannot be built. -/
structure SortedMap (κ ν : Type) [LinearOrder κ] where
  entries : List (κ × ν)
  sorted : entries.Pairwise (fun a b => a.1 < b.1)
  deriving DecidableEq

namespace SortedMap

def insertEntry {κ ν : Type} [LinearOrder κ] (k : κ) (v : ν) : List (κ × ν) → List (κ × ν)
  | [] => [(k,v)]
  | e :: es =>
    if k < e.1 then (k,v) :: e :: es
    else if k = e.1 then (k,v) :: es
    else e :: insertEntry k v es

theorem mem_insertEntry {κ ν : Type} [LinearOrder κ] {k : κ} {v : ν} {es : List (κ × ν)}
    {a : κ × ν} (h : a ∈ insertEntry k v es) : a = (k,v) ∨ a ∈ es := by
  induction es with
  | nil => simpa [insertEntry] using h
  | cons e es ih =>
    simp only [insertEntry] at h
    split at h
    · simpa using h
    · split at h
      · rcases List.mem_cons.mp h with h | h
        · exact .inl h
        · exact .inr (List.mem_cons_of_mem _ h)
      · rcases List.mem_cons.mp h with rfl | h
        · exact .inr List.mem_cons_self
        · rcases ih h with h | h
          · exact .inl h
          · exact .inr (List.mem_cons_of_mem _ h)

theorem insertEntry_sorted {κ ν : Type} [LinearOrder κ] (k : κ) (v : ν) {es : List (κ × ν)}
    (h : es.Pairwise (fun a b => a.1 < b.1)) :
    (insertEntry k v es).Pairwise (fun a b => a.1 < b.1) := by
  induction es with
  | nil => simp [insertEntry]
  | cons e es ih =>
    have ht := List.pairwise_cons.mp h
    simp only [insertEntry]
    split
    · rename_i hlt
      refine List.pairwise_cons.mpr ⟨fun a ha => ?_,h⟩
      rcases List.mem_cons.mp ha with rfl | ha
      · exact hlt
      · exact hlt.trans (ht.1 a ha)
    · split
      · rename_i heq
        exact List.pairwise_cons.mpr ⟨fun a ha => by simpa [heq] using ht.1 a ha,ht.2⟩
      · rename_i hlt hne
        refine List.pairwise_cons.mpr ⟨fun a ha => ?_,ih ht.2⟩
        rcases mem_insertEntry ha with rfl | ha
        · exact lt_of_le_of_ne (not_lt.mp hlt) (Ne.symm hne)
        · exact ht.1 a ha

def empty {κ ν : Type} [LinearOrder κ] : SortedMap κ ν := ⟨[],List.Pairwise.nil⟩

def values {κ ν : Type} [LinearOrder κ] (m : SortedMap κ ν) : List ν := m.entries.map Prod.snd

def find? {κ ν : Type} [LinearOrder κ] (m : SortedMap κ ν) (k : κ) : Option ν :=
  m.entries.lookup k

def insert {κ ν : Type} [LinearOrder κ] (m : SortedMap κ ν) (k : κ) (v : ν) : SortedMap κ ν :=
  ⟨insertEntry k v m.entries,insertEntry_sorted k v m.sorted⟩

def erase {κ ν : Type} [LinearOrder κ] (m : SortedMap κ ν) (k : κ) : SortedMap κ ν :=
  ⟨m.entries.filter (fun e => e.1 ≠ k),m.sorted.filter _⟩

def mapValues {κ ν μ : Type} [LinearOrder κ] (f : κ → ν → μ) (m : SortedMap κ ν) :
    SortedMap κ μ :=
  ⟨m.entries.map (fun e => (e.1,f e.1 e.2)),by
    rw [List.pairwise_map]
    exact m.sorted⟩

def insertAll {κ ν : Type} [LinearOrder κ] (key : ν → κ) (m : SortedMap κ ν) (vs : List ν) :
    SortedMap κ ν :=
  vs.foldl (fun m v => m.insert (key v) v) m

instance {κ ν : Type} [LinearOrder κ] : Inhabited (SortedMap κ ν) := ⟨empty⟩

@[simp] theorem find?_empty {κ ν : Type} [LinearOrder κ] (k : κ) :
    (empty : SortedMap κ ν).find? k = none := rfl

theorem lookup_cons_eq {κ ν : Type} [LinearOrder κ] (j : κ) (e : κ × ν) (es : List (κ × ν)) :
    (e :: es).lookup j = if j = e.1 then some e.2 else es.lookup j := by
  obtain ⟨a,w⟩ := e
  by_cases h : j = a
  · simp [h]
  · have hb : (j == a) = false := by simpa using h
    simp [List.lookup_cons,hb,h]

theorem lookup_insertEntry {κ ν : Type} [LinearOrder κ] (k j : κ) (v : ν) (es : List (κ × ν)) :
    (insertEntry k v es).lookup j = if j = k then some v else es.lookup j := by
  induction es with
  | nil => simp [insertEntry,lookup_cons_eq]
  | cons e es ih =>
    simp only [insertEntry]
    split
    · simp only [lookup_cons_eq]
    · split
      · rename_i heq
        simp only [lookup_cons_eq,← heq]
        by_cases h : j = k <;> simp [h]
      · rename_i hne
        simp only [lookup_cons_eq,ih]
        by_cases h : j = e.1
        · have hk : ¬ e.1 = k := fun hk => hne hk.symm
          simp [h,hk]
        · simp [h]

@[simp] theorem find?_insert {κ ν : Type} [LinearOrder κ] (m : SortedMap κ ν) (k j : κ) (v : ν) :
    (m.insert k v).find? j = if j = k then some v else m.find? j :=
  lookup_insertEntry k j v m.entries

theorem lookup_filter_ne {κ ν : Type} [LinearOrder κ] (k j : κ) (es : List (κ × ν)) :
    (es.filter (fun e => e.1 ≠ k)).lookup j = if j = k then none else es.lookup j := by
  induction es with
  | nil => simp
  | cons e es ih =>
    by_cases ha : e.1 = k
    · have hf : (e :: es).filter (fun e => e.1 ≠ k) = es.filter (fun e => e.1 ≠ k) := by
        simp [ha]
      rw [hf,ih,lookup_cons_eq,ha]
      by_cases h : j = k <;> simp [h]
    · have hf : (e :: es).filter (fun e => e.1 ≠ k) = e :: es.filter (fun e => e.1 ≠ k) := by
        simp [ha]
      rw [hf,lookup_cons_eq,ih,lookup_cons_eq]
      by_cases h : j = e.1
      · simp [h,ha]
      · simp [h]

@[simp] theorem find?_erase {κ ν : Type} [LinearOrder κ] (m : SortedMap κ ν) (k j : κ) :
    (m.erase k).find? j = if j = k then none else m.find? j :=
  lookup_filter_ne k j m.entries

theorem lookup_map {κ ν μ : Type} [LinearOrder κ] (f : κ → ν → μ) (k : κ) (es : List (κ × ν)) :
    (es.map (fun e => (e.1,f e.1 e.2))).lookup k = (es.lookup k).map (f k) := by
  induction es with
  | nil => simp
  | cons e es ih =>
    simp only [List.map_cons,lookup_cons_eq,ih]
    by_cases h : k = e.1 <;> simp [h]

@[simp] theorem find?_mapValues {κ ν μ : Type} [LinearOrder κ] (f : κ → ν → μ)
    (m : SortedMap κ ν) (k : κ) :
    (m.mapValues f).find? k = (m.find? k).map (f k) :=
  lookup_map f k m.entries

theorem mem_entries {κ ν : Type} [LinearOrder κ] (m : SortedMap κ ν) {k : κ} {v : ν} :
    (k,v) ∈ m.entries ↔ m.find? k = some v := by
  obtain ⟨es,hs⟩ := m
  simp only [find?]
  induction es with
  | nil => simp
  | cons e es ih =>
    have ht := List.pairwise_cons.mp hs
    rw [lookup_cons_eq,List.mem_cons,ih ht.2]
    by_cases h : k = e.1
    · have hn : es.lookup k ≠ some v := fun hm =>
        lt_irrefl k (by simpa [h] using ht.1 _ ((ih ht.2).mpr hm))
      rw [or_iff_left hn]
      simp [h,Prod.ext_iff,eq_comm]
    · simp [h,Prod.ext_iff]

theorem mem_values {κ ν : Type} [LinearOrder κ] (m : SortedMap κ ν) {v : ν} :
    v ∈ m.values ↔ ∃ k, m.find? k = some v := by
  simp only [values,List.mem_map,Prod.exists]
  constructor
  · rintro ⟨k,w,hm,rfl⟩
    exact ⟨k,(mem_entries m).mp hm⟩
  · rintro ⟨k,hk⟩
    exact ⟨k,v,(mem_entries m).mpr hk,rfl⟩

theorem entries_nodup {κ ν : Type} [LinearOrder κ] (m : SortedMap κ ν) : m.entries.Nodup := by
  refine m.sorted.imp ?_
  rintro a b hlt rfl
  exact lt_irrefl _ hlt

/-- A map is what it holds at each key. -/
theorem ext_find? {κ ν : Type} [LinearOrder κ] {m m' : SortedMap κ ν}
    (h : ∀ k, m.find? k = m'.find? k) : m = m' := by
  have hperm : m.entries.Perm m'.entries := by
    refine (List.perm_ext_iff_of_nodup m.entries_nodup m'.entries_nodup).mpr fun e => ?_
    rw [← Prod.eta e,mem_entries,mem_entries,h]
  have heq : m.entries = m'.entries :=
    hperm.eq_of_pairwise (fun a b _ _ hab hba => absurd hab (lt_asymm hba)) m.sorted m'.sorted
  cases m
  cases m'
  cases heq
  rfl

theorem insert_self {κ ν : Type} [LinearOrder κ] {m : SortedMap κ ν} {k : κ} {v : ν}
    (h : m.find? k = some v) : m.insert k v = m := by
  refine ext_find? fun j => ?_
  rw [find?_insert]
  split
  · rename_i hj
    rw [hj,h]
  · rfl

theorem find?_insertAll {κ ν : Type} [LinearOrder κ] {key : ν → κ} {m : SortedMap κ ν}
    {vs : List ν} {k : κ} {v : ν} (h : (insertAll key m vs).find? k = some v) :
    m.find? k = some v ∨ (v ∈ vs ∧ key v = k) := by
  induction vs generalizing m with
  | nil => exact .inl h
  | cons w vs ih =>
    rcases ih h with h | ⟨hm,hk⟩
    · rw [find?_insert] at h
      split at h
      · rename_i hk
        obtain rfl := Option.some.inj h
        exact .inr ⟨List.mem_cons_self,hk.symm⟩
      · exact .inl h
    · exact .inr ⟨List.mem_cons_of_mem _ hm,hk⟩

theorem mem_insertAll {κ ν : Type} [LinearOrder κ] (key : ν → κ) {vs : List ν} {k : κ} {v : ν}
    (h : (insertAll key .empty vs).find? k = some v) : v ∈ vs ∧ key v = k := by
  rcases find?_insertAll h with hnone | h
  · exact absurd hnone (by simp)
  · exact h

theorem find?_foldl_insert {κ ν : Type} [LinearOrder κ] {es : List (κ × ν)}
    (h : es.Pairwise (fun a b => a.1 < b.1)) (m : SortedMap κ ν) (k : κ) :
    (es.foldl (fun m e => m.insert e.1 e.2) m).find? k = (es.lookup k).or (m.find? k) := by
  induction es generalizing m with
  | nil => rfl
  | cons e es ih =>
    have ht := List.pairwise_cons.mp h
    rw [List.foldl_cons,ih ht.2,find?_insert,lookup_cons_eq]
    by_cases hk : k = e.1
    · have hn : es.lookup k = none := by
        refine List.lookup_eq_none_iff.mpr fun a ha => ?_
        have hlt := ht.1 a ha
        rw [← hk] at hlt
        simpa using ne_of_lt hlt
      rw [hn,if_pos hk,if_pos hk]
      rfl
    · simp [hk]

theorem foldl_insert_entries {κ ν : Type} [LinearOrder κ] (m : SortedMap κ ν) :
    m.entries.foldl (fun m e => m.insert e.1 e.2) .empty = m := by
  refine ext_find? fun k => ?_
  rw [find?_foldl_insert m.sorted,find?_empty,Option.or_none]
  rfl

/-- A map whose values know their keys is rebuilt from its values. -/
theorem insertAll_values {κ ν : Type} [LinearOrder κ] {key : ν → κ} {m : SortedMap κ ν}
    (h : ∀ k v, m.find? k = some v → key v = k) : insertAll key .empty m.values = m := by
  have hstep : ∀ es : List (κ × ν), (∀ e ∈ es, key e.2 = e.1) → ∀ m : SortedMap κ ν,
      insertAll key m (es.map Prod.snd) = es.foldl (fun m e => m.insert e.1 e.2) m := by
    intro es
    induction es with
    | nil => exact fun _ _ => rfl
    | cons e es ih =>
      intro hes m
      have he := hes e List.mem_cons_self
      have ht := ih (fun a ha => hes a (List.mem_cons_of_mem _ ha)) (m.insert e.1 e.2)
      rw [List.foldl_cons,← ht,← he]
      rfl
  have hkeys : ∀ e ∈ m.entries, key e.2 = e.1 := fun e he => h e.1 e.2 (m.mem_entries.mp he)
  rw [values,hstep m.entries hkeys,foldl_insert_entries]

theorem values_mapValues {κ ν μ : Type} [LinearOrder κ] (f : ν → μ) (m : SortedMap κ ν) :
    (m.mapValues (fun _ => f)).values = m.values.map f := by
  simp [values,mapValues,Function.comp_def]

theorem insertEntry_length_le {κ ν : Type} [LinearOrder κ] (k : κ) (v : ν) (es : List (κ × ν)) :
    (insertEntry k v es).length ≤ es.length+1 := by
  induction es with
  | nil => rfl
  | cons e es ih =>
    simp only [insertEntry]
    split
    · rfl
    · split
      · exact Nat.le_succ _
      · exact Nat.succ_le_succ ih

theorem foldl_insert_length_le {κ ν : Type} [LinearOrder κ] (es : List (κ × ν))
    (m : SortedMap κ ν) :
    (es.foldl (fun m e => m.insert e.1 e.2) m).entries.length ≤ m.entries.length+es.length := by
  induction es generalizing m with
  | nil => rfl
  | cons e es ih =>
    have hone : (m.insert e.1 e.2).entries.length ≤ m.entries.length+1 :=
      insertEntry_length_le e.1 e.2 m.entries
    have ih := ih (m.insert e.1 e.2)
    simp only [List.foldl_cons,List.length_cons]
    omega

theorem insertAll_eq {κ ν : Type} [LinearOrder κ] (key : ν → κ) (m : SortedMap κ ν)
    (vs : List ν) : insertAll key m vs =
      (vs.map fun v => (key v,v)).foldl (fun (m : SortedMap κ ν) e => m.insert e.1 e.2) m := by
  rw [List.foldl_map]
  rfl

theorem insertAll_length_le {κ ν : Type} [LinearOrder κ] (key : ν → κ) (vs : List ν) :
    (insertAll key .empty vs).values.length ≤ vs.length := by
  have h := foldl_insert_length_le (vs.map fun v => (key v,v)) .empty
  rw [← insertAll_eq] at h
  simpa [values,empty] using h

theorem insertEntry_sum_le {κ ν : Type} [LinearOrder κ] (f : ν → Nat) (k : κ) (v : ν)
    (es : List (κ × ν)) :
    ((insertEntry k v es).map fun e => f e.2).sum ≤ (es.map fun e => f e.2).sum+f v := by
  induction es with
  | nil => simp [insertEntry]
  | cons e es ih =>
    simp only [insertEntry]
    split
    · simp only [List.map_cons,List.sum_cons]
      omega
    · split <;> simp only [List.map_cons,List.sum_cons] <;> omega

theorem foldl_insert_sum_le {κ ν : Type} [LinearOrder κ] (f : ν → Nat) (es : List (κ × ν))
    (m : SortedMap κ ν) :
    (((es.foldl (fun m e => m.insert e.1 e.2) m).entries).map fun e => f e.2).sum ≤
      (m.entries.map fun e => f e.2).sum+(es.map fun e => f e.2).sum := by
  induction es generalizing m with
  | nil => exact Nat.le_refl _
  | cons e es ih =>
    have hone : ((m.insert e.1 e.2).entries.map fun e => f e.2).sum ≤
        (m.entries.map fun e => f e.2).sum+f e.2 := insertEntry_sum_le f e.1 e.2 m.entries
    have ih := ih (m.insert e.1 e.2)
    simp only [List.foldl_cons,List.map_cons,List.sum_cons]
    omega

theorem insertAll_sum_le {κ ν : Type} [LinearOrder κ] (key : ν → κ) (f : ν → Nat) (vs : List ν) :
    ((insertAll key .empty vs).values.map f).sum ≤ (vs.map f).sum := by
  have h := foldl_insert_sum_le f (vs.map fun v => (key v,v)) .empty
  rw [← insertAll_eq] at h
  simpa [values,empty,Function.comp_def] using h

theorem foldl_insert_sorted {κ ν : Type} [LinearOrder κ] {es : List (κ × ν)}
    (h : es.Pairwise (fun a b => a.1 < b.1)) :
    (es.foldl (fun (m : SortedMap κ ν) e => m.insert e.1 e.2) .empty).entries = es :=
  congrArg entries (foldl_insert_entries ⟨es,h⟩)

theorem insertAll_sorted {κ ν : Type} [LinearOrder κ] (key : ν → κ) {vs : List ν}
    (h : vs.Pairwise (fun a b => key a < key b)) : (insertAll key .empty vs).values = vs := by
  have hsorted : (vs.map fun v => (key v,v)).Pairwise (fun a b => a.1 < b.1) := by
    rw [List.pairwise_map]
    exact h
  rw [values,insertAll_eq,foldl_insert_sorted hsorted,List.map_map]
  exact List.map_id vs

theorem values_sorted {κ ν : Type} [LinearOrder κ] {key : ν → κ} {m : SortedMap κ ν}
    (h : ∀ k v, m.find? k = some v → key v = k) :
    m.values.Pairwise (fun a b => key a < key b) := by
  rw [values,List.pairwise_map]
  refine m.sorted.imp_of_mem fun {a b} ha hb hlt => ?_
  rw [h a.1 a.2 (m.mem_entries.mp ha),h b.1 b.2 (m.mem_entries.mp hb)]
  exact hlt

end SortedMap
