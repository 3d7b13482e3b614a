import Mathlib.Data.Set.Function
import RecoveryPlanner.FrameFormat
import RecoveryPlanner.Runs
set_option autoImplicit false

/-! The two implementations of the store of `persistence.cpp`, side by side. Where they
differ is in the names: the file store reduces a key to a file name, the in-memory store
keeps it as it is. -/

namespace RecoveryPlanner

namespace MemoryPersistenceStore

abbrev Data := SortedMap Str Bytes

def save (data : Data) (key : Str) (bytes : Bytes) : Data := data.insert key bytes

def load (data : Data) (key : Str) : Option Bytes := data.find? key

theorem load_save_of (data : Data) (key : Str) (bytes : Bytes) (k : Str) :
    load (save data key bytes) k = if k = key then some bytes else load data k := by
  by_cases h : k = key <;> simp [load,save,h]

end MemoryPersistenceStore

open FilePersistenceStore (kMaxPayload sanitizeKey)

/-- What both stores accept: the file store throws on anything longer. -/
abbrev Storable := {bytes : Bytes // bytes.length ≤ kMaxPayload}

inductive StoreOp where
  | save (key : Str) (payload : Storable)
  | load (key : Str)
  deriving DecidableEq

def StoreOp.key : StoreOp → Str
  | .save key _ => key
  | .load key => key

structure Stores where
  files : FilePersistenceStore.Directory := .empty
  data : MemoryPersistenceStore.Data := .empty

namespace Stores

def step (s : Stores) : StoreOp → Stores
  | .save key p =>
    { files := (FilePersistenceStore.save s.files key p.val).2
      data := MemoryPersistenceStore.save s.data key p.val }
  | .load _ => s

def Agrees (s : Stores) : StoreOp → Prop
  | .save key p => (FilePersistenceStore.save s.files key p.val).1 = .ok ()
  | .load key => FilePersistenceStore.load s.files key = MemoryPersistenceStore.load s.data key

end Stores

def lastSaved (named : Str → Bool) (ops : List StoreOp) : Option Storable :=
  ops.foldl (fun last op =>
    match op with
    | .save key p => if named key then some p else last
    | .load _ => last) none

/-- At every load, what was saved last under any key of the same file name is what was saved
last under the key itself. -/
def Unshadowed (ops : List StoreOp) : Prop :=
  ∀ xs key ys, ops = xs ++ .load key :: ys →
    lastSaved (fun k => sanitizeKey k = sanitizeKey key) xs = lastSaved (fun k => k = key) xs

theorem lastSaved_save (named : Str → Bool) (ops : List StoreOp) (key : Str) (p : Storable) :
    lastSaved named (ops ++ [.save key p]) = if named key then some p else lastSaved named ops := by
  simp [lastSaved]

theorem lastSaved_load (named : Str → Bool) (ops : List StoreOp) (key : Str) :
    lastSaved named (ops ++ [.load key]) = lastSaved named ops := by
  simp [lastSaved]

theorem lastSaved_congr {f g : Str → Bool} {ops : List StoreOp}
    (h : ∀ op ∈ ops, f op.key = g op.key) : lastSaved f ops = lastSaved g ops := by
  induction ops using List.reverseRecOn with
  | nil => rfl
  | append_singleton ops op ih =>
    have ih := ih fun o ho => h o (List.mem_append_left _ ho)
    have hop := h op (by simp)
    cases op with
    | save key p =>
      have hop : f key = g key := hop
      rw [lastSaved_save,lastSaved_save,ih,hop]
    | load key => rw [lastSaved_load,lastSaved_load,ih]

namespace FilePersistenceStore

theorem path_inj {k k' : Str} : path k = path k' ↔ sanitizeKey k = sanitizeKey k' :=
  List.append_left_inj _

theorem path_ne_tmp (k k' : Str) : path k ≠ tmp k' := by
  intro h
  have hsize : (text ".rpp").length = (text ".tmp").length := by decide
  rw [path,tmp] at h
  exact absurd (List.append_inj_right' h hsize) (by decide)

theorem save_files (files : Directory) (key : Str) {bytes : Bytes}
    (h : bytes.length ≤ kMaxPayload) (k : Str) :
    (save files key bytes).2.find? (path k) =
      if sanitizeKey k = sanitizeKey key then some (encodeFrame bytes)
      else files.find? (path k) := by
  have hfits : ¬ kMaxPayload < bytes.length := not_lt.mpr h
  have hk := path_ne_tmp k key
  have hkey := path_ne_tmp key key
  by_cases hname : sanitizeKey k = sanitizeKey key
  · simp [save,saveStep,rename,Faults.flushed,hfits,hkey.symm,path_inj,hname]
  · simp [save,saveStep,rename,Faults.flushed,hfits,hk,hkey.symm,path_inj,hname]

theorem load_save_of (files : Directory) (key : Str) {bytes : Bytes}
    (h : bytes.length ≤ kMaxPayload) (k : Str) :
    load (save files key bytes).2 k =
      if sanitizeKey k = sanitizeKey key then some bytes else load files k := by
  simp only [load,save_files files key h k]
  by_cases hname : sanitizeKey k = sanitizeKey key
  · simp only [hname,if_true]
    exact decodeFrame_encodeFrame h
  · simp only [hname,if_false]

end FilePersistenceStore

namespace Stores

/-- What the two stores hold after a run, in terms of the run. -/
theorem load_run (ops : List StoreOp) (key : Str) :
    FilePersistenceStore.load (run step {} ops).files key =
      (lastSaved (fun k => sanitizeKey k = sanitizeKey key) ops).map Subtype.val ∧
    MemoryPersistenceStore.load (run step {} ops).data key =
      (lastSaved (fun k => k = key) ops).map Subtype.val := by
  induction ops using List.reverseRecOn with
  | nil => exact ⟨rfl,rfl⟩
  | append_singleton ops op ih =>
    rw [run_append]
    cases op with
    | save k p =>
      simp only [run_cons,run_nil,step,lastSaved_save]
      rw [FilePersistenceStore.load_save_of _ _ p.property,MemoryPersistenceStore.load_save_of]
      constructor
      · by_cases h : sanitizeKey key = sanitizeKey k
        · simp [h]
        · simpa [h,Ne.symm h] using ih.1
      · by_cases h : key = k
        · simp [h]
        · simpa [h,Ne.symm h] using ih.2
    | load k => simpa only [run_cons,run_nil,step,lastSaved_load] using ih

theorem agrees_load_iff (ops : List StoreOp) (key : Str) :
    Agrees (run step {} ops) (.load key) ↔
      lastSaved (fun k => sanitizeKey k = sanitizeKey key) ops =
        lastSaved (fun k => k = key) ops := by
  have h := load_run ops key
  rw [Agrees,h.1,h.2]
  exact (Option.map_injective Subtype.val_injective).eq_iff

theorem along_iff_unshadowed (ops : List StoreOp) :
    Along Agrees step {} ops ↔ Unshadowed ops := by
  rw [along_iff_split]
  constructor
  · intro h xs key ys heq
    exact (agrees_load_iff xs key).mp (h xs _ ys heq)
  · intro h xs op ys heq
    cases op with
    | save key p => exact FilePersistenceStore.save_ok _ key p.property
    | load key => exact (agrees_load_iff xs key).mpr (h xs key ys heq)

theorem unshadowed_of_injOn {K : Set Str} (hK : Set.InjOn sanitizeKey K) {ops : List StoreOp}
    (h : ∀ op ∈ ops, op.key ∈ K) : Unshadowed ops := by
  rintro xs key ys rfl
  refine lastSaved_congr fun op hop => ?_
  have hx : op.key ∈ K := h op (List.mem_append_left _ hop)
  have hkey : key ∈ K := h (.load key) (by simp)
  simpa using hK.eq_iff hx hkey

/-- The stores agree on a run exactly when no load is shadowed; they agree on every run over
a set of keys exactly when no two of the keys have the same file name; and a `save` is seen
by exactly the keys of its file name. -/
theorem agree_iff (ops : List StoreOp) :
    (Along Agrees step {} ops ↔ Unshadowed ops) ∧
    (∀ K : Set Str, (∀ ops : List StoreOp, (∀ op ∈ ops, op.key ∈ K) → Along Agrees step {} ops) ↔
      Set.InjOn sanitizeKey K) ∧
    (∀ files key k, (∀ p : Storable,
      FilePersistenceStore.load (FilePersistenceStore.save files key p.val).2 k =
        FilePersistenceStore.load files k) ↔ sanitizeKey k ≠ sanitizeKey key) := by
  refine ⟨along_iff_unshadowed ops,fun K => ⟨fun h => ?_,fun h ops hops => ?_⟩,fun files key k => ?_⟩
  · intro key hkey k hk heq
    by_contra hne
    have hrun := h [.save key ⟨[],by decide⟩,.load k] (by simp [StoreOp.key,hkey,hk])
    have hload := (along_iff_unshadowed _).mp hrun [.save key ⟨[],by decide⟩] k [] rfl
    simp [lastSaved,heq,hne] at hload
  · exact (along_iff_unshadowed ops).mpr (unshadowed_of_injOn h hops)
  · constructor
    · intro h heq
      have hload := fun p : Storable => h p
      simp only [fun p : Storable => FilePersistenceStore.load_save_of files key p.property k,heq,
        if_true] at hload
      have hsame := (hload ⟨[],by decide⟩).trans (hload ⟨[0],by decide⟩).symm
      simp at hsame
    · intro hne p
      rw [FilePersistenceStore.load_save_of files key p.property k,if_neg hne]

/-- Two keys of one file name: the file store returns what was saved under the other. -/
theorem stores_differ :
    ¬ Along Agrees step {}
      [.save (text "a/b") ⟨[1],by decide⟩,.save (text "a_b") ⟨[2],by decide⟩,.load (text "a/b")] ∧
    FilePersistenceStore.load (run step {}
      [.save (text "a/b") ⟨[1],by decide⟩,.save (text "a_b") ⟨[2],by decide⟩]).files
      (text "a/b") = some [2] ∧
    MemoryPersistenceStore.load (run step {}
      [.save (text "a/b") ⟨[1],by decide⟩,.save (text "a_b") ⟨[2],by decide⟩]).data
      (text "a/b") = some [1] := by
  have hload := load_run [.save (text "a/b") ⟨[1],by decide⟩,.save (text "a_b") ⟨[2],by decide⟩]
    (text "a/b")
  refine ⟨fun h => ?_,hload.1.trans rfl,hload.2.trans rfl⟩
  have hagrees := (along_iff_unshadowed _).mp h
    [.save (text "a/b") ⟨[1],by decide⟩,.save (text "a_b") ⟨[2],by decide⟩] (text "a/b") [] rfl
  exact absurd hagrees (by decide)

end Stores

end RecoveryPlanner
