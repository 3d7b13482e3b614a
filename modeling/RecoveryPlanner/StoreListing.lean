import RecoveryPlanner.CrashSafety
set_option autoImplicit false

/-! What `keys()` of the two stores lists. The file store lists the file names it finds, whatever
has happened to the saves that left them. -/

namespace RecoveryPlanner

namespace FilePersistenceStore

/-- The stem and the extension of a file name: the extension starts at the last dot, unless
that is the first byte of the name. -/
def splitName (name : Str) : Str × Str :=
  if name = text ".." then (name,[])
  else
    match name.reverse.dropWhile (· != 46) with
    | [] => (name,[])
    | dot :: front =>
      if front.isEmpty then (name,[])
      else (front.reverse,dot :: (name.reverse.takeWhile (· != 46)).reverse)

/-- In some order: the names are those of a directory iterator. -/
def keys (files : Directory) : List Str :=
  files.entries.filterMap fun e =>
    if (splitName e.1).2 = text ".rpp" then some (splitName e.1).1 else none

theorem splitName_append {x ext : Str} (hx : x ≠ []) (hext : ∀ b ∈ ext, b ≠ 46)
    (hne : x ++ 46 :: ext ≠ text "..") : splitName (x ++ 46 :: ext) = (x,46 :: ext) := by
  have hrev : (x ++ 46 :: ext).reverse = ext.reverse ++ 46 :: x.reverse := by simp
  have hall : ∀ b ∈ ext.reverse, (b != 46) = true := by
    intro b hb
    simpa using hext b (List.mem_reverse.mp hb)
  have hdrop : (x ++ 46 :: ext).reverse.dropWhile (· != 46) = 46 :: x.reverse := by
    rw [hrev,List.dropWhile_append_of_pos hall]
    simp
  have htake : (x ++ 46 :: ext).reverse.takeWhile (· != 46) = ext.reverse := by
    rw [hrev,List.takeWhile_append_of_pos hall]
    simp
  unfold splitName
  rw [if_neg hne,htake,hdrop]
  simp [hx]

theorem sanitizeKey_ne_nil (k : Str) : sanitizeKey k ≠ [] := by
  unfold sanitizeKey
  dsimp only
  split
  · decide
  · rename_i h
    exact fun heq => h (List.isEmpty_iff.mpr heq)

theorem sanitizeKey_idem (k : Str) : sanitizeKey (sanitizeKey k) = sanitizeKey k := by
  cases k with
  | nil => decide
  | cons c k =>
    simp only [sanitizeKey,List.map_cons,List.isEmpty_cons,Bool.false_eq_true,if_false,
      List.map_map,List.cons.injEq]
    refine ⟨?_,List.map_congr_left fun b _ => ?_⟩
    · split
      · rfl
      · simp
    · simp only [Function.comp_apply]
      split
      · rfl
      · simp

theorem splitName_path (key : Str) : splitName (path key) = (sanitizeKey key,text ".rpp") := by
  have hext : text ".rpp" = 46 :: text "rpp" := by decide
  rw [path,hext]
  refine splitName_append (sanitizeKey_ne_nil key) (by decide +kernel) fun h => ?_
  have hlen := congrArg List.length h
  have hdots : (text "..").length = 2 := by decide
  have hrpp : (text "rpp").length = 3 := by decide
  simp [hdots,hrpp] at hlen

theorem splitName_tmp (key : Str) : (splitName (tmp key)).2 ≠ text ".rpp" := by
  have hext : text ".tmp" = 46 :: text "tmp" := by decide
  have hpath : path key ≠ [] := by
    intro h
    exact sanitizeKey_ne_nil key (List.append_eq_nil_iff.mp h).1
  have hdots : tmp key ≠ text ".." := by
    intro h
    have hlen := congrArg List.length h
    have h2 : (text "..").length = 2 := by decide
    have h4 : (text ".tmp").length = 4 := by decide
    simp [tmp,h2,h4] at hlen
  rw [tmp,hext] at hdots ⊢
  rw [splitName_append hpath (by decide +kernel) hdots]
  show 46 :: text "tmp" ≠ text ".rpp"
  decide

def Orderly (files : Directory) : Prop :=
  ∀ name, (files.find? name).isSome = true →
    (∃ key, name = path key) ∨ ∃ key, name = tmp key

theorem stopped_orderly (io : Faults) (key : Str) (bytes : Bytes) (n : Nat) {files : Directory}
    (h : Orderly files) : Orderly (stopped io key bytes n files) := by
  intro name hname
  by_cases hp : name = path key
  · exact .inl ⟨key,hp⟩
  · by_cases ht : name = tmp key
    · exact .inr ⟨key,ht⟩
    · rw [stopped_other io key bytes hp ht n files] at hname
      exact h name hname

theorem Orderly.mem_keys {files : Directory} (h : Orderly files) (k : Str) :
    k ∈ keys files ↔ ∃ key, sanitizeKey key = k ∧ (files.find? (path key)).isSome = true := by
  unfold keys
  rw [List.mem_filterMap]
  constructor
  · rintro ⟨⟨name,raw⟩,hmem,hk⟩
    have hfind := files.mem_entries.mp hmem
    split at hk
    · rename_i hext
      rcases h name (by rw [hfind]; rfl) with ⟨key,hname⟩ | ⟨key,hname⟩
      · subst hname
        have hk : some (splitName (path key)).1 = some k := hk
        rw [splitName_path] at hk
        exact ⟨key,Option.some.inj hk,by rw [hfind]; rfl⟩
      · subst hname
        exact absurd hext (splitName_tmp key)
    · exact absurd hk (by simp)
  · rintro ⟨key,rfl,hsome⟩
    obtain ⟨raw,hfind⟩ := Option.isSome_iff_exists.mp hsome
    refine ⟨(path key,raw),files.mem_entries.mpr hfind,?_⟩
    have hext : (splitName (path key)).2 = text ".rpp" := by rw [splitName_path]
    rw [if_pos hext,splitName_path]

structure SaveCall where
  key : Str
  io : Faults
  bytes : Bytes
  calls : Nat

def SaveCall.apply (files : Directory) (c : SaveCall) : Directory :=
  stopped c.io c.key c.bytes c.calls files

/-- What a `save` makes of its file: no file, one that has lost a part of its frame, or one that
holds a payload. -/
def SaveCall.leaves (c : SaveCall) (held : Option (Option Bytes)) : Option (Option Bytes) :=
  if kMaxPayload < c.bytes.length then held
  else if Uncovered c.io c.calls then none
  else if Committed c.io c.calls then some (if c.io.Whole c.bytes then some c.bytes else none)
  else held

def left (name : Str) (cs : List SaveCall) : Option (Option Bytes) :=
  cs.foldl (fun held c => if sanitizeKey c.key = name then c.leaves held else held) none

theorem left_snoc (name : Str) (cs : List SaveCall) (c : SaveCall) :
    left name (cs ++ [c]) =
      if sanitizeKey c.key = name then c.leaves (left name cs) else left name cs := by
  simp [left]

theorem left_named {name : Str} {cs : List SaveCall} (h : (left name cs).isSome = true) :
    sanitizeKey name = name := by
  induction cs using List.reverseRecOn with
  | nil => exact absurd h (by simp [left])
  | append_singleton cs c ih =>
    rw [left_snoc] at h
    split at h
    · rename_i hname
      rw [← hname]
      exact sanitizeKey_idem c.key
    · exact ih h

theorem SaveCall.apply_path (c : SaveCall) (files : Directory) (key : Str) :
    ((c.apply files).find? (path key)).map decodeFrame =
      if sanitizeKey c.key = sanitizeKey key then
        c.leaves ((files.find? (path key)).map decodeFrame)
      else (files.find? (path key)).map decodeFrame := by
  by_cases hname : sanitizeKey c.key = sanitizeKey key
  · rw [if_pos hname,← path_inj.mpr hname,apply,leaves]
    by_cases hlong : kMaxPayload < c.bytes.length
    · rw [if_pos hlong]
      have hsame : stopped c.io c.key c.bytes c.calls files = files := by
        unfold stopped
        cases c.calls with
        | zero => rfl
        | succ n => simp [saveStep,hlong,finished_iterate]
      rw [hsame]
    · rw [if_neg hlong,find?_stopped c.io files c.key c.calls (not_lt.mp hlong)]
      by_cases hgap : Uncovered c.io c.calls
      · simp only [if_pos hgap,Option.map_none]
      · by_cases hdone : Committed c.io c.calls
        · simp only [if_neg hgap,if_pos hdone,Option.map_some]
          rw [decodeFrame_flushed c.io (not_lt.mp hlong)]
        · simp only [if_neg hgap,if_neg hdone]
  · have hp : path key ≠ path c.key := fun h => hname (path_inj.mp h).symm
    rw [if_neg hname,apply,
      stopped_other c.io c.key c.bytes hp (path_ne_tmp key c.key) c.calls files]

theorem run_left (cs : List SaveCall) (key : Str) :
    ((run SaveCall.apply .empty cs).find? (path key)).map decodeFrame =
      left (sanitizeKey key) cs := by
  induction cs using List.reverseRecOn with
  | nil => rfl
  | append_singleton cs c ih =>
    rw [run_append,run_cons,run_nil,SaveCall.apply_path,left_snoc,ih]

/-- Whatever saves have failed, been cut off, or lost a part of what they wrote: the listing
names exactly the files that are there, each under a key that stands for itself, and `load`
answers with the payload of the last commit if all of its frame had reached the file. -/
theorem run_keys (cs : List SaveCall) :
    let files := run SaveCall.apply .empty cs
    (∀ k, k ∈ keys files ↔ (left k cs).isSome = true) ∧
    (∀ k ∈ keys files, sanitizeKey k = k) ∧
    ∀ key, load files key = (left (sanitizeKey key) cs).join := by
  intro files
  have horderly : Orderly files :=
    run_invariant (I := Orderly) (fun name h => absurd h (by simp))
      fun _ c _ h => stopped_orderly c.io c.key c.bytes c.calls h
  have hthere : ∀ key, (files.find? (path key)).isSome = (left (sanitizeKey key) cs).isSome := by
    intro key
    rw [← run_left cs key,Option.isSome_map]
  refine ⟨fun k => ?_,fun k hk => ?_,fun key => ?_⟩
  · rw [horderly.mem_keys k]
    constructor
    · rintro ⟨key,rfl,hsome⟩
      rw [← hthere key]
      exact hsome
    · intro h
      have hname := left_named h
      exact ⟨k,hname,by rw [hthere k,hname]; exact h⟩
  · obtain ⟨key,rfl,_⟩ := (horderly.mem_keys k).mp hk
    exact sanitizeKey_idem key
  · rw [← run_left cs key]
    unfold load
    cases files.find? (path key) <;> rfl

end FilePersistenceStore

open FilePersistenceStore (sanitizeKey)

def MemoryPersistenceStore.keys (data : Data) : List Str := data.entries.map Prod.fst

theorem MemoryPersistenceStore.mem_keys (data : Data) (k : Str) :
    k ∈ keys data ↔ (load data k).isSome = true := by
  unfold keys load
  rw [List.mem_map]
  constructor
  · rintro ⟨⟨_,v⟩,hmem,rfl⟩
    rw [data.mem_entries.mp hmem]
    rfl
  · intro h
    obtain ⟨v,hv⟩ := Option.isSome_iff_exists.mp h
    exact ⟨(k,v),data.mem_entries.mpr hv,rfl⟩

theorem lastSaved_isSome (named : Str → Bool) (ops : List StoreOp) :
    (lastSaved named ops).isSome = true ↔ ∃ key p, .save key p ∈ ops ∧ named key = true := by
  induction ops using List.reverseRecOn with
  | nil => simp [lastSaved]
  | append_singleton ops op ih =>
    cases op with
    | save key p =>
      rw [lastSaved_save]
      by_cases h : named key = true
      · simp only [h,if_true,Option.isSome_some,true_iff]
        exact ⟨key,p,by simp,h⟩
      · simp only [h,Bool.false_eq_true,if_false]
        rw [ih]
        constructor
        · rintro ⟨k,q,hmem,hk⟩
          exact ⟨k,q,List.mem_append_left _ hmem,hk⟩
        · rintro ⟨k,q,hmem,hk⟩
          rcases List.mem_append.mp hmem with hmem | hmem
          · exact ⟨k,q,hmem,hk⟩
          · obtain ⟨rfl,rfl⟩ := StoreOp.save.inj (List.mem_singleton.mp hmem)
            exact absurd hk h
    | load key =>
      rw [lastSaved_load,ih]
      simp

theorem Stores.run_orderly (ops : List StoreOp) :
    FilePersistenceStore.Orderly (run step {} ops).files := by
  refine run_invariant (I := fun s : Stores => FilePersistenceStore.Orderly s.files)
    (fun name h => absurd h (by simp)) fun s op _ h => ?_
  cases op with
  | save key p =>
    show FilePersistenceStore.Orderly (FilePersistenceStore.save s.files key p.val).2
    rw [FilePersistenceStore.save_eq_stopped]
    exact FilePersistenceStore.stopped_orderly {} key p.val 5 h
  | load key => exact h

theorem Stores.run_files (ops : List StoreOp) (key : Str) :
    (run step {} ops).files.find? (FilePersistenceStore.path key) =
      (lastSaved (fun k => sanitizeKey k = sanitizeKey key) ops).map fun p =>
        FilePersistenceStore.encodeFrame p.val := by
  induction ops using List.reverseRecOn with
  | nil => rfl
  | append_singleton ops op ih =>
    rw [run_append]
    cases op with
    | save k p =>
      simp only [run_cons,run_nil,step,lastSaved_save]
      rw [FilePersistenceStore.save_files _ _ p.property]
      by_cases h : sanitizeKey key = sanitizeKey k
      · simp [h]
      · simpa [h,Ne.symm h] using ih
    | load k => simpa only [run_cons,run_nil,step,lastSaved_load] using ih

/-- Behind the same saves, none of which fails, the file store lists the file names of the keys
that the in-memory store lists. -/
theorem Stores.run_keys_agree (ops : List StoreOp) (k : Str) :
    k ∈ FilePersistenceStore.keys (run step {} ops).files ↔
      ∃ key ∈ MemoryPersistenceStore.keys (run step {} ops).data, sanitizeKey key = k := by
  rw [(run_orderly ops).mem_keys]
  constructor
  · rintro ⟨key,rfl,hsome⟩
    rw [run_files ops key,Option.isSome_map,lastSaved_isSome] at hsome
    obtain ⟨key',p,hmem,hname⟩ := hsome
    refine ⟨key',?_,by simpa using hname⟩
    rw [MemoryPersistenceStore.mem_keys,(load_run ops key').2,Option.isSome_map,lastSaved_isSome]
    exact ⟨key',p,hmem,by simp⟩
  · rintro ⟨key,hkey,rfl⟩
    rw [MemoryPersistenceStore.mem_keys,(load_run ops key).2,Option.isSome_map,
      lastSaved_isSome] at hkey
    obtain ⟨key',p,hmem,hsame⟩ := hkey
    have hsame : key' = key := by simpa using hsame
    refine ⟨key,rfl,?_⟩
    rw [run_files ops key,Option.isSome_map,lastSaved_isSome]
    exact ⟨key',p,hmem,by simp [hsame]⟩

end RecoveryPlanner
