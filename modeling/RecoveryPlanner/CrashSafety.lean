import RecoveryPlanner.AtomicSave
import RecoveryPlanner.NormalForm
import RecoveryPlanner.Revalidation
import RecoveryPlanner.Stores
set_option autoImplicit false

/-! A planner whose store is a directory, with file-system calls that fail and processes that
stop in the middle of a save, against one whose store is a single cell. -/

namespace RecoveryPlanner

namespace FilePersistenceStore

def reached (io : Faults) (key : Str) (bytes : Bytes) (n : Nat) (files : Directory) : Phase :=
  ((saveStep io key bytes)^[n] (.entered,files)).1

theorem saveStep_other (io : Faults) (key : Str) (bytes : Bytes) {name : Str}
    (hp : name ≠ path key) (ht : name ≠ tmp key) (s : Phase × Directory) :
    (saveStep io key bytes s).2.find? name = s.2.find? name := by
  obtain ⟨phase,files⟩ := s
  cases phase with
  | entered =>
    simp only [saveStep]
    split
    · rfl
    · split
      · rfl
      · simp [ht]
  | opened =>
    simp only [saveStep]
    split <;> simp [ht]
  | written => simp [saveStep,ht]
  | closed =>
    simp only [saveStep]
    split
    · rfl
    · simp [hp]
  | removed =>
    simp only [saveStep]
    split
    · rfl
    · unfold rename
      split
      · rfl
      · simp [hp,ht]
  | finished result => rfl

theorem stopped_other (io : Faults) (key : Str) (bytes : Bytes) {name : Str}
    (hp : name ≠ path key) (ht : name ≠ tmp key) (n : Nat) (files : Directory) :
    (stopped io key bytes n files).find? name = files.find? name := by
  have h : ∀ (n : Nat) (s : Phase × Directory),
      ((saveStep io key bytes)^[n] s).2.find? name = s.2.find? name := by
    intro n
    induction n with
    | zero => exact fun s => rfl
    | succ n ih =>
      intro s
      rw [Function.iterate_succ_apply,ih]
      exact saveStep_other io key bytes hp ht s
  exact h n (.entered,files)

theorem find?_tmp (files : Directory) (key : Str) {bytes : Bytes} (h : bytes.length ≤ kMaxPayload) :
    (stopped {} key bytes 5 files).find? (tmp key) = none := by
  have hfits : ¬ kMaxPayload < bytes.length := not_lt.mpr h
  simp [stopped,saveStep,rename,hfits,tmp_ne_path key]

def Settled (files : Directory) (key : Str) (bytes : Bytes) : Prop :=
  files.find? (path key) = some (encodeFrame bytes) ∧ files.find? (tmp key) = none

theorem stopped_settled (files : Directory) (key : Str) {bytes : Bytes}
    (h : bytes.length ≤ kMaxPayload) : Settled (stopped {} key bytes 5 files) key bytes := by
  refine ⟨?_,find?_tmp files key h⟩
  rw [find?_stopped {} files key 5 h,if_neg (by decide),if_pos (by decide)]
  rfl

theorem stopped_again {files : Directory} {key : Str} {bytes : Bytes}
    (hs : Settled files key bytes) (h : bytes.length ≤ kMaxPayload) :
    stopped {} key bytes 5 files = files := by
  obtain ⟨hpath,htmp⟩ := stopped_settled files key h
  refine SortedMap.ext_find? fun name => ?_
  by_cases hp : name = path key
  · rw [hp,hpath,hs.1]
  · by_cases ht : name = tmp key
    · rw [ht,htmp,hs.2]
    · exact stopped_other {} key bytes hp ht 5 files

theorem reached_ok_iff (io : Faults) (key : Str) (bytes : Bytes) (n : Nat) (files : Directory) :
    reached io key bytes n files = .finished (.ok ()) ↔
      bytes.length ≤ kMaxPayload ∧ Committed io n := by
  by_cases hfits : kMaxPayload < bytes.length
  · refine iff_of_false (fun h => ?_) fun h => absurd h.1 (not_le.mpr hfits)
    cases n with
    | zero => simp [reached] at h
    | succ n => simp [reached,saveStep,hfits,finished_iterate] at h
  · have hle : bytes.length ≤ kMaxPayload := not_lt.mp hfits
    cases ho : io.openFails with
    | true =>
      refine iff_of_false (fun h => ?_) fun h => by simp [Committed,Faults.writes,ho] at h
      cases n with
      | zero => simp [reached] at h
      | succ n => simp [reached,saveStep,hfits,ho,finished_iterate] at h
    | false =>
      cases ht : io.torn with
      | some part =>
        refine iff_of_false (fun h => ?_) fun h => by simp [Committed,Faults.writes,ht] at h
        rcases n with _ | _ | n
        · simp [reached] at h
        · simp [reached,saveStep,hfits,ho] at h
        · simp [reached,saveStep,hfits,ho,ht,finished_iterate] at h
      | none =>
        have hw : io.writes = true := by simp [Faults.writes,ho,ht]
        rcases n with _ | _ | _ | _ | _ | n
        · simp [reached,Committed]
        · simp [reached,saveStep,hfits,ho,Committed]
        · simp [reached,saveStep,hfits,ho,ht,Committed]
        · simp [reached,saveStep,hfits,ho,ht,Committed]
        · simp [reached,saveStep,hfits,ho,ht,Committed]
        · cases hn : io.renameFails <;>
            simp [reached,saveStep,hfits,ho,ht,hn,finished_iterate,Committed,hw,hle]

end FilePersistenceStore

open FilePersistenceStore (Faults Phase Directory saveStep stopped reached load kMaxPayload
  Uncovered Committed)

/-- How a `save` leaves its caller: it returns, it throws, or the process is gone. -/
inductive SaveExit where
  | returned
  | threw (e : RecoveryError)
  | died

def SaveExit.ofPhase : Phase → SaveExit
  | .finished (.ok ()) => .returned
  | .finished (.error e) => .threw e
  | _ => .died

/-- The planner that is there afterwards: a dead process is followed by a new one. -/
def SaveExit.next (kept done : Node) : SaveExit → Node
  | .returned => done
  | .threw _ => kept
  | .died => .construct true

def stateKey : Str := text "planner_state"

/-- A planner and the directory of its store. -/
structure FileSession where
  node : Node
  files : Directory

/-- Each save comes with the answers of the file system and the number of its calls that are
made before the process dies, five being all of them. After a death a new planner stands over
the same directory, which others may use under names of their own. -/
inductive FileOp where
  | act (a : Act)
  | saveState (io : Faults) (calls : Nat)
  | loadState
  | restartCoordinator (io : Faults) (calls : Nat) (clock : UInt64 → Timestamp)
  | crash
  | otherSave (key : Str) (io : Faults) (bytes : Bytes) (calls : Nat)

namespace FileSession

def start (files : Directory) : FileSession := ⟨.construct true,files⟩

def saveExit (s : FileSession) (io : Faults) (calls : Nat) : SaveExit :=
  .ofPhase (reached io stateKey s.node.impl.encodeSnapshot calls s.files)

def savedFiles (s : FileSession) (io : Faults) (calls : Nat) : Directory :=
  stopped io stateKey s.node.impl.encodeSnapshot calls s.files

def step (std : StdSort) (s : FileSession) : FileOp → FileSession
  | .act a => { s with node := s.node.act std a }
  | .saveState io calls =>
    ⟨(s.saveExit io calls).next s.node s.node,s.savedFiles io calls⟩
  | .loadState =>
    { s with node := { s.node with
        impl := (s.node.impl.loadState (load s.files stateKey)).2 } }
  | .restartCoordinator io calls clock =>
    let files := s.savedFiles io calls
    let reloaded := s.node.impl.restartReloading clock (load files stateKey)
    ⟨(s.saveExit io calls).next s.node { s.node with impl := reloaded },files⟩
  | .crash => { s with node := .construct true }
  | .otherSave key io bytes calls => { s with files := stopped io key bytes calls s.files }

def Apart (_ : FileSession) : FileOp → Prop
  | .otherSave key _ _ _ =>
    FilePersistenceStore.sanitizeKey key ≠ FilePersistenceStore.sanitizeKey stateKey
  | _ => True

end FileSession

/-- A planner whose store is a cell that holds a planner state. -/
structure CellSession where
  node : Node
  held : Option Impl := none

inductive CellOp where
  | act (a : Act)
  | commit
  | lose
  | loadState
  | reload (clock : UInt64 → Timestamp)
  | crash

namespace CellSession

def start : CellSession := { node := .construct true }

def disk (t : CellSession) : Impl.Disk := t.held.map Impl.encodeSnapshot

def step (std : StdSort) (t : CellSession) : CellOp → CellSession
  | .act a => { t with node := t.node.act std a }
  | .commit => { t with held := some t.node.impl }
  | .lose => { t with held := none }
  | .loadState => { t with node := { t.node with impl := (t.node.impl.loadState t.disk).2 } }
  | .reload clock =>
    { t with node := { t.node with impl := t.node.impl.restartReloading clock t.disk } }
  | .crash => { t with node := .construct true }

end CellSession

def SaveExit.means (done : List CellOp) : SaveExit → List CellOp
  | .returned => done
  | .threw _ => []
  | .died => [.crash]

namespace FileSession

/-- What a save does to the cell. It is emptied where the process dies, or the rename fails,
behind the removal of the old file, and where a part of the frame has not reached the file that
is renamed, although `save` returns then. -/
def effect (s : FileSession) (io : Faults) (calls : Nat) : List CellOp :=
  if kMaxPayload < s.node.impl.encodeSnapshot.length then []
  else if Uncovered io calls then [.lose]
  else if Committed io calls then
    (if io.Whole s.node.impl.encodeSnapshot then [.commit] else [.lose])
  else []

def means (s : FileSession) : FileOp → List CellOp
  | .act a => [.act a]
  | .saveState io calls => s.effect io calls ++ (s.saveExit io calls).means []
  | .loadState => [.loadState]
  | .restartCoordinator io calls clock =>
    s.effect io calls ++ (s.saveExit io calls).means [.reload clock]
  | .crash => [.crash]
  | .otherSave _ _ _ _ => []

structure Refines (s : FileSession) (t : CellSession) : Prop where
  node : s.node = t.node
  loaded : load s.files stateKey = t.disk
  tidy : t.node.impl.Tidy
  heldTidy : ∀ im, t.held = some im → im.Tidy

theorem Refines.crash {s : FileSession} {t : CellSession} (h : s.Refines t) :
    Refines ⟨.construct true,s.files⟩ { t with node := .construct true } :=
  ⟨rfl,h.loaded,Impl.construct_tidy true,h.heldTidy⟩

theorem Refines.withImpl {s : FileSession} {t : CellSession} (h : s.Refines t) {im : Impl}
    (ht : im.Tidy) :
    Refines { s with node := { s.node with impl := im } }
      { t with node := { t.node with impl := im } } :=
  ⟨by rw [h.node],h.loaded,ht,h.heldTidy⟩

theorem Refines.save {s : FileSession} {t : CellSession} (std : StdSort) (h : s.Refines t)
    (io : Faults) (calls : Nat) :
    Refines { s with files := s.savedFiles io calls }
      (run (CellSession.step std) t (s.effect io calls)) := by
  have hsnap : s.node.impl.encodeSnapshot = t.node.impl.encodeSnapshot := by rw [h.node]
  by_cases hlong : kMaxPayload < s.node.impl.encodeSnapshot.length
  · have hsame : s.savedFiles io calls = s.files := by
      unfold savedFiles stopped
      cases calls with
      | zero => rfl
      | succ n => simp [saveStep,hlong,FilePersistenceStore.finished_iterate]
    rw [effect,if_pos hlong,hsame]
    exact h
  · have hload := FilePersistenceStore.load_stopped io s.files stateKey calls (not_lt.mp hlong)
    have hempty : (run (CellSession.step std) t [.lose]).disk = none := rfl
    have hset : (run (CellSession.step std) t [.commit]).disk =
        some s.node.impl.encodeSnapshot := congrArg some hsnap.symm
    rw [effect,if_neg hlong]
    by_cases hgap : Uncovered io calls
    · rw [if_pos hgap] at hload ⊢
      exact ⟨h.node,hload.trans hempty.symm,h.tidy,by simp [CellSession.step]⟩
    · rw [if_neg hgap] at hload ⊢
      by_cases hdone : Committed io calls
      · rw [if_pos hdone] at hload ⊢
        by_cases hwhole : io.Whole s.node.impl.encodeSnapshot
        · rw [if_pos hwhole] at hload ⊢
          refine ⟨h.node,hload.trans hset.symm,h.tidy,fun im him => ?_⟩
          obtain rfl := Option.some.inj him
          exact h.tidy
        · rw [if_neg hwhole] at hload ⊢
          exact ⟨h.node,hload.trans hempty.symm,h.tidy,by simp [CellSession.step]⟩
      · rw [if_neg hdone] at hload ⊢
        exact ⟨h.node,hload.trans h.loaded,h.tidy,h.heldTidy⟩

theorem Refines.exit (std : StdSort) {s : FileSession} {t : CellSession} (h : s.Refines t)
    (exit : SaveExit) {done : Node} {ops : List CellOp}
    (hdone : Refines ⟨done,s.files⟩ (run (CellSession.step std) t ops)) :
    Refines ⟨exit.next s.node done,s.files⟩ (run (CellSession.step std) t (exit.means ops)) := by
  cases exit with
  | returned => exact hdone
  | threw e => exact h
  | died => exact h.crash

theorem step_refines (std : StdSort) {s : FileSession} {t : CellSession} {op : FileOp}
    (hop : s.Apart op) (h : s.Refines t) :
    Refines (s.step std op) (run (CellSession.step std) t (s.means op)) := by
  cases op with
  | act a =>
    have ht := Node.act_tidy std h.tidy a
    exact ⟨by show s.node.act std a = t.node.act std a; rw [h.node],h.loaded,ht,h.heldTidy⟩
  | saveState io calls =>
    have hsaved := h.save std io calls
    rw [step,means,run_append]
    generalize s.saveExit io calls = exit
    generalize run (CellSession.step std) t (s.effect io calls) = t' at hsaved ⊢
    have hdone : Refines ⟨s.node,s.savedFiles io calls⟩ (run (CellSession.step std) t' []) := hsaved
    exact hsaved.exit std exit hdone
  | loadState =>
    have himpl : (s.node.impl.loadState (load s.files stateKey)).2 =
        (t.node.impl.loadState t.disk).2 := by rw [h.node,h.loaded]
    have hnext := h.withImpl (Impl.loadState_tidy h.tidy t.disk)
    unfold step means
    rw [himpl]
    exact hnext
  | restartCoordinator io calls clock =>
    have hsaved := h.save std io calls
    have hload := hsaved.loaded
    rw [step,means,run_append]
    generalize s.saveExit io calls = exit
    refine hsaved.exit std exit ?_
    generalize run (CellSession.step std) t (s.effect io calls) = t' at hsaved hload ⊢
    have himpl : s.node.impl.restartReloading clock (load (s.savedFiles io calls) stateKey) =
        t'.node.impl.restartReloading clock t'.disk := by rw [← hload,← hsaved.node]
    have hnext := hsaved.withImpl (Impl.restartReloading_tidy hsaved.tidy clock t'.disk)
    rw [himpl]
    exact hnext
  | crash => exact h.crash
  | otherSave key io bytes calls =>
    have hname : FilePersistenceStore.path stateKey ≠ FilePersistenceStore.path key :=
      fun heq => hop (FilePersistenceStore.path_inj.mp heq).symm
    have hfile := FilePersistenceStore.stopped_other io key bytes hname
      (FilePersistenceStore.path_ne_tmp stateKey key) calls s.files
    refine ⟨h.node,?_,h.tidy,h.heldTidy⟩
    show load (stopped io key bytes calls s.files) stateKey = t.disk
    rw [← h.loaded,load,load,hfile]

theorem start_refines {files : Directory}
    (hfree : files.find? (FilePersistenceStore.path stateKey) = none) :
    (start files).Refines .start :=
  ⟨rfl,by simp [start,load,hfree]; rfl,Impl.construct_tidy true,nofun⟩

/-- Wherever processes die and file-system calls fail, as long as others keep to other file
names: the planner and its directory behave like a planner with a single cell that each save
sets, leaves as it is, or empties. So a new process gets back the planner that was last
committed, whole, or nothing. -/
theorem run_crash_safe (std : StdSort) (files : Directory)
    (hfree : files.find? (FilePersistenceStore.path stateKey) = none) (ops : List FileOp)
    (h : Along Apart (step std) (start files) ops) :
    let s := run (step std) (start files) ops
    let t := run (CellSession.step std) .start (meaning (step std) means (start files) ops)
    s.node = t.node ∧ load s.files stateKey = t.disk ∧
    ∀ src, t.held = some src → src.Fits → src.Readable → ∀ dst : Impl, dst.hasStore = true →
      Impl.Restored src (dst.loadState (load s.files stateKey)).2 := by
  intro s t
  have hr : s.Refines t := h.simulates (start_refines hfree) fun s t op => step_refines std
  refine ⟨hr.node,hr.loaded,fun src hheld hfits hread dst hstore => ?_⟩
  have hdisk : t.disk = some src.encodeSnapshot := by rw [CellSession.disk,hheld]; rfl
  rw [hr.loaded,hdisk,Impl.loadState_some hstore,(Impl.applySnapshot_own hfits dst false).1 hread]
  exact (hr.heldTidy src hheld).install_restored dst

def tornOps : List FileOp :=
  [.act (.registerWorker ⟨1⟩ ⟨1⟩),.saveState {} 5,.act (.registerWorker ⟨2⟩ ⟨2⟩),
   .saveState {} 3,.loadState]

theorem run_crash_safe_torn :
    let s := run (step .insertion) (start .empty) tornOps
    let t := run (CellSession.step .insertion) .start
      (meaning (step .insertion) means (start .empty) tornOps)
    s.node = t.node ∧ load s.files stateKey = t.disk := by
  have h := run_crash_safe .insertion .empty rfl tornOps
    ⟨trivial,trivial,trivial,trivial,trivial,trivial⟩
  exact ⟨h.1,h.2.1⟩

theorem saveExit_returned {s : FileSession}
    (h : s.node.impl.encodeSnapshot.length ≤ kMaxPayload) : s.saveExit {} 5 = .returned := by
  have hok : reached {} stateKey s.node.impl.encodeSnapshot 5 s.files = .finished (.ok ()) :=
    (FilePersistenceStore.reached_ok_iff {} stateKey _ 5 s.files).mpr ⟨h,by decide⟩
  rw [saveExit,hok]
  rfl

theorem step_save {s : FileSession} (std : StdSort)
    (h : s.node.impl.encodeSnapshot.length ≤ kMaxPayload) :
    (s.step std (.saveState {} 5)).node = s.node ∧
      (s.step std (.saveState {} 5)).files = s.savedFiles {} 5 := by
  rw [step,saveExit_returned h]
  simp only [SaveExit.next,and_self]

theorem savedFiles_settled {s : FileSession}
    (h : s.node.impl.encodeSnapshot.length ≤ kMaxPayload) :
    FilePersistenceStore.Settled (s.savedFiles {} 5) stateKey s.node.impl.encodeSnapshot := by
  unfold savedFiles
  exact FilePersistenceStore.stopped_settled s.files stateKey h

theorem step_load (std : StdSort) (s : FileSession) :
    (s.step std .loadState).node.impl = (s.node.impl.loadState (load s.files stateKey)).2 ∧
      (s.step std .loadState).files = s.files := ⟨rfl,rfl⟩

structure AsSaved (im : Impl) (files : Directory) (s : FileSession) : Prop where
  alike : im.Alike s.node.impl
  hasStore : s.node.impl.hasStore = true
  same : s.files = files

theorem AsSaved.returned {im : Impl} {files : Directory} {s : FileSession} (h : AsSaved im files s)
    (hfits : im.encodeSnapshot.length ≤ kMaxPayload) : s.saveExit {} 5 = .returned :=
  saveExit_returned (by rw [h.alike.encodeSnapshot_eq]; exact hfits)

theorem step_asSaved (std : StdSort) {im : Impl} {files : Directory} {s : FileSession}
    (hn : im.Normal) (hfits : im.encodeSnapshot.length ≤ kMaxPayload)
    (hf : FilePersistenceStore.Settled files stateKey im.encodeSnapshot) {op : FileOp}
    (hop : op = .loadState ∨ op = .saveState {} 5) (h : AsSaved im files s) :
    AsSaved im files (s.step std op) := by
  have hsame := h.alike.encodeSnapshot_eq
  rcases hop with rfl | rfl
  · have hload : load s.files stateKey = some im.encodeSnapshot := by
      rw [load,h.same,hf.1]
      exact FilePersistenceStore.decodeFrame_encodeFrame hfits
    obtain ⟨himpl,hfiles⟩ := step_load std s
    refine ⟨?_,?_,hfiles.trans h.same⟩
    · rw [himpl,hload,Impl.loadState_some h.hasStore]
      exact (hn.taken s.node.impl).2
    · rw [himpl]
      exact (s.node.impl.loadState_frame _).hasStore.trans h.hasStore
  · obtain ⟨hnode,hfiles⟩ := step_save std (s := s) (by rw [hsame]; exact hfits)
    refine ⟨by rw [hnode]; exact h.alike,by rw [hnode]; exact h.hasStore,?_⟩
    rw [hfiles,savedFiles,hsame,h.same]
    exact FilePersistenceStore.stopped_again hf hfits

theorem load_le {files : Directory} {key : Str} {bytes : Bytes}
    (h : load files key = some bytes) : bytes.length ≤ kMaxPayload := by
  unfold load at h
  split at h
  · exact absurd h (by simp)
  · exact ((FilePersistenceStore.decodeFrame_eq_some_iff _ _).mp h).1

/-- A planner that has loaded a snapshot from its directory, whoever wrote it, can save without
an exception and writes no more than it read; however often it then loads and saves, it tells
the same and no file changes. -/
theorem reload_stable (std : StdSort) (s : FileSession) (bytes : Bytes)
    (hstore : s.node.impl.hasStore = true) (hload : load s.files stateKey = some bytes)
    (haccept : (s.node.impl.applySnapshot bytes false).1 = true) :
    let s1 := s.step std .loadState
    let s2 := s1.step std (.saveState {} 5)
    s1.saveExit {} 5 = .returned ∧ s1.node.impl.encodeSnapshot.length ≤ bytes.length ∧
    ∀ ops, (∀ op ∈ ops, op = .loadState ∨ op = .saveState {} 5) →
      let t := run (step std) s2 ops
      s1.node.impl.Alike t.node.impl ∧ t.saveExit {} 5 = .returned ∧ t.files = s2.files := by
  have himpl : (s.step std .loadState).node.impl = (s.node.impl.applySnapshot bytes false).2 := by
    rw [(step_load std s).1,hload,Impl.loadState_some hstore]
  have hstore1 : (s.step std .loadState).node.impl.hasStore = true := by
    rw [(step_load std s).1]
    exact (s.node.impl.loadState_frame (load s.files stateKey)).hasStore.trans hstore
  generalize s.step std .loadState = s1 at himpl hstore1 ⊢
  have hshort : s1.node.impl.encodeSnapshot.length ≤ bytes.length := by
    rw [himpl]
    exact Impl.resave_length_le haccept
  have hnormal : s1.node.impl.Normal := by
    rw [himpl]
    exact Impl.applySnapshot_normal haccept
  have hfits := hshort.trans (load_le hload)
  refine ⟨saveExit_returned hfits,hshort,fun ops hops => ?_⟩
  obtain ⟨hnode,hfiles⟩ := step_save std hfits
  have hsettled : FilePersistenceStore.Settled (s1.step std (.saveState {} 5)).files stateKey
      s1.node.impl.encodeSnapshot := by
    rw [hfiles]
    exact savedFiles_settled hfits
  have hstart : AsSaved s1.node.impl (s1.step std (.saveState {} 5)).files
      (s1.step std (.saveState {} 5)) :=
    ⟨by rw [hnode]; exact .refl _,by rw [hnode]; exact hstore1,rfl⟩
  have hend := run_invariant hstart fun _ op hop h =>
    step_asSaved std hnormal hfits hsettled (hops op hop) h
  exact ⟨hend.alike,hend.returned hfits,hend.same⟩

def leftBehind : FileSession :=
  start (FilePersistenceStore.holding stateKey Impl.registeredPlanner.encodeSnapshot)

theorem reload_stable_registered :
    let s1 := leftBehind.step .insertion .loadState
    let s2 := s1.step .insertion (.saveState {} 5)
    s1.saveExit {} 5 = .returned ∧
    (run (step .insertion) s2 [.loadState,.saveState {} 5,.loadState,.loadState]).files =
      s2.files := by
  have hload : load leftBehind.files stateKey = some Impl.registeredPlanner.encodeSnapshot :=
    FilePersistenceStore.load_holding stateKey (by decide +kernel)
  have h := reload_stable .insertion leftBehind _ rfl hload (by decide +kernel)
  exact ⟨h.1,(h.2.2 [.loadState,.saveState {} 5,.loadState,.loadState] (by simp)).2.2⟩

end FileSession

end RecoveryPlanner
