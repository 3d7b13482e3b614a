import RecoveryPlanner.Session
set_option autoImplicit false

/-! Coordinator incarnations over one store: each starts as a fresh planner, loads,
restarts, works and crashes. -/

namespace RecoveryPlanner

/-- How far an incarnation gets. A crash inside a restart, behind its save, is a
`saveState` as the last operation, or `stoppedRestarting` for the first restart. -/
inductive Incarnation where
  | stoppedLoading
  | stoppedRestarting
  | running (clock : UInt64 → Timestamp) (ops : List Op)

namespace Session

def epoch (s : Session) : UInt64 := s.node.impl.ctx.epoch.value

def epochs (std : StdSort) : Session → List Op → List UInt64
  | s, [] => [s.epoch]
  | s, op :: ops => s.epoch :: epochs std (s.step std op) ops

def reopened (std : StdSort) (disk : Impl.Disk) : Session :=
  ({ construct true with disk := disk } : Session).step std .loadState

end Session

namespace Incarnation

def begun (std : StdSort) (disk : Impl.Disk) (clock : UInt64 → Timestamp) : Session :=
  (Session.reopened std disk).step std (.restartCoordinator clock)

def epochs (std : StdSort) (disk : Impl.Disk) : Incarnation → List UInt64
  | .stoppedLoading => []
  | .stoppedRestarting => []
  | .running clock ops => (begun std disk clock).epochs std ops

def log (std : StdSort) (disk : Impl.Disk) : Incarnation → List Event
  | .stoppedLoading => []
  | .stoppedRestarting => []
  | .running clock ops => (run (Session.step std) (begun std disk clock) ops).node.log

def leaves (std : StdSort) (disk : Impl.Disk) : Incarnation → Impl.Disk
  | .stoppedLoading => disk
  | .stoppedRestarting => ((Session.reopened std disk).step std .saveState).disk
  | .running clock ops => (run (Session.step std) (begun std disk clock) ops).disk

end Incarnation

/-- The incarnations one after the other, each with the store it starts from. -/
def lineage (std : StdSort) : Impl.Disk → List Incarnation → List (Impl.Disk × Incarnation)
  | _, [] => []
  | disk, inc :: incs => (disk,inc) :: lineage std (inc.leaves std disk) incs

def Op.isRestart : Op → Bool
  | .restartCoordinator _ => true
  | _ => false

/-- Every load, and the end, comes at a time when a save has followed the latest
restart; `dirty` says that it has not yet. -/
def savesEpoch : Bool → List Op → Bool
  | dirty, [] => !dirty
  | dirty, .act _ :: ops => savesEpoch dirty ops
  | _, .saveState :: ops => savesEpoch false ops
  | dirty, .loadState :: ops => !dirty && savesEpoch false ops
  | _, .restartCoordinator _ :: ops => savesEpoch true ops

def loadsSaved : Bool → List Op → Bool
  | _, [] => true
  | dirty, .act _ :: ops => loadsSaved dirty ops
  | _, .saveState :: ops => loadsSaved false ops
  | dirty, .loadState :: ops => !dirty && loadsSaved false ops
  | _, .restartCoordinator _ :: ops => loadsSaved true ops

namespace Incarnation

def restarts : Incarnation → Nat
  | .stoppedLoading => 0
  | .stoppedRestarting => 0
  | .running _ ops => ops.countP Op.isRestart+1

/-- The epoch in force is on disk at every load and at the crash. -/
def saves : Incarnation → Bool
  | .stoppedLoading => true
  | .stoppedRestarting => true
  | .running _ ops => savesEpoch true ops

def loads : Incarnation → Bool
  | .stoppedLoading => true
  | .stoppedRestarting => true
  | .running _ ops => loadsSaved true ops

end Incarnation

theorem loadsSaved_of_savesEpoch {dirty : Bool} {ops : List Op}
    (h : savesEpoch dirty ops = true) : loadsSaved dirty ops = true := by
  induction ops generalizing dirty with
  | nil => rfl
  | cons op ops ih =>
    cases op with
    | act a => exact ih h
    | saveState => exact ih h
    | loadState =>
      simp only [savesEpoch,loadsSaved,Bool.and_eq_true] at h ⊢
      exact ⟨h.1,ih h.2⟩
    | restartCoordinator clock => exact ih h

theorem NodeStep.epoch {n n' : Node} (h : NodeStep n n') :
    n'.impl.ctx.epoch = n.impl.ctx.epoch ∧ n'.impl.hasStore = n.impl.hasStore := by
  cases h with
  | quiet same log => exact ⟨same.epoch,same.hasStore⟩
  | settles hk he impl log =>
    rw [impl]
    exact ⟨rfl,rfl⟩
  | plans h log => exact ⟨by rw [h.ctx],h.hasStore⟩
  | handsOff hk hs hcur impl log =>
    rw [impl]
    exact ⟨rfl,rfl⟩

/-- The epoch a fresh planner would take over from this store. -/
def DiskEpoch (disk : Impl.Disk) (d : Nat) : Prop :=
  (disk = none ∧ d = 1) ∨
    ∃ src : Impl, disk = some src.encodeSnapshot ∧ src.ctx.epoch.value.toNat = d

namespace Session

theorem load_epoch (std : StdSort) {s : Session} {d : Nat} (hs : s.node.impl.hasStore = true)
    (hd : DiskEpoch s.disk d) (he : s.disk = none → s.epoch.toNat = d) :
    (s.step std .loadState).epoch.toNat = d := by
  rcases hd with ⟨hnone,_⟩ | ⟨src,hsrc,hd⟩
  · have hload : (s.step std .loadState).epoch = s.epoch := by
      simp only [epoch,step,hnone,Impl.loadState_none]
    rw [hload]
    exact he hnone
  · have hload : (s.step std .loadState).epoch = src.ctx.epoch.value := by
      simp only [epoch,step,hsrc,Impl.loadState_some hs]
      rw [Impl.applySnapshot_epoch]
      rfl
    rw [hload]
    exact hd

theorem restart_epoch (std : StdSort) {s : Session} (hs : s.node.impl.hasStore = true)
    (clock : UInt64 → Timestamp) :
    (s.step std (.restartCoordinator clock)).epoch = s.epoch+1 ∧
    (s.step std (.restartCoordinator clock)).disk = some s.node.impl.encodeSnapshot ∧
    (s.step std (.restartCoordinator clock)).node.impl.hasStore = true := by
  have hsave : (s.node.impl.saveState s.disk).2 = some s.node.impl.encodeSnapshot := by
    simp [Impl.saveState,hs]
  have hre := s.node.impl.restartReloading_frame clock (some s.node.impl.encodeSnapshot)
  simp only [epoch,step,Impl.restartCoordinator,hsave]
  refine ⟨?_,trivial,hre.hasStore.trans hs⟩
  rw [Impl.restartReloading_epoch hs]
  rfl

theorem epochs_cons {std : StdSort} {s : Session} {op : Op} {ops : List Op} {e : Nat}
    (hle : s.epoch.toNat ≤ (s.step std op).epoch.toNat)
    (htail : ∀ v ∈ (s.step std op).epochs std ops,
      (s.step std op).epoch.toNat ≤ v.toNat ∧ v.toNat ≤ e) :
    ∀ v ∈ s.epochs std (op :: ops), s.epoch.toNat ≤ v.toNat ∧ v.toNat ≤ e := by
  intro v hv
  have hhead : (s.step std op).epoch ∈ (s.step std op).epochs std ops := by
    cases ops <;> simp [epochs]
  rcases List.mem_cons.mp hv with rfl | hv
  · exact ⟨le_rfl,hle.trans (htail _ hhead).2⟩
  · exact ⟨hle.trans (htail v hv).1,(htail v hv).2⟩

/-- The disk holds this epoch, which is the one in force unless the session is dirty. -/
structure OnDisk (s : Session) (dirty : Bool) (d : Nat) : Prop where
  hasStore : s.node.impl.hasStore = true
  disk : DiskEpoch s.disk d
  clean : dirty = false → d = s.epoch.toNat

/-- One step: the epoch grows by a restart, and what is on disk follows. -/
theorem step_epochs (std : StdSort) {s : Session} {op : Op} {ops : List Op} {b : Bool} {d : Nat}
    (h : s.OnDisk b d) (hload : loadsSaved b (op :: ops) = true)
    (hbound : s.epoch.toNat+(op :: ops).countP Op.isRestart < 2^64) :
    ∃ b' d', (s.step std op).OnDisk b' d' ∧ loadsSaved b' ops = true ∧
      (savesEpoch b (op :: ops) = true → savesEpoch b' ops = true) ∧
      s.epoch.toNat ≤ (s.step std op).epoch.toNat ∧
      (s.step std op).epoch.toNat+ops.countP Op.isRestart =
        s.epoch.toNat+(op :: ops).countP Op.isRestart := by
  cases op with
  | act a =>
    obtain ⟨hep,hst⟩ := (s.node.act_step std a).epoch
    have hsame : (s.step std (.act a)).epoch = s.epoch := congrArg Id.value hep
    refine ⟨b,d,⟨hst.trans h.hasStore,h.disk,?_⟩,hload,id,by rw [hsame],?_⟩
    · rw [hsame]
      exact h.clean
    · rw [hsame,List.countP_cons_of_neg (by simp [Op.isRestart])]
  | saveState =>
    have hsave : (s.step std .saveState).disk = some s.node.impl.encodeSnapshot := by
      simp [step,Impl.saveState,h.hasStore]
    have hon : (s.step std .saveState).OnDisk false s.epoch.toNat :=
      ⟨h.hasStore,.inr ⟨s.node.impl,hsave,rfl⟩,fun _ => rfl⟩
    refine ⟨false,s.epoch.toNat,hon,hload,id,le_rfl,?_⟩
    rw [List.countP_cons_of_neg (by simp [Op.isRestart])]
    rfl
  | loadState =>
    simp only [loadsSaved,Bool.and_eq_true,Bool.not_eq_true'] at hload
    have hd := h.clean hload.1
    have hsame := load_epoch std h.hasStore h.disk (fun _ => hd.symm)
    have hstore := (s.node.impl.loadState_frame s.disk).hasStore.trans h.hasStore
    refine ⟨false,d,⟨hstore,h.disk,fun _ => hsame.symm⟩,hload.2,fun hs => ?_,by omega,?_⟩
    · simp only [savesEpoch,Bool.and_eq_true] at hs
      exact hs.2
    · rw [List.countP_cons_of_neg (by simp [Op.isRestart])]
      omega
  | restartCoordinator clock =>
    obtain ⟨hep,hdisk,hst⟩ := restart_epoch std h.hasStore clock
    have hcount : (Op.restartCoordinator clock :: ops).countP Op.isRestart =
        ops.countP Op.isRestart+1 := List.countP_cons_of_pos rfl
    rw [hcount] at hbound ⊢
    have hnext : (s.step std (.restartCoordinator clock)).epoch.toNat = s.epoch.toNat+1 := by
      rw [hep,UInt64.toNat_add]
      exact Nat.mod_eq_of_lt (by show _+1 < 2^64; omega)
    have hon : (s.step std (.restartCoordinator clock)).OnDisk true s.epoch.toNat :=
      ⟨hst,.inr ⟨s.node.impl,hdisk,rfl⟩,by simp⟩
    exact ⟨true,s.epoch.toNat,hon,hload,id,by omega,by omega⟩

/-- Epochs only grow along a run that loads nothing stale, and stay on disk where the
run saves them. -/
theorem run_epochs (std : StdSort) {s : Session} {ops : List Op} {b : Bool} {d : Nat}
    (h : s.OnDisk b d) (hload : loadsSaved b ops = true)
    (hbound : s.epoch.toNat+ops.countP Op.isRestart < 2^64) :
    ∃ e, (∀ v ∈ s.epochs std ops, s.epoch.toNat ≤ v.toNat ∧ v.toNat ≤ e) ∧
      e ≤ s.epoch.toNat+ops.countP Op.isRestart ∧
      (savesEpoch b ops = true → DiskEpoch (run (step std) s ops).disk e) := by
  induction ops generalizing s b d with
  | nil =>
    refine ⟨s.epoch.toNat,by simp [epochs],by simp,fun hsave => ?_⟩
    have hb : b = false := by simpa [savesEpoch] using hsave
    rw [← h.clean hb]
    exact h.disk
  | cons op ops ih =>
    obtain ⟨b',d',hon,hload,hsave,hle,hsum⟩ := step_epochs std h hload hbound
    obtain ⟨e,h1,h2,h3⟩ := ih hon hload (by rw [hsum]; exact hbound)
    exact ⟨e,epochs_cons hle h1,by omega,fun hs => h3 (hsave hs)⟩

theorem run_created (std : StdSort) {s : Session} {ops : List Op} {p : RecoveryPlan}
    (hp : .created p ∈ (run (step std) s ops).node.log) :
    .created p ∈ s.node.log ∨ p.authority.coordinatorEpoch.value ∈ s.epochs std ops := by
  induction ops generalizing s with
  | nil => exact .inl hp
  | cons op ops ih =>
    rcases ih hp with hmem | hmem
    · cases op with
      | act a =>
        have hnow : s.epoch ∈ s.epochs std (.act a :: ops) := List.mem_cons_self
        rcases (s.node.act_step std a).created_mem hmem with hold | ⟨_,hfresh⟩
        · exact .inl hold
        · refine .inr ?_
          rw [hfresh.epoch]
          exact hnow
      | saveState => exact .inl hmem
      | loadState => exact .inl hmem
      | restartCoordinator clock => exact .inl hmem
    · exact .inr (List.mem_cons_of_mem _ hmem)

end Session

namespace Incarnation

theorem epochs_new (std : StdSort) {disk : Impl.Disk} {d : Nat} {inc : Incarnation}
    (hd : DiskEpoch disk d) (hload : inc.loads = true) (hbound : d+inc.restarts < 2^64) :
    ∃ e, (∀ v ∈ inc.epochs std disk, d < v.toNat ∧ v.toNat ≤ e) ∧ d ≤ e ∧
      e ≤ d+inc.restarts ∧ (inc.saves = true → DiskEpoch (inc.leaves std disk) e) := by
  have hopen : (Session.reopened std disk).epoch.toNat = d := by
    refine Session.load_epoch std rfl hd fun hnone => ?_
    rcases hd with ⟨_,h⟩ | ⟨src,hsrc,_⟩
    · rw [h]
      rfl
    · exact absurd (hsrc.symm.trans hnone) (by simp)
  have hstore : (Session.reopened std disk).node.impl.hasStore = true :=
    (Impl.construct true).loadState_frame disk |>.hasStore
  cases inc with
  | stoppedLoading => exact ⟨d,by simp [epochs],le_rfl,by simp [restarts],fun _ => hd⟩
  | stoppedRestarting =>
    refine ⟨d,by simp [epochs],le_rfl,by simp [restarts],fun _ => .inr ⟨_,?_,hopen⟩⟩
    simp [leaves,Session.step,Impl.saveState,hstore]
  | running clock ops =>
    obtain ⟨hep,hdisk,hst⟩ := Session.restart_epoch std hstore clock
    simp only [restarts] at hbound
    have hnext : (begun std disk clock).epoch.toNat = d+1 := by
      rw [begun,hep,UInt64.toNat_add,hopen]
      exact Nat.mod_eq_of_lt (by show _+1 < 2^64; omega)
    have hon : (begun std disk clock).OnDisk true d := ⟨hst,.inr ⟨_,hdisk,hopen⟩,by simp⟩
    obtain ⟨e,h1,h2,h3⟩ := Session.run_epochs std hon hload (by rw [hnext]; omega)
    rw [hnext] at h1 h2
    have hhead : (begun std disk clock).epoch ∈ (begun std disk clock).epochs std ops := by
      cases ops <;> simp [Session.epochs]
    have htop := (h1 _ hhead).2
    refine ⟨e,fun v hv => ⟨(h1 v hv).1,(h1 v hv).2⟩,by omega,?_,h3⟩
    simp only [restarts]
    omega

end Incarnation

/-- Every incarnation saves its epoch before it crashes; the last one need not. -/
def savesBetween : List Incarnation → Bool
  | [] => true
  | [inc] => inc.loads
  | inc :: incs => inc.saves && savesBetween incs

theorem savesBetween_cons {inc : Incarnation} {incs : List Incarnation}
    (h : savesBetween (inc :: incs) = true) :
    inc.loads = true ∧ savesBetween incs = true ∧ (incs ≠ [] → inc.saves = true) := by
  cases incs with
  | nil => exact ⟨h,rfl,fun hne => absurd rfl hne⟩
  | cons inc' incs =>
    simp only [savesBetween,Bool.and_eq_true] at h
    refine ⟨?_,h.2,fun _ => h.1⟩
    cases inc with
    | running clock ops => exact loadsSaved_of_savesEpoch h.1
    | _ => rfl

theorem lineage_epochs (std : StdSort) {disk : Impl.Disk} {d : Nat} {incs : List Incarnation}
    (hd : DiskEpoch disk d) (h : savesBetween incs = true)
    (hbound : d+(incs.map Incarnation.restarts).sum < 2^64) :
    (∀ a ∈ lineage std disk incs, ∀ v ∈ a.2.epochs std a.1, d < v.toNat) ∧
    (lineage std disk incs).Pairwise
      (fun a b => List.Disjoint (a.2.epochs std a.1) (b.2.epochs std b.1)) := by
  induction incs generalizing disk d with
  | nil => exact ⟨by simp [lineage],.nil⟩
  | cons inc incs ih =>
    obtain ⟨hload,hrest,hsave⟩ := savesBetween_cons h
    simp only [List.map_cons,List.sum_cons] at hbound
    obtain ⟨e,h1,h2,h3,h4⟩ := Incarnation.epochs_new std hd hload (by omega)
    cases incs with
    | nil =>
      refine ⟨fun a ha v hv => ?_,List.pairwise_singleton _ _⟩
      obtain rfl := List.mem_singleton.mp ha
      exact (h1 v hv).1
    | cons inc' incs =>
      have htail := ih (h4 (hsave (by simp))) hrest (by omega)
      refine ⟨fun a ha v hv => ?_,List.pairwise_cons.mpr ⟨fun b hb v hv hv' => ?_,htail.2⟩⟩
      · rcases List.mem_cons.mp ha with rfl | ha
        · exact (h1 v hv).1
        · have hv := htail.1 a ha v hv
          omega
      · -- What this incarnation used is at most `e`; what comes later is above it.
        have hlow := (h1 v hv).2
        have hhigh := htail.1 b hb v hv'
        omega

/-- The epochs in force in distinct incarnations are distinct, and every plan carries
one of its own incarnation. -/
theorem lineage_disjoint (std : StdSort) (incs : List Incarnation)
    (h : savesBetween incs = true)
    (hbound : 1+(incs.map Incarnation.restarts).sum < 2^64) :
    (lineage std none incs).Pairwise
      (fun a b => List.Disjoint (a.2.epochs std a.1) (b.2.epochs std b.1)) ∧
    ∀ a ∈ lineage std none incs, ∀ p, .created p ∈ a.2.log std a.1 →
      p.authority.coordinatorEpoch.value ∈ a.2.epochs std a.1 := by
  refine ⟨(lineage_epochs std (.inl ⟨rfl,rfl⟩) h hbound).2,fun a _ p hp => ?_⟩
  obtain ⟨disk,inc⟩ := a
  cases inc with
  | stoppedLoading => exact absurd hp (by simp [Incarnation.log])
  | stoppedRestarting => exact absurd hp (by simp [Incarnation.log])
  | running clock ops =>
    rcases Session.run_created std hp with hmem | hmem
    · exact absurd hmem (by
        simp [Incarnation.begun,Session.reopened,Session.step,Session.construct,Node.construct])
    · exact hmem

def savingLineage : List Incarnation :=
  [.running (fun _ => ⟨0⟩) [.saveState],.running (fun _ => ⟨1⟩) []]

theorem lineage_disjoint_saving :
    (lineage .insertion none savingLineage).Pairwise
      (fun a b => List.Disjoint (a.2.epochs .insertion a.1) (b.2.epochs .insertion b.1)) ∧
    (lineage .insertion none savingLineage).map (fun a => a.2.epochs .insertion a.1) =
      [[2,2],[3]] :=
  ⟨(lineage_disjoint .insertion savingLineage (by decide) (by decide)).1,by decide +kernel⟩

/-- Two incarnations that crash right after their restart: both are in epoch 2. -/
theorem lineage_repeats :
    (lineage .insertion none
        [.running (fun _ => ⟨0⟩) [],.running (fun _ => ⟨1⟩) []]).map
      (fun a => a.2.epochs .insertion a.1) = [[2],[2]] ∧
    ¬ (lineage .insertion none
        [.running (fun _ => ⟨0⟩) [],.running (fun _ => ⟨1⟩) []]).Pairwise
      (fun a b => List.Disjoint (a.2.epochs .insertion a.1) (b.2.epochs .insertion b.1)) := by
  have heq : (lineage .insertion none
      [.running (fun _ => ⟨0⟩) [],.running (fun _ => ⟨1⟩) []]).map
      (fun a => a.2.epochs .insertion a.1) = [[2],[2]] := by decide +kernel
  refine ⟨heq,fun h => ?_⟩
  have hmap := List.pairwise_map.mpr h
  rw [heq] at hmap
  have hdis := (List.pairwise_cons.mp hmap).1 [2] (by simp)
  exact hdis (List.mem_singleton.mpr rfl) (List.mem_singleton.mpr rfl)

end RecoveryPlanner
