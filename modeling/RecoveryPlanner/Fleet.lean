import Mathlib.Logic.Function.Basic
import RecoveryPlanner.Session
set_option autoImplicit false

/-! Any number of planners over one store. A planner that has not been used yet is a
freshly constructed one; a planner that is not used again has crashed. -/

namespace RecoveryPlanner

/-- The fields after `restarting` are for the observer only. -/
structure Member where
  node : Node
  /-- Inside `restart_coordinator`, between its save and its reload. -/
  restarting : Bool := false
  /-- A load brought in a plan that can still be dispatched, and no restart followed. -/
  resumed : Bool := false
  /-- Which decision the plan stored under an id came from. -/
  origin : UInt64 → Nat := fun _ => 0

structure Fleet where
  members : Nat → Member
  disk : Impl.Disk := none
  /-- The origins of the plans in the snapshot on disk. -/
  diskOrigin : UInt64 → Nat := fun _ => 0
  /-- The number of decisions so far, in the whole fleet. -/
  decisions : Nat := 0
  /-- The decisions whose plans were handed to an executor, latest first. -/
  handed : List Nat := []

inductive FleetOp where
  | act (i : Nat) (a : Act)
  | saveState (i : Nat)
  | loadState (i : Nat)
  | restartBegin (i : Nat)
  | restartEnd (i : Nat) (clock : UInt64 → Timestamp)

def RecoveryPlan.executable (p : RecoveryPlan) : Bool :=
  p.state = .planned || p.state = .authorized

def Impl.holdsExecutable (im : Impl) : Bool := im.plans.values.any RecoveryPlan.executable

namespace Fleet

def start (hasStore : Nat → Bool) : Fleet :=
  { members := fun i => { node := .construct (hasStore i) } }

def put (w : Fleet) (i : Nat) (m : Member) : Fleet :=
  { w with members := Function.update w.members i m }

def newEvent (before after : Node) : Option Event :=
  if after.log.length = before.log.length then none else after.log.head?

def acted (w : Fleet) (i : Nat) (n : Node) : Fleet :=
  let m := w.members i
  match newEvent m.node n with
  | none => w.put i { m with node := n }
  | some (.created p) =>
    { w.put i { m with
        node := n
        origin := Function.update m.origin p.planId.value w.decisions } with
      decisions := w.decisions+1 }
  | some (.handedOff p _ _) =>
    { w.put i { m with node := n } with handed := m.origin p.planId.value :: w.handed }

def save (w : Fleet) (i : Nat) : Fleet :=
  let m := w.members i
  { w with
    disk := (m.node.impl.saveState w.disk).2
    diskOrigin := if m.node.impl.hasStore then m.origin else w.diskOrigin }

def replaces (w : Fleet) (i : Nat) : Bool :=
  match w.disk with
  | some blob => (w.members i).node.impl.hasStore && Impl.reachesPlans blob
  | none => false

def step (std : StdSort) (w : Fleet) : FleetOp → Fleet
  | .act i a =>
    if (w.members i).restarting then w else w.acted i ((w.members i).node.act std a)
  | .saveState i => if (w.members i).restarting then w else w.save i
  | .loadState i =>
    let m := w.members i
    if m.restarting then w
    else
      let im := (m.node.impl.loadState w.disk).2
      w.put i { m with
        node := { m.node with impl := im }
        resumed := if w.replaces i then im.holdsExecutable else m.resumed
        origin := if w.replaces i then w.diskOrigin else m.origin }
  | .restartBegin i =>
    let m := w.members i
    if m.restarting then w else (w.save i).put i { m with restarting := true }
  | .restartEnd i clock =>
    let m := w.members i
    if m.restarting then
      w.put i { m with
        node := { m.node with impl := m.node.impl.restartReloading clock w.disk }
        restarting := false
        resumed := false
        origin := if w.replaces i then w.diskOrigin else m.origin }
    else w

def impl (w : Fleet) (i : Nat) : Impl := (w.members i).node.impl

def SavesFit (w : Fleet) (op : FleetOp) : Prop :=
  ∀ i, op = .saveState i ∨ op = .restartBegin i → (w.impl i).hasStore = true →
    (w.impl i).CountsFit

def DiskHolds (P : Impl → Prop) (disk : Impl.Disk) : Prop :=
  ∀ blob, disk = some blob → ∃ src : Impl, blob = src.encodeSnapshot ∧ src.CountsFit ∧ P src

@[simp] theorem put_self (w : Fleet) (i : Nat) (m : Member) : (w.put i m).members i = m := by
  simp [put]

theorem put_other (w : Fleet) {i j : Nat} (m : Member) (h : j ≠ i) :
    (w.put i m).members j = w.members j := by
  simp [put,h]

theorem acted_disk (w : Fleet) (i : Nat) (n : Node) : (w.acted i n).disk = w.disk := by
  unfold acted
  dsimp only
  split <;> rfl

theorem acted_self (w : Fleet) (i : Nat) (n : Node) : ((w.acted i n).members i).node = n := by
  unfold acted
  dsimp only
  split <;> simp [put]

theorem acted_other (w : Fleet) {i j : Nat} (n : Node) (h : j ≠ i) :
    (w.acted i n).members j = w.members j := by
  unfold acted
  dsimp only
  split <;> exact put_other w _ h

theorem save_disk {P : Impl → Prop} {w : Fleet} {i : Nat} (hp : P (w.impl i))
    (hfit : (w.impl i).hasStore = true → (w.impl i).CountsFit) (hd : DiskHolds P w.disk) :
    DiskHolds P (w.save i).disk := by
  intro blob hblob
  cases hstore : (w.impl i).hasStore with
  | false =>
    have hsame : (w.save i).disk = w.disk := by
      show ((w.impl i).saveState w.disk).2 = _
      simp [Impl.saveState,hstore]
    exact hd blob (hsame ▸ hblob)
  | true =>
    have hnew : (w.save i).disk = some (w.impl i).encodeSnapshot := by
      show ((w.impl i).saveState w.disk).2 = _
      simp [Impl.saveState,hstore]
    rw [hnew] at hblob
    exact ⟨w.impl i,(Option.some.inj hblob).symm,hfit hstore,hp⟩

/-- A property of planner states that survives a trip through the store. -/
structure Reloadable (P : Impl → Prop) : Prop where
  load : ∀ (im src : Impl), P im → P src → src.CountsFit →
    P (im.loadState (some src.encodeSnapshot)).2
  restart : ∀ (im src : Impl) clock, P im → P src → src.CountsFit →
    P (im.restartReloading clock (some src.encodeSnapshot))
  restartEmpty : ∀ (im : Impl) clock, P im → P (im.restartReloading clock none)

structure Stable (std : StdSort) (P : Impl → Prop) : Prop extends Reloadable P where
  act : ∀ (n : Node) a, P n.impl → P (n.act std a).impl

structure Holds (P : Impl → Prop) (w : Fleet) : Prop where
  members : ∀ i, P (w.impl i)
  disk : DiskHolds P w.disk

theorem Holds.mono {P Q : Impl → Prop} {w : Fleet} (h : w.Holds P) (hPQ : ∀ im, P im → Q im) :
    w.Holds Q := by
  refine ⟨fun i => hPQ _ (h.members i),fun blob hb => ?_⟩
  obtain ⟨src,hsrc,hfit,hp⟩ := h.disk blob hb
  exact ⟨src,hsrc,hfit,hPQ src hp⟩

theorem Holds.put {P : Impl → Prop} {w : Fleet} (h : w.Holds P) (i : Nat) (m : Member)
    (hm : P m.node.impl) : (w.put i m).Holds P := by
  refine ⟨fun j => ?_,h.disk⟩
  by_cases hj : j = i
  · subst hj
    simpa [impl] using hm
  · simpa [impl,put_other w m hj] using h.members j

theorem Reloadable.step {std : StdSort} {P : Impl → Prop} (hP : Reloadable P) {w : Fleet}
    {op : FleetOp} (hfit : w.SavesFit op) (h : w.Holds P)
    (hact : ∀ i a, op = .act i a → (w.members i).restarting = false →
      P ((w.members i).node.act std a).impl) :
    (w.step std op).Holds P := by
  have hsave : ∀ i, op = .saveState i ∨ op = .restartBegin i → (w.save i).Holds P :=
    fun i hop => ⟨h.members,save_disk (h.members i) (hfit i hop) h.disk⟩
  cases op with
  | act i a =>
    simp only [Fleet.step]
    split
    · exact h
    · rename_i hr
      refine ⟨fun j => ?_,by rw [acted_disk]; exact h.disk⟩
      by_cases hj : j = i
      · subst hj
        rw [impl,acted_self]
        exact hact j a rfl (by simpa using hr)
      · rw [impl,acted_other w _ hj]
        exact h.members j
  | saveState i =>
    simp only [Fleet.step]
    split
    · exact h
    · exact hsave i (.inl rfl)
  | loadState i =>
    simp only [Fleet.step]
    split
    · exact h
    · apply h.put
      cases hd : w.disk with
      | none =>
        show P ((w.impl i).loadState none).2
        rw [Impl.loadState_none]
        exact h.members i
      | some blob =>
        obtain ⟨src,rfl,hsrc,hps⟩ := h.disk blob hd
        exact hP.load _ src (h.members i) hps hsrc
  | restartBegin i =>
    simp only [Fleet.step]
    split
    · exact h
    · exact (hsave i (.inr rfl)).put i _ (h.members i)
  | restartEnd i clock =>
    simp only [Fleet.step]
    split
    · apply h.put
      cases hd : w.disk with
      | none => exact hP.restartEmpty _ clock (h.members i)
      | some blob =>
        obtain ⟨src,rfl,hsrc,hps⟩ := h.disk blob hd
        exact hP.restart _ src clock (h.members i) hps hsrc
    · exact h

theorem Stable.step {std : StdSort} {P : Impl → Prop} (hP : Stable std P) {w : Fleet}
    {op : FleetOp} (hfit : w.SavesFit op) (h : w.Holds P) : (w.step std op).Holds P :=
  hP.toReloadable.step hfit h fun i a _ _ => hP.act _ a (h.members i)

/-- The rule for a whole run. -/
theorem Stable.run {std : StdSort} {P : Impl → Prop} (hP : Stable std P)
    (h0 : ∀ b, P (.construct b)) {hasStore : Nat → Bool} {ops : List FleetOp}
    (h : Along SavesFit (Fleet.step std) (start hasStore) ops) :
    (run (Fleet.step std) (start hasStore) ops).Holds P :=
  h.invariant ⟨fun i => h0 _,fun _ hb => absurd hb (by simp [start])⟩
    fun _ _ hop hw => hP.step hop hw

theorem step_store {std : StdSort} {w : Fleet} {op : FleetOp} (hop : ∀ i a, op ≠ .act i a)
    (j : Nat) :
    ((w.step std op).members j).node.log = (w.members j).node.log ∧
      Impl.SameFrame (w.impl j) ((w.step std op).impl j) := by
  have hput : ∀ (i : Nat) (m : Member), m.node.log = (w.members i).node.log →
      Impl.SameFrame (w.impl i) m.node.impl →
      ((w.put i m).members j).node.log = (w.members j).node.log ∧
        Impl.SameFrame (w.impl j) ((w.put i m).impl j) := by
    intro i m hlog hframe
    by_cases hj : j = i
    · subst hj
      simp only [impl,put_self]
      exact ⟨hlog,hframe⟩
    · have hm := put_other w m hj
      exact ⟨by rw [hm],by rw [impl,impl,hm]; exact ⟨rfl,rfl,rfl,rfl⟩⟩
  have hsame : (w.members j).node.log = (w.members j).node.log ∧
      Impl.SameFrame (w.impl j) (w.impl j) := ⟨rfl,rfl,rfl,rfl,rfl⟩
  cases op with
  | act i a => exact absurd rfl (hop i a)
  | saveState i =>
    simp only [Fleet.step]
    split <;> exact hsame
  | loadState i =>
    simp only [Fleet.step]
    split
    · exact hsame
    · exact hput i _ rfl (Impl.loadState_frame _ _)
  | restartBegin i =>
    simp only [Fleet.step]
    split
    · exact hsame
    · exact hput i _ rfl ⟨rfl,rfl,rfl,rfl⟩
  | restartEnd i clock =>
    simp only [Fleet.step]
    split
    · exact hput i _ rfl (Impl.restartReloading_frame _ _ _)
    · exact hsame

end Fleet

end RecoveryPlanner
