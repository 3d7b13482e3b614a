import RecoveryPlanner.Completion
set_option autoImplicit false

/-! The map from dispatch ids to stamps, over whole runs: it has one place, which every hand-off
overwrites. -/

namespace RecoveryPlanner

namespace Session

def mail (s : Session) : Op → List (Option DispatchMeta)
  | .act (.dispatchBegin now plan) =>
    match s.node.impl.dispatchBegin now plan with
    | (.ok d,_) => [some d.stamp]
    | (.error _,_) => []
  | .act (.adapterTake dispatchId _) => if dispatchId = ⟨1⟩ then [none] else []
  | _ => []

/-- What is in the place after a run: the stamp of the latest hand-off, if none was taken
since. -/
def inPlace (std : StdSort) (s : Session) (ops : List Op) : Option DispatchMeta :=
  run (fun _ e => e) none (meaning (step std) mail s ops)

def credited (im : Impl) (place : Option DispatchMeta) (now : Timestamp) (id : DispatchId)
    (outcome : ExecutionOutcome) : Impl :=
  match place with
  | some m =>
    if id = ⟨1⟩ then
      { im with dispatchMeta := im.dispatchMeta.erase 1 }.reportExecution now
        ⟨id,m.planId,m.generation,m.targetBoot,outcome⟩
    else im
  | none => im

/-- The map as a mailbox with one place. -/
structure OnePlace (s : Session) (place : Option DispatchMeta) : Prop where
  kept : s.node.impl.WellKept
  first : ∀ d ∈ s.node.handedOut, d.dispatchId = ⟨1⟩ ∧ d.attempt = ⟨1⟩
  held : ∀ id, s.node.impl.dispatchMeta.find? id = if id = 1 then place else none

theorem OnePlace.carry {s s' : Session} {place : Option DispatchMeta} (h : s.OnePlace place)
    (hk : s'.node.impl.WellKept) (hout : s'.node.handedOut = s.node.handedOut)
    (hmeta : s'.node.impl.dispatchMeta = s.node.impl.dispatchMeta) : s'.OnePlace place := by
  refine ⟨hk,?_,?_⟩
  · rw [hout]
    exact h.first
  · rw [hmeta]
    exact h.held

theorem mail_of_unrouted {s : Session} {a : Act} (h : a.routes = false) : s.mail (.act a) = [] := by
  cases a with
  | dispatchBegin now plan => exact absurd h (by simp [Act.routes])
  | adapterTake dispatchId outcome => exact absurd h (by simp [Act.routes])
  | _ => rfl

theorem OnePlace.handOff {s s' : Session} {place : Option DispatchMeta} (h : s.OnePlace place)
    (hk : s'.node.impl.WellKept) {k : RecoveryPlanId} {p : RecoveryPlan} {now : Timestamp}
    (hp : s.node.impl.plans.find? k.value = some p) (hs : p.state = .authorized)
    (hnode : s'.node = s.node.handOff k p now) : s'.OnePlace (some p.stamp) := by
  have hzero := (h.kept _ p hp).sound.unattempted (.inr hs)
  have hone : p.lastAttempt.value+1 = 1 := by rw [hzero]; rfl
  refine ⟨hk,?_,fun id => ?_⟩
  · rw [hnode,Node.handOff_handedOut]
    intro d hd
    rcases List.mem_cons.mp hd with rfl | hd
    · exact ⟨congrArg Id.mk hone,congrArg Id.mk hone⟩
    · exact h.first d hd
  · rw [hnode,Node.handOff_dispatchMeta,hone,SortedMap.find?_insert]
    split
    · rfl
    · rename_i hid
      rw [h.held id,if_neg hid]

theorem OnePlace.take {s s' : Session} {place : Option DispatchMeta} (h : s.OnePlace place)
    (hk : s'.node.impl.WellKept) (std : StdSort) {dispatchId : DispatchId}
    {outcome : ExecutionOutcome}
    (hnode : s'.node = s.node.act std (.adapterTake dispatchId outcome)) :
    s'.OnePlace (if dispatchId = ⟨1⟩ then none else place) := by
  have hout : s'.node.handedOut = s.node.handedOut := by
    rw [hnode]
    simp only [Node.act]
    split <;> rfl
  have herase : ∀ id, s'.node.impl.dispatchMeta.find? id =
      if id = dispatchId.value then none else s.node.impl.dispatchMeta.find? id := by
    intro id
    rw [hnode]
    cases hm : s.node.impl.dispatchMeta.find? dispatchId.value with
    | none =>
      simp only [Node.act,Impl.adapterTake,hm]
      split
      · rename_i hid
        rw [hid,hm]
      · rfl
    | some m =>
      simp only [Node.act,Impl.adapterTake,hm]
      rw [SortedMap.find?_erase]
      by_cases hid : id = dispatchId.value <;> simp [hid]
  refine ⟨hk,?_,fun id => ?_⟩
  · rw [hout]
    exact h.first
  · have hone : dispatchId = ⟨1⟩ ↔ dispatchId.value = 1 := by
      cases dispatchId
      simp
    simp only [herase,h.held,hone]
    by_cases hid : id = 1
    · by_cases hd : dispatchId.value = 1
      · simp [hid,hd]
      · simp [hid,hd,Ne.symm hd]
    · simp [hid]

theorem step_onePlace (std : StdSort) {s : Session} {op : Op} (hop : s.Allowed op)
    {place : Option DispatchMeta} (h : s.OnePlace place) :
    (s.step std op).OnePlace (run (fun _ e => e) place (s.mail op)) := by
  have hk := step_wellKept std hop h.kept
  cases op with
  | act a =>
    cases hroutes : a.routes with
    | false =>
      have hsame := s.node.act_routes std hroutes
      rw [mail_of_unrouted hroutes]
      exact h.carry hk hsame.handedOut hsame.dispatchMeta
    | true =>
      cases a with
      | dispatchBegin now plan =>
        rcases s.node.impl.dispatchBegin_spec now plan with ⟨e,he⟩ | ⟨p,hp,hs,hcur,he⟩
        · have hmail : s.mail (.act (.dispatchBegin now plan)) = [] := by simp only [mail,he]
          have hnode : s.node.act std (.dispatchBegin now plan) = s.node := by
            simp only [Node.act,he]
            cases s.node.impl.plans.find? plan.planId.value <;> rfl
          rw [hmail]
          exact h.carry hk (congrArg Node.handedOut hnode)
            (congrArg (fun n => n.impl.dispatchMeta) hnode)
        · have hmail : s.mail (.act (.dispatchBegin now plan)) = [some p.stamp] := by
            simp only [mail,he]
            rfl
          have hnode : s.node.act std (.dispatchBegin now plan) =
              s.node.handOff plan.planId p now := by
            simp only [Node.act,hp,he,Node.handOff]
          rw [hmail]
          exact h.handOff hk hp hs hnode
      | adapterTake dispatchId outcome =>
        have hmail : run (fun _ e => e) place (s.mail (.act (.adapterTake dispatchId outcome))) =
            if dispatchId = ⟨1⟩ then none else place := by
          simp only [mail]
          split <;> rfl
        rw [hmail]
        exact h.take hk std rfl
      | adapterDeliver now call =>
        have hsame : (s.node.act std (.adapterDeliver now call)).handedOut = s.node.handedOut ∧
            (s.node.act std (.adapterDeliver now call)).impl.dispatchMeta =
              s.node.impl.dispatchMeta := by
          simp only [Node.act]
          split
          · exact ⟨rfl,(s.node.impl.reportExecution_settles now _).dispatchMeta⟩
          · exact ⟨rfl,rfl⟩
        exact h.carry hk hsame.1 hsame.2
      | _ => exact absurd hroutes (by simp [Act.routes])
  | saveState => exact h.carry hk rfl rfl
  | loadState => exact absurd rfl hop.noLoad
  | restartCoordinator clock =>
    exact h.carry hk rfl
      (s.node.impl.restartReloading_frame clock (s.node.impl.saveState s.disk).2).dispatchMeta

/-- In every run every dispatch goes out under id 1, and a completion with that id is credited to
the plan that was handed out last, whichever dispatch it completes. -/
theorem run_mailbox (std : StdSort) (hasStore : Bool) (ops : List Op)
    (h : Along Allowed (step std) (construct hasStore) ops) :
    let n := (run (step std) (construct hasStore) ops).node
    let place := inPlace std (construct hasStore) ops
    (∀ d ∈ n.handedOut, d.dispatchId = ⟨1⟩ ∧ d.attempt = ⟨1⟩) ∧
    (∀ id, n.impl.dispatchMeta.find? id = if id = 1 then place else none) ∧
    ∀ now id outcome,
      n.impl.onAdapterCompletion now id outcome = credited n.impl place now id outcome := by
  intro n place
  have hstart : (construct hasStore).OnePlace none := by
    refine ⟨Impl.construct_wellKept hasStore,?_,fun id => ?_⟩
    · exact fun d hd => absurd hd (by simp [construct,Node.construct,Node.handedOut])
    · simp [construct,Node.construct,Impl.construct]
  have hend := h.simulates hstart fun _ _ _ hop hs => step_onePlace std hop hs
  refine ⟨hend.first,hend.held,fun now id outcome => ?_⟩
  have hheld : n.impl.dispatchMeta.find? id.value = if id.value = 1 then place else none :=
    hend.held id.value
  by_cases hid : id = ⟨1⟩
  · rw [if_pos (congrArg Id.value hid)] at hheld
    simp only [Impl.onAdapterCompletion,Impl.adapterTake,hheld]
    cases hplace : place with
    | none => rfl
    | some m => simp [credited,hid]
  · have hvalue : id.value ≠ 1 := fun hv => hid (congrArg Id.mk hv)
    rw [if_neg hvalue] at hheld
    rw [Impl.onAdapterCompletion_unknown hheld]
    cases hplace : place with
    | none => rfl
    | some m => simp [credited,hid]

/-- Two dispatches are out, and the completion of the first arrives: it is the second plan that
has succeeded. -/
theorem run_mailbox_crossed :
    inPlace .insertion (construct true) crossedRun = some ⟨⟨2⟩,⟨2⟩,⟨1⟩⟩ ∧
    ∀ now outcome, crossed.node.impl.onAdapterCompletion now ⟨1⟩ outcome =
      { crossed.node.impl with
        dispatchMeta := crossed.node.impl.dispatchMeta.erase 1 }.reportExecution now
          ⟨⟨1⟩,⟨2⟩,⟨2⟩,⟨1⟩,outcome⟩ := by
  have h : Along Allowed (step .insertion) (construct true) crossedRun := by
    refine ⟨?_,?_,?_,?_,?_,?_,?_,?_,?_,trivial⟩
    all_goals exact ⟨by simp,by simp⟩
  have hplace : inPlace .insertion (construct true) crossedRun = some ⟨⟨2⟩,⟨2⟩,⟨1⟩⟩ := by
    decide +kernel
  refine ⟨hplace,fun now outcome => ?_⟩
  have hrun := (run_mailbox .insertion true crossedRun h).2.2 now ⟨1⟩ outcome
  rw [hplace] at hrun
  exact hrun

end Session

end RecoveryPlanner
