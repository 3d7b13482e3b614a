import RecoveryPlanner.PlanIds
set_option autoImplicit false

/-! How often the plan of one decision is handed to an executor, over a whole fleet. A
restart makes every reloaded plan terminal; a load alone does not. -/

namespace RecoveryPlanner

theorem Evolves.executable {p p' : RecoveryPlan} (h : Evolves p p')
    (he : p'.executable = true) : p.executable = true := by
  cases h with
  | touch now => exact he
  | authorize now h =>
    rcases validate_authorized.mp h with h | h <;> simp [RecoveryPlan.executable,h]
  | _ => exact absurd he (by simp [RecoveryPlan.executable])

theorem RecoveryPlan.executable_alive {p : RecoveryPlan} (h : p.executable = true) :
    p.state.terminal = false := by
  simp only [RecoveryPlan.executable,Bool.or_eq_true,decide_eq_true_eq] at h
  rcases h with h | h <;> rw [h] <;> rfl

theorem Impl.holdsExecutable_of_find? {im : Impl} {k : UInt64} {p : RecoveryPlan}
    (hk : im.plans.find? k = some p) (hp : p.executable = true) : im.holdsExecutable = true :=
  List.any_eq_true.mpr ⟨p,im.plans.mem_values.mpr ⟨k,hk⟩,hp⟩

namespace Fleet

theorem newEvent_same {n n' : Node} (h : n'.log = n.log) : newEvent n n' = none := by
  simp [newEvent,h]

theorem newEvent_cons {n n' : Node} {e : Event} (h : n'.log = e :: n.log) :
    newEvent n n' = some e := by
  simp [newEvent,h]

/-- Planner `i` could hand off the plan stored under `k`. -/
def Ready (w : Fleet) (i : Nat) (k : UInt64) : Prop :=
  (w.members i).resumed = false ∧
    ∃ p, (w.impl i).plans.find? k = some p ∧ p.executable = true

/-- The decisions behind plans that are ready are distinct and not yet handed off. -/
structure HandInv (w : Fleet) : Prop where
  keyed : ∀ i, Impl.Keyed (w.impl i).plans
  fresh : ∀ i k, Ready w i k → (w.members i).origin k < w.decisions ∧
    (w.members i).origin k ∉ w.handed
  distinct : ∀ i k j l, Ready w i k → Ready w j l →
    (w.members i).origin k = (w.members j).origin l → i = j ∧ k = l
  below : ∀ t ∈ w.handed, t < w.decisions
  nodup : w.handed.Nodup

theorem HandInv.shrink {w w' : Fleet} (h : HandInv w)
    (keyed : ∀ i, Impl.Keyed (w'.impl i).plans)
    (ready : ∀ i k, Ready w' i k → Ready w i k ∧ (w'.members i).origin k = (w.members i).origin k)
    (decisions : w'.decisions = w.decisions) (handed : w'.handed = w.handed) : HandInv w' := by
  refine ⟨keyed,?_,?_,by rw [handed,decisions]; exact h.below,by rw [handed]; exact h.nodup⟩
  · intro i k hr
    rw [(ready i k hr).2,decisions,handed]
    exact h.fresh i k (ready i k hr).1
  · intro i k j l hi hj heq
    rw [(ready i k hi).2,(ready j l hj).2] at heq
    exact h.distinct i k j l (ready i k hi).1 (ready j l hj).1 heq

theorem HandInv.put {w : Fleet} (h : HandInv w) (i : Nat) (m : Member)
    (keyed : Impl.Keyed m.node.impl.plans)
    (ready : ∀ k p, m.resumed = false → m.node.impl.plans.find? k = some p →
      p.executable = true → Ready w i k ∧ m.origin k = (w.members i).origin k) :
    HandInv (w.put i m) := by
  refine h.shrink (fun j => ?_) (fun j k hr => ?_) rfl rfl
  · by_cases hj : j = i
    · subst hj
      simpa [impl] using keyed
    · simpa [impl,put_other w m hj] using h.keyed j
  · by_cases hj : j = i
    · subst hj
      obtain ⟨hres,p,hp,he⟩ := hr
      rw [impl,put_self] at hp
      rw [put_self] at hres ⊢
      exact ready k p hres hp he
    · obtain ⟨hres,p,hp,he⟩ := hr
      rw [impl,put_other w m hj] at hp
      rw [put_other w m hj] at hres ⊢
      exact ⟨⟨hres,p,hp,he⟩,rfl⟩

theorem replaces_false {w : Fleet} {i : Nat} (h : w.replaces i = false) :
    ((w.impl i).loadState w.disk).2.plans = (w.impl i).plans := by
  rcases (w.impl i).loadState_cases w.disk with heq | ⟨blob,hstore,hd,heq⟩
  · rw [heq]
  · have hstore : (w.members i).node.impl.hasStore = true := hstore
    have hr : Impl.reachesPlans blob = false := by simpa [replaces,hd,hstore] using h
    rw [heq]
    exact Impl.applySnapshot_unreached _ false hr

theorem acted_keyed {w : Fleet} {i : Nat} {n : Node} (h : ∀ j, Impl.Keyed (w.impl j).plans)
    (hn : Impl.Keyed n.impl.plans) (j : Nat) : Impl.Keyed ((w.acted i n).impl j).plans := by
  by_cases hj : j = i
  · subst hj
    rw [impl,acted_self]
    exact hn
  · rw [impl,acted_other w n hj]
    exact h j

theorem acted_created (w : Fleet) {i : Nat} {n : Node} {p : RecoveryPlan}
    (hlog : n.log = .created p :: (w.members i).node.log) :
    w.acted i n = { w.put i { w.members i with
      node := n
      origin := Function.update (w.members i).origin p.planId.value w.decisions } with
      decisions := w.decisions+1 } := by
  simp only [acted,newEvent_cons hlog]

theorem Ready.created {w : Fleet} {i j : Nat} {n : Node} {p : RecoveryPlan} {k : UInt64}
    (hkeyed : Impl.Keyed (w.impl i).plans) (hstep : NodeStep (w.members i).node n)
    (hlog : n.log = .created p :: (w.members i).node.log) (hr : Ready (w.acted i n) j k) :
    (j = i ∧ k = p.planId.value ∧ ((w.acted i n).members j).origin k = w.decisions) ∨
    (Ready w j k ∧ ((w.acted i n).members j).origin k = (w.members j).origin k) := by
  obtain ⟨hres,q,hq,he⟩ := hr
  by_cases hj : j = i
  · subst hj
    have hm : (w.acted j n).members j = { w.members j with
        node := n
        origin := Function.update (w.members j).origin p.planId.value w.decisions } := by
      rw [acted_created w hlog]
      exact put_self _ _ _
    rw [impl,hm] at hq
    rw [hm] at hres ⊢
    by_cases hk : k = p.planId.value
    · exact .inl ⟨rfl,hk,by simp [hk]⟩
    · refine .inr ⟨⟨hres,?_⟩,by simp [hk]⟩
      cases hstep.record hkeyed k with
      | same plan life => exact ⟨q,plan.symm.trans hq,he⟩
      | created fresh key plan log =>
        have hlogs := List.cons.inj (log.symm.trans hlog)
        have hpid := Event.created.inj hlogs.1
        rw [key,← hpid,fresh.planId] at hk
        exact absurd rfl hk
      | evolved before hev plan life =>
        obtain rfl := Option.some.inj (plan.symm.trans hq)
        exact ⟨_,before,hev.executable he⟩
      | handedOff before hs hcur plan life =>
        obtain rfl := Option.some.inj (plan.symm.trans hq)
        exact absurd he (by simp [RecoveryPlan.executable,RecoveryPlan.dispatched])
  · rw [impl,acted_other w n hj] at hq
    rw [acted_other w n hj] at hres ⊢
    exact .inr ⟨⟨hres,q,hq,he⟩,rfl⟩

/-- A creation: the new decision is behind one plan only. -/
theorem HandInv.created {w : Fleet} (h : HandInv w) {i : Nat} {n : Node} {p : RecoveryPlan}
    (hstep : NodeStep (w.members i).node n)
    (hlog : n.log = .created p :: (w.members i).node.log) : HandInv (w.acted i n) := by
  have hready := fun j k (hr : Ready (w.acted i n) j k) => hr.created (h.keyed i) hstep hlog
  have hdec : (w.acted i n).decisions = w.decisions+1 := by rw [acted_created w hlog]
  have hhand : (w.acted i n).handed = w.handed := by rw [acted_created w hlog]; rfl
  refine ⟨acted_keyed h.keyed (hstep.keyed (h.keyed i)),?_,?_,?_,by rw [hhand]; exact h.nodup⟩
  · intro j k hr
    rw [hdec,hhand]
    rcases hready j k hr with ⟨_,_,ho⟩ | ⟨hr,ho⟩
    · rw [ho]
      exact ⟨Nat.lt_succ_self _,fun hm => absurd (h.below _ hm) (lt_irrefl _)⟩
    · rw [ho]
      exact ⟨(h.fresh j k hr).1.trans (Nat.lt_succ_self _),(h.fresh j k hr).2⟩
  · intro j k l m hj hl heq
    rcases hready j k hj with ⟨rfl,rfl,ho⟩ | ⟨hrj,ho⟩
    · rcases hready l m hl with ⟨rfl,rfl,ho'⟩ | ⟨hrl,ho'⟩
      · exact ⟨rfl,rfl⟩
      · rw [ho,ho'] at heq
        exact absurd (h.fresh l m hrl).1 (by rw [← heq]; exact lt_irrefl _)
    · rcases hready l m hl with ⟨rfl,rfl,ho'⟩ | ⟨hrl,ho'⟩
      · rw [ho,ho'] at heq
        exact absurd (h.fresh j k hrj).1 (by rw [heq]; exact lt_irrefl _)
      · rw [ho,ho'] at heq
        exact h.distinct j k l m hrj hrl heq
  · intro t ht
    rw [hhand] at ht
    rw [hdec]
    exact (h.below t ht).trans (Nat.lt_succ_self _)

theorem Ready.handedOff {w : Fleet} {i j : Nat} {n : Node} {k l : UInt64} {p : RecoveryPlan}
    {now : Timestamp} (himpl : n.impl = (w.impl i).handOff k p now)
    (hr : Ready (w.put i { w.members i with node := n }) j l) :
    Ready w j l ∧ ¬ (j = i ∧ l = k) ∧
      ((w.put i { w.members i with node := n }).members j).origin l = (w.members j).origin l := by
  obtain ⟨hres,q,hq,he⟩ := hr
  by_cases hj : j = i
  · subst hj
    rw [impl,put_self] at hq
    rw [put_self] at hres ⊢
    simp only [himpl,Impl.handOff,Impl.putPlan,SortedMap.find?_insert] at hq
    split at hq
    · obtain rfl := Option.some.inj hq
      exact absurd he (by simp [RecoveryPlan.executable,RecoveryPlan.dispatched])
    · rename_i hl
      exact ⟨⟨hres,q,hq,he⟩,fun heq => hl heq.2,rfl⟩
  · rw [impl,put_other w _ hj] at hq
    rw [put_other w _ hj] at hres ⊢
    exact ⟨⟨hres,q,hq,he⟩,fun heq => hj heq.1,rfl⟩

theorem HandInv.handedOff {w : Fleet} (h : HandInv w) {i : Nat} {n : Node} {k : UInt64}
    {p : RecoveryPlan} {now : Timestamp} {d : RecoveryDispatch}
    (hres : (w.members i).resumed = false) (hkeyed : Impl.Keyed n.impl.plans)
    (hk : (w.impl i).plans.find? k = some p) (hs : p.state = .authorized)
    (himpl : n.impl = (w.impl i).handOff k p now)
    (hlog : n.log = .handedOff p (w.impl i).ctx d :: (w.members i).node.log) :
    HandInv (w.acted i n) := by
  have hkey := h.keyed i k p hk
  have hw : w.acted i n = { w.put i { w.members i with node := n } with
      handed := (w.members i).origin k :: w.handed } := by
    simp only [acted,newEvent_cons hlog,hkey]
  have hready := fun j l (hr : Ready (w.put i { w.members i with node := n }) j l) =>
    hr.handedOff himpl
  have hfirst : Ready w i k := ⟨hres,p,hk,by simp [RecoveryPlan.executable,hs]⟩
  refine ⟨acted_keyed h.keyed hkeyed,?_,?_,?_,?_⟩ <;> rw [hw]
  · intro j l hr
    obtain ⟨hold,hne,ho⟩ := hready j l hr
    have ho : ((w.put i { w.members i with node := n }).members j).origin l =
      (w.members j).origin l := ho
    dsimp only
    rw [ho,List.mem_cons,not_or]
    exact ⟨(h.fresh j l hold).1,fun heq => hne (h.distinct j l i k hold hfirst heq),
      (h.fresh j l hold).2⟩
  · intro j l j' l' hr hr' heq
    obtain ⟨hold,_,ho⟩ := hready j l hr
    obtain ⟨hold',_,ho'⟩ := hready j' l' hr'
    exact h.distinct j l j' l' hold hold' (ho.symm.trans (heq.trans ho'))
  · intro t ht
    rcases List.mem_cons.mp ht with rfl | ht
    · exact (h.fresh i k hfirst).1
    · exact h.below t ht
  · exact List.nodup_cons.mpr ⟨(h.fresh i k hfirst).2,h.nodup⟩

/-- No dispatch is made on a planner that has loaded an executable plan and has not
been restarted since. -/
def RestartFirst (w : Fleet) (op : FleetOp) : Prop :=
  ∀ i now plan, op = .act i (.dispatchBegin now plan) → (w.members i).resumed = false

theorem act_hand {std : StdSort} {w : Fleet} {i : Nat} {a : Act}
    (hop : RestartFirst w (.act i a)) (h : HandInv w) :
    HandInv (w.acted i ((w.members i).node.act std a)) := by
  have hquiet : ∀ n : Node, n.log = (w.members i).node.log →
      w.acted i n = w.put i { w.members i with node := n } := by
    intro n hlog
    simp only [acted,newEvent_same hlog]
  have hstep := (w.members i).node.act_step std a
  have hkeyed := hstep.keyed (h.keyed i)
  cases hstep with
  | quiet same log =>
    rw [hquiet _ log]
    refine h.put i _ hkeyed fun k p hres hp he => ⟨⟨hres,p,?_,he⟩,rfl⟩
    exact same.plans ▸ hp
  | settles hk hev himpl log =>
    rw [hquiet _ log]
    refine h.put i _ hkeyed fun k p hres hp he => ?_
    simp only [himpl,Impl.putPlan,SortedMap.find?_insert] at hp
    split at hp
    · rename_i hj
      subst hj
      obtain rfl := Option.some.inj hp
      exact ⟨⟨hres,_,hk,hev.executable he⟩,rfl⟩
    · exact ⟨⟨hres,p,hp,he⟩,rfl⟩
  | plans hp log => exact h.created (.plans hp log) log
  | handsOff hk hs hcur himpl log =>
    have hdis : ∃ now plan, a = .dispatchBegin now plan := by
      by_contra hne
      exact Node.act_not_handedOff (fun now plan ha => hne ⟨now,plan,ha⟩) _ _ _ log
    obtain ⟨now,plan,rfl⟩ := hdis
    exact h.handedOff (hop i now plan rfl) hkeyed hk hs himpl log

theorem step_hand {std : StdSort} {w : Fleet} {op : FleetOp} (hop : RestartFirst w op)
    (h : HandInv w) : HandInv (w.step std op) := by
  cases op with
  | act i a =>
    simp only [step]
    split
    · exact h
    · exact act_hand hop h
  | saveState i =>
    simp only [step]
    split
    · exact h
    · exact ⟨h.keyed,h.fresh,h.distinct,h.below,h.nodup⟩
  | loadState i =>
    simp only [step]
    split
    · exact h
    · refine h.put i _ (Impl.loadState_keyed (h.keyed i) w.disk) fun k p hres hp he => ?_
      by_cases hrep : w.replaces i = true
      · -- The plans were replaced: an executable one among them would be noticed.
        have hyes := Impl.holdsExecutable_of_find? hp he
        simp only [hrep,if_true] at hres
        exact absurd (hres.symm.trans hyes) (by simp)
      · have hrep : w.replaces i = false := by simpa using hrep
        simp only [hrep,Bool.false_eq_true,if_false] at hres ⊢
        have hp : (w.impl i).plans.find? k = some p := by
          rw [← replaces_false hrep]
          exact hp
        exact ⟨⟨hres,p,hp,he⟩,trivial⟩
  | restartBegin i =>
    simp only [step]
    split
    · exact h
    · have hsave : HandInv (w.save i) := ⟨h.keyed,h.fresh,h.distinct,h.below,h.nodup⟩
      exact hsave.put i _ (h.keyed i) fun k p hres hp he => ⟨⟨hres,p,hp,he⟩,rfl⟩
  | restartEnd i clock =>
    simp only [step]
    split
    · refine h.put i _ (Impl.restartReloading_keyed (h.keyed i) clock w.disk) ?_
      intro k p _ hp he
      have ht := Impl.restartReloading_terminal hp
      rw [RecoveryPlan.executable_alive he] at ht
      exact absurd ht (by simp)
    · exact h

theorem start_hand (hasStore : Nat → Bool) : HandInv (start hasStore) := by
  have hnone : ∀ i k, ((start hasStore).impl i).plans.find? k = none := fun i k => rfl
  refine ⟨fun i k p hp => ?_,fun i k hr => ?_,fun i k j l hr => ?_,by simp [start],by simp [start]⟩
  · exact absurd ((hnone i k).symm.trans hp) (by simp)
  · obtain ⟨_,p,hp,_⟩ := hr
    exact absurd ((hnone i k).symm.trans hp) (by simp)
  · obtain ⟨_,p,hp,_⟩ := hr
    exact absurd ((hnone i k).symm.trans hp) (by simp)

/-- The plan of one decision is handed to an executor at most once, by whichever
planner. -/
theorem run_handed (std : StdSort) (hasStore : Nat → Bool) (ops : List FleetOp)
    (h : Along RestartFirst (step std) (start hasStore) ops) :
    (run (step std) (start hasStore) ops).handed.Nodup :=
  (h.invariant (start_hand hasStore) fun _ _ hop hw => step_hand hop hw).nodup

def restartedRun : List FleetOp :=
  [.act 0 (.registerWorker ⟨1⟩ ⟨1⟩),.act 0 (.plan ⟨0⟩ (Session.requestNo 1) [Session.readyCandidate]),
   .act 0 (.authorizePlan ⟨1⟩ { planId := ⟨1⟩ }),.saveState 0,
   .act 0 (.dispatchBegin ⟨2⟩ { planId := ⟨1⟩ }),.loadState 1,.restartBegin 1,
   .restartEnd 1 (fun _ => ⟨3⟩)]

theorem run_handed_restarted :
    (run (step .insertion) (start (fun _ => true)) restartedRun).handed.Nodup ∧
    (run (step .insertion) (start (fun _ => true)) (restartedRun.take 5)).handed = [0] := by
  have h : Along RestartFirst (step .insertion) (start (fun _ => true)) restartedRun := by
    refine ⟨?_,?_,?_,?_,?_,?_,?_,?_,trivial⟩ <;> intro i now plan hop <;> cases hop
    rfl
  exact ⟨run_handed .insertion (fun _ => true) restartedRun h,by decide +kernel⟩

/-- The successor re-registers the worker and dispatches the plan it has loaded. -/
def resumedRun : List FleetOp :=
  restartedRun.take 6 ++
    [.act 1 (.registerWorker ⟨1⟩ ⟨1⟩),.act 1 (.dispatchBegin ⟨3⟩ { planId := ⟨1⟩ })]

theorem resumed_twice :
    (run (step .insertion) (start (fun _ => true)) resumedRun).handed = [0,0] ∧
    ¬ (run (step .insertion) (start (fun _ => true)) resumedRun).handed.Nodup := by
  have hload := @step_load_own .insertion
    (run (step .insertion) (start (fun _ => true)) (restartedRun.take 5)) 1
    ((run (step .insertion) (start (fun _ => true)) (restartedRun.take 3)).impl 0) rfl rfl rfl
    (run_tidy _ _ _ 0) (by decide +kernel) (by decide +kernel) (by decide +kernel)
  have hrun : resumedRun = restartedRun.take 5 ++ .loadState 1 :: resumedRun.drop 6 := rfl
  have h : (run (step .insertion) (start (fun _ => true)) resumedRun).handed = [0,0] := by
    rw [hrun,run_append,run_cons,hload]
    decide +kernel
  exact ⟨h,by rw [h]; decide⟩

end Fleet

end RecoveryPlanner
