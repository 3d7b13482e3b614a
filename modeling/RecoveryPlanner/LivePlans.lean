import RecoveryPlanner.Fleet
set_option autoImplicit false

/-! What holds of the plan tables of a whole fleet: every record is consistent, and a
request has at most one plan that is not finished. -/

namespace RecoveryPlanner

theorem WellKept.retire {k : UInt64} {p : RecoveryPlan} (h : WellKept k p) (now : Timestamp) :
    WellKept k (Impl.retire now p) := by
  rcases retire_evolves h.sound now with he | he
  · rw [he]
    exact h
  · exact he.wellKept h

theorem Impl.loadState_wellKept {im src : Impl} (h : im.WellKept) (hs : src.WellKept)
    (hfit : src.CountsFit) : (im.loadState (some src.encodeSnapshot)).2.WellKept := by
  intro k p hk
  rcases im.loadState_table hfit hs.plansSound with ht | ht
  · rw [ht] at hk
    exact h k p hk
  · rw [ht] at hk
    obtain ⟨q,hq,rfl⟩ := Impl.find?_durablePlans hs.plansSound hk
    exact (hs k q hq).durable

theorem Impl.restartReloading_wellKept {im src : Impl} (clock : UInt64 → Timestamp)
    (h : im.WellKept) (hs : src.WellKept) (hfit : src.CountsFit) :
    (im.restartReloading clock (some src.encodeSnapshot)).WellKept := by
  intro k p hk
  obtain ⟨q,rfl,hq⟩ := im.restartReloading_plans clock (fun _ => hfit) hs.plansSound hk
  rcases hq with hq | ⟨r,hr,rfl⟩
  · exact (h k q hq).retire _
  · exact (hs k r hr).durable.retire _

theorem wellKept_stable (std : StdSort) : Fleet.Stable std Impl.WellKept where
  act n a h := (n.act_step std a).wellKept h
  load _ _ h hs hfit := Impl.loadState_wellKept h hs hfit
  restart _ _ clock h hs hfit := Impl.restartReloading_wellKept clock h hs hfit
  restartEmpty im clock h := by
    intro k p hk
    rw [im.restartReloading_none] at hk
    obtain ⟨q,hq,rfl⟩ := Impl.find?_retirePlans hk
    exact (h k q hq).retire _

namespace Fleet

/-- Every stored plan of every planner is consistent in state, outcome, publication
and attempt count. -/
theorem run_records (std : StdSort) (hasStore : Nat → Bool) (ops : List FleetOp)
    (h : Along SavesFit (step std) (start hasStore) ops) (i : Nat) (k : UInt64)
    (p : RecoveryPlan)
    (hp : ((run (step std) (start hasStore) ops).impl i).plans.find? k = some p) :
    RecordSound p :=
  (((wellKept_stable std).run Impl.construct_wellKept h).members i k p hp).sound

def savedRun : List FleetOp :=
  [.act 0 (.registerWorker ⟨1⟩ ⟨1⟩),.act 0 (.plan ⟨0⟩ (Session.requestNo 1) [Session.readyCandidate]),
   .saveState 0,.act 0 (.cancelPlan ⟨1⟩ ⟨1⟩ false)]

theorem savedRun_fits : Along SavesFit (step .insertion) (start (fun _ => true)) savedRun := by
  refine ⟨?_,?_,?_,?_,trivial⟩
  · rintro i (h | h) <;> cases h
  · rintro i (h | h) <;> cases h
  · rintro i (h | h) _
    · cases h
      decide +kernel
    · cases h
  · rintro i (h | h) <;> cases h

theorem run_records_saved :
    ∃ p, ((run (step .insertion) (start (fun _ => true)) savedRun).impl 0).plans.find? 1 = some p ∧
      RecordSound p := by
  have h : (((run (step .insertion) (start (fun _ => true)) savedRun).impl 0).plans.find? 1).isSome
      = true := by decide +kernel
  obtain ⟨p,hp⟩ := Option.isSome_iff_exists.mp h
  exact ⟨p,hp,run_records .insertion (fun _ => true) savedRun savedRun_fits 0 1 p hp⟩

/-- Plan once with a request that carries `plans`. -/
def smuggleRun (plans : SortedMap UInt64 RecoveryPlan) : List FleetOp :=
  [.act 0 (.registerWorker ⟨1⟩ ⟨1⟩),
   .act 0 (.plan ⟨0⟩ ((Session.requestNo 1).carrying (forgedLedger plans))
     [Session.readyCandidate])]

theorem save_load_impl (std : StdSort) {w : Fleet} {i : Nat} (hr : (w.members i).restarting = false)
    (hs : (w.impl i).hasStore = true) :
    ((w.step std (.saveState i)).step std (.loadState i)).impl i =
      ((w.impl i).loadState (some (w.impl i).encodeSnapshot)).2 := by
  have hdisk : (w.save i).disk = some (w.impl i).encodeSnapshot := by
    show ((w.impl i).saveState w.disk).2 = _
    simp [Impl.saveState,hs]
  have hmem : (w.save i).members = w.members := rfl
  simp only [Fleet.step,hr,hdisk,hmem,Bool.false_eq_true,if_false,impl,put_self]

theorem smuggle_load (plans : SortedMap UInt64 RecoveryPlan)
    (h : (forgedLedger plans).length+48 ≤ 2^32) (hcount : plans.values.length < 2^32)
    (hplans : ∀ p ∈ plans.values, p.Readable) :
    ((run (step .insertion) (start (fun _ => true))
      (smuggleRun plans ++ [.saveState 0,.loadState 0])).impl 0).plans =
        (plans.values.map RecoveryPlan.durable).foldl putDecoded .empty := by
  have hr : Impl.RoundTrips (Impl.forged
      ((run (step .insertion) (start (fun _ => true)) (smuggleRun plans)).impl 0)
      (Session.requestNo 1) plans) :=
    Impl.forged_roundTrips (show 1 < 2^32 by decide) (by decide) hcount hplans
  rw [run_append,run_cons,run_cons,run_nil,save_load_impl _ rfl rfl]
  exact Impl.loadState_forged rfl h rfl hr

/-- A SUCCEEDED plan whose outcome is UNKNOWN and that was never attempted. -/
theorem smuggle_record :
    ∃ p, ((run (step .insertion) (start (fun _ => true))
        (smuggleRun Session.forgedSuccess ++ [.saveState 0,.loadState 0])).impl 0).plans.find? 1
          = some p ∧ p.state = .succeeded ∧ p.executionOutcome = .unknown ∧ ¬ RecordSound p := by
  have hload := smuggle_load Session.forgedSuccess (by decide +kernel) (by decide)
    (fun p hp => by rw [Session.mem_forgedSuccess hp]; exact ⟨by decide,by decide⟩)
  refine ⟨{ planId := ⟨1⟩, state := .succeeded },by rw [hload]; rfl,rfl,rfl,fun h => ?_⟩
  exact absurd (h.succeeded.mpr rfl) (by decide)

end Fleet

def Impl.OneLive (im : Impl) : Prop :=
  ∀ k l p q, im.plans.find? k = some p → im.plans.find? l = some q →
    p.requestId = q.requestId → p.state.terminal = false → q.state.terminal = false → k = l

theorem Impl.OneLive.of_live {im im' : Impl} (h : im.OneLive)
    (hlive : ∀ k p', im'.plans.find? k = some p' → p'.state.terminal = false →
      ∃ p, im.plans.find? k = some p ∧ p.state.terminal = false ∧ p.requestId = p'.requestId) :
    im'.OneLive := by
  intro k l p' q' hp' hq' hreq hpl hql
  obtain ⟨p,hp,hpa,hpr⟩ := hlive k p' hp' hpl
  obtain ⟨q,hq,hqa,hqr⟩ := hlive l q' hq' hql
  exact h k l p q hp hq (by rw [hpr,hqr,hreq]) hpa hqa

theorem Impl.Planned.only_live {im im' : Impl} {req : RecoveryRequest} {now : Timestamp}
    {p : RecoveryPlan} (h : Planned im im' req now p) (hk : im.WellKept) {k : UInt64}
    {q : RecoveryPlan} (hq : im'.plans.find? k = some q) (hreq : q.requestId = req.requestId)
    (hl : q.state.terminal = false) : k = p.planId.value := by
  by_contra hne
  rw [h.find?_old hne,Option.map_eq_some_iff] at hq
  obtain ⟨old,hold,rfl⟩ := hq
  have hkept := hk k old hold
  have hid : old.planId ≠ p.planId := by
    intro heq
    exact hne (hkept.keyed.symm.trans (congrArg Id.value heq))
  have hreq' : old.requestId = req.requestId := by
    rcases supersede_evolves req p.planId now old with he | he
    · rw [he] at hreq
      exact hreq
    · rw [he.requestId]
      exact hreq
  rw [supersede_terminal hkept.sound hid hreq'] at hl
  exact absurd hl (by simp)

theorem Impl.Planned.oneLive {im im' : Impl} {req : RecoveryRequest} {now : Timestamp}
    {p : RecoveryPlan} (h : Planned im im' req now p) (hk : im.WellKept) (ho : im.OneLive) :
    im'.OneLive := by
  intro k l q r hq hr hqr hql hrl
  by_cases hreq : q.requestId = req.requestId
  · have hk1 := h.only_live hk hq hreq hql
    have hl1 := h.only_live hk hr (hqr ▸ hreq) hrl
    rw [hk1,hl1]
  · -- Plans of other requests are untouched by the supersede loop.
    have hother : ∀ {j s}, im'.plans.find? j = some s → s.requestId = q.requestId →
        s.state.terminal = false →
        ∃ t, im.plans.find? j = some t ∧ t.state.terminal = false ∧
          t.requestId = s.requestId := by
      intro j s hs hsr hsl
      have hj : j ≠ p.planId.value := by
        rintro rfl
        obtain rfl := Option.some.inj (h.find?_new.symm.trans hs)
        exact hreq (hsr.symm.trans h.requestId)
      rw [h.find?_old hj,Option.map_eq_some_iff] at hs
      obtain ⟨t,ht,rfl⟩ := hs
      rcases supersede_evolves req p.planId now t with he | he
      · rw [he] at hsl ⊢
        exact ⟨t,ht,hsl,rfl⟩
      · exact ⟨t,ht,he.alive hsl,he.requestId⟩
    obtain ⟨q',hq',hqa,hqq⟩ := hother hq rfl hql
    obtain ⟨r',hr',hra,hrr⟩ := hother hr hqr.symm hrl
    exact ho k l q' r' hq' hr' (by rw [hqq,hrr,hqr]) hqa hra

theorem NodeStep.oneLive {n n' : Node} (h : NodeStep n n') (hk : n.impl.WellKept)
    (ho : n.impl.OneLive) : n'.impl.OneLive := by
  cases h with
  | plans h log => exact h.oneLive hk ho
  | quiet same log =>
    intro k l p q
    rw [same.plans]
    exact ho k l p q
  | settles hf he impl log =>
    apply ho.of_live
    intro j r' hr' hl
    rw [impl,Impl.putPlan,SortedMap.find?_insert] at hr'
    split at hr'
    · rename_i hj
      subst hj
      obtain rfl := Option.some.inj hr'
      exact ⟨_,hf,he.alive hl,he.requestId⟩
    · exact ⟨r',hr',hl,rfl⟩
  | handsOff hf hs hcur impl log =>
    apply ho.of_live
    intro j r' hr' hl
    simp only [impl,Impl.handOff,Impl.putPlan,SortedMap.find?_insert] at hr'
    split at hr'
    · rename_i hj
      subst hj
      obtain rfl := Option.some.inj hr'
      exact ⟨_,hf,by rw [hs]; rfl,rfl⟩
    · exact ⟨r',hr',hl,rfl⟩

theorem Impl.restartReloading_oneLive (im : Impl) (clock : UInt64 → Timestamp) (reload : Disk) :
    (im.restartReloading clock reload).OneLive := by
  intro k l p q hp _ _ hpl _
  rw [Impl.restartReloading_terminal hp] at hpl
  exact absurd hpl (by simp)

theorem Impl.loadState_oneLive {im src : Impl} (h : im.OneLive) (hs : src.OneLive)
    (hk : src.WellKept) (hfit : src.CountsFit) :
    (im.loadState (some src.encodeSnapshot)).2.OneLive := by
  rcases im.loadState_table hfit hk.plansSound with ht | ht
  · intro k l p q
    rw [ht]
    exact h k l p q
  · apply hs.of_live
    intro k p' hp' hl
    rw [ht] at hp'
    obtain ⟨q,hq,rfl⟩ := Impl.find?_durablePlans hk.plansSound hp'
    exact ⟨q,hq,hl,rfl⟩

theorem oneLive_stable (std : StdSort) :
    Fleet.Stable std (fun im => im.WellKept ∧ im.OneLive) where
  act n a h := ⟨(n.act_step std a).wellKept h.1,(n.act_step std a).oneLive h.1 h.2⟩
  load _ _ h hs hfit :=
    ⟨Impl.loadState_wellKept h.1 hs.1 hfit,Impl.loadState_oneLive h.2 hs.2 hs.1 hfit⟩
  restart im _ clock h hs hfit :=
    ⟨Impl.restartReloading_wellKept clock h.1 hs.1 hfit,im.restartReloading_oneLive clock _⟩
  restartEmpty im clock h :=
    ⟨(wellKept_stable std).restartEmpty im clock h.1,im.restartReloading_oneLive clock _⟩

theorem Impl.construct_oneLive (hasStore : Bool) : (Impl.construct hasStore).OneLive := by
  intro k l p q hp
  exact absurd hp (by simp [Impl.construct])

namespace Fleet

/-- At most one unfinished plan per request in every planner of the fleet, and right
after `plan` it is the plan just returned. -/
theorem run_live (std : StdSort) (hasStore : Nat → Bool) (ops : List FleetOp)
    (h : Along SavesFit (step std) (start hasStore) ops) (i : Nat) :
    ((run (step std) (start hasStore) ops).impl i).OneLive ∧
    ∀ now req candidates p,
      (((run (step std) (start hasStore) ops).impl i).plan std now req candidates).1.plan = some p →
      let im' := (((run (step std) (start hasStore) ops).impl i).plan std now req candidates).2
      im'.plans.find? p.planId.value = some p ∧ p.state.terminal = false ∧
      p.requestId = req.requestId ∧
      ∀ k q, im'.plans.find? k = some q → q.requestId = req.requestId →
        q.state.terminal = false → k = p.planId.value ∧ q = p := by
  have hinv := ((oneLive_stable std).run
    (fun b => ⟨Impl.construct_wellKept b,Impl.construct_oneLive b⟩) h).members i
  refine ⟨hinv.2,fun now req candidates p hp => ?_⟩
  intro im'
  rcases Impl.plan_spec std ((run (step std) (start hasStore) ops).impl i) now req candidates with
    ⟨hn,_⟩ | ⟨p',hp',hplanned⟩
  · exact absurd (hn.symm.trans hp) (by simp)
  · obtain rfl := Option.some.inj (hp'.symm.trans hp)
    refine ⟨hplanned.find?_new,by rw [hplanned.fresh.state]; rfl,hplanned.requestId,?_⟩
    intro k q hq hreq hl
    have hk := hplanned.only_live hinv.1 hq hreq hl
    subst hk
    exact ⟨rfl,Option.some.inj (hq.symm.trans hplanned.find?_new)⟩

theorem run_live_saved :
    ((run (step .insertion) (start (fun _ => true)) savedRun).impl 0).OneLive ∧
    ∃ p, (((run (step .insertion) (start (fun _ => true)) savedRun).impl 0).plan .insertion ⟨2⟩
        (Session.requestNo 1) [Session.readyCandidate]).1.plan = some p ∧
      p.state.terminal = false := by
  have h := run_live .insertion (fun _ => true) savedRun savedRun_fits 0
  have hsome : (((run (step .insertion) (start (fun _ => true)) savedRun).impl 0).plan .insertion
      ⟨2⟩ (Session.requestNo 1) [Session.readyCandidate]).1.plan.isSome = true := by
    decide +kernel
  obtain ⟨p,hp⟩ := Option.isSome_iff_exists.mp hsome
  exact ⟨h.1,p,hp,(h.2 ⟨2⟩ _ _ p hp).2.1⟩

def forgedTwins : SortedMap UInt64 RecoveryPlan :=
  (SortedMap.empty.insert 1 { planId := ⟨1⟩, requestId := ⟨1⟩ }).insert 2
    { planId := ⟨2⟩, requestId := ⟨1⟩ }

theorem smuggle_twins :
    ¬ ((run (step .insertion) (start (fun _ => true))
        (smuggleRun forgedTwins ++ [.saveState 0,.loadState 0])).impl 0).OneLive := by
  have hread : ∀ p ∈ forgedTwins.values, p.dispatchPayload = [] ∧ p.decisionDigest = [] := by
    decide
  have hload := smuggle_load forgedTwins (by decide +kernel) (by decide)
    (fun p hp => by
      rw [RecoveryPlan.Readable,(hread p hp).1,(hread p hp).2]
      exact ⟨by decide,by decide⟩)
  intro h
  have htwo := h 1 2 { planId := ⟨1⟩, requestId := ⟨1⟩ } { planId := ⟨2⟩, requestId := ⟨1⟩ }
    (by rw [hload]; rfl) (by rw [hload]; rfl) rfl rfl rfl
  exact absurd htwo (by decide)

end Fleet

end RecoveryPlanner
