import RecoveryPlanner.LivePlans
import RecoveryPlanner.RoundTrip
set_option autoImplicit false

/-! Plan ids in a fleet. The counters live in the planner and not in the store, so ids
are unique as long as only one planner makes plans. -/

namespace RecoveryPlanner

def Impl.FindsNone (im : Impl) (now : Timestamp) (req : RecoveryRequest)
    (candidates : List RecoveryCandidate) : Prop :=
  feasibleIndices (rankCandidates im.ctx req now candidates) = []

instance (im : Impl) (now : Timestamp) (req : RecoveryRequest)
    (candidates : List RecoveryCandidate) : Decidable (im.FindsNone now req candidates) :=
  inferInstanceAs (Decidable (_ = _))

theorem Impl.FindsNone.plan {im : Impl} {now : Timestamp} {req : RecoveryRequest}
    {candidates : List RecoveryCandidate} (h : im.FindsNone now req candidates)
    (std : StdSort) : (im.plan std now req candidates).1.plan = none := by
  unfold FindsNone at h
  have he : eligibleIndices req (rankCandidates im.ctx req now candidates) = [] := by
    simp [eligibleIndices,h]
  unfold Impl.plan
  split
  · rfl
  · simp [he,h]

namespace Fleet

/-- Plans are made by planner `c` alone, fewer than 2^64 of them, and snapshots are
written with the real counts. -/
structure OneCreator (std : StdSort) (c : Nat) (w : Fleet) (op : FleetOp) : Prop where
  fits : w.SavesFit op
  creator : ∀ i now req candidates, op = .act i (.plan now req candidates) → i ≠ c →
    (w.impl i).FindsNone now req candidates
  bounded : createdCount ((w.step std op).members c).node.log < 2^64

def made (c : Nat) (w : Fleet) : Nat := createdCount (w.members c).node.log

def IdsUpTo (n : Nat) (im : Impl) : Prop :=
  im.WellKept ∧ ∀ k p, im.plans.find? k = some p → k.toNat ≤ n

theorem IdsUpTo.mono {n m : Nat} (hnm : n ≤ m) {im : Impl} (h : IdsUpTo n im) : IdsUpTo m im :=
  ⟨h.1,fun k p hk => (h.2 k p hk).trans hnm⟩

theorem IdsUpTo.act {n m : Nat} (hnm : n ≤ m) {a b : Node} (h : IdsUpTo n a.impl)
    (hstep : NodeStep a b)
    (hnew : ∀ p, b.log = .created p :: a.log → FreshPlan a.impl p → p.planId.value.toNat ≤ m) :
    IdsUpTo m b.impl := by
  refine ⟨hstep.wellKept h.1,fun k p hk => ?_⟩
  cases hstep.record h.1.plansSound.keyed k with
  | same plan life => exact (h.2 k p (plan.symm.trans hk)).trans hnm
  | created fresh key plan log =>
    have hid := hnew _ log fresh
    rw [fresh.planId] at hid
    rw [key]
    exact hid
  | evolved before he plan life => exact (h.2 k _ before).trans hnm
  | handedOff before hs hcur plan life => exact (h.2 k _ before).trans hnm

theorem idsUpTo_reloadable (std : StdSort) (n : Nat) : Reloadable (IdsUpTo n) where
  load im src h hs hfit := by
    refine ⟨Impl.loadState_wellKept h.1 hs.1 hfit,fun k p hk => ?_⟩
    rcases im.loadState_table hfit hs.1.plansSound with ht | ht
    · rw [ht] at hk
      exact h.2 k p hk
    · rw [ht] at hk
      obtain ⟨q,hq,_⟩ := Impl.find?_durablePlans hs.1.plansSound hk
      exact hs.2 k q hq
  restart im src clock h hs hfit := by
    refine ⟨Impl.restartReloading_wellKept clock h.1 hs.1 hfit,fun k p hk => ?_⟩
    obtain ⟨q,_,hq⟩ := im.restartReloading_plans clock (fun _ => hfit) hs.1.plansSound hk
    rcases hq with hq | ⟨r,hr,_⟩
    · exact h.2 k q hq
    · exact hs.2 k r hr
  restartEmpty im clock h := by
    refine ⟨(wellKept_stable std).restartEmpty im clock h.1,fun k p hk => ?_⟩
    rw [im.restartReloading_none] at hk
    obtain ⟨q,hq,_⟩ := Impl.find?_retirePlans hk
    exact h.2 k q hq

structure IdsInv (c : Nat) (w : Fleet) : Prop where
  tables : w.Holds (IdsUpTo (w.made c))
  next : (w.impl c).nextPlanId.toNat = (w.made c+1)%2^64
  logs : ∀ i q, .created q ∈ (w.members i).node.log → q.planId.value.toNat ≤ w.made c

theorem acted_made (c : Nat) (w : Fleet) (i : Nat) (n : Node) :
    (w.acted i n).made c = if c = i then createdCount n.log else w.made c := by
  unfold made
  split
  · rename_i h
    rw [h,acted_self]
  · rename_i h
    rw [acted_other w n h]

theorem OneCreator.eq {std : StdSort} {c : Nat} {w : Fleet} {i : Nat} {a : Act}
    (h : OneCreator std c w (.act i a)) {p : RecoveryPlan}
    (hlog : ((w.members i).node.act std a).log = .created p :: (w.members i).node.log) :
    c = i := by
  by_contra hne
  refine Node.act_not_created (fun now req candidates ha => ?_) p hlog
  exact (h.creator i now req candidates (by rw [ha]) (Ne.symm hne)).plan std

theorem act_ids {std : StdSort} {c : Nat} {w : Fleet} {i : Nat} {a : Act}
    (hop : OneCreator std c w (.act i a)) (hr : (w.members i).restarting = false)
    (h : IdsInv c w) : IdsInv c (w.step std (.act i a)) := by
  have hw : w.step std (.act i a) = w.acted i ((w.members i).node.act std a) := by
    simp [step,hr]
  have hstep := (w.members i).node.act_step std a
  have hle : w.made c ≤ (w.step std (.act i a)).made c := by
    rw [hw,acted_made]
    split
    · rename_i heq
      subst heq
      exact hstep.count_le
    · exact le_rfl
  -- A new plan raises the count, and its id is the new count.
  have hnew : ∀ p, ((w.members i).node.act std a).log = .created p :: (w.members i).node.log →
      FreshPlan (w.impl i) p →
      p.planId.value.toNat ≤ (w.step std (.act i a)).made c := by
    intro p hlog hfresh
    obtain rfl := hop.eq hlog
    have hmod := Nat.mod_le (w.made c+1) (2^64)
    rw [hw,acted_made,if_pos rfl,hlog,createdCount_created,hfresh.planId,h.next]
    exact hmod
  refine ⟨?_,?_,?_⟩
  · refine (idsUpTo_reloadable std _).step hop.fits
      (h.tables.mono fun im => IdsUpTo.mono hle) ?_
    intro j b hjb _
    cases hjb
    exact (h.tables.members i).act hle hstep hnew
  · rw [hw,acted_made,impl]
    by_cases hc : c = i
    · subst hc
      rw [acted_self,if_pos rfl]
      exact hstep.next h.next
    · rw [acted_other w _ hc,if_neg hc]
      exact h.next
  · intro j q hq
    rw [hw] at hq
    by_cases hj : j = i
    · subst hj
      rw [acted_self] at hq
      rcases hstep.created_mem hq with hold | ⟨hlog,hfresh⟩
      · exact (h.logs j q hold).trans hle
      · exact hnew q hlog hfresh
    · rw [acted_other w _ hj] at hq
      exact (h.logs j q hq).trans hle

theorem step_ids {std : StdSort} {c : Nat} {w : Fleet} {op : FleetOp}
    (hop : OneCreator std c w op) (h : IdsInv c w) : IdsInv c (w.step std op) := by
  by_cases hact : ∃ i a, op = .act i a
  · obtain ⟨i,a,rfl⟩ := hact
    by_cases hr : (w.members i).restarting = true
    · have hw : w.step std (.act i a) = w := by simp [step,hr]
      rw [hw]
      exact h
    · exact act_ids hop (by simpa using hr) h
  · have hno : ∀ i a, op ≠ .act i a := fun i a heq => hact ⟨i,a,heq⟩
    have hmade : (w.step std op).made c = w.made c := by
      rw [made,(step_store hno c).1]
      rfl
    refine ⟨?_,?_,?_⟩
    · rw [hmade]
      exact (idsUpTo_reloadable std _).step hop.fits h.tables fun i a heq => absurd heq (hno i a)
    · rw [hmade,(step_store hno c).2.nextPlanId]
      exact h.next
    · intro i q hq
      rw [(step_store hno i).1] at hq
      rw [hmade]
      exact h.logs i q hq

theorem start_ids (c : Nat) (hasStore : Nat → Bool) : IdsInv c (start hasStore) where
  tables := ⟨fun i => ⟨Impl.construct_wellKept _,fun k p hk => absurd hk (by
    simp [start,impl,Node.construct,Impl.construct])⟩,fun _ hb => absurd hb (by simp [start])⟩
  next := rfl
  logs i q hq := absurd hq (by simp [start,Node.construct])

theorem run_ids {std : StdSort} {c : Nat} {hasStore : Nat → Bool} {ops : List FleetOp}
    (h : Along (OneCreator std c) (step std) (start hasStore) ops) :
    IdsInv c (run (step std) (start hasStore) ops) :=
  h.invariant (start_ids c hasStore) fun _ _ hop hw => step_ids hop hw

theorem put_tidy {w : Fleet} (h : ∀ i, (w.impl i).Tidy) (j : Nat) {m : Member}
    (hm : m.node.impl.Tidy) (i : Nat) : ((w.put j m).impl i).Tidy := by
  by_cases hi : i = j
  · subst hi
    rw [impl,put_self]
    exact hm
  · rw [impl,put_other w m hi]
    exact h i

theorem step_tidy (std : StdSort) {w : Fleet} (h : ∀ i, (w.impl i).Tidy) (op : FleetOp) :
    ∀ i, ((w.step std op).impl i).Tidy := by
  cases op with
  | act j a =>
    simp only [step]
    split
    · exact h
    · intro i
      by_cases hi : i = j
      · subst hi
        rw [impl,acted_self]
        exact Node.act_tidy std (h i) a
      · rw [impl,acted_other w _ hi]
        exact h i
  | saveState j =>
    simp only [step]
    split <;> exact h
  | loadState j =>
    simp only [step]
    split
    · exact h
    · exact put_tidy h j (Impl.loadState_tidy (h j) w.disk)
  | restartBegin j =>
    simp only [step]
    split
    · exact h
    · exact put_tidy (w := w.save j) h j (h j)
  | restartEnd j clock =>
    simp only [step]
    split
    · exact put_tidy h j (Impl.restartReloading_tidy (h j) clock w.disk)
    · exact h

theorem run_tidy (std : StdSort) (hasStore : Nat → Bool) (ops : List FleetOp) (i : Nat) :
    ((run (step std) (start hasStore) ops).impl i).Tidy := by
  have hstart : ∀ j, ((start hasStore).impl j).Tidy := fun j => Impl.construct_tidy (hasStore j)
  exact run_invariant (I := fun w : Fleet => ∀ i, (w.impl i).Tidy) hstart
    (fun _ op _ h => step_tidy std h op) i

theorem step_load_own (std : StdSort) {w : Fleet} {j : Nat} {src : Impl}
    (hr : (w.members j).restarting = false) (hs : (w.impl j).hasStore = true)
    (hd : w.disk = some src.encodeSnapshot) (ht : src.Tidy) (hf : src.Fits)
    (hq : ∀ q ∈ src.requests.values, q.Readable) (hh : src.HistoryShort) :
    w.step std (.loadState j) = w.put j { w.members j with
      node := { (w.members j).node with
        impl := (w.impl j).install false src.durableSnapshot }
      resumed := ((w.impl j).install false src.durableSnapshot).holdsExecutable
      origin := w.diskOrigin } := by
  have happ := (Impl.applySnapshot_own hf (w.impl j) false).1 (ht.readable_iff.mpr ⟨hq,hh⟩)
  have hload : ((w.members j).node.impl.loadState w.disk).2 =
      (w.impl j).install false src.durableSnapshot := by
    rw [hd]
    exact (Impl.loadState_some hs src.encodeSnapshot).trans (congrArg Prod.snd happ)
  have hrep : w.replaces j = true := by
    have hs : (w.members j).node.impl.hasStore = true := hs
    simp [replaces,hd,hs,Impl.reachesPlans_own hf.counts hq]
  simp only [step,hr,hrep,Bool.false_eq_true,if_false,if_true,hload]

/-- A new plan takes an id that is not in the table, and a pair of id and generation
that no planner has given out before. -/
def NewId (std : StdSort) (w : Fleet) (i : Nat) (now : Timestamp) (req : RecoveryRequest)
    (candidates : List RecoveryCandidate) : Prop :=
  ∀ p, ((w.impl i).plan std now req candidates).1.plan = some p →
    (w.impl i).plans.find? p.planId.value = none ∧
    ∀ j q, .created q ∈ (w.members j).node.log →
      (q.planId,q.generation) ≠ (p.planId,p.generation)

theorem run_newId (std : StdSort) (c : Nat) (hasStore : Nat → Bool) (ops : List FleetOp)
    (h : Along (OneCreator std c) (step std) (start hasStore) ops) (pre post : List FleetOp)
    (i : Nat) (now : Timestamp) (req : RecoveryRequest) (candidates : List RecoveryCandidate)
    (hops : ops = pre ++ .act i (.plan now req candidates) :: post)
    (hr : ((run (step std) (start hasStore) pre).members i).restarting = false) :
    NewId std (run (step std) (start hasStore) pre) i now req candidates := by
  subst hops
  obtain ⟨hpre,hop,_⟩ := along_append.mp h
  have hinv := run_ids hpre
  generalize run (step std) (start hasStore) pre = w at hr hop hinv ⊢
  intro p hp
  rcases (w.impl i).plan_spec std now req candidates with ⟨hn,_⟩ | ⟨p',hp',hplanned⟩
  · exact absurd (hn.symm.trans hp) (by simp)
  obtain rfl := Option.some.inj (hp'.symm.trans hp)
  have hlog : ((w.members i).node.act std (.plan now req candidates)).log =
      .created p' :: (w.members i).node.log := by
    have hp : ((w.members i).node.impl.plan std now req candidates).1.plan = some p' := hp
    simp only [Node.act,hp]
  obtain rfl := hop.eq hlog
  -- The id is one more than the number of plans made, which bounds every other id.
  have hbound := hop.bounded
  have hid : p'.planId.value.toNat = w.made c+1 := by
    have hw : w.step std (.act c (.plan now req candidates)) =
        w.acted c ((w.members c).node.act std (.plan now req candidates)) := by simp [step,hr]
    rw [hw,acted_self,hlog,createdCount_created] at hbound
    rw [hplanned.fresh.planId,hinv.next]
    exact Nat.mod_eq_of_lt hbound
  constructor
  · cases hf : (w.impl c).plans.find? p'.planId.value with
    | none => rfl
    | some q =>
      have hle := (hinv.tables.members c).2 _ q hf
      omega
  · intro j q hq heq
    have hle := hinv.logs j q hq
    have hpq : q.planId = p'.planId := congrArg Prod.fst heq
    rw [hpq] at hle
    omega

def creatorRun : List FleetOp :=
  [.act 0 (.registerWorker ⟨1⟩ ⟨1⟩),.act 0 (.plan ⟨0⟩ (Session.requestNo 1) [Session.readyCandidate]),
   .saveState 0,.loadState 0,.act 0 (.registerWorker ⟨1⟩ ⟨1⟩),
   .act 0 (.plan ⟨1⟩ (Session.requestNo 2) [Session.readyCandidate])]

theorem run_newId_creator :
    let w := run (step .insertion) (start (fun _ => true)) (creatorRun.take 5)
    ((w.impl 0).plans.find? 1).isSome = true ∧
    ∃ p, ((w.impl 0).plan .insertion ⟨1⟩ (Session.requestNo 2) [Session.readyCandidate]).1.plan =
        some p ∧ (w.impl 0).plans.find? p.planId.value = none := by
  intro w
  have hfits : ∀ {op : FleetOp}, (∀ i, op ≠ .saveState i ∧ op ≠ .restartBegin i) →
      ∀ w' : Fleet, w'.SavesFit op := by
    rintro op hno w' i (h | h)
    · exact absurd h (hno i).1
    · exact absurd h (hno i).2
  have hcreator : ∀ {op : FleetOp} {w' : Fleet}, (∀ i a, op = .act i a → i = 0) →
      ∀ i now req candidates, op = .act i (.plan now req candidates) → i ≠ 0 →
        (w'.impl i).FindsNone now req candidates :=
    fun hzero i _ _ _ h hne => absurd (hzero i _ h) hne
  have hload := @step_load_own .insertion
    (run (step .insertion) (start (fun _ => true)) (creatorRun.take 3)) 0
    ((run (step .insertion) (start (fun _ => true)) (creatorRun.take 2)).impl 0) rfl rfl rfl
    (run_tidy _ _ _ 0) (by decide +kernel) (by decide +kernel) (by decide +kernel)
  have hw : w = run (step .insertion) (step .insertion
      (run (step .insertion) (start (fun _ => true)) (creatorRun.take 3)) (.loadState 0))
      [.act 0 (.registerWorker ⟨1⟩ ⟨1⟩)] := by
    have hrun : creatorRun.take 5 = creatorRun.take 3 ++
      [.loadState 0,.act 0 (.registerWorker ⟨1⟩ ⟨1⟩)] := rfl
    show run (step .insertion) (start (fun _ => true)) (creatorRun.take 5) = _
    rw [hrun,run_append,run_cons]
  have hsaved : Along (OneCreator .insertion 0) (step .insertion) (start (fun _ => true))
      (creatorRun.take 3) := by
    refine ⟨⟨hfits (by simp) _,hcreator (by simp),by decide +kernel⟩,
      ⟨hfits (by simp) _,hcreator (by simp),by decide +kernel⟩,
      ⟨?_,hcreator (by simp),by decide +kernel⟩,trivial⟩
    rintro i (h | h) _
    · cases h
      decide +kernel
    · cases h
  have hloaded : Along (OneCreator .insertion 0) (step .insertion)
      (run (step .insertion) (start (fun _ => true)) (creatorRun.take 3)) (creatorRun.drop 3) := by
    -- The snapshot is in place without its digest having been spelled out.
    refine ⟨⟨hfits (by simp) _,hcreator (by simp),?_⟩,⟨hfits (by simp) _,hcreator (by simp),?_⟩,
      ⟨hfits (by simp) _,hcreator (by simp),?_⟩,trivial⟩
    · rw [hload]
      decide +kernel
    · rw [hload]
      decide +kernel
    · rw [hload]
      decide +kernel
  have h : Along (OneCreator .insertion 0) (step .insertion) (start (fun _ => true)) creatorRun :=
    along_append.mpr ⟨hsaved,hloaded⟩
  have hheld : ((w.impl 0).plans.find? 1).isSome = true := by
    rw [hw,hload]
    decide +kernel
  have hsome : ((w.impl 0).plan .insertion ⟨1⟩ (Session.requestNo 2)
      [Session.readyCandidate]).1.plan.isSome = true := by
    rw [hw,hload]
    decide +kernel
  have hup : (w.members 0).restarting = false := by
    rw [hw,hload]
    rfl
  obtain ⟨p,hp⟩ := Option.isSome_iff_exists.mp hsome
  have hops : creatorRun = creatorRun.take 5 ++
    .act 0 (.plan ⟨1⟩ (Session.requestNo 2) [Session.readyCandidate]) :: [] := rfl
  have hnew := run_newId .insertion 0 (fun _ => true) creatorRun h (creatorRun.take 5) [] 0 ⟨1⟩
    (Session.requestNo 2) [Session.readyCandidate] hops hup
  have hend : run (step .insertion) (start (fun _ => true)) (creatorRun.take 5) = w := rfl
  rw [hend] at hnew
  exact ⟨hheld,p,hp,(hnew p hp).1⟩

def successorRun : List FleetOp :=
  [.act 0 (.registerWorker ⟨1⟩ ⟨1⟩),.act 0 (.plan ⟨0⟩ (Session.requestNo 1) [Session.readyCandidate]),
   .saveState 0,.loadState 1,.act 1 (.registerWorker ⟨1⟩ ⟨1⟩)]

/-- The first plan of the successor takes id 1, under which it holds the loaded plan. -/
theorem successor_reuses :
    ¬ NewId .insertion (run (step .insertion) (start (fun _ => true)) successorRun) 1 ⟨1⟩
      (Session.requestNo 2) [Session.readyCandidate] := by
  have hload := @step_load_own .insertion
    (run (step .insertion) (start (fun _ => true)) (successorRun.take 3)) 1
    ((run (step .insertion) (start (fun _ => true)) (successorRun.take 2)).impl 0) rfl rfl rfl
    (run_tidy _ _ _ 0) (by decide +kernel) (by decide +kernel) (by decide +kernel)
  have hrun : successorRun = successorRun.take 3 ++ .loadState 1 :: successorRun.drop 4 := rfl
  rw [hrun,run_append,run_cons,hload]
  -- The snapshot is in place without its digest having been spelled out.
  generalize hw : run (step .insertion) _ (successorRun.drop 4) = w
  intro h
  have hid : ((w.impl 1).plan .insertion ⟨1⟩ (Session.requestNo 2)
      [Session.readyCandidate]).1.plan.map (fun p => p.planId.value) = some 1 := by
    rw [← hw]
    decide +kernel
  have hheld : ((w.impl 1).plans.find? 1).isSome = true := by
    rw [← hw]
    decide +kernel
  obtain ⟨p,hp,hone⟩ := Option.map_eq_some_iff.mp hid
  have hnone := (h p hp).1
  rw [hone] at hnone
  rw [hnone] at hheld
  exact absurd hheld (by simp)

end Fleet

end RecoveryPlanner
