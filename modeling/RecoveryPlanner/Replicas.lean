import RecoveryPlanner.Completion
import RecoveryPlanner.Selection
set_option autoImplicit false

/-! Two planners that get the same calls, with the candidates of each request in any order and
any two sorts. All that tells them apart is the wording of their explanations, which no method
reads and which is not written to the store. -/

namespace RecoveryPlanner

def RecoveryPlan.unexplained (p : RecoveryPlan) : RecoveryPlan := p.explained {}

theorem RecoveryPlan.unexplained_explained (p : RecoveryPlan) (e : PlanExplanation) :
    (p.explained e).unexplained = p.unexplained := rfl

theorem RecoveryPlan.explained_self {p : RecoveryPlan} (h : p.explanation = {}) :
    p.explained {} = p := by
  rw [← h]
  rfl

namespace Impl

def unexplained (im : Impl) : Impl :=
  { im with plans := im.plans.mapValues (fun _ p => p.unexplained) }

theorem find?_unexplained (im : Impl) (k : UInt64) :
    im.unexplained.plans.find? k = (im.plans.find? k).map RecoveryPlan.unexplained :=
  SortedMap.find?_mapValues _ _ _

theorem unexplained_unexplained (im : Impl) : im.unexplained.unexplained = im.unexplained := by
  have h : im.unexplained.plans.mapValues (fun _ p => p.unexplained) = im.unexplained.plans := by
    refine SortedMap.ext_find? fun k => ?_
    rw [SortedMap.find?_mapValues,find?_unexplained]
    cases im.plans.find? k <;> rfl
  unfold unexplained at h ⊢
  rw [h]

theorem putPlan_unexplained (im : Impl) (k : UInt64) (p : RecoveryPlan) :
    (im.putPlan k p).unexplained = im.unexplained.putPlan k p.unexplained := by
  have h : (im.plans.insert k p).mapValues (fun _ p => p.unexplained) =
      (im.plans.mapValues (fun _ p => p.unexplained)).insert k p.unexplained := by
    refine SortedMap.ext_find? fun j => ?_
    simp only [SortedMap.find?_mapValues,SortedMap.find?_insert]
    split <;> rfl
  unfold putPlan unexplained
  rw [h]

def Blind (f : Impl → Impl) : Prop :=
  ∀ im : Impl, (f im.unexplained).unexplained = (f im).unexplained

theorem Blind.congr {f : Impl → Impl} (h : Blind f) {im im' : Impl}
    (heq : im.unexplained = im'.unexplained) : (f im).unexplained = (f im').unexplained := by
  rw [← h im,heq,h im']

theorem put_blind (im : Impl) (k : UInt64) (p : RecoveryPlan) :
    (im.unexplained.putPlan k p.unexplained).unexplained = (im.putPlan k p).unexplained := by
  rw [← putPlan_unexplained,unexplained_unexplained]

section Calls

variable (now : Timestamp)

theorem authorizePlan_blind (plan : RecoveryPlan) :
    Blind (fun im => (im.authorizePlan now plan).2) := by
  intro im
  show (im.unexplained.authorizePlan now plan).2.unexplained =
    (im.authorizePlan now plan).2.unexplained
  unfold authorizePlan
  rw [find?_unexplained]
  cases im.plans.find? plan.planId.value with
  | none => exact im.unexplained_unexplained
  | some p =>
    have hcur : planAuthorityCurrent p.unexplained im.unexplained.ctx =
        planAuthorityCurrent p im.ctx := rfl
    have hstate : p.unexplained.state = p.state := rfl
    simp only [Option.map_some,hcur,hstate]
    split
    · exact im.unexplained_unexplained
    · split
      · exact im.unexplained_unexplained
      · exact put_blind im _ { p with state := .authorized, updatedAt := now }

theorem dispatchEnd_blind (planId : RecoveryPlanId) (status : DispatchStatus) :
    Blind (fun im => (im.dispatchEnd now planId status).2) := by
  intro im
  show (im.unexplained.dispatchEnd now planId status).2.unexplained =
    (im.dispatchEnd now planId status).2.unexplained
  unfold dispatchEnd
  rw [find?_unexplained]
  cases im.plans.find? planId.value with
  | none => exact im.unexplained_unexplained
  | some p =>
    have hsettle : settleReceipt status p.unexplained = (settleReceipt status p).unexplained := by
      unfold settleReceipt
      have hstate : p.unexplained.state = p.state := rfl
      simp only [hstate]
      repeat' split
      all_goals rfl
    simp only [Option.map_some,hsettle]
    exact put_blind im _ { settleReceipt status p with updatedAt := now }

theorem reportExecution_blind (report : ExecutionReport) :
    Blind (fun im => im.reportExecution now report) := by
  intro im
  show (im.unexplained.reportExecution now report).unexplained =
    (im.reportExecution now report).unexplained
  unfold reportExecution
  rw [find?_unexplained]
  cases im.plans.find? report.planId.value with
  | none => exact im.unexplained_unexplained
  | some p =>
    have hsettle : settleReport report.outcome p.unexplained =
        (settleReport report.outcome p).unexplained := by
      have hstate : p.unexplained.state = p.state := rfl
      cases report.outcome <;> simp only [settleReport,hstate]
      all_goals first
        | rfl
        | split <;> rfl
    have hstate : p.unexplained.state = p.state := rfl
    have hgen : p.unexplained.generation = p.generation := rfl
    have hboot : p.unexplained.targetBoot = p.targetBoot := rfl
    simp only [Option.map_some,hsettle,hstate,hgen,hboot]
    split
    · exact im.unexplained_unexplained
    · split
      · exact im.unexplained_unexplained
      · split
        · exact im.unexplained_unexplained
        · exact put_blind im _ { settleReport report.outcome p with updatedAt := now }

theorem cancelPlan_blind (planId : RecoveryPlanId) (force : Bool) :
    Blind (fun im => (im.cancelPlan now planId force).2) := by
  intro im
  show (im.unexplained.cancelPlan now planId force).2.unexplained =
    (im.cancelPlan now planId force).2.unexplained
  unfold cancelPlan
  rw [find?_unexplained]
  cases im.plans.find? planId.value with
  | none => exact im.unexplained_unexplained
  | some p =>
    have hstate : p.unexplained.state = p.state := rfl
    have hpub : p.unexplained.outcomePublished = p.outcomePublished := rfl
    simp only [Option.map_some,hstate,hpub]
    repeat' split
    all_goals first
      | exact im.unexplained_unexplained
      | exact put_blind im _ { p with
          state := .cancelled, executionOutcome := .cancelled, updatedAt := now }

theorem invalidatePlan_blind (planId : RecoveryPlanId) :
    Blind (fun im => im.invalidatePlan now planId) := by
  intro im
  show (im.unexplained.invalidatePlan now planId).unexplained =
    (im.invalidatePlan now planId).unexplained
  unfold invalidatePlan
  rw [find?_unexplained]
  cases im.plans.find? planId.value with
  | none => exact im.unexplained_unexplained
  | some p =>
    have hstate : p.unexplained.state = p.state := rfl
    simp only [Option.map_some,hstate]
    repeat' split
    all_goals first
      | exact im.unexplained_unexplained
      | exact put_blind im _ { p with state := .invalidated, updatedAt := now }

theorem dispatchBegin_blind (im : Impl) (plan : RecoveryPlan) :
    (im.unexplained.dispatchBegin now plan).1 = (im.dispatchBegin now plan).1 ∧
      (im.unexplained.dispatchBegin now plan).2.unexplained =
        (im.dispatchBegin now plan).2.unexplained := by
  unfold dispatchBegin
  rw [find?_unexplained]
  cases im.plans.find? plan.planId.value with
  | none => exact ⟨rfl,im.unexplained_unexplained⟩
  | some p =>
    have hcur : planAuthorityCurrent p.unexplained im.unexplained.ctx =
        planAuthorityCurrent p im.ctx := rfl
    have hstate : p.unexplained.state = p.state := rfl
    simp only [Option.map_some,hcur,hstate]
    repeat' split
    all_goals first
      | exact ⟨rfl,im.unexplained_unexplained⟩
      | skip
    refine ⟨rfl,?_⟩
    have hput := put_blind im plan.planId.value (p.dispatched now)
    exact congrArg (fun x : Impl => { x with
      dispatchMeta := im.dispatchMeta.insert (p.lastAttempt.value+1) p.stamp }) hput

end Calls

/-! The store. -/

theorem encodeSnapshot_unexplained (im : Impl) :
    im.unexplained.encodeSnapshot = im.encodeSnapshot := by
  have hplans : encodeList encodePlan im.unexplained.plans.values =
      encodeList encodePlan im.plans.values := by
    have hvalues : im.unexplained.plans.values = im.plans.values.map RecoveryPlan.unexplained :=
      SortedMap.values_mapValues _ _
    rw [hvalues,encodeList,encodeList,List.length_map,List.flatMap_map]
    rfl
  unfold encodeSnapshot
  rw [hplans]
  rfl

theorem saveState_unexplained (im : Impl) (disk : Disk) :
    im.unexplained.saveState disk = im.saveState disk := by
  unfold saveState
  rw [encodeSnapshot_unexplained]
  rfl

theorem applyRequests_blind (r : ByteReader) : Blind (fun im => (im.applyRequests r).2) := by
  intro im
  show (im.unexplained.applyRequests r).2.unexplained = (im.applyRequests r).2.unexplained
  unfold applyRequests
  dsimp only
  split
  · rfl
  · exact unexplained_unexplained { im with
      requests := (Scan.collect readRequest putRequest (ByteReader.u32 r).1.toNat .empty
        (ByteReader.u32 r).2).1.2 }

theorem applySnapshot_blind (bytes : Bytes) (preserve : Bool) :
    Blind (fun im => (im.applySnapshot bytes preserve).2) := by
  intro im
  show (im.unexplained.applySnapshot bytes preserve).2.unexplained =
    (im.applySnapshot bytes preserve).2.unexplained
  unfold applySnapshot applyBody
  dsimp only
  split
  · exact im.unexplained_unexplained
  · generalize readHeader (ByteReader.u32 ⟨bytes,0,false⟩).2 = h
    split
    · exact unexplained_unexplained { im with ctx := im.ctx.installHeader preserve h.1 }
    · exact applyRequests_blind (readList readWorker h.2).2 { im with
        ctx := (im.ctx.installHeader preserve h.1).installWorkers (readList readWorker h.2).1 }

theorem loadState_blind (disk : Disk) : Blind (fun im => (im.loadState disk).2) := by
  intro im
  show (im.unexplained.loadState disk).2.unexplained = (im.loadState disk).2.unexplained
  unfold loadState loadLocked
  have hstore : im.unexplained.hasStore = im.hasStore := rfl
  rw [hstore]
  split
  · exact im.unexplained_unexplained
  · cases disk with
    | none => exact im.unexplained_unexplained
    | some blob => exact applySnapshot_blind blob false im

theorem retirePlans_blind (clock : UInt64 → Timestamp) :
    Blind (fun im => im.retirePlans clock) := by
  intro im
  show (im.unexplained.retirePlans clock).unexplained = (im.retirePlans clock).unexplained
  have h : ((im.unexplained.plans.mapValues (fun k p => retire (clock k) p)).mapValues
      (fun _ p => p.unexplained)) =
      ((im.plans.mapValues (fun k p => retire (clock k) p)).mapValues
        (fun _ p => p.unexplained)) := by
    refine SortedMap.ext_find? fun k => ?_
    simp only [SortedMap.find?_mapValues,find?_unexplained]
    cases im.plans.find? k with
    | none => rfl
    | some p =>
      have hstate : p.unexplained.state = p.state := rfl
      simp only [Option.map_some,retire,hstate]
      split <;> rfl
  exact congrArg (fun plans => { im with plans := plans }) h

theorem restartReloading_blind (clock : UInt64 → Timestamp) (reload : Disk) :
    Blind (fun im => im.restartReloading clock reload) := by
  intro im
  show (im.unexplained.restartReloading clock reload).unexplained =
    (im.restartReloading clock reload).unexplained
  have hnext : im.unexplained.advanceEpoch = im.advanceEpoch.unexplained := rfl
  have hend : ∀ next next' : Impl, next.unexplained = next'.unexplained →
      (next.retirePlans clock).recordRestart.unexplained =
        (next'.retirePlans clock).recordRestart.unexplained := by
    intro next next' heq
    have hretired := (retirePlans_blind clock).congr heq
    exact congrArg recordRestart hretired
  unfold restartReloading
  rw [hnext,show im.unexplained.hasStore = im.hasStore from rfl]
  refine hend _ _ ?_
  cases im.hasStore with
  | true =>
    cases reload with
    | none => exact im.advanceEpoch.unexplained_unexplained
    | some blob => exact applySnapshot_blind blob true im.advanceEpoch
  | false => exact im.advanceEpoch.unexplained_unexplained

/-! The decision. -/

/-- The planner behind a decision for this plan. Only a found plan has its request stored. -/
def adopt (im : Impl) (request : RecoveryRequest) (now : Timestamp) (outcome : PlanOutcome)
    (p : RecoveryPlan) : Impl :=
  let stored := im.storePlan p
  let stored := if outcome = .planFound then
      { stored with requests := stored.requests.insert request.requestId.value request }
    else stored
  (stored.supersedeOlder request p.planId now).recordHistory request
    { outcome := outcome, plan := some p }

theorem planFor_explanation (im : Impl) (request : RecoveryRequest) (now : Timestamp)
    (c : RecoveryCandidate) : (im.planFor request now c).explanation = {} := rfl

theorem plan_adopts (std : StdSort) (im : Impl) (now : Timestamp) (request : RecoveryRequest)
    (cs : List RecoveryCandidate) :
    let r := im.plan std now request cs
    (choices im.ctx request now cs = [] ∧ r.1.plan = none ∧
      r.2 = if cs = [] then im else im.recordHistory request { outcome := .noValidPlan }) ∨
    ∃ c e, IsFirst (precedes request now) (choices im.ctx request now cs) c ∧
      r.1.plan = some ((im.planFor request now c).explained e) ∧
      r.2 = im.adopt request now r.1.outcome ((im.planFor request now c).explained e) := by
  intro r
  by_cases hF : cs.filter (feasible im.ctx request) = []
  · have hE := im.eligible_nil now request cs hF
    have hE' : (positions (eligible im.ctx request now) cs).isEmpty = true := by
      simpa using positions_eq_nil.mpr hE
    have hF' : (positions (feasible im.ctx request) cs).isEmpty = true := by
      simpa using positions_eq_nil.mpr hF
    refine .inl ⟨by rw [choices,if_pos hE,hF],(im.plan_none std now request cs hF).2.1,?_⟩
    show (im.plan std now request cs).2 = _
    unfold Impl.plan
    cases cs with
    | nil => rfl
    | cons c cs =>
      simp only [eligibleIndices_eq,feasibleIndices_eq,hE',hF',List.isEmpty_cons,
        Bool.false_eq_true,if_false,if_true,reduceCtorEq]
      rfl
  · right
    by_cases hE : cs.filter (eligible im.ctx request now) = []
    · have hE' : (positions (eligible im.ctx request now) cs).isEmpty = true := by
        simpa using positions_eq_nil.mpr hE
      have hF' : (positions (feasible im.ctx request) cs).isEmpty = false := by
        simpa using mt positions_eq_nil.mp hF
      obtain ⟨_,hp,_⟩ := im.plan_fallback std now request cs hE hF
      have hbare := RecoveryPlan.explained_self (im.planFor_explanation request now
        (best std im.ctx request now cs (RecoveryPlanner.feasible im.ctx request)))
      rw [← hbare] at hp
      refine ⟨_,{},by rw [choices,if_pos hE]; exact best_isFirst std hF,hp,?_⟩
      rw [hbare,← buildPlan_best std im now request cs hF]
      show (im.plan std now request cs).2 =
        im.adopt request now (im.plan std now request cs).1.outcome _
      unfold Impl.plan
      simp only [ne_nil_of_filter hF,eligibleIndices_eq,feasibleIndices_eq,hE',hF',
        Bool.false_eq_true,if_false,if_true]
      unfold adopt
      cases request.hardDeadline <;> rfl
    · have hE' : (positions (eligible im.ctx request now) cs).isEmpty = false := by
        simpa using mt positions_eq_nil.mp hE
      obtain ⟨_,⟨e,hp⟩,_⟩ := im.plan_found std now request cs hE
      refine ⟨_,e,by rw [choices,if_neg hE]; exact best_isFirst std hE,hp,?_⟩
      rw [← buildPlan_best std im now request cs hE] at hp ⊢
      show (im.plan std now request cs).2 =
        im.adopt request now (im.plan std now request cs).1.outcome _
      change (im.plan std now request cs).1.plan = _ at hp
      revert hp
      unfold Impl.plan
      simp only [ne_nil_of_filter hE,eligibleIndices_eq,hE',Bool.false_eq_true,if_false]
      intro hp
      rw [← Option.some.inj hp]
      rfl

theorem supersede_unexplained (request : RecoveryRequest) (keep : RecoveryPlanId)
    (now : Timestamp) (p : RecoveryPlan) :
    supersede request keep now p.unexplained = (supersede request keep now p).unexplained := by
  have hid : p.unexplained.planId = p.planId := rfl
  have hreq : p.unexplained.requestId = p.requestId := rfl
  have hstate : p.unexplained.state = p.state := rfl
  simp only [supersede,hid,hreq,hstate]
  repeat' split
  all_goals rfl

theorem adopt_blind (im : Impl) (request : RecoveryRequest) (now : Timestamp)
    (outcome : PlanOutcome) (p : RecoveryPlan) :
    (im.unexplained.adopt request now outcome p.unexplained).unexplained =
      (im.adopt request now outcome p).unexplained := by
  have h : (((im.unexplained.plans.insert p.planId.value p.unexplained).mapValues
        (fun _ old => supersede request p.planId now old)).mapValues (fun _ p => p.unexplained)) =
      (((im.plans.insert p.planId.value p).mapValues
        (fun _ old => supersede request p.planId now old)).mapValues
          (fun _ p => p.unexplained)) := by
    refine SortedMap.ext_find? fun k => ?_
    simp only [SortedMap.find?_mapValues,SortedMap.find?_insert,find?_unexplained]
    split
    · simp only [Option.map_some,supersede_unexplained]
      rfl
    · cases im.plans.find? k with
      | none => rfl
      | some q =>
        simp only [Option.map_some,supersede_unexplained]
        rfl
  have hrest := congrArg
    (fun plans => { im.adopt request now outcome p with plans := plans }) h
  cases outcome <;> exact hrest

theorem planFor_agrees {im im' : Impl} (h : im.unexplained = im'.unexplained)
    (request : RecoveryRequest) (now : Timestamp) (c : RecoveryCandidate) :
    im.planFor request now c = im'.planFor request now c :=
  congrArg (fun im => im.planFor request now c) h

/-- The same request with the same candidates, in any order and under any sorts. -/
theorem plan_agrees (std std' : StdSort) {im im' : Impl} (h : im.unexplained = im'.unexplained)
    (now : Timestamp) (request : RecoveryRequest) {cs cs' : List RecoveryCandidate}
    (hperm : cs.Perm cs') (hn : (cs.map RecoveryCandidate.identity).Nodup) :
    let r := im.plan std now request cs
    let r' := im'.plan std' now request cs'
    r.1.plan.map RecoveryPlan.unexplained = r'.1.plan.map RecoveryPlan.unexplained ∧
      r.2.unexplained = r'.2.unexplained := by
  have hctx : im.unexplained.ctx = im'.unexplained.ctx := congrArg Impl.ctx h
  change im.ctx = im'.ctx at hctx
  have hch : (choices im.ctx request now cs).Perm (choices im'.ctx request now cs') := by
    rw [hctx]
    exact choices_perm hperm
  have hnil : cs = [] ↔ cs' = [] := by
    rw [← List.length_eq_zero_iff,hperm.length_eq,List.length_eq_zero_iff]
  have houtcome : (im.plan std now request cs).1.outcome =
      (im'.plan std' now request cs').1.outcome :=
    Impl.plan_outcome_perm std std' hctx now request hperm
  intro r r'
  rcases plan_adopts std im now request cs with ⟨hc,hp,hr⟩ | ⟨c,e,hc,hp,hr⟩
  · rcases plan_adopts std' im' now request cs' with ⟨_,hp',hr'⟩ | ⟨c',_,hc',_⟩
    · refine ⟨by rw [hp,hp'],?_⟩
      rw [hr,hr']
      simp only [hnil]
      split
      · exact h
      · have hrec := congrArg (recordHistory · request { outcome := .noValidPlan }) h
        exact hrec
    · exact absurd (hch.mem_iff.mpr hc'.mem) (by simp [hc])
  · rcases plan_adopts std' im' now request cs' with ⟨hc',_⟩ | ⟨c',e',hc',hp',hr'⟩
    · exact absurd (hch.mem_iff.mp hc.mem) (by simp [hc'])
    · have hkeys := sameKeys_of_isFirst (hc.of_perm hch) hc'
      obtain rfl := eq_of_sameKeys hn (mem_of_choices hc.mem)
        (hperm.mem_iff.mpr (mem_of_choices hc'.mem)) hkeys
      rw [hp,hp',hr,hr',planFor_agrees h,Option.map_some,Option.map_some,
        RecoveryPlan.unexplained_explained,RecoveryPlan.unexplained_explained,
        ← adopt_blind im,← adopt_blind im',RecoveryPlan.unexplained_explained,
        RecoveryPlan.unexplained_explained,h]
      refine ⟨rfl,?_⟩
      rw [show r.1.outcome = r'.1.outcome from houtcome]

end Impl

def Event.unexplained : Event → Event
  | .created p => .created p.unexplained
  | .handedOff p ctx d => .handedOff p.unexplained ctx d

theorem Event.dispatch?_unexplained (e : Event) : e.unexplained.dispatch? = e.dispatch? := by
  cases e <;> rfl

namespace Node

theorem handedOut_eq (n : Node) :
    n.handedOut = (n.log.map Event.unexplained).filterMap Event.dispatch? := by
  rw [List.filterMap_map,handedOut]
  exact List.filterMap_congr fun e _ => e.dispatch?_unexplained.symm

structure Agrees (n n' : Node) : Prop where
  impl : n.impl.unexplained = n'.impl.unexplained
  awaiting : n.awaiting = n'.awaiting
  pending : n.pending = n'.pending
  log : n.log.map Event.unexplained = n'.log.map Event.unexplained

theorem Agrees.handedOut {n n' : Node} (h : Agrees n n') : n.handedOut = n'.handedOut := by
  rw [handedOut_eq,handedOut_eq,h.log]

end Node

/-- The same call on two planners. The candidates of a request may come in another order, and
a plan that is handed back is looked up by its id. -/
inductive SameAct : Act → Act → Prop where
  | plan (now : Timestamp) (request : RecoveryRequest) {cs cs' : List RecoveryCandidate}
      (h : cs.Perm cs') (hn : (cs.map RecoveryCandidate.identity).Nodup) :
      SameAct (.plan now request cs) (.plan now request cs')
  | authorizePlan (now : Timestamp) {p p' : RecoveryPlan} (h : p.planId = p'.planId) :
      SameAct (.authorizePlan now p) (.authorizePlan now p')
  | revalidatePlan (p p' : RecoveryPlan) : SameAct (.revalidatePlan p) (.revalidatePlan p')
  | dispatchBegin (now : Timestamp) {p p' : RecoveryPlan} (h : p.planId = p'.planId) :
      SameAct (.dispatchBegin now p) (.dispatchBegin now p')
  | same {a : Act} (h : ∀ now request cs, a ≠ .plan now request cs) : SameAct a a

namespace Node

theorem act_refused (std : StdSort) {n : Node} {now : Timestamp} {plan : RecoveryPlan}
    {e : RecoveryError} (h : n.impl.dispatchBegin now plan = (.error e,n.impl)) :
    n.act std (.dispatchBegin now plan) = n := by
  simp only [act,h]
  cases n.impl.plans.find? plan.planId.value <;> rfl

theorem Agrees.plan {n n' : Node} (h : Agrees n n') (k : UInt64) :
    (n.impl.plans.find? k).map RecoveryPlan.unexplained =
      (n'.impl.plans.find? k).map RecoveryPlan.unexplained := by
  rw [← Impl.find?_unexplained,← Impl.find?_unexplained,h.impl]

theorem Agrees.ctx {n n' : Node} (h : Agrees n n') : n.impl.ctx = n'.impl.ctx := by
  have hctx := congrArg Impl.ctx h.impl
  exact hctx

theorem Agrees.dispatchBegin {n n' : Node} (h : Agrees n n') (now : Timestamp)
    (p : RecoveryPlan) :
    (n.impl.dispatchBegin now p).1 = (n'.impl.dispatchBegin now p).1 ∧
      (n.impl.dispatchBegin now p).2.unexplained = (n'.impl.dispatchBegin now p).2.unexplained := by
  obtain ⟨hd,hi⟩ := Impl.dispatchBegin_blind now n.impl p
  obtain ⟨hd',hi'⟩ := Impl.dispatchBegin_blind now n'.impl p
  rw [← hd,← hi,← hd',← hi',h.impl]
  exact ⟨rfl,rfl⟩

theorem dispatchBegin_agrees (std std' : StdSort) {n n' : Node} (h : Agrees n n')
    (now : Timestamp) (p : RecoveryPlan) :
    Agrees (n.act std (.dispatchBegin now p)) (n'.act std' (.dispatchBegin now p)) := by
  obtain ⟨hd,hi⟩ := h.dispatchBegin now p
  rcases n.impl.dispatchBegin_spec now p with ⟨e,hb⟩ | ⟨q,hq,_,_,hb⟩
  · rcases n'.impl.dispatchBegin_spec now p with ⟨e',hb'⟩ | ⟨q',_,_,_,hb'⟩
    · rw [act_refused std hb,act_refused std' hb']
      exact h
    · rw [hb,hb'] at hd
      exact absurd hd (by simp)
  · rcases n'.impl.dispatchBegin_spec now p with ⟨e',hb'⟩ | ⟨q',hq',_,_,hb'⟩
    · rw [hb,hb'] at hd
      exact absurd hd (by simp)
    · rw [hb,hb'] at hd hi
      have hplan := h.plan p.planId.value
      rw [hq,hq'] at hplan
      simp only [act,hq,hq',hb,hb']
      refine ⟨hi,?_,h.pending,?_⟩
      · rw [h.awaiting]
      · have hevent : Event.unexplained (.handedOff q n.impl.ctx (.ofPlan (q.dispatched now))) =
            Event.unexplained (.handedOff q' n'.impl.ctx (.ofPlan (q'.dispatched now))) := by
          simp only [Event.unexplained,Option.some.inj hplan,h.ctx,Except.ok.inj hd]
        rw [List.map_cons,List.map_cons,hevent,h.log]

theorem plan_agrees (std std' : StdSort) {n n' : Node} (h : Agrees n n') (now : Timestamp)
    (request : RecoveryRequest) {cs cs' : List RecoveryCandidate} (hperm : cs.Perm cs')
    (hn : (cs.map RecoveryCandidate.identity).Nodup) :
    Agrees (n.act std (.plan now request cs)) (n'.act std' (.plan now request cs')) := by
  obtain ⟨hplan,himpl⟩ := Impl.plan_agrees std std' h.impl now request hperm hn
  refine ⟨himpl,h.awaiting,h.pending,?_⟩
  simp only [act]
  revert hplan
  cases (n.impl.plan std now request cs).1.plan with
  | none =>
    cases (n'.impl.plan std' now request cs').1.plan with
    | none => exact fun _ => h.log
    | some p' => exact fun hplan => absurd hplan (by simp)
  | some p =>
    cases (n'.impl.plan std' now request cs').1.plan with
    | none => exact fun hplan => absurd hplan (by simp)
    | some p' =>
      intro hplan
      have hevent : Event.unexplained (.created p) = Event.unexplained (.created p') :=
        congrArg Event.created (Option.some.inj hplan)
      rw [List.map_cons,List.map_cons,hevent,h.log]

theorem act_agrees (std std' : StdSort) {n n' : Node} (h : Agrees n n') {a a' : Act}
    (ha : SameAct a a') : Agrees (n.act std a) (n'.act std' a') := by
  cases ha with
  | plan now request hperm hn => exact plan_agrees std std' h now request hperm hn
  | authorizePlan now hp =>
    rename_i p p'
    refine ⟨?_,h.awaiting,h.pending,h.log⟩
    have hauth := (Impl.authorizePlan_blind now p).congr h.impl
    have hid : n'.impl.authorizePlan now p' = n'.impl.authorizePlan now p := by
      unfold Impl.authorizePlan
      rw [hp]
    simp only [act,hid]
    exact hauth
  | revalidatePlan p p' => exact h
  | dispatchBegin now hp =>
    rename_i p p'
    have hid : n'.act std' (.dispatchBegin now p') = n'.act std' (.dispatchBegin now p) := by
      simp only [act,Impl.dispatchBegin,hp]
    rw [hid]
    exact dispatchBegin_agrees std std' h now p
  | same hne =>
    cases a with
    | plan now request cs => exact absurd rfl (hne now request cs)
    | authorizePlan now p =>
      exact ⟨(Impl.authorizePlan_blind now p).congr h.impl,h.awaiting,h.pending,h.log⟩
    | revalidatePlan p => exact h
    | dispatchBegin now p => exact dispatchBegin_agrees std std' h now p
    | dispatchEnd now call status =>
      simp only [act,h.awaiting]
      split
      · exact ⟨(Impl.dispatchEnd_blind now _ status).congr h.impl,rfl,h.pending,h.log⟩
      · exact h
    | reportExecution now report =>
      exact ⟨(Impl.reportExecution_blind now report).congr h.impl,h.awaiting,h.pending,h.log⟩
    | adapterTake dispatchId outcome =>
      have hmeta := congrArg Impl.dispatchMeta h.impl
      change n.impl.dispatchMeta = n'.impl.dispatchMeta at hmeta
      simp only [act,Impl.adapterTake,hmeta]
      cases n'.impl.dispatchMeta.find? dispatchId.value with
      | none => exact h
      | some m =>
        refine ⟨?_,h.awaiting,by rw [h.pending],h.log⟩
        have himpl := congrArg (fun im : Impl => { im with
          dispatchMeta := n'.impl.dispatchMeta.erase dispatchId.value }) h.impl
        exact himpl
    | adapterDeliver now call =>
      simp only [act,h.pending]
      split
      · exact ⟨(Impl.reportExecution_blind now _).congr h.impl,h.awaiting,rfl,h.log⟩
      · exact h
    | cancelPlan now planId force =>
      exact ⟨(Impl.cancelPlan_blind now planId force).congr h.impl,h.awaiting,h.pending,h.log⟩
    | invalidatePlan now planId =>
      exact ⟨(Impl.invalidatePlan_blind now planId).congr h.impl,h.awaiting,h.pending,h.log⟩
    | registerWorker w boot =>
      exact ⟨congrArg (Impl.registerWorker · w boot) h.impl,h.awaiting,h.pending,h.log⟩
    | unregisterWorker w =>
      exact ⟨congrArg (Impl.unregisterWorker · w) h.impl,h.awaiting,h.pending,h.log⟩
    | setResource kind amount =>
      exact ⟨congrArg (Impl.setResource · kind amount) h.impl,h.awaiting,h.pending,h.log⟩
    | setRecomputeAvailable gen available =>
      refine ⟨?_,h.awaiting,h.pending,h.log⟩
      have himpl := congrArg (Impl.setRecomputeAvailable · gen available) h.impl
      cases available <;> exact himpl

end Node

inductive SameCall : Op → Op → Prop where
  | act {a a' : Act} (h : SameAct a a') : SameCall (.act a) (.act a')
  | saveState : SameCall .saveState .saveState
  | loadState : SameCall .loadState .loadState
  | restartCoordinator (clock : UInt64 → Timestamp) :
      SameCall (.restartCoordinator clock) (.restartCoordinator clock)

namespace Session

structure Agrees (s s' : Session) : Prop where
  node : s.node.Agrees s'.node
  disk : s.disk = s'.disk

theorem Agrees.saveState {s s' : Session} (h : Agrees s s') :
    s.node.impl.saveState s.disk = s'.node.impl.saveState s'.disk := by
  rw [← Impl.saveState_unexplained,← Impl.saveState_unexplained s'.node.impl,h.node.impl,h.disk]

theorem step_agrees (std std' : StdSort) {s s' : Session} (h : Agrees s s') {op op' : Op}
    (hop : SameCall op op') : Agrees (s.step std op) (s'.step std' op') := by
  cases hop with
  | act ha => exact ⟨Node.act_agrees std std' h.node ha,h.disk⟩
  | saveState => exact ⟨h.node,congrArg Prod.snd h.saveState⟩
  | loadState =>
    refine ⟨⟨?_,h.node.awaiting,h.node.pending,h.node.log⟩,h.disk⟩
    simp only [step,h.disk]
    exact (Impl.loadState_blind s'.disk).congr h.node.impl
  | restartCoordinator clock =>
    have hdisk := congrArg Prod.snd h.saveState
    refine ⟨⟨?_,h.node.awaiting,h.node.pending,h.node.log⟩,hdisk⟩
    simp only [step,Impl.restartCoordinator,h.saveState]
    exact (Impl.restartReloading_blind clock _).congr h.node.impl

/-- Two planners that get the same calls, with the candidates of each request in any order and
any two sorts, hand the same dispatches to their executors and hold the same bytes in their
stores and, up to explanations, the same plans. -/
theorem replicas_agree (std std' : StdSort) (hasStore : Bool) {ops ops' : List Op}
    (h : List.Forall₂ SameCall ops ops') :
    let s := run (step std) (construct hasStore) ops
    let s' := run (step std') (construct hasStore) ops'
    s.node.handedOut = s'.node.handedOut ∧ s.disk = s'.disk ∧
      s.node.impl.encodeSnapshot = s'.node.impl.encodeSnapshot ∧
      s.node.impl.history = s'.node.impl.history ∧
      ∀ k, (s.plan? k).map RecoveryPlan.unexplained =
        (s'.plan? k).map RecoveryPlan.unexplained := by
  have hstart : Agrees (construct hasStore) (construct hasStore) := ⟨⟨rfl,rfl,rfl,rfl⟩,rfl⟩
  have hstep : ∀ s s' op op', SameCall op op' → Agrees s s' →
      Agrees (s.step std op) (s'.step std' op') :=
    fun _ _ _ _ hop hs => step_agrees std std' hs hop
  have hrun := run_lockstep hstep h hstart
  refine ⟨hrun.node.handedOut,hrun.disk,?_,?_,hrun.node.plan⟩
  · rw [← Impl.encodeSnapshot_unexplained,hrun.node.impl,Impl.encodeSnapshot_unexplained]
  · have hhistory := congrArg Impl.history hrun.node.impl
    exact hhistory

def otherCandidate : RecoveryCandidate := { readyCandidate with candidateId := ⟨2⟩ }

def dispatchCalls (cs : List RecoveryCandidate) : List Op :=
  [.act (.registerWorker ⟨1⟩ ⟨1⟩),.act (.plan ⟨0⟩ (requestNo 1) cs),
    .act (.authorizePlan ⟨1⟩ { planId := ⟨1⟩ }),.act (.dispatchBegin ⟨2⟩ { planId := ⟨1⟩ })]

theorem dispatchCalls_same {cs cs' : List RecoveryCandidate} (h : cs.Perm cs')
    (hn : (cs.map RecoveryCandidate.identity).Nodup) :
    List.Forall₂ SameCall (dispatchCalls cs) (dispatchCalls cs') := by
  have hplan : SameCall (.act (.plan ⟨0⟩ (requestNo 1) cs)) (.act (.plan ⟨0⟩ (requestNo 1) cs')) :=
    .act (.plan ⟨0⟩ (requestNo 1) h hn)
  have hregister : SameAct (.registerWorker ⟨1⟩ ⟨1⟩) (.registerWorker ⟨1⟩ ⟨1⟩) :=
    .same (by simp)
  refine .cons (.act hregister) (.cons hplan (.cons (.act ?_) (.cons (.act ?_) .nil)))
  · exact .authorizePlan ⟨1⟩ rfl
  · exact .dispatchBegin ⟨2⟩ rfl

theorem replicas_agree_swapped : ∃ d,
    (run (step .insertion) (construct true)
      (dispatchCalls [readyCandidate,otherCandidate])).node.handedOut = [d] ∧
    (run (step (.rotated 1)) (construct true)
      (dispatchCalls [otherCandidate,readyCandidate])).node.handedOut = [d] := by
  have hn : ([readyCandidate,otherCandidate].map RecoveryCandidate.identity).Nodup := by
    decide +kernel
  have hone : (run (step .insertion) (construct true)
      (dispatchCalls [readyCandidate,otherCandidate])).node.handedOut.length = 1 := by
    decide +kernel
  have h := replicas_agree .insertion (.rotated 1) true
    (dispatchCalls_same (.swap otherCandidate readyCandidate []) hn)
  obtain ⟨d,hd⟩ := List.length_eq_one_iff.mp hone
  exact ⟨d,hd,h.1.symm.trans hd⟩

end Session

end RecoveryPlanner
