import RecoveryPlanner.RoundTrip
import RecoveryPlanner.Sections
import RecoveryPlanner.Selection
set_option autoImplicit false

/-! The stored plans and their requests. A fallback plan is stored without its request, so
what is written of it in a snapshot refers to nothing. -/

namespace RecoveryPlanner

def Linked (requests : SortedMap UInt64 RecoveryRequest) (plans : SortedMap UInt64 RecoveryPlan) :
    Prop :=
  ∀ k p, plans.find? k = some p →
    ∃ q, requests.find? p.requestId.value = some q ∧ q.requestId = p.requestId

def Impl.Referential (im : Impl) : Prop := Linked im.requests im.plans

def Impl.Brings (im : Impl) (blob : Bytes) : Prop :=
  Linked ((requestsIn blob).getD im.requests) ((plansIn blob).getD im.plans)

/-- No fallback plan for a request that is not stored, and no snapshot that separates plans
from their requests. -/
def Node.Links (n : Node) : Call → Prop
  | .act (.plan now request candidates) =>
    candidates.filter (feasible n.impl.ctx request) ≠ [] →
    candidates.filter (eligible n.impl.ctx request now) = [] →
      ∃ q, n.impl.requests.find? request.requestId.value = some q
  | .loadState (some blob) => n.impl.hasStore = true → n.impl.Brings blob
  | .restartCoordinator _ (some blob) => n.impl.hasStore = true → n.impl.Brings blob
  | _ => True

theorem retire_requestId (now : Timestamp) (p : RecoveryPlan) :
    (Impl.retire now p).requestId = p.requestId := by
  unfold Impl.retire
  split <;> rfl

theorem Linked.mono {requests requests' : SortedMap UInt64 RecoveryRequest}
    {plans plans' : SortedMap UInt64 RecoveryPlan} (h : Linked requests plans)
    (hq : ∀ q, requests.find? q.requestId.value = some q →
      ∃ q', requests'.find? q.requestId.value = some q' ∧ q'.requestId = q.requestId)
    (hp : ∀ k p', plans'.find? k = some p' →
      ∃ j p, plans.find? j = some p ∧ p.requestId = p'.requestId) : Linked requests' plans' := by
  intro k p' hp'
  obtain ⟨j,p,hj,hid⟩ := hp k p' hp'
  obtain ⟨q,hfind,hreq⟩ := h j p hj
  rw [← hreq] at hfind
  obtain ⟨q',hfind',hreq'⟩ := hq q hfind
  rw [hreq,hid] at hfind' hreq'
  exact ⟨q',hfind',hreq'⟩

namespace Impl

theorem plan_requests (std : StdSort) (im : Impl) (now : Timestamp) (request : RecoveryRequest)
    (cs : List RecoveryCandidate) :
    (cs.filter (eligible im.ctx request now) ≠ [] →
      (im.plan std now request cs).2.requests =
        im.requests.insert request.requestId.value request) ∧
    (cs.filter (eligible im.ctx request now) = [] →
      (im.plan std now request cs).2.requests = im.requests) := by
  have hempty : (eligibleIndices request (rankCandidates im.ctx request now cs)).isEmpty = true ↔
      cs.filter (eligible im.ctx request now) = [] := by
    rw [eligibleIndices_eq,List.isEmpty_iff,positions_eq_nil]
  unfold Impl.plan
  cases hcs : cs.isEmpty with
  | true =>
    rw [List.isEmpty_iff] at hcs
    subst hcs
    exact ⟨fun h => absurd rfl h,fun _ => rfl⟩
  | false =>
    simp only [Bool.false_eq_true,if_false]
    split
    · rename_i hE
      refine ⟨fun h => absurd (hempty.mp hE) h,fun _ => ?_⟩
      split <;> rfl
    · rename_i hE
      exact ⟨fun _ => rfl,fun h => absurd (hempty.mpr h) hE⟩

theorem applySnapshot_referential_iff (im : Impl) (blob : Bytes) (preserveEpochBoot : Bool) :
    (im.applySnapshot blob preserveEpochBoot).2.Referential ↔ im.Brings blob := by
  have h := im.applySnapshot_sections blob preserveEpochBoot
  rw [Referential,h.requests,h.plans,Brings]

theorem retirePlans_referential_iff (im : Impl) (clock : UInt64 → Timestamp) :
    (im.retirePlans clock).recordRestart.Referential ↔ im.Referential := by
  have hsame : ∀ q : RecoveryRequest, im.requests.find? q.requestId.value = some q →
      ∃ q', im.requests.find? q.requestId.value = some q' ∧ q'.requestId = q.requestId :=
    fun q hq => ⟨q,hq,rfl⟩
  constructor
  · intro h
    refine Linked.mono h hsame fun k p hp => ⟨k,retire (clock k) p,?_,retire_requestId _ _⟩
    simp [retirePlans,recordRestart,hp]
  · intro h
    refine Linked.mono h hsame fun k p' hp' => ?_
    obtain ⟨p,hp,rfl⟩ := find?_retirePlans hp'
    exact ⟨k,p,hp,(retire_requestId _ _).symm⟩

theorem Restored.referential {src dst : Impl} (h : Restored src dst) (hs : src.Referential) :
    dst.Referential := by
  refine Linked.mono hs (fun q hq => ⟨q.durable,?_,rfl⟩) fun k p' hp' => ?_
  · rw [h.requests,SortedMap.find?_mapValues,hq]
    rfl
  · rw [h.plans,SortedMap.find?_mapValues,Option.map_eq_some_iff] at hp'
    obtain ⟨p,hp,rfl⟩ := hp'
    exact ⟨k,p,hp,rfl⟩

theorem Tidy.referential_survives {src : Impl} (h : src.Tidy) (hf : src.Fits)
    (hs : src.Referential) {dst : Impl}
    (hok : (dst.applySnapshot src.encodeSnapshot false).1 = true) :
    (dst.applySnapshot src.encodeSnapshot false).2.Referential := by
  have hown := applySnapshot_own hf dst false
  have hread : src.Readable := by
    by_contra hno
    rw [hown.2 hno] at hok
    exact absurd hok (by simp)
  rw [hown.1 hread]
  exact (h.install_restored dst).referential hs

end Impl

namespace Node

variable {n : Node}

theorem act_referential (std : StdSort) (ht : n.impl.Tidy) (h : n.impl.Referential) {a : Act}
    (hnew : ∀ p, (n.act std a).log = .created p :: n.log →
      ∃ q, (n.act std a).impl.requests.find? p.requestId.value = some q ∧
        q.requestId = p.requestId) : (n.act std a).impl.Referential := by
  have hgrow : ∀ q, n.impl.requests.find? q.requestId.value = some q →
      ∃ q', (n.act std a).impl.requests.find? q.requestId.value = some q' ∧
        q'.requestId = q.requestId := by
    intro q hq
    rcases (n.act_records std a).requests with heq | ⟨r,heq⟩
    · exact ⟨q,heq ▸ hq,rfl⟩
    · by_cases hr : q.requestId.value = r.requestId.value
      · exact ⟨r,by simp [heq,hr],congrArg Id.mk hr.symm⟩
      · exact ⟨q,by simp [heq,hr,hq],rfl⟩
  have hold : ∀ p, ∀ k, n.impl.plans.find? k = some p →
      ∃ q, (n.act std a).impl.requests.find? p.requestId.value = some q ∧
        q.requestId = p.requestId :=
    fun p k hp => Linked.mono h hgrow (fun k p hp => ⟨k,p,hp,rfl⟩) k p hp
  intro k p' hp'
  cases (n.act_step std a).record ht.plansKeyed k with
  | same plan life => exact hold p' k (plan.symm.trans hp')
  | created fresh key plan log =>
    obtain rfl := Option.some.inj (plan.symm.trans hp')
    exact hnew _ log
  | evolved before he plan life =>
    obtain rfl := Option.some.inj (plan.symm.trans hp')
    rw [← he.requestId]
    exact hold _ k before
  | handedOff before hs hcur plan life =>
    obtain rfl := Option.some.inj (plan.symm.trans hp')
    have hq := hold _ k before
    exact hq

theorem plan_referential_iff (std : StdSort) (ht : n.impl.Tidy) (h : n.impl.Referential)
    (now : Timestamp) (request : RecoveryRequest) (cs : List RecoveryCandidate) :
    n.Links (.act (.plan now request cs)) ↔
      (n.act std (.plan now request cs)).impl.Referential := by
  have hreq := n.impl.plan_requests std now request cs
  constructor
  · intro hlinks
    refine act_referential std ht h fun p hlog => ?_
    obtain ⟨now,request,cs,heq,hplan⟩ := act_created hlog
    cases heq
    rcases n.impl.plan_spec std now request cs with ⟨hnone,_⟩ | ⟨p',hp',hplanned⟩
    · rw [hnone] at hplan
      exact absurd hplan (by simp)
    obtain rfl := Option.some.inj (hplan.symm.trans hp')
    rw [hplanned.requestId]
    by_cases hE : cs.filter (eligible n.impl.ctx request now) = []
    · have hF : cs.filter (feasible n.impl.ctx request) ≠ [] := fun hF => by
        rw [Impl.plan_eq_none_iff.mpr hF] at hplan
        exact absurd hplan (by simp)
      obtain ⟨q,hq⟩ := hlinks hF hE
      refine ⟨q,?_,congrArg Id.mk (ht.requests _ q hq)⟩
      rw [act,hreq.2 hE]
      exact hq
    · refine ⟨request,?_,rfl⟩
      rw [act,hreq.1 hE]
      simp
  · intro href hF hE
    rcases n.impl.plan_spec std now request cs with ⟨hnone,_⟩ | ⟨p,hp,hplanned⟩
    · exact absurd (Impl.plan_eq_none_iff.mp hnone) hF
    · obtain ⟨q,hq,_⟩ := href p.planId.value p hplanned.find?_new
      rw [hplanned.requestId,act,hreq.2 hE] at hq
      exact ⟨q,hq⟩

theorem call_referential_iff (std : StdSort) (ht : n.impl.Tidy) (h : n.impl.Referential)
    (c : Call) : n.Links c ↔ (n.call std c).impl.Referential := by
  cases c with
  | saveState => exact ⟨fun _ => h,fun _ => trivial⟩
  | loadState disk =>
    cases disk with
    | none => exact ⟨fun _ => by rw [call,Impl.loadState_none]; exact h,fun _ => trivial⟩
    | some blob =>
      rw [call,Links]
      cases hstore : n.impl.hasStore with
      | false =>
        rw [Impl.loadState_storeless hstore]
        exact ⟨fun _ => h,fun _ hx => absurd hx (by simp)⟩
      | true =>
        rw [Impl.loadState_some hstore,Impl.applySnapshot_referential_iff,forall_prop_of_true rfl]
  | restartCoordinator clock reload =>
    cases reload with
    | none =>
      rw [call,Impl.restartReloading_none,Impl.retirePlans_referential_iff]
      exact ⟨fun _ => h,fun _ => trivial⟩
    | some blob =>
      rw [call,Links]
      cases hstore : n.impl.hasStore with
      | false =>
        rw [Impl.restartReloading_storeless hstore,Impl.retirePlans_referential_iff]
        exact ⟨fun _ => h,fun _ hx => absurd hx (by simp)⟩
      | true =>
        rw [Impl.restartReloading_some hstore,Impl.retirePlans_referential_iff,
          Impl.applySnapshot_referential_iff,forall_prop_of_true rfl]
        exact Iff.rfl
  | act a =>
    by_cases hplan : ∃ now request cs, a = .plan now request cs
    · obtain ⟨now,request,cs,rfl⟩ := hplan
      exact plan_referential_iff std ht h now request cs
    · have hkeep : (n.act std a).impl.Referential := act_referential std ht h fun p hlog => by
        obtain ⟨now,request,cs,heq,_⟩ := act_created hlog
        exact absurd ⟨now,request,cs,heq⟩ hplan
      refine ⟨fun _ => hkeep,fun _ => ?_⟩
      cases a with
      | plan now request cs => exact absurd ⟨now,request,cs,rfl⟩ hplan
      | _ => trivial

theorem construct_referential (hasStore : Bool) : (construct hasStore).impl.Referential :=
  fun k p h => absurd h (by simp [construct,Impl.construct])

/-- The stored plans have their requests in all states of a run exactly when no step stores a
fallback plan without its request or takes a snapshot that separates them; and where they
have them, they still have them after a snapshot that is taken. -/
theorem run_referential_iff (std : StdSort) (hasStore : Bool) (calls : List Call) :
    (Along Links (call std) (construct hasStore) calls ↔
      ∀ front, front <+: calls → (run (call std) (construct hasStore) front).impl.Referential) ∧
    ((run (call std) (construct hasStore) calls).impl.Fits →
      (run (call std) (construct hasStore) calls).impl.Referential →
      ∀ dst : Impl, (dst.applySnapshot
          (run (call std) (construct hasStore) calls).impl.encodeSnapshot false).1 = true →
        (dst.applySnapshot
          (run (call std) (construct hasStore) calls).impl.encodeSnapshot false).2.Referential) := by
  refine ⟨?_,fun hf hs dst hok => ?_⟩
  · exact along_iff_states (I := fun n : Node => n.impl.Tidy)
      (P := fun n : Node => n.impl.Referential)
      (fun _ c hn => call_tidy std hn c) (fun _ c hn h => call_referential_iff std hn h c)
      (Impl.construct_tidy hasStore) (construct_referential hasStore) calls
  · exact (run_tidy std hasStore calls).referential_survives hf hs hok

def fallbackCalls : List Call :=
  [.act (.registerWorker ⟨1⟩ ⟨1⟩),
   .act (.plan ⟨0⟩ { Session.requestNo 1 with recoveryDeadline := some ⟨5⟩ }
     [Session.readyCandidate]),
   .act (.authorizePlan ⟨1⟩ { planId := ⟨1⟩ })]

/-- The fallback plan can be authorized, and its request is nowhere. -/
theorem fallback_unlinked :
    (((run (call .insertion) (construct true) fallbackCalls).impl.plans.find? 1).map
      fun p => (p.state,p.requestId)) = some (.authorized,⟨1⟩) ∧
    (run (call .insertion) (construct true) fallbackCalls).impl.requests.find? 1 = none ∧
    ¬ (run (call .insertion) (construct true) fallbackCalls).impl.Referential := by
  have hplan : ((run (call .insertion) (construct true) fallbackCalls).impl.plans.find? 1).map
      (fun p => (p.state,p.requestId)) = some (.authorized,⟨1⟩) := by decide +kernel
  have hnone : (run (call .insertion) (construct true) fallbackCalls).impl.requests.find? 1 =
      none := by decide +kernel
  refine ⟨hplan,hnone,fun h => ?_⟩
  obtain ⟨p,hp,heq⟩ := Option.map_eq_some_iff.mp hplan
  obtain ⟨q,hq,_⟩ := h 1 p hp
  rw [(Prod.mk.inj heq).2,hnone] at hq
  exact absurd hq (by simp)

end Node

end RecoveryPlanner
