import RecoveryPlanner.Restart
set_option autoImplicit false

/-! The strings a planner keeps, whatever it has been asked and whatever it has read from
a store. A string of the planner's own holds no NUL, so the writer does not cut it. -/

namespace RecoveryPlanner

open Scan ByteReader

def Plain (s : Str) : Prop := ∀ b ∈ s, b ≠ 0

instance (s : Str) : Decidable (Plain s) := List.decidableBAll (fun b => b ≠ 0) s

theorem Plain.cut_eq {s : Str} (h : Plain s) : cut s = s := cut_eq_self h

theorem Plain.append {s t : Str} (hs : Plain s) (ht : Plain t) : Plain (s ++ t) := by
  intro b hb
  rcases List.mem_append.mp hb with hb | hb
  · exact hs b hb
  · exact ht b hb

theorem Plain.shortStr_iff {s : Str} (h : Plain s) : ShortStr s ↔ s.length ≤ 4096 := by
  rw [ShortStr,h.cut_eq]

theorem decimal_plain (n : Nat) : Plain (decimal n) := by
  unfold decimal
  split
  · decide
  · intro b hb
    obtain ⟨d,hd,rfl⟩ := List.mem_map.mp hb
    have hlt : d < 10 := Nat.digits_lt_base (by norm_num) (List.mem_reverse.mp hd)
    interval_cases d <;> decide

theorem toString_plain (s : RecoveryStrategy) : Plain s.toString := by
  cases s with
  | undeclared i => exact (by decide : Plain (text "UNKNOWN"))
  | _ => decide

theorem outcome_plain (o : PlanOutcome) : Plain o.toString := by
  cases o <;> decide

theorem hexDigit_ne_zero {n : Nat} (h : n < 16) : hexDigit n ≠ 0 := by
  interval_cases n <;> decide

theorem hexEncode_plain (data : Bytes) : Plain (hexEncode data) := by
  intro b hb
  obtain ⟨x,_,hx⟩ := List.mem_flatMap.mp hb
  rcases List.mem_cons.mp hx with rfl | hx
  · exact hexDigit_ne_zero (Nat.mod_lt _ (by norm_num))
  · rw [List.mem_singleton] at hx
    rw [hx]
    exact hexDigit_ne_zero (Nat.mod_lt _ (by norm_num))

theorem decisionDigest_plain (req : RecoveryRequest) (plan : RecoveryPlan)
    (ctx : PlannerContext) : Plain (decisionDigest req plan ctx) := hexEncode_plain _

theorem decisionDigest_length (req : RecoveryRequest) (plan : RecoveryPlan)
    (ctx : PlannerContext) : (decisionDigest req plan ctx).length = 64 := by
  simp [decisionDigest,hexEncode,sha256]

theorem buildPayload_plain (c : RecoveryCandidate) : Plain (buildPayload c) := by
  unfold buildPayload
  refine ((((((((toString_plain _).append ?_).append (decimal_plain _)).append ?_).append
    (decimal_plain _)).append ?_).append (decimal_plain _)).append ?_).append (decimal_plain _)
  all_goals decide

def historyEntry (req : RecoveryRequest) (d : RecoveryDecision) : Str :=
  text "req=" ++ decimal req.requestId.value.toNat ++
    text " workload=" ++ decimal req.workload.value.toNat ++
    text " outcome=" ++ d.outcome.toString ++
    (match d.plan with
      | some p => text " plan=" ++ decimal p.planId.value.toNat ++
          text " strategy=" ++ p.strategy.toString ++
          text " candidate=" ++ decimal p.candidateId.value.toNat ++
          text " digest=" ++ p.decisionDigest
      | none => [])

def restartEntry (ctx : PlannerContext) : Str :=
  text "coordinator restart; epoch=" ++ decimal ctx.epoch.value.toNat ++
    text " boot=" ++ decimal ctx.plannerBoot.value.toNat

theorem Impl.recordRestart_history (im : Impl) :
    im.recordRestart.history = im.history ++ [restartEntry im.ctx] := rfl

structure Kept (s : Str) : Prop where
  plain : Plain s
  length : s.length ≤ 4096

theorem Kept.shortStr {s : Str} (h : Kept s) : ShortStr s := h.plain.shortStr_iff.mpr h.length

theorem outcome_length (o : PlanOutcome) : o.toString.length ≤ 25 := by
  cases o <;> decide

theorem restartEntry_kept (ctx : PlannerContext) : Kept (restartEntry ctx) := by
  constructor
  · refine (((?_ : Plain _).append (decimal_plain _)).append ?_).append (decimal_plain _)
    all_goals decide
  · have h1 := decimal_length ctx.epoch.value.toNat_lt
    have h2 := decimal_length ctx.plannerBoot.value.toNat_lt
    have ht : (text "coordinator restart; epoch=").length = 27 ∧ (text " boot=").length = 6 := by
      decide
    simp only [restartEntry,List.length_append]
    omega

theorem historyEntry_kept (req : RecoveryRequest) {d : RecoveryDecision}
    (hd : ∀ p, d.plan = some p → Plain p.decisionDigest ∧ p.decisionDigest.length = 64) :
    Kept (historyEntry req d) := by
  have h1 := decimal_length req.requestId.value.toNat_lt
  have h2 := decimal_length req.workload.value.toNat_lt
  have ho := outcome_length d.outcome
  have hfront : Plain (text "req=" ++ decimal req.requestId.value.toNat ++
      text " workload=" ++ decimal req.workload.value.toNat ++
      text " outcome=" ++ d.outcome.toString) := by
    refine (((((?_ : Plain _).append (decimal_plain _)).append ?_).append
      (decimal_plain _)).append ?_).append (outcome_plain _)
    all_goals decide
  have ht : (text "req=").length = 4 ∧ (text " workload=").length = 10 ∧
      (text " outcome=").length = 9 := by decide
  unfold historyEntry
  cases hp : d.plan with
  | none =>
    refine ⟨hfront.append (by decide),?_⟩
    simp only [List.length_append,List.length_nil]
    omega
  | some p =>
    obtain ⟨hplain,hlen⟩ := hd p hp
    have h3 := decimal_length p.planId.value.toNat_lt
    have h4 := decimal_length p.candidateId.value.toNat_lt
    have hs := toString_length p.strategy
    have ht' : (text " plan=").length = 6 ∧ (text " strategy=").length = 10 ∧
        (text " candidate=").length = 11 ∧ (text " digest=").length = 8 := by decide
    constructor
    · refine hfront.append (((((((( ?_ : Plain _).append (decimal_plain _)).append ?_).append
        (toString_plain _)).append ?_).append (decimal_plain _)).append ?_).append hplain)
      all_goals decide
    · simp only [List.length_append]
      omega

theorem cstringLoop_length (bs : Bytes) (size : Nat) (h0 : size ≤ 4096)
    (h : (cstringLoop bs size).2.2 = false) : size+(cstringLoop bs size).1.length ≤ 4096 := by
  induction bs generalizing size with
  | nil => simp [cstringLoop] at h
  | cons x bs ih =>
    unfold cstringLoop at h ⊢
    split at h
    · rename_i hx
      simpa [hx] using h0
    · rename_i hx
      split at h
      · simp at h
      · rename_i hn
        have hlen := ih (size+1) (by omega) h
        simp only [hx,hn,if_false,List.length_cons]
        omega

/-- Even what the reader returns as it fails has no NUL in it. -/
theorem cstring_plain (r : ByteReader) : Plain (cstring r).1 := by
  unfold cstring
  split
  · exact fun b hb => absurd hb List.not_mem_nil
  · exact cstringLoop_ne_zero _ _

theorem yields_cstring : Yields cstring Kept := by
  intro r h
  refine ⟨cstring_plain r,?_⟩
  unfold cstring at h ⊢
  split at h
  · rename_i hf
    rw [hf] at h
    exact absurd h (by simp)
  · rename_i hf
    have hlen := cstringLoop_length r.rest 0 (by omega) h
    simpa [hf] using hlen

theorem yields_strings : Yields (readList cstring) (fun xs => ∀ s ∈ xs, Kept s) :=
  .skip fun n => yields_cstring.times sticky_cstring n.toNat

structure RecoveryPlan.Kept (p : RecoveryPlan) : Prop where
  dispatchPayload : RecoveryPlanner.Kept p.dispatchPayload
  decisionDigest : RecoveryPlanner.Kept p.decisionDigest

theorem RecoveryPlan.Kept.readable {p : RecoveryPlan} (h : p.Kept) : p.Readable :=
  ⟨h.dispatchPayload.shortStr,h.decisionDigest.shortStr⟩

theorem RecoveryPlan.Kept.explained {p : RecoveryPlan} (h : p.Kept) (e : PlanExplanation) :
    { p with explanation := e : RecoveryPlan }.Kept := ⟨h.1,h.2⟩

theorem yields_readPlan : Yields readPlan RecoveryPlan.Kept := by
  unfold readPlan
  iterate 21 refine .skip fun _ => ?_
  refine yields_cstring.bind (fun _ => sticky_cstring.bind fun _ => sticky_pure _) ?_
  intro payload hp
  refine yields_cstring.bind (fun _ => sticky_pure _) ?_
  intro digest hd
  exact yields_pure ⟨hp,hd⟩

/-- What every state of a planner satisfies, also one that has read arbitrary bytes. -/
structure Impl.Tidy (im : Impl) : Prop where
  plansKeyed : Impl.Keyed im.plans
  plans : ∀ k p, im.plans.find? k = some p → p.Kept
  requests : ∀ k q, im.requests.find? k = some q → q.requestId.value = k
  history : ∀ s ∈ im.history, Plain s

namespace Impl

theorem construct_tidy (hasStore : Bool) : (Impl.construct hasStore).Tidy := by
  refine ⟨?_,?_,?_,?_⟩
  · exact fun k p h => absurd h (by simp [construct])
  · exact fun k p h => absurd h (by simp [construct])
  · exact fun k q h => absurd h (by simp [construct])
  · exact fun s h => absurd h (by simp [construct])

theorem applyHistory_tidy {im : Impl} (h : im.Tidy) (r : ByteReader) :
    (im.applyHistory r).2.Tidy :=
  ⟨h.plansKeyed,h.plans,h.requests,mem_times cstring_plain _ _⟩

theorem applyPlans_tidy {im : Impl} (h : im.Tidy) (r : ByteReader) :
    (im.applyPlans r).2.Tidy := by
  let I : SortedMap UInt64 RecoveryPlan → Prop := fun m =>
    Keyed m ∧ ∀ k p, m.find? k = some p → p.Kept
  have hput : ∀ m q, q.Kept → I m → I (putDecoded m q) := by
    rintro m q hq ⟨hm,hs⟩
    refine ⟨putDecoded_keyed m q hm,fun k p hp => ?_⟩
    rw [putDecoded,SortedMap.find?_insert] at hp
    split at hp
    · rw [← Option.some.inj hp]
      exact hq
    · exact hs k p hp
  have hempty : I .empty := ⟨fun k p hp => absurd hp (by simp),fun k p hp => absurd hp (by simp)⟩
  have hc := collect_yields yields_readPlan hput (u32 r).1.toNat .empty (u32 r).2 hempty
  have htidy : { im with plans := (collect readPlan putDecoded (u32 r).1.toNat .empty
      (u32 r).2).1.2 : Impl }.Tidy := ⟨hc.1,hc.2,h.requests,h.history⟩
  unfold applyPlans
  dsimp only
  split
  · exact applyHistory_tidy htidy _
  · exact htidy

theorem applyRequests_tidy {im : Impl} (h : im.Tidy) (r : ByteReader) :
    (im.applyRequests r).2.Tidy := by
  have hput : ∀ (m : SortedMap UInt64 RecoveryRequest) q,
      (∀ k q, m.find? k = some q → q.requestId.value = k) →
      ∀ k p, (putRequest m q).find? k = some p → p.requestId.value = k := by
    intro m q hm k p hp
    rw [putRequest,SortedMap.find?_insert] at hp
    split at hp
    · rename_i hk
      rw [← Option.some.inj hp]
      exact hk.symm
    · exact hm k p hp
  have hc := collect_preserves (p := readRequest) hput (u32 r).1.toNat .empty (u32 r).2
    (fun k p hp => absurd hp (by simp))
  have htidy : { im with requests := (collect readRequest putRequest (u32 r).1.toNat .empty
      (u32 r).2).1.2 : Impl }.Tidy := ⟨h.plansKeyed,h.plans,hc,h.history⟩
  unfold applyRequests
  dsimp only
  split
  · exact applyPlans_tidy htidy _
  · exact htidy

theorem Tidy.withCtx {im : Impl} (h : im.Tidy) (ctx : PlannerContext) :
    { im with ctx := ctx : Impl }.Tidy := ⟨h.plansKeyed,h.plans,h.requests,h.history⟩

/-- Whatever the bytes. -/
theorem applySnapshot_tidy {im : Impl} (h : im.Tidy) (bytes : Bytes) (preserveEpochBoot : Bool) :
    (im.applySnapshot bytes preserveEpochBoot).2.Tidy := by
  unfold applySnapshot
  dsimp only
  split
  · exact h
  · unfold applyBody
    dsimp only
    split
    · exact h.withCtx _
    · exact applyRequests_tidy (h.withCtx _) _

theorem loadState_tidy {im : Impl} (h : im.Tidy) (disk : Disk) : (im.loadState disk).2.Tidy := by
  rcases im.loadState_cases disk with heq | ⟨blob,_,_,heq⟩
  · rw [heq]
    exact h
  · rw [heq]
    exact applySnapshot_tidy h blob false

theorem retire_kept {p : RecoveryPlan} (h : p.Kept) (now : Timestamp) : (retire now p).Kept := by
  unfold retire
  split
  · exact h
  · exact ⟨h.dispatchPayload,h.decisionDigest⟩

theorem retirePlans_tidy {im : Impl} (h : im.Tidy) (clock : UInt64 → Timestamp) :
    (im.retirePlans clock).recordRestart.Tidy := by
  refine ⟨retirePlans_keyed im h.plansKeyed clock,fun k p hk => ?_,h.requests,fun s hs => ?_⟩
  · obtain ⟨q,hq,rfl⟩ := find?_retirePlans hk
    exact retire_kept (h.plans k q hq) _
  · rw [recordRestart_history] at hs
    rcases List.mem_append.mp hs with hs | hs
    · exact h.history s hs
    · rw [List.mem_singleton.mp hs]
      exact (restartEntry_kept _).plain

theorem restartReloading_tidy {im : Impl} (h : im.Tidy) (clock : UInt64 → Timestamp)
    (reload : Disk) : (im.restartReloading clock reload).Tidy := by
  have hnext : im.advanceEpoch.Tidy := h.withCtx _
  rcases im.restartReloading_cases clock reload with heq | ⟨blob,_,_,heq⟩
  · rw [heq]
    exact retirePlans_tidy hnext clock
  · rw [heq]
    exact retirePlans_tidy (applySnapshot_tidy hnext blob true) clock

theorem buildPlan_kept (im : Impl) (req : RecoveryRequest) (rc : RankedCandidate)
    (now : Timestamp) : (im.buildPlan req rc now).Kept := by
  have hpayload := buildPayload_plain rc.candidate
  exact ⟨⟨hpayload,hpayload.shortStr_iff.mp (buildPayload_short _)⟩,
    ⟨decisionDigest_plain _ _ _,by rw [buildPlan,decisionDigest_length]; norm_num⟩⟩

theorem buildPlan_entry (im : Impl) (req : RecoveryRequest) (rc : RankedCandidate)
    (now : Timestamp) {d : RecoveryDecision} {e : PlanExplanation}
    (h : d.plan = some { im.buildPlan req rc now with explanation := e }) :
    Kept (historyEntry req d) := by
  refine historyEntry_kept req fun p hp => ?_
  obtain rfl := Option.some.inj (h.symm.trans hp)
  exact ⟨decisionDigest_plain _ _ _,decisionDigest_length _ _ _⟩

/-- What a critical section can do to the requests and the history. -/
structure Records (im im' : Impl) : Prop where
  requests : im'.requests = im.requests ∨
    ∃ q, im'.requests = im.requests.insert q.requestId.value q
  history : im'.history = im.history ∨ ∃ e, Kept e ∧ im'.history = im.history ++ [e]

theorem Records.refl (im : Impl) : Records im im := ⟨.inl rfl,.inl rfl⟩

theorem plan_records (std : StdSort) (im : Impl) (now : Timestamp) (req : RecoveryRequest)
    (candidates : List RecoveryCandidate) :
    Records im (im.plan std now req candidates).2 ∧
      ∀ p, (im.plan std now req candidates).1.plan = some p → p.Kept := by
  unfold Impl.plan
  split
  · exact ⟨.refl im,fun p hp => absurd hp (by simp)⟩
  · dsimp only
    split
    · split
      · refine ⟨⟨.inl rfl,.inr ⟨_,historyEntry_kept req fun p hp => ?_,rfl⟩⟩,fun p hp => ?_⟩
        · exact absurd hp (by simp)
        · exact absurd hp (by simp)
      · refine ⟨⟨.inl rfl,.inr ⟨_,buildPlan_entry im req _ now rfl,rfl⟩⟩,fun p hp => ?_⟩
        rw [← Option.some.inj hp]
        exact buildPlan_kept _ _ _ _
    · refine ⟨⟨.inr ⟨req,rfl⟩,.inr ⟨_,buildPlan_entry im req _ now rfl,rfl⟩⟩,fun p hp => ?_⟩
      rw [← Option.some.inj hp]
      exact (buildPlan_kept im req _ now).explained _

theorem Settles.records {im im' : Impl} (h : Settles im im') : Records im im' := by
  cases h with
  | same => exact .refl im
  | put hk he => exact ⟨.inl rfl,.inl rfl⟩

end Impl

theorem Node.act_records (std : StdSort) (n : Node) (a : Act) :
    Impl.Records n.impl (n.act std a).impl := by
  cases a with
  | plan now request candidates => exact (n.impl.plan_records std now request candidates).1
  | authorizePlan now plan => exact (n.impl.authorizePlan_settles now plan).records
  | revalidatePlan plan => exact .refl _
  | dispatchBegin now plan =>
    rcases n.act_dispatchBegin std now plan with h | ⟨p,_,_,_,h⟩
    · rw [h]
      exact .refl _
    · rw [h]
      exact ⟨.inl rfl,.inl rfl⟩
  | dispatchEnd now call status =>
    simp only [act]
    split
    · exact (n.impl.dispatchEnd_settles now _ status).records
    · exact .refl _
  | reportExecution now report => exact (n.impl.reportExecution_settles now report).records
  | adapterTake dispatchId outcome =>
    simp only [act,Impl.adapterTake]
    cases n.impl.dispatchMeta.find? dispatchId.value with
    | none => exact .refl _
    | some m => exact ⟨.inl rfl,.inl rfl⟩
  | adapterDeliver now call =>
    simp only [act]
    split
    · exact (n.impl.reportExecution_settles now _).records
    · exact .refl _
  | cancelPlan now planId force => exact (n.impl.cancelPlan_settles now planId force).records
  | invalidatePlan now planId => exact (n.impl.invalidatePlan_settles now planId).records
  | registerWorker w boot => exact ⟨.inl rfl,.inl rfl⟩
  | unregisterWorker w => exact ⟨.inl rfl,.inl rfl⟩
  | setResource kind amount => exact ⟨.inl rfl,.inl rfl⟩
  | setRecomputeAvailable gen available =>
    simp only [act,Impl.setRecomputeAvailable]
    split <;> exact ⟨.inl rfl,.inl rfl⟩

theorem Evolves.kept {p p' : RecoveryPlan} (h : Evolves p p') (hp : p.Kept) : p'.Kept := by
  cases h <;> exact ⟨hp.dispatchPayload,hp.decisionDigest⟩

theorem Node.act_tidy (std : StdSort) {n : Node} (h : n.impl.Tidy) (a : Act) :
    (n.act std a).impl.Tidy := by
  have hrec := n.act_records std a
  refine ⟨(n.act_step std a).keyed h.plansKeyed,fun k p' hp' => ?_,fun k q hq => ?_,fun s hs => ?_⟩
  · cases (n.act_step std a).record h.plansKeyed k with
    | same plan life => exact h.plans k p' (plan.symm.trans hp')
    | created fresh key plan log =>
      obtain ⟨now,request,cs,rfl,hplan⟩ := act_created log
      obtain rfl := Option.some.inj (plan.symm.trans hp')
      exact (n.impl.plan_records std now request cs).2 _ hplan
    | evolved before he plan life =>
      obtain rfl := Option.some.inj (plan.symm.trans hp')
      exact he.kept (h.plans k _ before)
    | handedOff before hs hcur plan life =>
      obtain rfl := Option.some.inj (plan.symm.trans hp')
      exact ⟨(h.plans k _ before).1,(h.plans k _ before).2⟩
  · rcases hrec.requests with hr | ⟨r,hr⟩
    · exact h.requests k q (hr ▸ hq)
    · rw [hr,SortedMap.find?_insert] at hq
      split at hq
      · rename_i hk
        rw [← Option.some.inj hq]
        exact hk.symm
      · exact h.requests k q hq
  · rcases hrec.history with hh | ⟨e,he,hh⟩
    · exact h.history s (hh ▸ hs)
    · rw [hh] at hs
      rcases List.mem_append.mp hs with hs | hs
      · exact h.history s hs
      · rw [List.mem_singleton.mp hs]
        exact he.plain

end RecoveryPlanner
