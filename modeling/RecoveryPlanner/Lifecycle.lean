import RecoveryPlanner.Reload
set_option autoImplicit false

/-! The life of one plan record: what a single operation can do to it, and what
holds of a record however it got there. -/

namespace RecoveryPlanner

open PlanLifecycleState

/-- One operation applied to one stored record. The guards are those of the source;
every constructor leaves the fence alone. -/
inductive Evolves : RecoveryPlan → RecoveryPlan → Prop where
  /-- Only the clock reading changes. -/
  | touch (p : RecoveryPlan) (now : Timestamp) : Evolves p { p with updatedAt := now }
  | authorize (p : RecoveryPlan) (now : Timestamp)
      (h : validatePlanTransition p.state .authorized = true) :
      Evolves p { p with state := .authorized, updatedAt := now }
  | execute (p : RecoveryPlan) (now : Timestamp) (h : p.state = .dispatched) :
      Evolves p { p with state := .executing, updatedAt := now }
  /-- The executor did not take the dispatch. -/
  | refuse (p : RecoveryPlan) (now : Timestamp)
      (h : validatePlanTransition p.state .failed = true) :
      Evolves p { p with state := .failed, updatedAt := now }
  | succeed (p : RecoveryPlan) (now : Timestamp)
      (h : validatePlanTransition p.state .succeeded = true) :
      Evolves p { p with
        state := .succeeded
        executionOutcome := .succeeded
        outcomePublished := true
        updatedAt := now }
  | fail (p : RecoveryPlan) (now : Timestamp)
      (h : validatePlanTransition p.state .failed = true) :
      Evolves p { p with
        state := .failed
        executionOutcome := .failed
        outcomePublished := true
        updatedAt := now }
  /-- An ambiguous, unknown or cancelled report. -/
  | abandon (p : RecoveryPlan) (now : Timestamp) (outcome : ExecutionOutcome)
      (ho : outcome ≠ .succeeded) (h : validatePlanTransition p.state .failed = true)
      (hf : outcome ≠ .failed) :
      Evolves p { p with
        state := .failed
        executionOutcome := outcome
        outcomePublished := false
        updatedAt := now }
  | cancel (p : RecoveryPlan) (now : Timestamp)
      (h : validatePlanTransition p.state .cancelled = true) :
      Evolves p { p with
        state := .cancelled
        executionOutcome := .cancelled
        updatedAt := now }
  | invalidate (p : RecoveryPlan) (now : Timestamp)
      (h : validatePlanTransition p.state .invalidated = true) :
      Evolves p { p with state := .invalidated, updatedAt := now }
  | supersede (p : RecoveryPlan) (now : Timestamp)
      (h : validatePlanTransition p.state .superseded = true) :
      Evolves p { p with state := .superseded, updatedAt := now }

def RecoveryPlan.dispatched (p : RecoveryPlan) (now : Timestamp) : RecoveryPlan :=
  { p with
    updatedAt := now
    lastAttempt := ⟨p.lastAttempt.value+1⟩
    state := .dispatched }

/-- The consistency of state, outcome, publication and attempt count. -/
structure RecordSound (p : RecoveryPlan) : Prop where
  reached : p.state = .planned ∨ p.state = .authorized ∨ p.state = .dispatched ∨
    p.state = .executing ∨ p.state = .succeeded ∨ p.state = .failed ∨ p.state = .superseded ∨
    p.state = .cancelled ∨ p.state = .invalidated
  succeeded : p.executionOutcome = .succeeded ↔ p.state = .succeeded
  published : p.outcomePublished = true ↔
    p.state = .succeeded ∨ (p.state = .failed ∧ p.executionOutcome = .failed)
  cancelled : p.state = .cancelled → p.executionOutcome = .cancelled
  quiet : p.state = .planned ∨ p.state = .authorized ∨ p.state = .dispatched ∨
      p.state = .executing ∨ p.state = .superseded ∨ p.state = .invalidated →
    p.executionOutcome = .unknown ∧ p.outcomePublished = false
  unattempted : p.state = .planned ∨ p.state = .authorized → p.lastAttempt.value = 0
  attempted : p.state = .dispatched ∨ p.state = .executing ∨ p.state = .succeeded ∨
    p.state = .failed → p.lastAttempt.value = 1
  attempts : p.lastAttempt.value = 0 ∨ p.lastAttempt.value = 1

section Table

attribute [local simp] validatePlanTransition terminal

theorem validate_authorized {s : PlanLifecycleState} :
    validatePlanTransition s .authorized = true ↔ s = .planned ∨ s = .authorized := by
  cases s <;> simp

theorem validate_failed {s : PlanLifecycleState} :
    validatePlanTransition s .failed = true ↔ s = .dispatched ∨ s = .executing := by
  cases s <;> simp

theorem validate_succeeded {s : PlanLifecycleState} :
    validatePlanTransition s .succeeded = true ↔ s = .dispatched ∨ s = .executing := by
  cases s <;> simp

theorem validate_cancelled {s : PlanLifecycleState} :
    validatePlanTransition s .cancelled = true ↔
      s = .requested ∨ s = .evaluating ∨ s = .planned ∨ s = .authorized := by
  cases s <;> simp

theorem validate_invalidated {s : PlanLifecycleState} :
    validatePlanTransition s .invalidated = true ↔
      s = .requested ∨ s = .evaluating ∨ s = .planned ∨ s = .authorized ∨ s = .dispatched ∨
        s = .executing := by
  cases s <;> simp

theorem validate_superseded {s : PlanLifecycleState} :
    validatePlanTransition s .superseded = true ↔
      s = .planned ∨ s = .authorized ∨ s = .dispatched ∨ s = .executing := by
  cases s <;> simp

theorem validate_not_terminal {s t : PlanLifecycleState}
    (h : validatePlanTransition s t = true) : s.terminal = false := by
  unfold validatePlanTransition at h
  split at h
  · exact nomatch h
  · rename_i hne
    exact Bool.eq_false_iff.mpr hne

end Table

theorem Evolves.fence {p p' : RecoveryPlan} (h : Evolves p p') : p'.fence = p.fence := by
  cases h <;> rfl

theorem Evolves.requestId {p p' : RecoveryPlan} (h : Evolves p p') :
    p.requestId = p'.requestId := (congrArg PlanFence.requestId h.fence).symm

theorem Evolves.readable {p p' : RecoveryPlan} (h : Evolves p p') (hp : p.Readable) :
    p'.Readable := by
  cases h <;> exact hp

theorem Evolves.lastAttempt {p p' : RecoveryPlan} (h : Evolves p p') :
    p'.lastAttempt = p.lastAttempt := by
  cases h <;> rfl

theorem Evolves.state {p p' : RecoveryPlan} (h : Evolves p p') :
    p'.state = p.state ∨ validatePlanTransition p.state p'.state = true := by
  cases h with
  | touch now => exact .inl rfl
  | execute now h =>
    right
    show validatePlanTransition p.state .executing = true
    rw [h]
    rfl
  | authorize now h => exact .inr h
  | refuse now h => exact .inr h
  | succeed now h => exact .inr h
  | fail now h => exact .inr h
  | abandon now outcome ho h hf => exact .inr h
  | cancel now h => exact .inr h
  | invalidate now h => exact .inr h
  | supersede now h => exact .inr h

/-- What a terminal record keeps for good. -/
structure SameVerdict (p p' : RecoveryPlan) : Prop where
  state : p'.state = p.state
  outcome : p'.executionOutcome = p.executionOutcome
  published : p'.outcomePublished = p.outcomePublished

theorem SameVerdict.refl (p : RecoveryPlan) : SameVerdict p p := ⟨rfl,rfl,rfl⟩

theorem SameVerdict.trans {p q r : RecoveryPlan} (h : SameVerdict p q) (h' : SameVerdict q r) :
    SameVerdict p r :=
  ⟨h'.1.trans h.1,h'.2.trans h.2,h'.3.trans h.3⟩

theorem Evolves.terminal {p p' : RecoveryPlan} (h : Evolves p p')
    (ht : p.state.terminal = true) : SameVerdict p p' := by
  have hno : ∀ t, validatePlanTransition p.state t ≠ true := by
    intro t hv
    rw [validate_not_terminal hv] at ht
    exact absurd ht (by simp)
  cases h with
  | touch now => exact ⟨rfl,rfl,rfl⟩
  | execute now h =>
    rw [h] at ht
    exact absurd ht (by decide)
  | authorize now h => exact absurd h (hno _)
  | refuse now h => exact absurd h (hno _)
  | succeed now h => exact absurd h (hno _)
  | fail now h => exact absurd h (hno _)
  | abandon now outcome ho h hf => exact absurd h (hno _)
  | cancel now h => exact absurd h (hno _)
  | invalidate now h => exact absurd h (hno _)
  | supersede now h => exact absurd h (hno _)

/-- No operation brings a terminal record back. -/
theorem Evolves.alive {p p' : RecoveryPlan} (h : Evolves p p')
    (ha : p'.state.terminal = false) : p.state.terminal = false := by
  by_contra hne
  have ht : p.state.terminal = true := by simpa using hne
  rw [(h.terminal ht).state,ht] at ha
  exact absurd ha (by simp)

theorem Evolves.sound {p p' : RecoveryPlan} (h : Evolves p p') (hp : RecordSound p) :
    RecordSound p' := by
  obtain ⟨reached,succeeded,published,cancelled,quiet,unattempted,attempted,attempts⟩ := hp
  cases h with
  | touch now =>
    exact ⟨reached,succeeded,published,cancelled,quiet,unattempted,attempted,attempts⟩
  | execute now h =>
    have hq := quiet (by simp [h])
    have ha := attempted (by simp [h])
    constructor <;> simp [hq,ha]
  | authorize now h =>
    have h := validate_authorized.mp h
    have hq := quiet (by rcases h with h | h <;> simp [h])
    have ha := unattempted h
    constructor <;> simp [hq,ha]
  | refuse now h =>
    have h := validate_failed.mp h
    have hq := quiet (by rcases h with h | h <;> simp [h])
    have ha := attempted (by rcases h with h | h <;> simp [h])
    constructor <;> simp [hq,ha]
  | succeed now h =>
    have h := validate_succeeded.mp h
    have ha := attempted (by rcases h with h | h <;> simp [h])
    constructor <;> simp [ha]
  | fail now h =>
    have h := validate_failed.mp h
    have ha := attempted (by rcases h with h | h <;> simp [h])
    constructor <;> simp [ha]
  | abandon now outcome ho h hf =>
    have h := validate_failed.mp h
    have ha := attempted (by rcases h with h | h <;> simp [h])
    constructor <;> simp [ha,ho,hf]
  | cancel now h =>
    have h : p.state = .planned ∨ p.state = .authorized := by
      have h := validate_cancelled.mp h
      rcases h with h | h | h | h <;> simp [h] at reached ⊢
    have hq := quiet (by rcases h with h | h <;> simp [h])
    have ha := unattempted h
    constructor <;> simp [hq,ha]
  | invalidate now h =>
    have hq : p.executionOutcome = .unknown ∧ p.outcomePublished = false := by
      have h := validate_invalidated.mp h
      rcases h with h | h | h | h | h | h
      · simp [h] at reached
      · simp [h] at reached
      · exact quiet (by simp [h])
      · exact quiet (by simp [h])
      · exact quiet (by simp [h])
      · exact quiet (by simp [h])
    constructor <;> simp [hq,attempts]
  | supersede now h =>
    have h := validate_superseded.mp h
    have hq := quiet (by rcases h with h | h | h | h <;> simp [h])
    constructor <;> simp [hq,attempts]

theorem RecoveryPlan.dispatched_sound {p : RecoveryPlan} (hp : RecordSound p)
    (h : p.state = .authorized) (now : Timestamp) : RecordSound (p.dispatched now) := by
  have hq := hp.quiet (by simp [h])
  have ha := hp.unattempted (by simp [h])
  constructor <;> simp [RecoveryPlan.dispatched,hq,ha]

theorem RecoveryPlan.durable_sound {p : RecoveryPlan} (hp : RecordSound p) :
    RecordSound p.durable :=
  ⟨hp.1,hp.2,hp.3,hp.4,hp.5,hp.6,hp.7,hp.8⟩

theorem RecordSound.alive {p : RecoveryPlan} (hp : RecordSound p)
    (h : p.state.terminal = false) :
    p.state = .planned ∨ p.state = .authorized ∨ p.state = .dispatched ∨
      p.state = .executing := by
  rcases hp.reached with hs | hs | hs | hs | hs | hs | hs | hs | hs <;>
    simp [hs,PlanLifecycleState.terminal] at h ⊢

/-- The restart loop does what `invalidate_plan` does, or nothing. -/
theorem retire_evolves {p : RecoveryPlan} (hp : RecordSound p) (now : Timestamp) :
    Impl.retire now p = p ∨ Evolves p (Impl.retire now p) := by
  unfold Impl.retire
  split
  · exact .inl rfl
  · rename_i ht
    have ha := hp.alive (by simpa using ht)
    exact .inr (.invalidate p now (validate_invalidated.mpr
      (by rcases ha with h | h | h | h <;> simp [h])))

theorem retire_terminal {p : RecoveryPlan} (now : Timestamp) :
    (Impl.retire now p).state.terminal = true := by
  unfold Impl.retire
  split
  · rename_i ht
    exact ht
  · rfl

theorem Impl.restartReloading_terminal {im : Impl} {clock : UInt64 → Timestamp} {reload : Disk}
    {k : UInt64} {p : RecoveryPlan}
    (hk : (im.restartReloading clock reload).plans.find? k = some p) :
    p.state.terminal = true := by
  obtain ⟨q,_,rfl⟩ := Impl.find?_retirePlans hk
  exact retire_terminal _

/-- What a restart makes of a record, which may or may not have been through the store. -/
def Survives (p p' : RecoveryPlan) : Prop :=
  ∃ q now, (q = p ∨ q = p.durable) ∧ p' = Impl.retire now q

theorem Survives.steps {p p' : RecoveryPlan} (h : Survives p p') (hp : RecordSound p) :
    ∃ q, (q = p ∨ q = p.durable) ∧ (p' = q ∨ Evolves q p') := by
  obtain ⟨q,now,hq,rfl⟩ := h
  have hs : RecordSound q := by
    rcases hq with rfl | rfl
    · exact hp
    · exact RecoveryPlan.durable_sound hp
  exact ⟨q,hq,retire_evolves hs now⟩

theorem Survives.rule {p p' : RecoveryPlan} (h : Survives p p') (hp : RecordSound p)
    {Q : RecoveryPlan → Prop} (h0 : Q p) (hd : Q p.durable)
    (hstep : ∀ q r, Evolves q r → Q q → Q r) : Q p' := by
  obtain ⟨q,hq,h⟩ := h.steps hp
  have hs : Q q := by
    rcases hq with rfl | rfl
    · exact h0
    · exact hd
  rcases h with rfl | he
  · exact hs
  · exact hstep q p' he hs

theorem Survives.sound {p p' : RecoveryPlan} (h : Survives p p') (hp : RecordSound p) :
    RecordSound p' :=
  h.rule hp hp (RecoveryPlan.durable_sound hp) fun _ _ he hs => he.sound hs

theorem Survives.readable {p p' : RecoveryPlan} (h : Survives p p') (hp : RecordSound p)
    (hr : p.Readable) : p'.Readable :=
  h.rule hp hr hr.durable fun _ _ he hs => he.readable hs

theorem Survives.fence {p p' : RecoveryPlan} (h : Survives p p') (hp : RecordSound p) :
    p'.fence = p.fence :=
  h.rule (Q := fun q => q.fence = p.fence) hp rfl rfl fun _ _ he hs => he.fence.trans hs

theorem Survives.lastAttempt {p p' : RecoveryPlan} (h : Survives p p') (hp : RecordSound p) :
    p'.lastAttempt = p.lastAttempt :=
  h.rule (Q := fun q => q.lastAttempt = p.lastAttempt) hp rfl rfl
    fun _ _ he hs => he.lastAttempt.trans hs

theorem Survives.state {p p' : RecoveryPlan} (h : Survives p p') (hp : RecordSound p) :
    p'.state = p.state ∨ validatePlanTransition p.state p'.state = true := by
  obtain ⟨q,hq,hstep⟩ := h.steps hp
  have hs : q.state = p.state := by rcases hq with rfl | rfl <;> rfl
  rcases hstep with rfl | he
  · exact .inl hs
  · rw [← hs]
    exact he.state

theorem Survives.terminal {p p' : RecoveryPlan} (h : Survives p p') (hp : RecordSound p)
    (ht : p.state.terminal = true) : SameVerdict p p' :=
  h.rule (Q := SameVerdict p) hp (.refl p) ⟨rfl,rfl,rfl⟩
    fun _ _ he hs => hs.trans (he.terminal (by rw [hs.state]; exact ht))

theorem settleReceipt_evolves (status : DispatchStatus) (p : RecoveryPlan) (now : Timestamp) :
    Evolves p { Impl.settleReceipt status p with updatedAt := now } := by
  unfold Impl.settleReceipt
  split
  · rename_i h
    have hs : p.state = .dispatched := by simp at h; exact h.1
    split
    · exact .execute p now hs
    · exact .touch p now
  · split
    · split
      · rename_i hv
        exact .refuse p now hv
      · exact .touch p now
    · exact .touch p now

theorem settleReport_evolves (outcome : ExecutionOutcome) (p : RecoveryPlan) (now : Timestamp) :
    Evolves p { Impl.settleReport outcome p with updatedAt := now } := by
  cases outcome with
  | succeeded =>
    unfold Impl.settleReport
    dsimp only
    split
    · rename_i h
      exact .succeed p now h
    · exact .touch p now
  | failed =>
    unfold Impl.settleReport
    dsimp only
    split
    · rename_i h
      exact .fail p now h
    · exact .touch p now
  | undeclared i => exact .touch p now
  | ambiguous | unknown | cancelled =>
    unfold Impl.settleReport
    dsimp only
    split
    · rename_i h
      exact .abandon p now _ (by simp) h (by simp)
    · exact .touch p now

theorem supersede_evolves (req : RecoveryRequest) (keep : RecoveryPlanId) (now : Timestamp)
    (p : RecoveryPlan) :
    Impl.supersede req keep now p = p ∨ Evolves p (Impl.supersede req keep now p) := by
  unfold Impl.supersede
  split
  · exact .inl rfl
  · split
    · rename_i h
      simp only [Bool.and_eq_true] at h
      exact .inr (.supersede p now h.2)
    · exact .inl rfl

theorem supersede_terminal {req : RecoveryRequest} {keep : RecoveryPlanId} {now : Timestamp}
    {p : RecoveryPlan} (hp : RecordSound p) (hkeep : p.planId ≠ keep)
    (hreq : p.requestId = req.requestId) :
    (Impl.supersede req keep now p).state.terminal = true := by
  unfold Impl.supersede
  rw [if_neg hkeep]
  by_cases ht : p.state.terminal = true
  · simp [ht]
  · have ha := hp.alive (by simpa using ht)
    have hv : validatePlanTransition p.state .superseded = true :=
      validate_superseded.mpr ha
    have hcond : (p.requestId = req.requestId && !p.state.terminal &&
        validatePlanTransition p.state .superseded) = true := by
      simp [ht,hv,hreq]
    rw [if_pos hcond]
    rfl

theorem decimal_length {n : Nat} (h : n < 2^64) : (decimal n).length ≤ 20 := by
  unfold decimal
  split
  · decide
  · have hd := (Nat.digits_length_le_iff (by norm_num : 1 < 10) (k := 20) n).mpr
      (lt_of_lt_of_le h (by norm_num))
    simpa using hd

theorem shortStr_of_length {s : Str} (h : s.length ≤ 4096) : ShortStr s :=
  le_trans (List.takeWhile_sublist _).length_le h

theorem toString_length (s : RecoveryStrategy) : s.toString.length ≤ 14 := by
  cases s with
  | undeclared i => exact (by decide : (text "UNKNOWN").length ≤ 14)
  | _ => decide

theorem buildPayload_short (c : RecoveryCandidate) : ShortStr (buildPayload c) := by
  have hs := toString_length c.strategy
  have h1 := decimal_length c.targetWorker.value.toNat_lt
  have h2 := decimal_length c.targetBoot.value.toNat_lt
  have h3 := decimal_length c.stateSource.value.toNat_lt
  have h4 := decimal_length c.stateGeneration.value.toNat_lt
  have ht : (text "|worker=").length = 8 ∧ (text "|boot=").length = 6 ∧
      (text "|state=").length = 7 ∧ (text "|state_gen=").length = 11 := by decide
  apply shortStr_of_length
  simp only [buildPayload,List.length_append]
  omega

theorem decisionDigest_short (req : RecoveryRequest) (plan : RecoveryPlan)
    (ctx : PlannerContext) : ShortStr (decisionDigest req plan ctx) := by
  apply shortStr_of_length
  simp [decisionDigest,hexEncode,sha256]

structure WellKept (k : UInt64) (p : RecoveryPlan) : Prop where
  sound : RecordSound p
  readable : p.Readable
  keyed : p.planId.value = k

theorem WellKept.of_fence {k : UInt64} {p p' : RecoveryPlan} (h : WellKept k p)
    (hs : RecordSound p') (hr : p'.Readable) (hf : p'.fence = p.fence) : WellKept k p' := by
  have hid : p'.planId = p.planId := congrArg PlanFence.planId hf
  exact ⟨hs,hr,by rw [hid]; exact h.keyed⟩

theorem Evolves.wellKept {k : UInt64} {p p' : RecoveryPlan} (h : Evolves p p')
    (hp : WellKept k p) : WellKept k p' :=
  hp.of_fence (h.sound hp.sound) (h.readable hp.readable) h.fence

theorem Survives.wellKept {k : UInt64} {p p' : RecoveryPlan} (h : Survives p p')
    (hp : WellKept k p) : WellKept k p' :=
  hp.of_fence (h.sound hp.sound) (h.readable hp.sound hp.readable) (h.fence hp.sound)

theorem WellKept.dispatched {k : UInt64} {p : RecoveryPlan} (h : WellKept k p)
    (hs : p.state = .authorized) (now : Timestamp) : WellKept k (p.dispatched now) :=
  h.of_fence (RecoveryPlan.dispatched_sound h.sound hs now) h.readable rfl

theorem WellKept.durable {k : UInt64} {p : RecoveryPlan} (h : WellKept k p) :
    WellKept k p.durable :=
  h.of_fence (RecoveryPlan.durable_sound h.sound) h.readable.durable rfl

def Impl.WellKept (im : Impl) : Prop := ∀ k p, im.plans.find? k = some p → RecoveryPlanner.WellKept k p

theorem Impl.WellKept.plansSound {im : Impl} (h : im.WellKept) : Impl.PlansSound im.plans :=
  ⟨fun k p hk => (h k p hk).keyed,fun k p hk => (h k p hk).readable⟩

theorem Impl.construct_wellKept (hasStore : Bool) : (Impl.construct hasStore).WellKept := by
  intro k p h
  exact absurd h (by simp [Impl.construct])

end RecoveryPlanner
