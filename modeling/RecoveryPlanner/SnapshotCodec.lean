import RecoveryPlanner.Snapshot
set_option autoImplicit false

/-! Reading back what the encoder wrote. -/

namespace RecoveryPlanner

open Scan ByteReader

/-- What a request looks like after a trip through the store: strings are cut at
their first NUL, prior progress and value priorities are not written. -/
def RecoveryRequest.durable (q : RecoveryRequest) : RecoveryRequest :=
  { q with
    reason := cut q.reason
    priorProgress := {}
    stateRequirements := q.stateRequirements.map cut
    placementConstraints := q.placementConstraints.map cut
    compatibilityRequirements := q.compatibilityRequirements.map cut
    valuePriorities := [] }

/-- Economics, deadline and explanation are not written. -/
def RecoveryPlan.durable (p : RecoveryPlan) : RecoveryPlan :=
  { p with
    economics := {}
    deadline := {}
    explanation := {}
    dispatchPayload := cut p.dispatchPayload
    decisionDigest := cut p.decisionDigest }

def ShortStr (s : Str) : Prop := (cut s).length ≤ 4096

instance (s : Str) : Decidable (ShortStr s) := inferInstanceAs (Decidable (_ ≤ _))

structure RecoveryRequest.Readable (q : RecoveryRequest) : Prop where
  reason : ShortStr q.reason
  stateRequirements : ∀ s ∈ q.stateRequirements, ShortStr s
  placementConstraints : ∀ s ∈ q.placementConstraints, ShortStr s
  compatibilityRequirements : ∀ s ∈ q.compatibilityRequirements, ShortStr s

structure RecoveryRequest.CountsFit (q : RecoveryRequest) : Prop where
  preferredStrategies : q.preferredStrategies.length < 2^32
  forbiddenStrategies : q.forbiddenStrategies.length < 2^32
  stateRequirements : q.stateRequirements.length < 2^32
  placementConstraints : q.placementConstraints.length < 2^32
  compatibilityRequirements : q.compatibilityRequirements.length < 2^32

instance (q : RecoveryRequest) : Decidable q.CountsFit :=
  decidable_of_iff (q.preferredStrategies.length < 2^32 ∧ q.forbiddenStrategies.length < 2^32 ∧
      q.stateRequirements.length < 2^32 ∧ q.placementConstraints.length < 2^32 ∧
      q.compatibilityRequirements.length < 2^32)
    ⟨fun h => ⟨h.1,h.2.1,h.2.2.1,h.2.2.2.1,h.2.2.2.2⟩,fun h => ⟨h.1,h.2,h.3,h.4,h.5⟩⟩

theorem sticky_readFlagged {α : Type} {p : Scan UInt8 α} (hp : Sticky p) :
    Sticky (readFlagged p) := by
  refine sticky_u8.bind fun flag => ?_
  split
  · exact hp.bind fun _ => sticky_pure _
  · exact sticky_pure _

theorem sticky_readList {α : Type} {p : Scan UInt8 α} (hp : Sticky p) : Sticky (readList p) :=
  sticky_u32.bind fun n => hp.times n.toNat

theorem sticky_readWorker : Sticky readWorker :=
  sticky_u64.bind fun _ => sticky_u64.bind fun _ => sticky_pure _

theorem sticky_readAuthority : Sticky readAuthority := by
  unfold readAuthority
  iterate 13 refine sticky_u64.bind fun _ => ?_
  exact sticky_pure _

theorem sticky_readRequest : Sticky readRequest := by
  unfold readRequest
  iterate 6 refine sticky_u64.bind fun _ => ?_
  refine sticky_cstring.bind fun _ => ?_
  iterate 2 refine (sticky_readFlagged sticky_i64).bind fun _ => ?_
  refine (sticky_readFlagged sticky_u64).bind fun _ => ?_
  iterate 2 refine (sticky_readList sticky_u8).bind fun _ => ?_
  iterate 3 refine sticky_u64.bind fun _ => ?_
  refine sticky_i64.bind fun _ => ?_
  iterate 3 refine (sticky_readList sticky_cstring).bind fun _ => ?_
  exact sticky_pure _

theorem sticky_readPlan : Sticky readPlan := by
  unfold readPlan
  iterate 4 refine sticky_u64.bind fun _ => ?_
  refine sticky_u8.bind fun _ => ?_
  iterate 9 refine sticky_u64.bind fun _ => ?_
  refine sticky_readAuthority.bind fun _ => ?_
  iterate 3 refine sticky_u8.bind fun _ => ?_
  iterate 2 refine sticky_i64.bind fun _ => ?_
  refine sticky_u64.bind fun _ => ?_
  iterate 2 refine sticky_cstring.bind fun _ => ?_
  exact sticky_pure _

theorem decodes_flagged {α β : Type} {p : Scan UInt8 α} (enc : β → Bytes) (dec : β → α)
    (h : ∀ v, Decodes p (enc v) True (dec v)) (o : Option β) :
    Decodes (readFlagged p) (encodeFlagged enc o) True (o.map dec) := by
  cases o with
  | none =>
    have hn := (decodes_u8 0).andThen (f := fun flag => if flag ≠ 0 then
      (p >>= fun v => pure (some v)) else pure none) (decodes_pure (none : Option α))
    rw [List.append_nil] at hn
    exact hn
  | some v =>
    exact (decodes_u8 1).andThen (f := fun flag => if flag ≠ 0 then
      (p >>= fun v => pure (some v)) else pure none) ((h v).map rfl)

theorem decodes_list {α β : Type} {p : Scan UInt8 α} (enc : β → Bytes) (dec : β → α)
    (guard : β → Prop) (hp : Sticky p) {xs : List β} (hlen : xs.length < 2^32)
    (h : ∀ x ∈ xs, Decodes p (enc x) (guard x) (dec x)) :
    Decodes (readList p) (encodeList enc xs) (∀ x ∈ xs, guard x) (xs.map dec) := by
  have ht := Decodes.times hp enc dec guard xs h
  rw [← toNat_length_toUInt32 hlen] at ht
  exact (decodes_u32 xs.length.toUInt32).andThen (f := fun n => Scan.times p n.toNat) ht

theorem decodes_worker (kv : WorkerId × WorkerBootId) :
    Decodes readWorker (encodeWorker kv) True kv :=
  (decodes_u64 kv.1.value).andThen ((decodes_u64 kv.2.value).map rfl)

theorem decodes_strategies {xs : List RecoveryStrategy} (hlen : xs.length < 2^32) :
    Decodes (readList u8) (encodeList (fun s => ByteWriter.u8 s.toByte) xs) True
      (xs.map RecoveryStrategy.toByte) :=
  (decodes_list _ RecoveryStrategy.toByte (fun _ => True) sticky_u8 hlen
    (fun s _ => decodes_u8 s.toByte)).congr (by simp)

theorem decodes_strings {xs : List Str} (hlen : xs.length < 2^32) :
    Decodes (readList cstring) (encodeList ByteWriter.cstring xs) (∀ s ∈ xs, ShortStr s)
      (xs.map cut) :=
  decodes_list _ cut ShortStr sticky_cstring hlen (fun s _ => decodes_cstring s)

theorem RecoveryRequest.readable_iff (q : RecoveryRequest) : q.Readable ↔
    ShortStr q.reason ∧ (∀ s ∈ q.stateRequirements, ShortStr s) ∧
      (∀ s ∈ q.placementConstraints, ShortStr s) ∧
      ∀ s ∈ q.compatibilityRequirements, ShortStr s :=
  ⟨fun h => ⟨h.1,h.2,h.3,h.4⟩,fun h => ⟨h.1,h.2.1,h.2.2.1,h.2.2.2⟩⟩

instance (q : RecoveryRequest) : Decidable q.Readable := decidable_of_iff _ q.readable_iff.symm

theorem decodes_request {q : RecoveryRequest} (hq : q.CountsFit) :
    Decodes readRequest (encodeRequest q) q.Readable q.durable := by
  unfold encodeRequest
  simp only [List.append_assoc]
  refine Decodes.congr ?_ q.readable_iff.symm
  unfold readRequest
  iterate 6 refine (decodes_u64 _).andThen ?_
  refine (decodes_cstring q.reason).bind (fun _ => ?_) ?_
  · iterate 2 refine (sticky_readFlagged sticky_i64).bind fun _ => ?_
    refine (sticky_readFlagged sticky_u64).bind fun _ => ?_
    iterate 2 refine (sticky_readList sticky_u8).bind fun _ => ?_
    iterate 3 refine sticky_u64.bind fun _ => ?_
    refine sticky_i64.bind fun _ => ?_
    iterate 3 refine (sticky_readList sticky_cstring).bind fun _ => ?_
    exact sticky_pure _
  refine (decodes_flagged _ Quantity.value (fun t => decodes_i64 t.value)
    q.recoveryDeadline).andThen ?_
  refine (decodes_flagged _ Quantity.value (fun t => decodes_i64 t.value)
    q.maxRecoveryDuration).andThen ?_
  refine (decodes_flagged _ Quantity.value (fun t => decodes_u64 t.value)
    q.maxToleratedProgressLoss).andThen ?_
  refine (decodes_strategies hq.preferredStrategies).andThen ?_
  refine (decodes_strategies hq.forbiddenStrategies).andThen ?_
  iterate 3 refine (decodes_u64 _).andThen ?_
  refine (decodes_i64 _).andThen ?_
  refine (decodes_strings hq.stateRequirements).bind (fun _ => ?_) ?_
  · iterate 2 refine (sticky_readList sticky_cstring).bind fun _ => ?_
    exact sticky_pure _
  refine (decodes_strings hq.placementConstraints).bind (fun _ => ?_) ?_
  · refine (sticky_readList sticky_cstring).bind fun _ => ?_
    exact sticky_pure _
  refine (decodes_strings hq.compatibilityRequirements).map ?_
  simp [RecoveryRequest.durable,RecoveryStrategy.ofByte_toByte,Function.comp_def]

theorem decodes_header (ctx : PlannerContext) :
    Decodes readHeader (encodeHeader ctx) True
      ⟨ctx.epoch,ctx.plannerBoot,ctx.workloadGeneration,ctx.policyGeneration,
        ctx.compatibilityGeneration,ctx.resourceGeneration,ctx.topologyGeneration⟩ := by
  unfold encodeHeader
  simp only [List.append_assoc]
  unfold readHeader
  iterate 6 refine (decodes_u64 _).andThen ?_
  exact (decodes_u64 _).map rfl

theorem decodes_authority (a : PlanAuthority) :
    Decodes readAuthority (encodeAuthority a) True a := by
  unfold encodeAuthority
  simp only [List.append_assoc]
  unfold readAuthority
  iterate 12 refine (decodes_u64 _).andThen ?_
  exact (decodes_u64 _).map rfl

theorem decodes_plan (p : RecoveryPlan) :
    Decodes readPlan (encodePlan p) (ShortStr p.dispatchPayload ∧ ShortStr p.decisionDigest)
      p.durable := by
  unfold encodePlan
  simp only [List.append_assoc]
  unfold readPlan
  iterate 4 refine (decodes_u64 _).andThen ?_
  refine (decodes_u8 _).andThen ?_
  iterate 9 refine (decodes_u64 _).andThen ?_
  refine (decodes_authority _).andThen ?_
  iterate 3 refine (decodes_u8 _).andThen ?_
  iterate 2 refine (decodes_i64 _).andThen ?_
  refine (decodes_u64 _).andThen ?_
  refine (decodes_cstring _).bind (fun _ => sticky_cstring.bind fun _ => sticky_pure _) ?_
  refine (decodes_cstring _).map ?_
  simp [RecoveryPlan.durable,RecoveryStrategy.ofByte_toByte,PlanLifecycleState.ofByte_toByte,
    ExecutionOutcome.ofByte_toByte]

end RecoveryPlanner
