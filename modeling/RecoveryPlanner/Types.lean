import Mathlib.Data.Nat.Digits.Lemmas
import Mathlib.Order.Basic
set_option autoImplicit false

/-! Identities, units, small enumerations, errors and text, as in `types.hpp` and
`error.hpp` and the enumerations of `strategy.hpp` and `executor.hpp`. -/

namespace RecoveryPlanner

abbrev Bytes := List UInt8

/-- A `std::string` is a byte string: it may hold NUL and is not Unicode text. -/
abbrev Str := List UInt8

def text (s : String) : Str := s.toList.map (fun c => c.toNat.toUInt8)

def decimal (n : Nat) : Str :=
  if n = 0 then text "0" else (Nat.digits 10 n).reverse.map (fun d => (48+d).toUInt8)

def decimalInt (i : Int) : Str :=
  if i < 0 then text "-" ++ decimal i.natAbs else decimal i.natAbs

instance uint64Order : LinearOrder UInt64 where
  le_refl := UInt64.le_refl
  le_trans := fun _ _ _ => UInt64.le_trans
  le_antisymm := fun _ _ => UInt64.le_antisymm
  le_total := UInt64.le_total
  lt_iff_le_not_ge := fun a b => by
    simp only [UInt64.lt_iff_toNat_lt,UInt64.le_iff_toNat_le]
    omega
  toDecidableLE := fun a b => inferInstanceAs (Decidable (a ≤ b))

instance uint8Order : LinearOrder UInt8 where
  le_refl := UInt8.le_refl
  le_trans := fun _ _ _ => UInt8.le_trans
  le_antisymm := fun _ _ => UInt8.le_antisymm
  le_total := UInt8.le_total
  lt_iff_le_not_ge := fun a b => by
    simp only [UInt8.lt_iff_toNat_lt,UInt8.le_iff_toNat_le]
    omega
  toDecidableLE := fun a b => inferInstanceAs (Decidable (a ≤ b))

/-- One tag per `RP_ID`: identities of different tags do not mix. -/
inductive IdTag where
  | coordinatorEpoch | plannerBootId | workloadId | workloadGeneration | executionId
  | executionGeneration | failureId | recoveryRequestId | recoveryPlanId
  | recoveryPlanGeneration | candidateId | candidateGeneration | workerId | workerBootId
  | engineId | engineIncarnationId | stateId | stateGeneration | checkpointId
  | resourceGeneration | topologyGeneration | compatibilityGeneration | policyGeneration
  | attemptId | dispatchId
  deriving DecidableEq, Repr

structure Id (tag : IdTag) where
  value : UInt64
  deriving DecidableEq, Repr

instance (tag : IdTag) : Inhabited (Id tag) := ⟨⟨0⟩⟩

instance (tag : IdTag) : LinearOrder (Id tag) :=
  LinearOrder.lift' Id.value (fun a b h => by cases a; cases b; simpa using h)

def Id.isValid {tag : IdTag} (i : Id tag) : Bool := i.value != 0

def Id.next {tag : IdTag} (i : Id tag) : Id tag := ⟨i.value+1⟩

abbrev CoordinatorEpoch := Id .coordinatorEpoch
abbrev PlannerBootId := Id .plannerBootId
abbrev WorkloadId := Id .workloadId
abbrev WorkloadGeneration := Id .workloadGeneration
abbrev ExecutionId := Id .executionId
abbrev ExecutionGeneration := Id .executionGeneration
abbrev FailureId := Id .failureId
abbrev RecoveryRequestId := Id .recoveryRequestId
abbrev RecoveryPlanId := Id .recoveryPlanId
abbrev RecoveryPlanGeneration := Id .recoveryPlanGeneration
abbrev CandidateId := Id .candidateId
abbrev CandidateGeneration := Id .candidateGeneration
abbrev WorkerId := Id .workerId
abbrev WorkerBootId := Id .workerBootId
abbrev EngineId := Id .engineId
abbrev EngineIncarnationId := Id .engineIncarnationId
abbrev StateId := Id .stateId
abbrev StateGeneration := Id .stateGeneration
abbrev CheckpointId := Id .checkpointId
abbrev ResourceGeneration := Id .resourceGeneration
abbrev TopologyGeneration := Id .topologyGeneration
abbrev CompatibilityGeneration := Id .compatibilityGeneration
abbrev PolicyGeneration := Id .policyGeneration
abbrev AttemptId := Id .attemptId
abbrev DispatchId := Id .dispatchId

inductive UnitTag where
  | timestamp | duration | byteCount | progressUnits | costUnits
  deriving DecidableEq, Repr

structure Quantity (tag : UnitTag) (Rep : Type) where
  value : Rep
  deriving DecidableEq, Repr

instance (tag : UnitTag) (Rep : Type) [Inhabited Rep] : Inhabited (Quantity tag Rep) :=
  ⟨⟨default⟩⟩

abbrev Timestamp := Quantity .timestamp Int64
abbrev Duration := Quantity .duration Int64
abbrev ByteCount := Quantity .byteCount UInt64
abbrev ProgressUnits := Quantity .progressUnits UInt64
abbrev CostUnits := Quantity .costUnits UInt64

inductive EvidenceProvenance where
  | measured | derived | estimated | reported | synthetic | unknown
  deriving DecidableEq, Repr

inductive Freshness where
  | current | stale | revalidationRequired | expired | unknown
  deriving DecidableEq, Repr

/-- Fixed point in basis points. -/
structure Confidence where
  basisPoints : UInt16
  deriving DecidableEq, Repr

def Confidence.none : Confidence := ⟨0⟩

/-- The underlying type is a byte and values are cast from wire bytes unchecked,
so the byte values without an enumerator are values of the type too. -/
inductive RecoveryStrategy where
  | restore | restart | migrate | rehydrate | shadowPromote | failover | recompute
  | undeclared (i : Fin 249)
  deriving DecidableEq, Repr

def RecoveryStrategy.toNat : RecoveryStrategy → Nat
  | .restore => 0
  | .restart => 1
  | .migrate => 2
  | .rehydrate => 3
  | .shadowPromote => 4
  | .failover => 5
  | .recompute => 6
  | .undeclared i => 7+i.val

def RecoveryStrategy.toByte (s : RecoveryStrategy) : UInt8 := s.toNat.toUInt8

def RecoveryStrategy.ofByte (b : UInt8) : RecoveryStrategy :=
  match b.toNat with
  | 0 => .restore
  | 1 => .restart
  | 2 => .migrate
  | 3 => .rehydrate
  | 4 => .shadowPromote
  | 5 => .failover
  | 6 => .recompute
  | n => if h : n-7 < 249 then .undeclared ⟨n-7,h⟩ else .restore

def RecoveryStrategy.toString : RecoveryStrategy → Str
  | .restore => text "RESTORE"
  | .restart => text "RESTART"
  | .migrate => text "MIGRATE"
  | .rehydrate => text "REHYDRATE"
  | .shadowPromote => text "SHADOW_PROMOTE"
  | .failover => text "FAILOVER"
  | .recompute => text "RECOMPUTE"
  | .undeclared _ => text "UNKNOWN"

theorem RecoveryStrategy.ofByte_toByte (s : RecoveryStrategy) : ofByte s.toByte = s := by
  cases s with
  | undeclared i => revert i; decide +kernel
  | _ => rfl

theorem RecoveryStrategy.toByte_ofByte (b : UInt8) : (ofByte b).toByte = b := by
  have h : ∀ i : Fin 256, (ofByte (UInt8.ofFin i)).toByte = UInt8.ofFin i := by decide +kernel
  simpa using h b.toFin

def RecoveryStrategy.declared : RecoveryStrategy → Bool
  | .undeclared _ => false
  | _ => true

inductive ExecutionOutcome where
  | succeeded | failed | ambiguous | unknown | cancelled
  | undeclared (i : Fin 251)
  deriving DecidableEq, Repr

def ExecutionOutcome.toByte : ExecutionOutcome → UInt8
  | .succeeded => 0
  | .failed => 1
  | .ambiguous => 2
  | .unknown => 3
  | .cancelled => 4
  | .undeclared i => (5+i.val).toUInt8

def ExecutionOutcome.ofByte (b : UInt8) : ExecutionOutcome :=
  match b.toNat with
  | 0 => .succeeded
  | 1 => .failed
  | 2 => .ambiguous
  | 3 => .unknown
  | 4 => .cancelled
  | n => if h : n-5 < 251 then .undeclared ⟨n-5,h⟩ else .unknown

def ExecutionOutcome.declared : ExecutionOutcome → Bool
  | .undeclared _ => false
  | _ => true

theorem ExecutionOutcome.ofByte_toByte (o : ExecutionOutcome) : ofByte o.toByte = o := by
  cases o with
  | undeclared i => revert i; decide +kernel
  | _ => rfl

theorem ExecutionOutcome.toByte_ofByte (b : UInt8) : (ofByte b).toByte = b := by
  have h : ∀ i : Fin 256, (ofByte (UInt8.ofFin i)).toByte = UInt8.ofFin i := by decide +kernel
  simpa using h b.toFin

inductive DispatchStatus where
  | dispatched | rejected | dropped | unknown
  deriving DecidableEq, Repr

inductive ErrorCode where
  | none | invalidInput | staleAuthority | staleEvidence | insufficientEvidence
  | infeasibleCandidate | compatibilityRejection | persistenceCorruption | protocolError
  | resourceExhaustion | executionFailure | ambiguousOutcome | cancellation | shutdown
  | unsupported | notFound | alreadyExists | concurrentModification | internal
  deriving DecidableEq, Repr

structure RecoveryError where
  code : ErrorCode
  message : Str
  deriving DecidableEq, Repr

end RecoveryPlanner
