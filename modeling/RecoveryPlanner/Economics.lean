import RecoveryPlanner.Feasibility
set_option autoImplicit false

/-! Deadlines, recovery economics and the ranking comparator of `economics.cpp`. -/

namespace RecoveryPlanner

inductive DeadlineOutcome where
  | hardFeasible | conditionallyFeasible | violated | noDeadline | unknown
  deriving DecidableEq, Repr

structure DeadlineEvaluation where
  deadline : Option Timestamp := none
  expectedCompletion : Option Timestamp := none
  slack : Option Duration := none
  outcome : DeadlineOutcome := .unknown
  deriving DecidableEq, Repr

/-- An empty optional is an unknown factor, never zero. -/
structure RecoveryEconomics where
  expectedTime : Option Duration := none
  restoreTime : Option Duration := none
  restartTime : Option Duration := none
  transferDuration : Option Duration := none
  recomputeTime : Option Duration := none
  rehydrateTime : Option Duration := none
  transferBytes : Option ByteCount := none
  restoreBytes : Option ByteCount := none
  materializeBytes : Option ByteCount := none
  expectedLostProgress : Option ProgressUnits := none
  expectedPreservedProgress : Option ProgressUnits := none
  costUnits : Option CostUnits := none
  checkpointAge : Option Duration := none
  deadlineSlack : Option Duration := none
  maxToleratedProgressLoss : Option ProgressUnits := none
  progressLossWithinTolerance : Bool := true
  failoverDomainRisk : UInt8 := 0
  confidence : Confidence := .none
  deriving DecidableEq, Repr

def int64Max : Int := 9223372036854775807
def int64Min : Int := -9223372036854775808

/-- Saturating addition; the guards keep the plain sum inside the int64 range. -/
def satAdd (a b : Int64) : Int64 :=
  if 0 < b && int64Max-b.toInt < a.toInt then .ofInt int64Max
  else if b < 0 && a.toInt < int64Min-b.toInt then .ofInt int64Min
  else a+b

def satSub (a b : Int64) : Int64 :=
  if 0 < b && a.toInt < int64Min+b.toInt then .ofInt int64Min
  else if b < 0 && int64Max+b.toInt < a.toInt then .ofInt int64Max
  else a-b

/-- The deadline a request imposes at time `now`. The relative form adds without
a saturation guard, so `Int64` addition wraps here where the source overflows. -/
def requestDeadline (request : RecoveryRequest) (now : Timestamp) : Option Timestamp :=
  match request.recoveryDeadline,request.maxRecoveryDuration with
  | some d,_ => some d
  | none,some d => some ⟨now.value+d.value⟩
  | none,none => none

def evaluateDeadline (c : RecoveryCandidate) (request : RecoveryRequest) (now : Timestamp) :
    DeadlineEvaluation :=
  match requestDeadline request now with
  | none => { outcome := .noDeadline }
  | some deadline =>
    match c.cost.bind CostEvidence.expectedTime with
    | none => { deadline := some deadline, outcome := .unknown }
    | some expected =>
      let exp := if expected.value < 0 then 0 else expected.value
      let comp := satAdd now.value exp
      -- A deadline in the past is moved up to now.
      let dl := if deadline.value < now.value then now.value else deadline.value
      let slack := satSub dl comp
      { deadline := some deadline
        expectedCompletion := some ⟨comp⟩
        slack := some ⟨slack⟩
        outcome := if 0 ≤ slack then .hardFeasible else .violated }

def costEconomics (cost : CostEvidence) : RecoveryEconomics where
  expectedTime := cost.expectedTime
  restoreTime := cost.restoreTime
  restartTime := cost.restartTime
  transferDuration := cost.transferTime
  recomputeTime := cost.recomputeTime
  transferBytes := cost.bytesTransferred
  restoreBytes := cost.bytesRead
  materializeBytes := cost.bytesMaterialized
  expectedLostProgress := cost.expectedLostProgress
  expectedPreservedProgress := cost.expectedPreservedProgress
  costUnits := cost.costUnits
  checkpointAge := cost.checkpointAge
  failoverDomainRisk := cost.failoverDomainRisk

/-- Checkpoint evidence overrides the cost record; failing both, state evidence of
known provenance counts as age zero. -/
def checkpointAgeOf (c : RecoveryCandidate) (fromCost : Option Duration) : Option Duration :=
  let age := match c.checkpoint with
    | some ck => some ck.age
    | none => fromCost
  match age,c.state with
  | none,some st => if st.evidenceMeta.provenance ≠ .unknown then some ⟨0⟩ else none
  | age,_ => age

def computeEconomics (c : RecoveryCandidate) (request : RecoveryRequest) (now : Timestamp) :
    RecoveryEconomics :=
  let e := match c.cost with
    | some cost => costEconomics cost
    | none => {}
  let e := { e with
    checkpointAge := checkpointAgeOf c e.checkpointAge
    deadlineSlack := (evaluateDeadline c request now).slack }
  let e := match request.maxToleratedProgressLoss,e.expectedLostProgress with
    | some tolerance,some lost => { e with
        maxToleratedProgressLoss := some tolerance
        progressLossWithinTolerance := lost.value ≤ tolerance.value }
    | _,_ => e
  { e with
    confidence := match c.cost,c.authority with
      | some _,some a => a.evidenceMeta.confidence
      | _,_ => .none }

instance (tag : UnitTag) (Rep : Type) [LT Rep] : LT (Quantity tag Rep) :=
  ⟨fun a b => a.value < b.value⟩

instance (tag : UnitTag) (Rep : Type) [LT Rep] [DecidableLT Rep] :
    DecidableLT (Quantity tag Rep) :=
  fun a b => inferInstanceAs (Decidable (a.value < b.value))

def cmpLowerBetter {α : Type} [LT α] [DecidableLT α] (a b : Option α) : Int :=
  match a,b with
  | some x,some y => if x < y then -1 else if y < x then 1 else 0
  | some _,none => -1
  | none,some _ => 1
  | none,none => 0

/-- As written, the arguments are swapped, so a known value compares after an
unknown one here. -/
def cmpHigherBetter {α : Type} [LT α] [DecidableLT α] (a b : Option α) : Int :=
  cmpLowerBetter b a

def cmpU8 (a b : Nat) : Int := if a < b then -1 else if b < a then 1 else 0

def candidatePrecedes (lhs rhs : RecoveryCandidate) (le re : RecoveryEconomics) : Bool :=
  let preserved := cmpHigherBetter le.expectedPreservedProgress re.expectedPreservedProgress
  if preserved ≠ 0 then preserved < 0 else
  let lost := cmpLowerBetter le.expectedLostProgress re.expectedLostProgress
  if lost ≠ 0 then lost < 0 else
  let time := cmpLowerBetter le.expectedTime re.expectedTime
  if time ≠ 0 then time < 0 else
  let cost := cmpLowerBetter le.costUnits re.costUnits
  if cost ≠ 0 then cost < 0 else
  let risk := cmpU8 le.failoverDomainRisk.toNat re.failoverDomainRisk.toNat
  if risk ≠ 0 then risk < 0 else
  let confidence := cmpU8 le.confidence.basisPoints.toNat re.confidence.basisPoints.toNat
  if confidence ≠ 0 then 0 < confidence else
  if lhs.candidateId ≠ rhs.candidateId then lhs.candidateId.value < rhs.candidateId.value else
  if lhs.generation ≠ rhs.generation then lhs.generation.value < rhs.generation.value else
  if lhs.strategy ≠ rhs.strategy then lhs.strategy.toNat < rhs.strategy.toNat else
  false

end RecoveryPlanner
