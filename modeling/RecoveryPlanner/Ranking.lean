import RecoveryPlanner.Planner
set_option autoImplicit false

/-! The comparator of `economics.cpp` decides a lexicographic order of nine keys. -/

namespace RecoveryPlanner

def knownFirst {α : Type} (v : α → Int) (top : Int) : Option α → Int
  | some x => v x
  | none => top

def amount {tag : UnitTag} (q : Quantity tag UInt64) : Int := q.value.toNat

def ticks {tag : UnitTag} (q : Quantity tag Int64) : Int := q.value.toInt

theorem amount_lt {tag : UnitTag} (a b : Quantity tag UInt64) : a < b ↔ amount a < amount b := by
  have h : a < b ↔ a.value.toNat < b.value.toNat := UInt64.lt_iff_toNat_lt
  simp only [h,amount]
  omega

theorem amount_inj {tag : UnitTag} {a b : Quantity tag UInt64} (h : amount a = amount b) :
    a = b := by
  cases a
  cases b
  simp only [amount] at h
  exact congrArg _ (UInt64.toNat_inj.mp (by omega))

theorem amount_top {tag : UnitTag} (a : Quantity tag UInt64) : amount a < 2^64 := by
  have h := a.value.toNat_lt
  simp only [amount]
  omega

theorem ticks_lt {tag : UnitTag} (a b : Quantity tag Int64) : a < b ↔ ticks a < ticks b :=
  Int64.lt_iff_toInt_lt

theorem ticks_inj {tag : UnitTag} {a b : Quantity tag Int64} (h : ticks a = ticks b) :
    a = b := by
  cases a
  cases b
  exact congrArg _ (Int64.toInt_inj.mp h)

theorem ticks_top {tag : UnitTag} (a : Quantity tag Int64) : ticks a < 2^63 :=
  Int64.toInt_lt a.value

def threeWay (x y : Int) : Int := if x < y then -1 else if y < x then 1 else 0

theorem threeWay_neg (x y : Int) : threeWay x y < 0 ↔ x < y := by
  unfold threeWay
  repeat' split
  all_goals omega

theorem threeWay_pos (x y : Int) : 0 < threeWay x y ↔ y < x := by
  unfold threeWay
  repeat' split
  all_goals omega

theorem threeWay_ne (x y : Int) : threeWay x y ≠ 0 ↔ x ≠ y := by
  unfold threeWay
  repeat' split
  all_goals omega

theorem cmpLowerBetter_eq {α : Type} [LT α] [DecidableLT α] {v : α → Int} {top : Int}
    (hlt : ∀ x y, x < y ↔ v x < v y) (htop : ∀ x, v x < top) (a b : Option α) :
    cmpLowerBetter a b = threeWay (knownFirst v top a) (knownFirst v top b) := by
  cases a with
  | none =>
    cases b with
    | none => simp [cmpLowerBetter,knownFirst,threeWay]
    | some y => simp [cmpLowerBetter,knownFirst,threeWay,htop y,(htop y).le]
  | some x =>
    cases b with
    | none => simp [cmpLowerBetter,knownFirst,threeWay,htop x]
    | some y => grind [cmpLowerBetter,knownFirst,threeWay]

theorem cmpU8_eq (a b : Nat) : cmpU8 a b = threeWay a b := by
  simp only [cmpU8,threeWay,Int.ofNat_lt]

theorem knownFirst_inj {α : Type} {v : α → Int} {top : Int} (hinj : ∀ x y, v x = v y → x = y)
    (htop : ∀ x, v x < top) {a b : Option α} (h : knownFirst v top a = knownFirst v top b) :
    a = b := by
  cases a with
  | none =>
    cases b with
    | none => rfl
    | some y =>
      have := htop y
      simp only [knownFirst] at h
      omega
  | some x =>
    have := htop x
    cases b with
    | none =>
      simp only [knownFirst] at h
      omega
    | some y => exact congrArg some (hinj x y h)

/-- The nine keys of the comparator, each oriented so that lower comes first. -/
def rankKey (c : RecoveryCandidate) (e : RecoveryEconomics) : List Int :=
  [-knownFirst amount (2^64) e.expectedPreservedProgress,
   knownFirst amount (2^64) e.expectedLostProgress,
   knownFirst ticks (2^63) e.expectedTime,
   knownFirst amount (2^64) e.costUnits,
   e.failoverDomainRisk.toNat,
   -e.confidence.basisPoints.toNat,
   c.candidateId.value.toNat,
   c.generation.value.toNat,
   c.strategy.toNat]

/-- One `if` of the comparator is one step of the lexicographic order. -/
theorem lex_step {differ before : Prop} [Decidable differ] [Decidable before] {x y : Int}
    {xs ys : List Int} {rest : Bool} (hd : differ ↔ x ≠ y) (hb : before ↔ x < y)
    (hr : rest = true ↔ xs < ys) :
    (if differ then decide before else rest) = true ↔ x :: xs < y :: ys := by
  rw [List.cons_lt_cons_iff]
  by_cases hxy : x = y
  · rw [if_neg (fun h => hd.mp h hxy),hr]
    simp [hxy]
  · rw [if_pos (hd.mpr hxy)]
    simp [hb,hxy]

theorem strategy_toNat_inj {s t : RecoveryStrategy} (h : s.toNat = t.toNat) : s = t := by
  have hb : s.toByte = t.toByte := congrArg Nat.toUInt8 h
  rw [← RecoveryStrategy.ofByte_toByte s,← RecoveryStrategy.ofByte_toByte t,hb]

theorem id_ne_iff {tag : IdTag} (a b : Id tag) :
    a ≠ b ↔ (a.value.toNat : Int) ≠ b.value.toNat := by
  cases a
  cases b
  simp [UInt64.toNat_inj]

theorem id_lt_iff {tag : IdTag} (a b : Id tag) :
    a.value < b.value ↔ (a.value.toNat : Int) < b.value.toNat := by
  rw [UInt64.lt_iff_toNat_lt]
  omega

theorem candidatePrecedes_iff (c c' : RecoveryCandidate) (e e' : RecoveryEconomics) :
    candidatePrecedes c c' e e' = true ↔ rankKey c e < rankKey c' e' := by
  unfold candidatePrecedes rankKey cmpHigherBetter
  simp only [cmpLowerBetter_eq amount_lt amount_top,cmpLowerBetter_eq ticks_lt ticks_top,cmpU8_eq]
  have hs : c.strategy ≠ c'.strategy ↔ (c.strategy.toNat : Int) ≠ c'.strategy.toNat :=
    ⟨fun hne heq => hne (strategy_toNat_inj (by omega)),fun hne heq => hne (by rw [heq])⟩
  refine lex_step ?_ ?_ (lex_step (threeWay_ne _ _) (threeWay_neg _ _)
    (lex_step (threeWay_ne _ _) (threeWay_neg _ _) (lex_step (threeWay_ne _ _) (threeWay_neg _ _)
    (lex_step (threeWay_ne _ _) (threeWay_neg _ _) (lex_step ?_ ?_
    (lex_step (id_ne_iff _ _) (id_lt_iff _ _) (lex_step (id_ne_iff _ _) (id_lt_iff _ _)
    (lex_step hs ?_ ?_))))))))
  -- Preserved progress compares with its arguments swapped, confidence by its opposite sign.
  · rw [threeWay_ne]
    omega
  · rw [threeWay_neg]
    omega
  · rw [threeWay_ne]
    omega
  · rw [threeWay_pos]
    omega
  · omega
  · simp

structure SameKeys (c c' : RecoveryCandidate) (e e' : RecoveryEconomics) : Prop where
  preserved : e.expectedPreservedProgress = e'.expectedPreservedProgress
  lost : e.expectedLostProgress = e'.expectedLostProgress
  time : e.expectedTime = e'.expectedTime
  cost : e.costUnits = e'.costUnits
  risk : e.failoverDomainRisk = e'.failoverDomainRisk
  confidence : e.confidence = e'.confidence
  candidateId : c.candidateId = c'.candidateId
  generation : c.generation = c'.generation
  strategy : c.strategy = c'.strategy

theorem id_toNat_inj {tag : IdTag} {a b : Id tag}
    (h : (a.value.toNat : Int) = b.value.toNat) : a = b := by
  by_contra hne
  exact (id_ne_iff a b).mp hne h

theorem rankKey_inj {c c' : RecoveryCandidate} {e e' : RecoveryEconomics}
    (h : rankKey c e = rankKey c' e') : SameKeys c c' e e' := by
  simp only [rankKey,List.cons.injEq,and_true] at h
  obtain ⟨h1,h2,h3,h4,h5,h6,h7,h8,h9⟩ := h
  have hinj : ∀ {tag : UnitTag} (x y : Quantity tag UInt64), amount x = amount y → x = y :=
    fun _ _ => amount_inj
  have hconf : e.confidence.basisPoints = e'.confidence.basisPoints :=
    UInt16.toNat_inj.mp (by omega)
  exact
    { preserved := knownFirst_inj hinj amount_top (by omega)
      lost := knownFirst_inj hinj amount_top h2
      time := knownFirst_inj (fun _ _ => ticks_inj) ticks_top h3
      cost := knownFirst_inj hinj amount_top h4
      risk := UInt8.toNat_inj.mp (by omega)
      confidence := by
        cases he : e.confidence
        cases he' : e'.confidence
        rw [he,he'] at hconf
        exact congrArg _ hconf
      candidateId := id_toNat_inj h7
      generation := id_toNat_inj h8
      strategy := strategy_toNat_inj (by omega) }

end RecoveryPlanner
