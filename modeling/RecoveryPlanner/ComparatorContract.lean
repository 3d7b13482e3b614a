import RecoveryPlanner.Selection
set_option autoImplicit false

/-! What the ranking comparator promises: a strict weak order that tells candidates apart by
nine keys, with unknown values last. The last promise is broken by the first key. -/

namespace RecoveryPlanner

abbrev Appraised := RecoveryCandidate × RecoveryEconomics

def Appraised.precedes (x y : Appraised) : Bool := candidatePrecedes x.1 y.1 x.2 y.2

def Appraised.key (x : Appraised) : List Int := rankKey x.1 x.2

/-- Where the keys in front agree, a known value comes before an unknown one. -/
structure UnknownLast (x y : Appraised) : Prop where
  preserved : x.2.expectedPreservedProgress.isSome = true → y.2.expectedPreservedProgress = none →
    x.precedes y = true
  lost : x.2.expectedPreservedProgress = y.2.expectedPreservedProgress →
    x.2.expectedLostProgress.isSome = true → y.2.expectedLostProgress = none → x.precedes y = true
  time : x.2.expectedPreservedProgress = y.2.expectedPreservedProgress →
    x.2.expectedLostProgress = y.2.expectedLostProgress →
    x.2.expectedTime.isSome = true → y.2.expectedTime = none → x.precedes y = true
  cost : x.2.expectedPreservedProgress = y.2.expectedPreservedProgress →
    x.2.expectedLostProgress = y.2.expectedLostProgress → x.2.expectedTime = y.2.expectedTime →
    x.2.costUnits.isSome = true → y.2.costUnits = none → x.precedes y = true

structure RankingContract (S : Set Appraised) : Prop where
  irrefl : ∀ x ∈ S, x.precedes x = false
  trans : ∀ x ∈ S, ∀ y ∈ S, ∀ z ∈ S, x.precedes y = true → y.precedes z = true →
    x.precedes z = true
  incomparable_trans : ∀ x ∈ S, ∀ y ∈ S, ∀ z ∈ S, x.precedes y = false → y.precedes x = false →
    y.precedes z = false → z.precedes y = false → x.precedes z = false ∧ z.precedes x = false
  incomparable_iff : ∀ x ∈ S, ∀ y ∈ S,
    (x.precedes y = false ∧ y.precedes x = false) ↔ SameKeys x.1 y.1 x.2 y.2
  unknown_last : ∀ x ∈ S, ∀ y ∈ S, UnknownLast x y

def PreservedUniform (S : Set Appraised) : Prop :=
  (∀ x ∈ S, x.2.expectedPreservedProgress.isSome = true) ∨
    (∀ x ∈ S, x.2.expectedPreservedProgress = none)

namespace Appraised

theorem precedes_iff (x y : Appraised) : x.precedes y = true ↔ x.key < y.key :=
  candidatePrecedes_iff x.1 y.1 x.2 y.2

theorem precedes_eq_false (x y : Appraised) : x.precedes y = false ↔ y.key ≤ x.key := by
  rw [← Bool.not_eq_true,precedes_iff,not_lt]

theorem precedes_strictWeak : StrictWeak precedes := .of_key key precedes_iff

theorem key_eq_of_sameKeys {x y : Appraised} (h : SameKeys x.1 y.1 x.2 y.2) : x.key = y.key := by
  unfold key rankKey
  rw [h.preserved,h.lost,h.time,h.cost,h.risk,h.confidence,h.candidateId,h.generation,h.strategy]

theorem incomparable_iff (x y : Appraised) :
    (x.precedes y = false ∧ y.precedes x = false) ↔ SameKeys x.1 y.1 x.2 y.2 := by
  rw [precedes_eq_false,precedes_eq_false]
  constructor
  · rintro ⟨hyx,hxy⟩
    exact rankKey_inj (hxy.antisymm hyx)
  · intro h
    have hk := key_eq_of_sameKeys h
    exact ⟨hk.ge,hk.le⟩

theorem knownFirst_lt {α : Type} {v : α → Int} {top : Int} (htop : ∀ a, v a < top) {a b : Option α}
    (ha : a.isSome = true) (hb : b = none) : knownFirst v top a < knownFirst v top b := by
  obtain ⟨q,rfl⟩ := Option.isSome_iff_exists.mp ha
  rw [hb]
  exact htop q

/-- In the first key the order is turned around, and the place of unknown with it. -/
theorem unknown_precedes {x y : Appraised} (hx : x.2.expectedPreservedProgress.isSome = true)
    (hy : y.2.expectedPreservedProgress = none) : y.precedes x = true := by
  have hlt := knownFirst_lt amount_top hx hy
  rw [precedes_iff,key,key,rankKey,rankKey,List.cons_lt_cons_iff]
  exact .inl (by omega)

theorem unknownLast_of_uniform {x y : Appraised}
    (h : x.2.expectedPreservedProgress.isSome = true → y.2.expectedPreservedProgress ≠ none) :
    UnknownLast x y where
  preserved hx hy := absurd hy (h hx)
  lost hp hx hy := by
    have hlt := knownFirst_lt amount_top hx hy
    rw [precedes_iff,key,key,rankKey,rankKey,hp]
    simp only [List.cons_lt_cons_iff]
    exact .inr ⟨trivial,.inl hlt⟩
  time hp hl hx hy := by
    have hlt := knownFirst_lt ticks_top hx hy
    rw [precedes_iff,key,key,rankKey,rankKey,hp,hl]
    simp only [List.cons_lt_cons_iff]
    exact .inr ⟨trivial,.inr ⟨trivial,.inl hlt⟩⟩
  cost hp hl ht hx hy := by
    have hlt := knownFirst_lt amount_top hx hy
    rw [precedes_iff,key,key,rankKey,rankKey,hp,hl,ht]
    simp only [List.cons_lt_cons_iff]
    exact .inr ⟨trivial,.inr ⟨trivial,.inr ⟨trivial,.inl hlt⟩⟩⟩

theorem not_unknownLast {x y : Appraised} (hx : x.2.expectedPreservedProgress.isSome = true)
    (hy : y.2.expectedPreservedProgress = none) : ¬ UnknownLast x y := by
  intro h
  have hyx := precedes_strictWeak.asymm (h.preserved hx hy)
  rw [unknown_precedes hx hy] at hyx
  exact absurd hyx (by simp)

end Appraised

theorem PreservedUniform.of_unknownLast {S : Set Appraised}
    (h : ∀ x ∈ S, ∀ y ∈ S, UnknownLast x y) : PreservedUniform S := by
  by_cases hall : ∀ x ∈ S, x.2.expectedPreservedProgress = none
  · exact .inr hall
  · left
    obtain ⟨x,hx,hknown⟩ : ∃ x ∈ S, x.2.expectedPreservedProgress ≠ none := by simpa using hall
    intro y hy
    by_contra hne
    have hsome : x.2.expectedPreservedProgress.isSome = true :=
      Option.isSome_iff_ne_none.mpr hknown
    exact Appraised.not_unknownLast hsome (by simpa using hne) (h x hx y hy)

/-- The order is a strict weak one on all values and ties mean equal keys, but unknown comes last
only where no known preserved progress meets an unknown one. -/
theorem rankingContract_iff (S : Set Appraised) :
    (RankingContract S ↔ PreservedUniform S) ∧
    StrictWeak Appraised.precedes ∧
    (∀ x y : Appraised, (x.precedes y = false ∧ y.precedes x = false) ↔ SameKeys x.1 y.1 x.2 y.2) ∧
    ∀ ranked : List RankedCandidate, StrictWeak (indexPrecedes ranked) := by
  have hw := Appraised.precedes_strictWeak
  refine ⟨⟨fun h => .of_unknownLast h.unknown_last,fun h => ?_⟩,hw,Appraised.incomparable_iff,
    indexPrecedes_strictWeak⟩
  refine ⟨fun x _ => hw.irrefl x,fun x _ y _ z _ => hw.trans x y z,
    fun x _ y _ z _ => hw.incomparable_trans x y z,fun x _ y _ => x.incomparable_iff y,
    fun x hx y hy => Appraised.unknownLast_of_uniform fun hsome hnone => ?_⟩
  rcases h with h | h
  · simpa [hnone] using h y hy
  · simp [h x hx] at hsome

/-- Of two candidates that are alike otherwise the one of unknown preserved progress precedes the
one that preserves all of it. -/
theorem unknown_preserved_first :
    let known : Appraised :=
      ({ candidateId := ⟨1⟩ },{ expectedPreservedProgress := some ⟨100⟩ })
    let unknown : Appraised := ({ candidateId := ⟨2⟩ },{})
    unknown.precedes known = true ∧ ¬ RankingContract {known,unknown} := by
  intro known unknown
  refine ⟨by decide,fun h => ?_⟩
  exact Appraised.not_unknownLast (x := known) (y := unknown) rfl rfl
    (h.unknown_last known (by simp) unknown (by simp))

end RecoveryPlanner
