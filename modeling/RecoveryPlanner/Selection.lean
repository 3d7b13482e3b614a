import RecoveryPlanner.Ranking
import RecoveryPlanner.Session
set_option autoImplicit false

/-! What `plan` decides: which candidates are eligible, which of them is selected and
how they are numbered. -/

namespace RecoveryPlanner

def feasible (ctx : PlannerContext) (request : RecoveryRequest) (c : RecoveryCandidate) : Bool :=
  (evaluateFeasibility c request ctx).isFeasible

/-- FEASIBLE, and within each hard objective that the request sets as the evaluators
see it. -/
def eligible (ctx : PlannerContext) (request : RecoveryRequest) (now : Timestamp)
    (c : RecoveryCandidate) : Bool :=
  feasible ctx request c &&
  ((!request.hardDeadline || (evaluateDeadline c request now).outcome = .hardFeasible) &&
   (!request.hardProgress || (computeEconomics c request now).progressLossWithinTolerance))

def precedes (request : RecoveryRequest) (now : Timestamp) (c c' : RecoveryCandidate) : Bool :=
  candidatePrecedes c c' (computeEconomics c request now) (computeEconomics c' request now)

def keyOf (request : RecoveryRequest) (now : Timestamp) (c : RecoveryCandidate) : List Int :=
  rankKey c (computeEconomics c request now)

theorem precedes_iff (request : RecoveryRequest) (now : Timestamp) (c c' : RecoveryCandidate) :
    precedes request now c c' = true ↔ keyOf request now c < keyOf request now c' :=
  candidatePrecedes_iff _ _ _ _

theorem precedes_strictWeak (request : RecoveryRequest) (now : Timestamp) :
    StrictWeak (precedes request now) := .of_key _ (precedes_iff request now)

def evaluated (ctx : PlannerContext) (request : RecoveryRequest) (now : Timestamp)
    (c : RecoveryCandidate) (i : Nat) : RankedCandidate where
  candidate := c
  feasibility := evaluateFeasibility c request ctx
  economics := computeEconomics c request now
  deadline := evaluateDeadline c request now
  rank := (i+1).toInt32

/-- The candidates that a filter keeps, by their positions. -/
def positions (keep : RecoveryCandidate → Bool) (cs : List RecoveryCandidate) : List Nat :=
  (List.range cs.length).filter (fun i => keep (cs.getD i {}))

section Indices

variable (ctx : PlannerContext) (request : RecoveryRequest) (now : Timestamp)
  (cs : List RecoveryCandidate)

@[simp] theorem rankCandidates_length :
    (rankCandidates ctx request now cs).length = cs.length := by
  simp [rankCandidates]

theorem rankCandidates_getElem? (i : Nat) :
    (rankCandidates ctx request now cs)[i]? =
      cs[i]?.map (fun c => evaluated ctx request now c i) := by
  cases h : cs[i]? with
  | none => simp [rankCandidates,h]
  | some c => simp [rankCandidates,h,evaluated]

theorem rankCandidates_getD {i : Nat} (hi : i < cs.length) :
    (rankCandidates ctx request now cs).getD i {} =
      evaluated ctx request now (cs.getD i {}) i := by
  rw [List.getD_eq_getElem?_getD,rankCandidates_getElem?]
  simp [hi]

theorem feasibleIndices_eq : feasibleIndices (rankCandidates ctx request now cs) =
    positions (feasible ctx request) cs := by
  unfold feasibleIndices positions
  rw [rankCandidates_length]
  refine List.filter_congr fun i hi => ?_
  rw [rankCandidates_getD ctx request now cs (List.mem_range.mp hi)]
  rfl

theorem eligibleIndices_eq : eligibleIndices request (rankCandidates ctx request now cs) =
    positions (eligible ctx request now) cs := by
  unfold eligibleIndices
  rw [feasibleIndices_eq]
  unfold positions
  rw [List.filter_filter]
  refine List.filter_congr fun i hi => ?_
  rw [rankCandidates_getD ctx request now cs (List.mem_range.mp hi),Bool.and_comm]
  rfl

end Indices

/-- The loop that numbers the sorted candidates writes each position once. -/
theorem number_getElem? {order : List Nat} (hn : order.Nodup) (k i : Nat)
    (ranked : List RankedCandidate) :
    ((order.zipIdx k).foldl
      (fun rs ik =>
        rs.modify ik.1 (fun rc => { rc with feasibleRank := (ik.2+1).toInt32 })) ranked)[i]? =
    ranked[i]?.map (fun rc =>
      if i ∈ order then { rc with feasibleRank := (k+order.idxOf i+1).toInt32 } else rc) := by
  induction order generalizing k ranked with
  | nil => simp
  | cons j js ih =>
    obtain ⟨hj,hn⟩ := List.nodup_cons.mp hn
    rw [List.zipIdx_cons,List.foldl_cons,ih hn,List.getElem?_modify]
    by_cases hij : j = i
    · subst hij
      cases ranked[j]? <;> simp [hj]
    · have hmem : i ∈ j :: js ↔ i ∈ js := by simp [Ne.symm hij]
      have hidx : (j :: js).idxOf i = js.idxOf i+1 := List.idxOf_cons_ne js hij
      simp only [hij,hmem,hidx,if_false]
      cases ranked[i]? with
      | none => rfl
      | some rc =>
        have hk : k+1+js.idxOf i+1 = k+(js.idxOf i+1)+1 := by omega
        simp [hk]

theorem assignRanks_getElem? {order : List Nat} (hn : order.Nodup) (i : Nat)
    (ranked : List RankedCandidate) :
    (assignRanks order ranked)[i]? = ranked[i]?.map (fun rc =>
      if i ∈ order then { rc with feasibleRank := (order.idxOf i+1).toInt32 } else rc) := by
  have h := number_getElem? hn 0 i ranked
  rw [Nat.zero_add] at h
  exact h

def indexPrecedes (ranked : List RankedCandidate) (a b : Nat) : Bool :=
  candidatePrecedes (ranked.getD a {}).candidate (ranked.getD b {}).candidate
    (ranked.getD a {}).economics (ranked.getD b {}).economics

theorem indexPrecedes_strictWeak (ranked : List RankedCandidate) :
    StrictWeak (indexPrecedes ranked) :=
  .of_key (fun a => rankKey (ranked.getD a {}).candidate (ranked.getD a {}).economics)
    fun _ _ => candidatePrecedes_iff _ _ _ _

section Order

variable {ctx : PlannerContext} {request : RecoveryRequest} {now : Timestamp}
  {cs : List RecoveryCandidate} {keep : RecoveryCandidate → Bool}

theorem positions_nodup : (positions keep cs).Nodup := List.nodup_range.filter _

theorem positions_map : (positions keep cs).map (fun i => cs.getD i {}) = cs.filter keep :=
  map_filter_range cs {} keep

theorem mem_positions {i : Nat} :
    i ∈ positions keep cs ↔ ∃ c, cs[i]? = some c ∧ keep c = true := mem_filter_range

theorem lt_of_mem_positions {i : Nat} (h : i ∈ positions keep cs) : i < cs.length :=
  List.mem_range.mp (List.mem_filter.mp h).1

theorem indexPrecedes_eq {a b : Nat} (ha : a ∈ positions keep cs) (hb : b ∈ positions keep cs) :
    indexPrecedes (rankCandidates ctx request now cs) a b =
      precedes request now (cs.getD a {}) (cs.getD b {}) := by
  unfold indexPrecedes
  rw [rankCandidates_getD ctx request now cs (lt_of_mem_positions ha),
    rankCandidates_getD ctx request now cs (lt_of_mem_positions hb)]
  rfl

theorem isFirst_positions_iff {i : Nat} :
    IsFirst (indexPrecedes (rankCandidates ctx request now cs)) (positions keep cs) i ↔
      i ∈ positions keep cs ∧ IsFirst (precedes request now) (cs.filter keep) (cs.getD i {}) := by
  constructor
  · intro h
    have hf : IsFirst (fun a b => precedes request now (cs.getD a {}) (cs.getD b {}))
        (positions keep cs) i :=
      ⟨h.mem,fun j hj => by rw [← indexPrecedes_eq hj h.mem]; exact h.first j hj⟩
    have hmap := hf.map
    rw [positions_map] at hmap
    exact ⟨h.mem,hmap⟩
  · rintro ⟨hi,h⟩
    refine ⟨hi,fun j hj => ?_⟩
    rw [indexPrecedes_eq hj hi]
    refine h.first _ ?_
    rw [← positions_map]
    exact List.mem_map_of_mem hj

theorem positions_eq_nil : positions keep cs = [] ↔ cs.filter keep = [] := by
  rw [← positions_map,List.map_eq_nil_iff]

end Order

def ordering (std : StdSort) (ctx : PlannerContext) (request : RecoveryRequest)
    (now : Timestamp) (cs : List RecoveryCandidate) (keep : RecoveryCandidate → Bool) : List Nat :=
  rankFeasible std (rankCandidates ctx request now cs) (positions keep cs)

def best (std : StdSort) (ctx : PlannerContext) (request : RecoveryRequest) (now : Timestamp)
    (cs : List RecoveryCandidate) (keep : RecoveryCandidate → Bool) : RecoveryCandidate :=
  cs.getD ((ordering std ctx request now cs keep).headD 0) {}

section Best

variable {ctx : PlannerContext} {request : RecoveryRequest} {now : Timestamp}
  {cs : List RecoveryCandidate} {keep : RecoveryCandidate → Bool}

theorem ordering_perm (std : StdSort) :
    (ordering std ctx request now cs keep).Perm (positions keep cs) := std.perm _ _

theorem ordering_nodup (std : StdSort) : (ordering std ctx request now cs keep).Nodup :=
  (ordering_perm std).nodup_iff.mpr positions_nodup

theorem head_isFirst (std : StdSort) (h : cs.filter keep ≠ []) :
    IsFirst (indexPrecedes (rankCandidates ctx request now cs)) (positions keep cs)
      ((ordering std ctx request now cs keep).headD 0) := by
  have hne := std.sort_ne_nil (indexPrecedes (rankCandidates ctx request now cs))
    (mt positions_eq_nil.mp h)
  obtain ⟨i,rest,hs⟩ := List.exists_cons_of_ne_nil hne
  have hs' : ordering std ctx request now cs keep = i :: rest := hs
  rw [hs']
  exact std.isFirst_head (indexPrecedes_strictWeak _) hs

theorem best_isFirst (std : StdSort) (h : cs.filter keep ≠ []) :
    IsFirst (precedes request now) (cs.filter keep) (best std ctx request now cs keep) :=
  (isFirst_positions_iff.mp (head_isFirst std h)).2

/-- Among ties the sort may put any one in front. -/
theorem exists_best {c : RecoveryCandidate}
    (h : IsFirst (precedes request now) (cs.filter keep) c) :
    ∃ std : StdSort, best std ctx request now cs keep = c := by
  have hc := h.mem
  rw [← positions_map] at hc
  obtain ⟨i,hi,rfl⟩ := List.mem_map.mp hc
  have hfirst : IsFirst (indexPrecedes (rankCandidates ctx request now cs))
      (positions keep cs) i := isFirst_positions_iff.mpr ⟨hi,h⟩
  obtain ⟨std,hs⟩ := StdSort.exists_head hfirst
  refine ⟨std,?_⟩
  have hs : (ordering std ctx request now cs keep).head? = some i := hs
  rw [best,List.headD_eq_head?_getD,hs]
  rfl

end Best

def RecoveryPlan.explained (p : RecoveryPlan) (e : PlanExplanation) : RecoveryPlan :=
  { p with explanation := e }

namespace Impl

def planFor (im : Impl) (request : RecoveryRequest) (now : Timestamp) (c : RecoveryCandidate) :
    RecoveryPlan :=
  im.buildPlan request (evaluated im.ctx request now c 0) now

variable (std : StdSort) (im : Impl) (now : Timestamp) (request : RecoveryRequest)
  (cs : List RecoveryCandidate)

theorem buildPlan_assigned {order : List Nat} (hn : order.Nodup) {i : Nat}
    (hi : i < cs.length) :
    im.buildPlan request
      ((assignRanks order (rankCandidates im.ctx request now cs)).getD i {}) now =
    im.planFor request now (cs.getD i {}) := by
  have hget : cs[i]? = some (cs.getD i {}) := by simp [hi]
  rw [List.getD_eq_getElem?_getD,assignRanks_getElem? hn,rankCandidates_getElem?,hget]
  simp only [Option.map_some,Option.getD_some]
  split <;> rfl

theorem buildPlan_best {keep : RecoveryCandidate → Bool} (h : cs.filter keep ≠ []) :
    let order := ordering std im.ctx request now cs keep
    im.buildPlan request
      ((assignRanks order (rankCandidates im.ctx request now cs)).getD (order.headD 0) {}) now =
    im.planFor request now (best std im.ctx request now cs keep) :=
  buildPlan_assigned im now request cs (ordering_nodup std)
    (lt_of_mem_positions (head_isFirst std h).mem)

theorem ne_nil_of_filter {keep : RecoveryCandidate → Bool} {cs : List RecoveryCandidate}
    (h : cs.filter keep ≠ []) : cs.isEmpty = false := by
  cases cs with
  | nil => exact absurd rfl h
  | cons c cs => rfl

theorem plan_found (h : cs.filter (eligible im.ctx request now) ≠ []) :
    let d := (im.plan std now request cs).1
    d.outcome = .planFound ∧
    (∃ e, d.plan = some ((im.planFor request now
      (best std im.ctx request now cs (eligible im.ctx request now))).explained e)) ∧
    d.ranked = assignRanks (ordering std im.ctx request now cs (eligible im.ctx request now))
      (rankCandidates im.ctx request now cs) := by
  have hE : (positions (eligible im.ctx request now) cs).isEmpty = false := by
    simpa using mt positions_eq_nil.mp h
  unfold Impl.plan
  simp only [ne_nil_of_filter h,eligibleIndices_eq,hE,Bool.false_eq_true,if_false,true_and]
  refine ⟨⟨buildExplanation std im.ctx (assignRanks
    (ordering std im.ctx request now cs (eligible im.ctx request now))
    (rankCandidates im.ctx request now cs))
    ((ordering std im.ctx request now cs (eligible im.ctx request now)).headD 0),?_⟩,rfl⟩
  rw [← buildPlan_best std im now request cs h]
  rfl

theorem plan_fallback (hE : cs.filter (eligible im.ctx request now) = [])
    (hF : cs.filter (feasible im.ctx request) ≠ []) :
    let d := (im.plan std now request cs).1
    d.outcome = (if request.hardDeadline then .noDeadlineFeasiblePlan else .noValidPlan) ∧
    d.plan = some (im.planFor request now
      (best std im.ctx request now cs (feasible im.ctx request))) ∧
    d.ranked = assignRanks (ordering std im.ctx request now cs (feasible im.ctx request))
      (rankCandidates im.ctx request now cs) := by
  have hE : (positions (eligible im.ctx request now) cs).isEmpty = true := by
    simpa using positions_eq_nil.mpr hE
  have hF' : (positions (feasible im.ctx request) cs).isEmpty = false := by
    simpa using mt positions_eq_nil.mp hF
  unfold Impl.plan
  simp only [ne_nil_of_filter hF,eligibleIndices_eq,feasibleIndices_eq,hE,hF',Bool.false_eq_true,
    if_false,if_true,true_and]
  refine ⟨?_,rfl⟩
  rw [← buildPlan_best std im now request cs hF]
  rfl

theorem eligible_nil (hF : cs.filter (feasible im.ctx request) = []) :
    cs.filter (eligible im.ctx request now) = [] := by
  rw [List.filter_eq_nil_iff] at hF ⊢
  exact fun c hc he => hF c hc (Bool.and_eq_true_iff.mp he).1

theorem plan_none (hF : cs.filter (feasible im.ctx request) = []) :
    let r := im.plan std now request cs
    r.1.outcome = (if cs.isEmpty then .noCandidates else .noValidPlan) ∧ r.1.plan = none ∧
    r.1.ranked = rankCandidates im.ctx request now cs ∧ r.2.plans = im.plans := by
  have hE : (positions (eligible im.ctx request now) cs).isEmpty = true := by
    simpa using positions_eq_nil.mpr (eligible_nil im now request cs hF)
  have hF : (positions (feasible im.ctx request) cs).isEmpty = true := by
    simpa using positions_eq_nil.mpr hF
  unfold Impl.plan
  cases hcs : cs.isEmpty with
  | true =>
    rw [List.isEmpty_iff] at hcs
    subst hcs
    exact ⟨rfl,rfl,rfl,rfl⟩
  | false =>
    simp only [eligibleIndices_eq,feasibleIndices_eq,hE,hF,Bool.false_eq_true,if_false,if_true,
      true_and]
    rfl

end Impl

structure RecoveryPlan.Selects (p : RecoveryPlan) (c : RecoveryCandidate) : Prop where
  candidateId : p.candidateId = c.candidateId
  candidateGeneration : p.candidateGeneration = c.generation
  strategy : p.strategy = c.strategy
  targetWorker : p.targetWorker = c.targetWorker
  targetBoot : p.targetBoot = c.targetBoot
  targetEngine : p.targetEngine = c.targetEngine
  engineIncarnation : p.engineIncarnation = c.targetEngineIncarnation
  stateSource : p.stateSource = c.stateSource
  stateGeneration : p.stateGeneration = c.stateGeneration
  checkpointSource : p.checkpointSource = c.checkpointSource

theorem RecoveryPlan.Selects.explained {p : RecoveryPlan} {c : RecoveryCandidate}
    (h : p.Selects c) (e : PlanExplanation) : (p.explained e).Selects c :=
  ⟨h.1,h.2,h.3,h.4,h.5,h.6,h.7,h.8,h.9,h.10⟩

theorem Impl.planFor_selects (im : Impl) (request : RecoveryRequest) (now : Timestamp)
    (c : RecoveryCandidate) : (im.planFor request now c).Selects c :=
  ⟨rfl,rfl,rfl,rfl,rfl,rfl,rfl,rfl,rfl,rfl⟩

/-- `feasible_rank` counts the kept candidates from 1, in an order that the comparator
allows, and is 0 for the others. -/
structure RanksInOrder (request : RecoveryRequest) (now : Timestamp)
    (keep : RecoveryCandidate → Bool) (cs : List RecoveryCandidate)
    (ranked : List RankedCandidate) : Prop where
  candidates : ranked.map RankedCandidate.candidate = cs
  bijective : Set.BijOn (fun i => (ranked.getD i {}).feasibleRank.toInt)
    {i | ∃ c, cs[i]? = some c ∧ keep c = true} {r : Int | 1 ≤ r ∧ r ≤ (cs.filter keep).length}
  increasing : ∀ i j c c', cs[i]? = some c → keep c = true → cs[j]? = some c' → keep c' = true →
    precedes request now c c' = true →
    (ranked.getD i {}).feasibleRank < (ranked.getD j {}).feasibleRank
  zero : ∀ i c, cs[i]? = some c → keep c = false → (ranked.getD i {}).feasibleRank = 0

section Ranks

variable {ctx : PlannerContext} {request : RecoveryRequest} {now : Timestamp}
  {cs : List RecoveryCandidate} {order : List Nat}

theorem assignRanks_candidates (hn : order.Nodup) :
    (assignRanks order (rankCandidates ctx request now cs)).map RankedCandidate.candidate =
      cs := by
  refine List.ext_getElem? fun i => ?_
  rw [List.getElem?_map,assignRanks_getElem? hn,rankCandidates_getElem?]
  cases cs[i]? with
  | none => rfl
  | some c =>
    simp only [Option.map_some]
    split <;> rfl

theorem assignRanks_feasibleRank (hn : order.Nodup) {i : Nat} (hi : i < cs.length) :
    ((assignRanks order (rankCandidates ctx request now cs)).getD i {}).feasibleRank =
      if i ∈ order then (order.idxOf i+1).toInt32 else 0 := by
  have hget : cs[i]? = some (cs.getD i {}) := by simp [hi]
  rw [List.getD_eq_getElem?_getD,assignRanks_getElem? hn,rankCandidates_getElem?,hget]
  simp only [Option.map_some,Option.getD_some]
  split <;> rfl

end Ranks

theorem bijOn_rank {order : List Nat} (hn : order.Nodup) (hlen : order.length < 2^31) :
    Set.BijOn (fun i => ((order.idxOf i+1).toInt32).toInt) {i | i ∈ order}
      {r : Int | 1 ≤ r ∧ r ≤ order.length} := by
  have hcast : Set.BijOn (fun n : Nat => (n : Int)) (Set.Icc 1 order.length)
      {r : Int | 1 ≤ r ∧ r ≤ order.length} := by
    refine ⟨fun n hn => ?_,fun a _ b _ h => Int.ofNat_inj.mp h,fun z hz => ?_⟩
    · have h : 1 ≤ n ∧ n ≤ order.length := hn
      have hz : 1 ≤ (n : Int) ∧ (n : Int) ≤ order.length := by omega
      exact hz
    · have h : 1 ≤ z ∧ z ≤ order.length := hz
      exact ⟨z.toNat,Set.mem_Icc.mpr (by omega),Int.toNat_of_nonneg (by omega)⟩
  refine (hcast.comp (bijOn_idxOf hn)).congr fun i hi => ?_
  have hpos : order.idxOf i < order.length := List.idxOf_lt_length_of_mem hi
  have hfits : order.idxOf i+1 < 2^31 := by omega
  exact (Int32.toInt_ofNat_of_lt hfits).symm

/-- The numbers are right as long as an `int` holds them. -/
theorem ordering_ranksInOrder_iff (std : StdSort) (ctx : PlannerContext)
    (request : RecoveryRequest) (now : Timestamp) (cs : List RecoveryCandidate)
    (keep : RecoveryCandidate → Bool) :
    RanksInOrder request now keep cs
      (assignRanks (ordering std ctx request now cs keep) (rankCandidates ctx request now cs)) ↔
    (cs.filter keep).length < 2^31 := by
  have hn : (ordering std ctx request now cs keep).Nodup := ordering_nodup std
  have hsorted := std.sorted _ (positions keep cs)
    (indexPrecedes_strictWeak (rankCandidates ctx request now cs))
  have hmem : ∀ i, i ∈ ordering std ctx request now cs keep ↔ i ∈ positions keep cs :=
    fun i => (ordering_perm std).mem_iff
  have hlen : (ordering std ctx request now cs keep).length = (cs.filter keep).length := by
    rw [(ordering_perm std).length_eq,← positions_map,List.length_map]
  have hrank : ∀ i ∈ positions keep cs,
      ((assignRanks (ordering std ctx request now cs keep)
        (rankCandidates ctx request now cs)).getD i {}).feasibleRank =
      ((ordering std ctx request now cs keep).idxOf i+1).toInt32 := fun i hi => by
    rw [assignRanks_feasibleRank hn (lt_of_mem_positions hi),if_pos ((hmem i).mpr hi)]
  constructor
  · intro h
    by_contra hlarge
    have hone : 1 ≤ ((cs.filter keep).length : Int) := by omega
    have hlast : ((cs.filter keep).length : Int) ∈
        {r : Int | 1 ≤ r ∧ r ≤ (cs.filter keep).length} := ⟨hone,le_rfl⟩
    obtain ⟨i,_,hi⟩ := h.bijective.surjOn hlast
    have hint := ((assignRanks (ordering std ctx request now cs keep)
      (rankCandidates ctx request now cs)).getD i {}).feasibleRank.toInt_lt
    dsimp only at hi
    omega
  · intro hshort
    refine ⟨assignRanks_candidates hn,?_,?_,?_⟩
    · have hset : {i | ∃ c, cs[i]? = some c ∧ keep c = true} =
          {i | i ∈ ordering std ctx request now cs keep} :=
        Set.ext fun i => mem_positions.symm.trans (hmem i).symm
      rw [hset,← hlen]
      refine (bijOn_rank hn (by rw [hlen]; exact hshort)).congr fun i hi => ?_
      rw [hrank i ((hmem i).mp hi)]
    · intro i j c c' hi hk hj hk' hlt
      have hi' := mem_positions.mpr ⟨c,hi,hk⟩
      have hj' := mem_positions.mpr ⟨c',hj,hk'⟩
      have hidx : indexPrecedes (rankCandidates ctx request now cs) i j = true := by
        rw [indexPrecedes_eq hi' hj',List.getD_eq_getElem?_getD,List.getD_eq_getElem?_getD,hi,hj]
        exact hlt
      have hpos : (ordering std ctx request now cs keep).idxOf i <
          (ordering std ctx request now cs keep).idxOf j :=
        idxOf_lt_idxOf (indexPrecedes_strictWeak _) hsorted ((hmem i).mpr hi') ((hmem j).mpr hj')
          hidx
      have hbound := List.idxOf_lt_length_of_mem ((hmem j).mpr hj')
      rw [hrank i hi',hrank j hj']
      exact (Int32.ofNat_lt_iff_lt (by omega) (by omega)).mpr (Nat.succ_lt_succ hpos)
    · intro i c hi hk
      have hni : i ∉ ordering std ctx request now cs keep := fun hin => by
        obtain ⟨c',hc',hk'⟩ := mem_positions.mp ((hmem i).mp hin)
        obtain rfl := Option.some.inj (hi.symm.trans hc')
        rw [hk] at hk'
        exact absurd hk' (by simp)
      rw [assignRanks_feasibleRank hn (List.getElem?_eq_some_iff.mp hi).1,if_neg hni]

/-- With an eligible candidate, `plan` selects one that no eligible candidate precedes and
numbers the eligible ones in order; with only feasible ones, it falls back on one that no
feasible candidate precedes; with none, it stores no plan. -/
def Decides (std : StdSort) (im : Impl) (now : Timestamp) (request : RecoveryRequest)
    (cs : List RecoveryCandidate) : Prop :=
  let d := (im.plan std now request cs).1
  let E := cs.filter (eligible im.ctx request now)
  let F := cs.filter (feasible im.ctx request)
  (E ≠ [] → d.outcome = .planFound ∧
    (∃ p c, d.plan = some p ∧ p.Selects c ∧ IsFirst (precedes request now) E c) ∧
    RanksInOrder request now (eligible im.ctx request now) cs d.ranked) ∧
  (E = [] → F ≠ [] → d.outcome ≠ .planFound ∧
    ∃ p c, d.plan = some p ∧ p.Selects c ∧ IsFirst (precedes request now) F c) ∧
  (F = [] → d.plan = none ∧ (im.plan std now request cs).2.plans = im.plans)

theorem Decides.short {std : StdSort} {im : Impl} {now : Timestamp} {request : RecoveryRequest}
    {cs : List RecoveryCandidate} (h : Decides std im now request cs) :
    (cs.filter (eligible im.ctx request now)).length < 2^31 := by
  by_cases hE : cs.filter (eligible im.ctx request now) = []
  · rw [hE]
    decide
  · have hr := (h.1 hE).2.2
    rw [(im.plan_found std now request cs hE).2.2] at hr
    exact (ordering_ranksInOrder_iff std im.ctx request now cs _).mp hr

/-- All of it holds exactly as long as an `int` can number the eligible candidates. -/
theorem plan_decides_iff (std : StdSort) (im : Impl) (now : Timestamp)
    (request : RecoveryRequest) (cs : List RecoveryCandidate) :
    Decides std im now request cs ↔ (cs.filter (eligible im.ctx request now)).length < 2^31 := by
  have hranked := ordering_ranksInOrder_iff std im.ctx request now cs (eligible im.ctx request now)
  refine ⟨Decides.short,fun hshort => ⟨fun hE => ?_,fun hE hF => ?_,fun hF => ?_⟩⟩
  · obtain ⟨ho,⟨e,hp⟩,hr⟩ := im.plan_found std now request cs hE
    have hs := (im.planFor_selects request now
      (best std im.ctx request now cs (eligible im.ctx request now))).explained e
    refine ⟨ho,⟨_,_,hp,hs,best_isFirst std hE⟩,?_⟩
    rw [hr]
    exact hranked.mpr hshort
  · obtain ⟨ho,hp,_⟩ := im.plan_fallback std now request cs hE hF
    refine ⟨?_,_,_,hp,im.planFor_selects request now _,best_isFirst std hF⟩
    rw [ho]
    split <;> simp
  · obtain ⟨_,hp,_,hplans⟩ := im.plan_none std now request cs hF
    exact ⟨hp,hplans⟩

def oneWorker : Impl := (Impl.construct false).registerWorker ⟨1⟩ ⟨1⟩

/-- The last of 2^31 candidates gets a negative rank. -/
theorem ranks_overflow : ¬ Decides .insertion oneWorker ⟨0⟩ (Session.requestNo 1)
    (List.replicate (2^31) Session.readyCandidate) := by
  have hready : eligible oneWorker.ctx (Session.requestNo 1) ⟨0⟩ Session.readyCandidate =
      true := by decide +kernel
  have hcount : ∀ n, ((List.replicate n Session.readyCandidate).filter
      (eligible oneWorker.ctx (Session.requestNo 1) ⟨0⟩)).length = n := by
    intro n
    rw [List.filter_replicate_of_pos hready,List.length_replicate]
  intro h
  have hshort := h.short
  rw [hcount] at hshort
  exact lt_irrefl _ hshort

def RecoveryDecision.feasible (d : RecoveryDecision) : List RecoveryCandidate :=
  (d.ranked.filter (fun rc => rc.feasibility.isFeasible)).map RankedCandidate.candidate

theorem assignRanks_feasible {ctx : PlannerContext} {request : RecoveryRequest}
    {now : Timestamp} {cs : List RecoveryCandidate} {order : List Nat} (hn : order.Nodup) :
    ((assignRanks order (rankCandidates ctx request now cs)).filter
      (fun rc => rc.feasibility.isFeasible)).map RankedCandidate.candidate =
    cs.filter (feasible ctx request) := by
  have hev : ∀ rc ∈ assignRanks order (rankCandidates ctx request now cs),
      rc.feasibility.isFeasible = feasible ctx request rc.candidate := by
    intro rc hrc
    obtain ⟨i,hi⟩ := List.mem_iff_getElem?.mp hrc
    rw [assignRanks_getElem? hn,rankCandidates_getElem?,Option.map_map] at hi
    obtain ⟨c,_,rfl⟩ := Option.map_eq_some_iff.mp hi
    simp only [Function.comp]
    split <;> rfl
  have hcs : ((assignRanks order (rankCandidates ctx request now cs)).map
      RankedCandidate.candidate).filter (feasible ctx request) = cs.filter (feasible ctx request) :=
    congrArg _ (assignRanks_candidates hn)
  rw [List.filter_map] at hcs
  rw [List.filter_congr hev]
  exact hcs

theorem Impl.plan_feasible (std : StdSort) (im : Impl) (now : Timestamp)
    (request : RecoveryRequest) (cs : List RecoveryCandidate) :
    (im.plan std now request cs).1.feasible = cs.filter (RecoveryPlanner.feasible im.ctx request) := by
  unfold RecoveryDecision.feasible
  by_cases hF : cs.filter (RecoveryPlanner.feasible im.ctx request) = []
  · rw [(im.plan_none std now request cs hF).2.2.1]
    exact assignRanks_feasible List.nodup_nil
  · by_cases hE : cs.filter (eligible im.ctx request now) = []
    · rw [(im.plan_fallback std now request cs hE hF).2.2]
      exact assignRanks_feasible (ordering_nodup std)
    · rw [(im.plan_found std now request cs hE).2.2]
      exact assignRanks_feasible (ordering_nodup std)

def RecoveryPlan.withoutRun (p : RecoveryPlan) : RecoveryPlan :=
  { p with
    planId := default
    generation := default
    authority := { p.authority with planGeneration := default }
    explanation := {} }

theorem Impl.planFor_withoutRun {im im' : Impl} (hctx : im.ctx = im'.ctx)
    (request : RecoveryRequest) (now : Timestamp) (c : RecoveryCandidate) :
    (im.planFor request now c).withoutRun = (im'.planFor request now c).withoutRun := by
  unfold planFor buildPlan
  rw [hctx]
  rfl

theorem sameKeys_of_isFirst {request : RecoveryRequest} {now : Timestamp}
    {l : List RecoveryCandidate} {c c' : RecoveryCandidate}
    (h : IsFirst (precedes request now) l c) (h' : IsFirst (precedes request now) l c') :
    SameKeys c c' (computeEconomics c request now) (computeEconomics c' request now) :=
  rankKey_inj (h.key_eq (precedes_iff request now) h')

/-- What tells two candidates apart once their economics tie. -/
def RecoveryCandidate.identity (c : RecoveryCandidate) :
    CandidateId × CandidateGeneration × RecoveryStrategy :=
  (c.candidateId,c.generation,c.strategy)

theorem eq_of_sameKeys {cs : List RecoveryCandidate} {c c' : RecoveryCandidate}
    {e e' : RecoveryEconomics} (hn : (cs.map RecoveryCandidate.identity).Nodup) (hc : c ∈ cs)
    (hc' : c' ∈ cs) (h : SameKeys c c' e e') : c = c' := by
  refine List.inj_on_of_nodup_map hn hc hc' ?_
  simp only [RecoveryCandidate.identity,h.candidateId,h.generation,h.strategy]

structure RecoveryDecision.Chooses (d : RecoveryDecision) (im : Impl) (request : RecoveryRequest)
    (now : Timestamp) (c : RecoveryCandidate) (p : RecoveryPlan) : Prop where
  plan : d.plan = some p
  selects : p.Selects c
  economics : p.economics = computeEconomics c request now
  deadline : p.deadline = evaluateDeadline c request now
  withoutRun : p.withoutRun = (im.planFor request now c).withoutRun

/-- The candidates that `plan` chooses from. -/
def choices (ctx : PlannerContext) (request : RecoveryRequest) (now : Timestamp)
    (cs : List RecoveryCandidate) : List RecoveryCandidate :=
  if cs.filter (eligible ctx request now) = [] then cs.filter (feasible ctx request)
  else cs.filter (eligible ctx request now)

theorem filter_nil_iff {cs cs' : List RecoveryCandidate} (h : cs.Perm cs')
    (keep : RecoveryCandidate → Bool) : cs.filter keep = [] ↔ cs'.filter keep = [] := by
  rw [← List.length_eq_zero_iff,(h.filter keep).length_eq,List.length_eq_zero_iff]

theorem choices_perm {ctx : PlannerContext} {request : RecoveryRequest} {now : Timestamp}
    {cs cs' : List RecoveryCandidate} (h : cs.Perm cs') :
    (choices ctx request now cs).Perm (choices ctx request now cs') := by
  simp only [choices,filter_nil_iff h]
  split
  · exact h.filter _
  · exact h.filter _

theorem mem_of_choices {ctx : PlannerContext} {request : RecoveryRequest} {now : Timestamp}
    {cs : List RecoveryCandidate} {c : RecoveryCandidate} (h : c ∈ choices ctx request now cs) :
    c ∈ cs := by
  unfold choices at h
  split at h
  · exact List.mem_of_mem_filter h
  · exact List.mem_of_mem_filter h

theorem Impl.plan_chooses (std : StdSort) (im : Impl) (now : Timestamp)
    (request : RecoveryRequest) (cs : List RecoveryCandidate) :
    let d := (im.plan std now request cs).1
    (d.plan = none ∧ choices im.ctx request now cs = []) ∨
    ∃ c p, d.Chooses im request now c p ∧
      IsFirst (precedes request now) (choices im.ctx request now cs) c := by
  unfold choices
  by_cases hE : cs.filter (eligible im.ctx request now) = []
  · rw [if_pos hE]
    by_cases hF : cs.filter (feasible im.ctx request) = []
    · exact .inl ⟨(im.plan_none std now request cs hF).2.1,hF⟩
    · obtain ⟨_,hp,_⟩ := im.plan_fallback std now request cs hE hF
      exact .inr ⟨_,_,⟨hp,im.planFor_selects request now _,rfl,rfl,rfl⟩,best_isFirst std hF⟩
  · rw [if_neg hE]
    obtain ⟨_,⟨e,hp⟩,_⟩ := im.plan_found std now request cs hE
    have hs := (im.planFor_selects request now
      (best std im.ctx request now cs (eligible im.ctx request now))).explained e
    exact .inr ⟨_,_,⟨hp,hs,rfl,rfl,rfl⟩,best_isFirst std hE⟩

theorem Impl.plan_outcome (std : StdSort) (im : Impl) (now : Timestamp)
    (request : RecoveryRequest) (cs : List RecoveryCandidate) :
    (im.plan std now request cs).1.outcome =
      if cs.filter (eligible im.ctx request now) ≠ [] then .planFound
      else if cs.filter (feasible im.ctx request) ≠ [] then
        if request.hardDeadline then .noDeadlineFeasiblePlan else .noValidPlan
      else if cs = [] then .noCandidates else .noValidPlan := by
  by_cases hF : cs.filter (feasible im.ctx request) = []
  · rw [(im.plan_none std now request cs hF).1]
    simp [im.eligible_nil now request cs hF,hF]
  · by_cases hE : cs.filter (eligible im.ctx request now) = []
    · rw [(im.plan_fallback std now request cs hE hF).1]
      simp [hE,hF]
    · rw [(im.plan_found std now request cs hE).1]
      simp [hE]

theorem Impl.plan_eq_none_iff {std : StdSort} {im : Impl} {now : Timestamp}
    {request : RecoveryRequest} {cs : List RecoveryCandidate} :
    (im.plan std now request cs).1.plan = none ↔
      cs.filter (RecoveryPlanner.feasible im.ctx request) = [] := by
  constructor
  · intro h
    by_contra hF
    by_cases hE : cs.filter (eligible im.ctx request now) = []
    · rw [(im.plan_fallback std now request cs hE hF).2.1] at h
      exact absurd h (by simp)
    · obtain ⟨_,⟨e,hp⟩,_⟩ := im.plan_found std now request cs hE
      rw [hp] at h
      exact absurd h (by simp)
  · exact fun hF => (im.plan_none std now request cs hF).2.1

theorem Impl.plan_found_iff {std : StdSort} {im : Impl} {now : Timestamp}
    {request : RecoveryRequest} {cs : List RecoveryCandidate} :
    (im.plan std now request cs).1.outcome = .planFound ↔
      cs.filter (eligible im.ctx request now) ≠ [] := by
  rw [plan_outcome]
  constructor
  · intro h hE
    rw [if_neg (not_not.mpr hE)] at h
    split at h
    · split at h <;> simp at h
    · split at h <;> simp at h
  · exact fun h => if_pos h

theorem Impl.plan_outcome_perm (std std' : StdSort) {im im' : Impl} (hctx : im.ctx = im'.ctx)
    (now : Timestamp) (request : RecoveryRequest) {cs cs' : List RecoveryCandidate}
    (hperm : cs.Perm cs') :
    (im.plan std now request cs).1.outcome = (im'.plan std' now request cs').1.outcome := by
  have hcs : cs = [] ↔ cs' = [] := by
    rw [← List.length_eq_zero_iff,hperm.length_eq,List.length_eq_zero_iff]
  simp only [plan_outcome,hctx,ne_eq,filter_nil_iff hperm,hcs]

/-- A decision depends only on the context, the clock reading, the request and the
candidates as a multiset, whatever the sort does with ties. -/
theorem plan_deterministic (std std' : StdSort) (im im' : Impl) (hctx : im.ctx = im'.ctx)
    (now : Timestamp) (request : RecoveryRequest) (cs cs' : List RecoveryCandidate)
    (hperm : cs.Perm cs') :
    let d := (im.plan std now request cs).1
    let d' := (im'.plan std' now request cs').1
    d.outcome = d'.outcome ∧
    d.feasible.Perm d'.feasible ∧
    ((d.plan = none ∧ d'.plan = none) ∨
      ∃ c ∈ cs, ∃ c' ∈ cs', ∃ p p', d.plan = some p ∧ d'.plan = some p' ∧
        p.Selects c ∧ p'.Selects c' ∧ SameKeys c c' p.economics p'.economics ∧
        ((cs.map RecoveryCandidate.identity).Nodup →
          c = c' ∧ p.withoutRun = p'.withoutRun ∧ p.decisionDigest = p'.decisionDigest)) := by
  have hch : (choices im.ctx request now cs).Perm (choices im'.ctx request now cs') := by
    rw [hctx]
    exact choices_perm hperm
  refine ⟨Impl.plan_outcome_perm std std' hctx now request hperm,?_,?_⟩
  · rw [Impl.plan_feasible,Impl.plan_feasible,hctx]
    exact hperm.filter _
  · rcases im.plan_chooses std now request cs with ⟨hp,h⟩ | ⟨c,p,hp,hc⟩
    · rcases im'.plan_chooses std' now request cs' with ⟨hp',_⟩ | ⟨c',p',hp',hc'⟩
      · exact .inl ⟨hp,hp'⟩
      · exact absurd (hch.mem_iff.mpr hc'.mem) (by simp [h])
    · rcases im'.plan_chooses std' now request cs' with ⟨_,h'⟩ | ⟨c',p',hp',hc'⟩
      · exact absurd (hch.mem_iff.mp hc.mem) (by simp [h'])
      · have hkeys := sameKeys_of_isFirst (hc.of_perm hch) hc'
        have hmem := mem_of_choices hc.mem
        have hmem' := mem_of_choices hc'.mem
        refine .inr ⟨c,hmem,c',hmem',p,p',hp.plan,hp'.plan,hp.selects,hp'.selects,?_,fun hn => ?_⟩
        · rw [hp.economics,hp'.economics]
          exact hkeys
        · obtain rfl := eq_of_sameKeys hn hmem (hperm.mem_iff.mpr hmem') hkeys
          have hrun : p.withoutRun = p'.withoutRun := by
            rw [hp.withoutRun,hp'.withoutRun,Impl.planFor_withoutRun hctx]
          have hdigest : p.withoutRun.decisionDigest = p'.withoutRun.decisionDigest := by
            rw [hrun]
          exact ⟨rfl,hrun,hdigest⟩

theorem plan_deterministic_swapped :
    let im := (Impl.construct false).registerWorker ⟨1⟩ ⟨1⟩
    let im' := { im with nextPlanId := 7, hasStore := true }
    let other := { Session.readyCandidate with candidateId := ⟨2⟩ }
    im.ctx = im'.ctx ∧ [Session.readyCandidate,other].Perm [other,Session.readyCandidate] ∧
    ∃ p p', (im.plan .insertion ⟨0⟩ (Session.requestNo 1) [Session.readyCandidate,other]).1.plan =
        some p ∧
      (im'.plan (.rotated 1) ⟨0⟩ (Session.requestNo 1) [other,Session.readyCandidate]).1.plan =
        some p' ∧
      p.candidateId = ⟨1⟩ ∧ p.withoutRun = p'.withoutRun := by
  intro im im' other
  have hperm : [Session.readyCandidate,other].Perm [other,Session.readyCandidate] :=
    .swap _ _ _
  refine ⟨rfl,hperm,?_⟩
  have h := plan_deterministic .insertion (.rotated 1) im im' rfl ⟨0⟩ (Session.requestNo 1)
    [Session.readyCandidate,other] [other,Session.readyCandidate] hperm
  have hsome : ((im.plan .insertion ⟨0⟩ (Session.requestNo 1)
      [Session.readyCandidate,other]).1.plan).map RecoveryPlan.candidateId = some ⟨1⟩ := by
    decide +kernel
  have hn : ([Session.readyCandidate,other].map RecoveryCandidate.identity).Nodup := by
    decide +kernel
  rcases h.2.2 with ⟨hnone,_⟩ | ⟨c,_,c',_,p,p',hp,hp',_,_,_,heq⟩
  · rw [hnone] at hsome
    exact absurd hsome (by simp)
  · rw [hp] at hsome
    exact ⟨p,p',hp,hp',Option.some.inj hsome,(heq hn).2.1⟩

end RecoveryPlanner
