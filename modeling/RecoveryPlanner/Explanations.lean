import RecoveryPlanner.Planner
set_option autoImplicit false

/-! What the what-would-change list says of a ranking does not depend on the order in which the
ranking is given: its conditions decide their consequences. -/

namespace RecoveryPlanner

inductive Change where
  | ready (alt : RecoveryStrategy)
  | evidence (alt : RecoveryStrategy)
  | constraint (alt : RecoveryStrategy) (reason : RejectionReason)
  | revalidation (alt : RecoveryStrategy)
  | economics (alt : RecoveryStrategy)
  | laterDeadline
  | relaxedDeadline

namespace Change

def condition : Change → Str
  | ready alt =>
    if alt = .shadowPromote then text "the shadow/warm candidate becomes READY"
    else alt.toString ++ text " target becomes READY"
  | evidence alt => text "missing evidence for " ++ alt.toString ++ text " is supplied"
  | constraint alt reason =>
    alt.toString ++ text " resolves its constraint (" ++ reason.toString ++ text ")"
  | revalidation alt => alt.toString ++ text " evidence is revalidated as current"
  | economics alt => text "a " ++ alt.toString ++ text " path with better economics appears"
  | laterDeadline => text "the recovery deadline increases"
  | relaxedDeadline => text "the recovery deadline is relaxed or the candidate speeds up"

def consequence (sel : RecoveryStrategy) : Change → Str
  | ready alt => alt.toString ++ text " may overtake " ++ sel.toString
  | evidence alt => alt.toString ++ text " may become feasible and preferred"
  | constraint alt _ => alt.toString ++ text " may become feasible"
  | revalidation alt => alt.toString ++ text " may become feasible"
  | economics alt => alt.toString ++ text " may overtake " ++ sel.toString
  | laterDeadline => text "a lower-risk but slower candidate may become preferred"
  | relaxedDeadline => text "the selected fallback plan may become deadline-feasible"

def entry (sel : RecoveryStrategy) (c : Change) : Str × Str := (c.condition,c.consequence sel)

def ending : Change → UInt8
  | ready _ => 89
  | evidence _ => 100
  | constraint _ _ => 41
  | revalidation _ => 116
  | economics _ => 115
  | laterDeadline => 115
  | relaxedDeadline => 112

theorem getLast?_append_eq {s t : Str} {b : UInt8} (h : t.getLast? = some b) :
    (s ++ t).getLast? = some b := by
  rw [List.getLast?_append,h]
  rfl

theorem condition_ending (c : Change) : c.condition.getLast? = some c.ending := by
  cases c with
  | ready alt =>
    rw [condition]
    split
    · rfl
    · exact getLast?_append_eq (show (text " target becomes READY").getLast? = some 89 by decide)
  | evidence alt =>
    exact getLast?_append_eq (show (text " is supplied").getLast? = some 100 by decide)
  | constraint alt reason => exact getLast?_append_eq (show (text ")").getLast? = some 41 by decide)
  | revalidation alt =>
    exact getLast?_append_eq
      (show (text " evidence is revalidated as current").getLast? = some 116 by decide)
  | economics alt =>
    exact getLast?_append_eq
      (show (text " path with better economics appears").getLast? = some 115 by decide)
  | laterDeadline => decide
  | relaxedDeadline => decide

theorem toString_cons (s : RecoveryStrategy) : ∃ b rest, s.toString = b :: rest ∧ b < 97 := by
  cases s <;> exact ⟨_,_,rfl,by decide⟩

theorem blank_not_mem (s : RecoveryStrategy) : 32 ∉ s.toString := by
  cases s with
  | undeclared i => exact (by decide : 32 ∉ text "UNKNOWN")
  | _ => decide

theorem word_eq {x y s t : Str} (hx : 32 ∉ x) (hy : 32 ∉ y)
    (h : x ++ 32 :: s = y ++ 32 :: t) : x = y := by
  have hword : ∀ (z u : Str), 32 ∉ z → (z ++ 32 :: u).takeWhile (fun b => b ≠ 32) = z := by
    intro z u hz
    have hne : ∀ b ∈ z, b ≠ 32 := fun b hb heq => hz (heq ▸ hb)
    rw [List.takeWhile_append_of_pos (by simpa using hne)]
    simp
  rw [← hword x s hx,h,hword y t hy]

theorem shadow_ne (s : RecoveryStrategy) :
    text "the shadow/warm candidate becomes READY" ≠ s.toString ++ text " target becomes READY" := by
  intro h
  obtain ⟨b,rest,hs,hb⟩ := toString_cons s
  have hhead := congrArg List.head? h
  rw [hs] at hhead
  obtain rfl : (116 : UInt8) = b := Option.some.inj hhead
  exact absurd hb (by decide)

theorem ready_name {s t : RecoveryStrategy} (h : (ready s).condition = (ready t).condition) :
    s.toString = t.toString := by
  rw [condition,condition] at h
  split at h <;> split at h
  · rename_i hs ht
    rw [hs,ht]
  · exact absurd h (shadow_ne t)
  · exact absurd h.symm (shadow_ne s)
  · exact List.append_cancel_right h

theorem constraint_name {s t : RecoveryStrategy} {reason reason' : RejectionReason}
    (h : (constraint s reason).condition = (constraint t reason').condition) :
    s.toString = t.toString := by
  simp only [condition,List.append_assoc] at h
  exact word_eq (blank_not_mem s) (blank_not_mem t) h

/-- Both end in the same byte; they begin with different ones. -/
theorem economics_ne_laterDeadline (s : RecoveryStrategy) :
    (economics s).condition ≠ laterDeadline.condition := by
  intro h
  have hhead := congrArg List.head? h
  exact absurd (Option.some.inj hhead) (by decide)

theorem consequence_eq (sel : RecoveryStrategy) {c d : Change} (h : c.condition = d.condition) :
    c.consequence sel = d.consequence sel := by
  have hend : c.ending = d.ending := by
    have hl := congrArg List.getLast? h
    rw [condition_ending,condition_ending] at hl
    exact Option.some.inj hl
  cases c with
  | ready alt =>
    cases d with
    | ready alt' => rw [consequence,consequence,ready_name h]
    | _ => exact absurd hend (by simp [ending])
  | evidence alt =>
    cases d with
    | evidence alt' =>
      have hname := List.append_cancel_left (List.append_cancel_right h)
      rw [consequence,consequence,hname]
    | _ => exact absurd hend (by simp [ending])
  | constraint alt reason =>
    cases d with
    | constraint alt' reason' => rw [consequence,consequence,constraint_name h]
    | _ => exact absurd hend (by simp [ending])
  | revalidation alt =>
    cases d with
    | revalidation alt' =>
      have hname := List.append_cancel_right h
      rw [consequence,consequence,hname]
    | _ => exact absurd hend (by simp [ending])
  | economics alt =>
    cases d with
    | economics alt' =>
      have hname := List.append_cancel_left (List.append_cancel_right h)
      rw [consequence,consequence,hname]
    | laterDeadline => exact absurd h (economics_ne_laterDeadline alt)
    | _ => exact absurd hend (by simp [ending])
  | laterDeadline =>
    cases d with
    | laterDeadline => rfl
    | economics alt' => exact absurd h.symm (economics_ne_laterDeadline alt')
    | _ => exact absurd hend (by simp [ending])
  | relaxedDeadline =>
    cases d with
    | relaxedDeadline => rfl
    | _ => exact absurd hend (by simp [ending])

theorem exists_of_mem_candidate {sel : RecoveryStrategy} {rc : RankedCandidate} {e : Str × Str}
    (h : e ∈ changeConditions sel rc) : ∃ c : Change, e = c.entry sel := by
  unfold changeConditions at h
  dsimp only at h
  split at h
  · exact ⟨.ready rc.candidate.strategy,List.mem_singleton.mp h⟩
  · exact ⟨.evidence rc.candidate.strategy,List.mem_singleton.mp h⟩
  · split at h
    · exact absurd h List.not_mem_nil
    · rename_i v _ _
      exact ⟨.constraint rc.candidate.strategy v.reason,List.mem_singleton.mp h⟩
  · exact ⟨.revalidation rc.candidate.strategy,List.mem_singleton.mp h⟩
  · split at h
    · exact ⟨.economics rc.candidate.strategy,List.mem_singleton.mp h⟩
    · exact absurd h List.not_mem_nil

theorem exists_of_mem_deadline (sel : RecoveryStrategy) {deadline : DeadlineEvaluation}
    {economics : RecoveryEconomics} {e : Str × Str}
    (h : e ∈ deadlineConditions deadline economics) : ∃ c : Change, e = c.entry sel := by
  unfold deadlineConditions at h
  rcases List.mem_append.mp h with h | h
  · split at h
    · split at h
      · exact absurd h List.not_mem_nil
      · exact ⟨.laterDeadline,List.mem_singleton.mp h⟩
    · exact absurd h List.not_mem_nil
  · split at h
    · exact ⟨.relaxedDeadline,List.mem_singleton.mp h⟩
    · exact absurd h List.not_mem_nil

end Change

def changeList (ranked : List RankedCandidate) (plan : RecoveryPlan) : WhatWouldChange :=
  ((ranked.filter (fun rc => rc.candidate.candidateId ≠ plan.candidateId)).flatMap
    (changeConditions plan.strategy)) ++ deadlineConditions plan.deadline plan.economics

theorem exists_of_mem_changeList {ranked : List RankedCandidate} {plan : RecoveryPlan}
    {e : Str × Str} (h : e ∈ changeList ranked plan) :
    ∃ c : Change, e = c.entry plan.strategy := by
  rcases List.mem_append.mp h with h | h
  · obtain ⟨rc,_,he⟩ := List.mem_flatMap.mp h
    exact Change.exists_of_mem_candidate he
  · exact Change.exists_of_mem_deadline plan.strategy h

theorem changeList_perm {ranked ranked' : List RankedCandidate} (plan : RecoveryPlan)
    (h : ranked.Perm ranked') : (changeList ranked plan).Perm (changeList ranked' plan) :=
  ((h.filter _).flatMap_right _).append_right _

/-- Neither the order of the ranking nor the choice of the sort shows in the explanation. -/
theorem computeWhatWouldChange_perm (std std' : StdSort) {ranked ranked' : List RankedCandidate}
    (plan : RecoveryPlan) (h : ranked.Perm ranked') :
    computeWhatWouldChange std ranked plan = computeWhatWouldChange std' ranked' plan := by
  refine std.sort_eq_of_perm std' Prod.fst (fun a b => decide_eq_true_iff)
    (fun a ha b hb hab => ?_) (changeList_perm plan h)
  obtain ⟨c,rfl⟩ := exists_of_mem_changeList ha
  obtain ⟨d,rfl⟩ := exists_of_mem_changeList hb
  exact Prod.ext hab (Change.consequence_eq plan.strategy hab)

theorem computeWhatWouldChange_swap :
    computeWhatWouldChange .insertion
      [{ candidate := { candidateId := ⟨1⟩, strategy := .migrate }
         feasibility := { result := .defer } },
       { candidate := { candidateId := ⟨2⟩, strategy := .shadowPromote },
         feasibility := { result := .revalidationRequired } }] {} =
    computeWhatWouldChange (.rotated 1)
      [{ candidate := { candidateId := ⟨2⟩, strategy := .shadowPromote },
         feasibility := { result := .revalidationRequired } },
       { candidate := { candidateId := ⟨1⟩, strategy := .migrate },
         feasibility := { result := .defer } }] {} :=
  computeWhatWouldChange_perm .insertion (.rotated 1) {} (List.Perm.swap _ _ [])

end RecoveryPlanner
