import RecoveryPlanner.Durability
set_option autoImplicit false

/-! The history as an audit trail. Each line is one record, the records can be read back from
the lines, and a run without a load writes one record for each decision and each restart. -/

namespace RecoveryPlanner

theorem field_split {α : Type} {sep : α} {x y r r' : List α} (hx : sep ∉ x) (hy : sep ∉ y)
    (hr : ∀ b, r.head? = some b → b = sep) (hr' : ∀ b, r'.head? = some b → b = sep)
    (h : x ++ r = y ++ r') : x = y ∧ r = r' := by
  induction x generalizing y with
  | nil =>
    cases y with
    | nil => exact ⟨rfl,h⟩
    | cons b y =>
      have hb : r.head? = some b := by rw [show r = b :: y ++ r' from h]; rfl
      exact absurd (by rw [hr b hb]; exact List.mem_cons_self) hy
  | cons a x ih =>
    cases y with
    | nil =>
      have ha : r'.head? = some a := by rw [show r' = a :: x ++ r from h.symm]; rfl
      exact absurd (by rw [hr' a ha]; exact List.mem_cons_self) hx
    | cons b y =>
      obtain ⟨rfl,htail⟩ := List.cons.inj h
      obtain ⟨rfl,hrest⟩ := ih (fun hm => hx (List.mem_cons_of_mem a hm))
        (fun hm => hy (List.mem_cons_of_mem a hm)) htail
      exact ⟨rfl,hrest⟩

theorem ofDigits_decimal (n : Nat) :
    Nat.ofDigits 10 ((decimal n).reverse.map (fun b => b.toNat-48)) = n := by
  unfold decimal
  split
  · rename_i h
    rw [h]
    decide
  · rw [← List.map_reverse,List.reverse_reverse,List.map_map]
    have hid : (Nat.digits 10 n).map ((fun b : UInt8 => b.toNat-48) ∘ fun d => (48+d).toUInt8) =
        Nat.digits 10 n := by
      refine (List.map_congr_left fun d hd => ?_).trans (List.map_id _)
      have hlt : d < 10 := Nat.digits_lt_base (by norm_num) hd
      interval_cases d <;> decide
    rw [hid,Nat.ofDigits_digits]

theorem decimal_inj {a b : Nat} (h : decimal a = decimal b) : a = b := by
  rw [← ofDigits_decimal a,h,ofDigits_decimal]

def blank : UInt8 := 32

theorem decimal_unbroken (n : Nat) : blank ∉ decimal n := by
  unfold decimal
  split
  · decide
  · intro hb
    obtain ⟨d,hd,hbd⟩ := List.mem_map.mp hb
    have hlt : d < 10 := Nat.digits_lt_base (by norm_num) (List.mem_reverse.mp hd)
    interval_cases d <;> exact absurd hbd (by decide)

theorem toString_unbroken (s : RecoveryStrategy) : blank ∉ s.toString := by
  cases s with
  | undeclared i => exact (by decide : blank ∉ text "UNKNOWN")
  | _ => decide

theorem outcome_unbroken (o : PlanOutcome) : blank ∉ o.toString := by
  cases o <;> decide

theorem outcome_inj {o o' : PlanOutcome} (h : o.toString = o'.toString) : o = o' := by
  revert h
  cases o <;> cases o' <;> decide

/-- What a line says about a plan. The name of its strategy is one word. -/
structure AuditedPlan where
  planId : RecoveryPlanId
  strategy : Str
  candidateId : CandidateId
  digest : Str
  word : blank ∉ strategy

inductive AuditRecord where
  | decision (requestId : RecoveryRequestId) (workload : WorkloadId) (outcome : PlanOutcome)
      (plan : Option AuditedPlan)
  | restart (epoch : CoordinatorEpoch) (boot : PlannerBootId)

def auditedPlan (p : RecoveryPlan) : AuditedPlan where
  planId := p.planId
  strategy := p.strategy.toString
  candidateId := p.candidateId
  digest := p.decisionDigest
  word := toString_unbroken p.strategy

namespace AuditRecord

def ofDecision (request : RecoveryRequest) (d : RecoveryDecision) : AuditRecord :=
  .decision request.requestId request.workload d.outcome (d.plan.map auditedPlan)

def planFields : Option AuditedPlan → Str
  | none => []
  | some p => text " plan=" ++ (decimal p.planId.value.toNat ++ (text " strategy=" ++
      (p.strategy ++ (text " candidate=" ++ (decimal p.candidateId.value.toNat ++
      (text " digest=" ++ p.digest))))))

def line : AuditRecord → Str
  | .decision requestId workload outcome plan =>
    text "req=" ++ (decimal requestId.value.toNat ++ (text " workload=" ++
      (decimal workload.value.toNat ++ (text " outcome=" ++
      (outcome.toString ++ planFields plan)))))
  | .restart epoch boot =>
    text "coordinator restart; epoch=" ++ (decimal epoch.value.toNat ++
      (text " boot=" ++ decimal boot.value.toNat))

theorem line_ofDecision (request : RecoveryRequest) (d : RecoveryDecision) :
    (ofDecision request d).line = historyEntry request d := by
  unfold ofDecision line historyEntry
  cases d.plan with
  | none => simp only [Option.map_none,planFields,List.append_assoc]
  | some p => simp only [Option.map_some,planFields,auditedPlan,List.append_assoc]

theorem line_restart (ctx : PlannerContext) :
    (restart ctx.epoch ctx.plannerBoot).line = restartEntry ctx := by
  simp only [line,restartEntry,List.append_assoc]

theorem id_split {tag : IdTag} {a b : Id tag} {r r' : Str}
    (hr : ∀ c, r.head? = some c → c = blank) (hr' : ∀ c, r'.head? = some c → c = blank)
    (h : decimal a.value.toNat ++ r = decimal b.value.toNat ++ r') : a = b ∧ r = r' := by
  obtain ⟨hd,hrest⟩ := field_split (decimal_unbroken _) (decimal_unbroken _) hr hr' h
  exact ⟨congrArg Id.mk (UInt64.toNat_inj.mp (decimal_inj hd)),hrest⟩

theorem head?_text {s : String} {r : Str} (h : (text s).head? = some blank) :
    ∀ c, (text s ++ r).head? = some c → c = blank := by
  intro c hc
  rw [List.head?_append,h] at hc
  exact (Option.some.inj hc).symm

theorem planFields_head (p : Option AuditedPlan) :
    ∀ c, (planFields p).head? = some c → c = blank := by
  cases p with
  | none => exact fun c hc => absurd hc (by simp [planFields])
  | some p => exact head?_text (by decide)

theorem planFields_inj {p p' : Option AuditedPlan} (h : planFields p = planFields p') : p = p' := by
  cases p with
  | none =>
    cases p' with
    | none => rfl
    | some p' => exact absurd (congrArg List.length h) (by simp [planFields,text])
  | some p =>
    cases p' with
    | none => exact absurd (congrArg List.length h) (by simp [planFields,text])
    | some p' =>
      obtain ⟨hid,h⟩ := id_split (head?_text (by decide)) (head?_text (by decide))
        (List.append_cancel_left h)
      obtain ⟨hname,h⟩ := field_split p.word p'.word (head?_text (by decide))
        (head?_text (by decide)) (List.append_cancel_left h)
      obtain ⟨hcandidate,h⟩ := id_split (head?_text (by decide)) (head?_text (by decide))
        (List.append_cancel_left h)
      have hdigest := List.append_cancel_left h
      cases p
      cases p'
      simp only at hid hname hcandidate hdigest
      subst hid hname hcandidate hdigest
      rfl

def initial : AuditRecord → UInt8
  | .decision _ _ _ _ => 114
  | .restart _ _ => 99

theorem head?_line (r : AuditRecord) : r.line.head? = some r.initial := by
  cases r with
  | decision requestId workload outcome plan =>
    rw [line,List.head?_append,show (text "req=").head? = some 114 by decide]
    rfl
  | restart epoch boot =>
    rw [line,List.head?_append,show (text "coordinator restart; epoch=").head? = some 99 by decide]
    rfl

theorem initial_eq {r r' : AuditRecord} (h : r.line = r'.line) : r.initial = r'.initial := by
  have hhead := congrArg List.head? h
  rw [head?_line,head?_line] at hhead
  exact Option.some.inj hhead

/-- A line tells which record it is. -/
theorem line_injective : Function.Injective line := by
  intro r r' h
  have hinitial := initial_eq h
  cases r with
  | decision requestId workload outcome plan =>
    cases r' with
    | decision requestId' workload' outcome' plan' =>
      obtain ⟨hid,hafter⟩ := id_split (head?_text (by decide)) (head?_text (by decide))
        (List.append_cancel_left h)
      obtain ⟨hworkload,hafter⟩ := id_split (head?_text (by decide)) (head?_text (by decide))
        (List.append_cancel_left hafter)
      obtain ⟨houtcome,hafter⟩ := field_split (outcome_unbroken _) (outcome_unbroken _)
        (planFields_head plan) (planFields_head plan') (List.append_cancel_left hafter)
      rw [hid,hworkload,outcome_inj houtcome,planFields_inj hafter]
    | restart epoch' boot' => exact absurd hinitial (by simp [initial])
  | restart epoch boot =>
    cases r' with
    | decision requestId' workload' outcome' plan' => exact absurd hinitial (by simp [initial])
    | restart epoch' boot' =>
      obtain ⟨hepoch,hafter⟩ := id_split (head?_text (by decide)) (head?_text (by decide))
        (List.append_cancel_left h)
      have hboot : boot = boot' :=
        congrArg Id.mk (UInt64.toNat_inj.mp (decimal_inj (List.append_cancel_left hafter)))
      rw [hepoch,hboot]

end AuditRecord

namespace Impl

theorem plan_history (std : StdSort) (im : Impl) (now : Timestamp) (request : RecoveryRequest)
    (cs : List RecoveryCandidate) :
    (im.plan std now request cs).2.history = im.history ++
      (if cs.isEmpty then [] else [historyEntry request (im.plan std now request cs).1]) := by
  unfold Impl.plan
  split
  · exact (List.append_nil _).symm
  · dsimp only
    split
    · split <;> rfl
    · rfl

theorem Settles.history {im im' : Impl} (h : Settles im im') : im'.history = im.history := by
  cases h <;> rfl

/-- A restart takes no line away, whether the reload gets to the history or not. -/
theorem restart_history {im : Impl} (ht : im.Tidy) (hh : im.HistoryShort)
    (hf : im.hasStore = true → im.Fits) (clock : UInt64 → Timestamp) (disk : Disk) :
    let im' := (im.restartCoordinator clock disk).1
    im'.history = im.history ++ [restartEntry im'.ctx] := by
  intro im'
  cases hstore : im.hasStore with
  | false => exact (restart_storeless hstore clock disk).history
  | true =>
    have hreload : (im.advanceEpoch.applySnapshot im.encodeSnapshot true).2.history =
        im.history := by
      by_cases hq : ∀ q ∈ im.requests.values, q.Readable
      · rw [(applySnapshot_own (hf hstore) im.advanceEpoch true).1 (ht.readable_iff.mpr ⟨hq,hh⟩)]
        exact ht.history_eq
      · obtain ⟨n,c,heq⟩ := im.advanceEpoch.applySnapshot_unreadable (hf hstore).counts hq true
        rw [heq]
        rfl
    show (im.restartCoordinator clock disk).1.history =
      im.history ++ [restartEntry (im.restartCoordinator clock disk).1.ctx]
    rw [restart_stored hstore]
    generalize (im.advanceEpoch.applySnapshot im.encodeSnapshot true).2 = next at hreload ⊢
    rw [recordRestart_history,← hreload]
    rfl

end Impl

theorem Node.act_history (std : StdSort) (n : Node) {a : Act}
    (h : ∀ now request cs, a ≠ .plan now request cs) :
    (n.act std a).impl.history = n.impl.history := by
  cases a with
  | plan now request cs => exact absurd rfl (h now request cs)
  | authorizePlan now plan => exact (n.impl.authorizePlan_settles now plan).history
  | dispatchBegin now plan =>
    rcases n.act_dispatchBegin std now plan with heq | ⟨p,_,_,_,heq⟩
    · rw [heq]
    · rw [heq]
      rfl
  | dispatchEnd now call status =>
    simp only [act]
    split
    · exact (n.impl.dispatchEnd_settles now _ status).history
    · rfl
  | reportExecution now report => exact (n.impl.reportExecution_settles now report).history
  | adapterTake dispatchId outcome =>
    simp only [act,Impl.adapterTake]
    cases n.impl.dispatchMeta.find? dispatchId.value <;> rfl
  | adapterDeliver now call =>
    simp only [act]
    split
    · exact (n.impl.reportExecution_settles now _).history
    · rfl
  | cancelPlan now planId force => exact (n.impl.cancelPlan_settles now planId force).history
  | invalidatePlan now planId => exact (n.impl.invalidatePlan_settles now planId).history
  | setRecomputeAvailable gen available =>
    simp only [act,Impl.setRecomputeAvailable]
    split <;> rfl
  | _ => rfl

namespace Session

def audited (std : StdSort) (s : Session) : Op → List AuditRecord
  | .act (.plan now request cs) =>
    if cs.isEmpty then []
    else [.ofDecision request (s.node.impl.plan std now request cs).1]
  | .restartCoordinator clock =>
    let ctx := (s.step std (.restartCoordinator clock)).node.impl.ctx
    [.restart ctx.epoch ctx.plannerBoot]
  | _ => []

/-- No plan is loaded back, and snapshots are only written where counts are real ones. -/
def Audits (s : Session) (op : Op) : Prop := op ≠ .loadState ∧ s.WritesFit op

theorem step_history (std : StdSort) {s : Session} {op : Op} (hop : s.Audits op)
    (h : s.Recorded) : (s.step std op).node.impl.history =
      s.node.impl.history ++ (audited std s op).map AuditRecord.line := by
  cases op with
  | act a =>
    cases a with
    | plan now request cs =>
      refine (s.node.impl.plan_history std now request cs).trans ?_
      rw [audited]
      split
      · rfl
      · rw [List.map_cons,List.map_nil,AuditRecord.line_ofDecision]
    | _ => exact (s.node.act_history std (by simp)).trans (List.append_nil _).symm
  | saveState => exact (List.append_nil _).symm
  | loadState => exact absurd rfl hop.1
  | restartCoordinator clock =>
    refine (Impl.restart_history h.tidy h.short hop.2 clock s.disk).trans ?_
    rw [audited,List.map_cons,List.map_nil,AuditRecord.line_restart]
    rfl

structure Trailed (s : Session) (trail : List AuditRecord) : Prop where
  recorded : s.Recorded
  history : s.node.impl.history = trail.map AuditRecord.line

theorem step_trailed (std : StdSort) {s : Session} {op : Op} (hop : s.Audits op)
    {trail : List AuditRecord} (h : s.Trailed trail) :
    (s.step std op).Trailed (run (fun es e => es ++ [e]) trail (audited std s op)) := by
  refine ⟨step_recorded std hop.2 h.recorded,?_⟩
  rw [step_history std hop h.recorded,h.history,run_snoc,List.map_append]

/-- The history of a run without a load is the trail of its decisions and restarts, in order,
and no other trail has this history. -/
theorem run_audit (std : StdSort) (hasStore : Bool) (ops : List Op)
    (h : Along Audits (step std) (construct hasStore) ops) :
    let trail := meaning (step std) (audited std) (construct hasStore) ops
    let history := (run (step std) (construct hasStore) ops).node.impl.history
    history = trail.map AuditRecord.line ∧
      ∀ trail' : List AuditRecord, history = trail'.map AuditRecord.line → trail' = trail := by
  intro trail history
  have hstart : (construct hasStore).Trailed [] := ⟨construct_recorded hasStore,rfl⟩
  have hrun := (h.simulates hstart fun _ _ _ hop hs => step_trailed std hop hs).history
  rw [run_snoc,List.nil_append] at hrun
  refine ⟨hrun,fun trail' h' => ?_⟩
  exact List.map_injective_iff.mpr AuditRecord.line_injective (h'.symm.trans hrun)

theorem run_audit_steady :
    Along Audits (step .insertion) (construct true) steadyRun ∧
    (run (step .insertion) (construct true) steadyRun).node.impl.history =
      (meaning (step .insertion) (audited .insertion) (construct true) steadyRun).map
        AuditRecord.line := by
  have h : Along Audits (step .insertion) (construct true) steadyRun :=
    ⟨⟨nofun,trivial⟩,⟨nofun,trivial⟩,⟨nofun,trivial⟩,⟨nofun,trivial⟩,
      ⟨nofun,fun _ => by decide +kernel⟩,trivial⟩
  exact ⟨h,(run_audit .insertion true steadyRun h).1⟩

end Session

end RecoveryPlanner
