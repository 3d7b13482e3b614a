import RecoveryPlanner.FrameFormat
set_option autoImplicit false

/-! What is left of a payload when the `save` of another one stops, fails, or returns although
not all of its frame has reached the file. -/

namespace RecoveryPlanner

namespace FilePersistenceStore

theorem decodeFrame_flushed (io : Faults) {bytes : Bytes} (h : bytes.length ≤ kMaxPayload) :
    decodeFrame (io.flushed (encodeFrame bytes)) = if io.Whole bytes then some bytes else none := by
  by_cases hwhole : io.Whole bytes
  · rw [if_pos hwhole,hwhole.flushed]
    exact decodeFrame_encodeFrame h
  · rw [if_neg hwhole]
    simp only [Faults.Whole,Option.mem_def] at hwhole
    push Not at hwhole
    obtain ⟨n,hn,hshort⟩ := hwhole
    simp only [Faults.flushed,hn]
    exact decodeFrame_truncated h (by rw [encodeFrame_length]; exact hshort)

theorem load_stopped (io : Faults) (files : Directory) (key : Str) {bytes : Bytes} (n : Nat)
    (h : bytes.length ≤ kMaxPayload) :
    load (stopped io key bytes n files) key =
      if Uncovered io n then none
      else if Committed io n then (if io.Whole bytes then some bytes else none)
      else load files key := by
  by_cases hdone : Committed io n
  · rw [if_neg hdone.not_uncovered,if_pos hdone,load_committed hdone files key h]
    exact decodeFrame_flushed io h
  · have hfile := find?_stopped io files key n h
    rw [if_neg hdone] at hfile ⊢
    by_cases hgap : Uncovered io n
    · rw [if_pos hgap] at hfile ⊢
      simp only [load,hfile]
    · rw [if_neg hgap] at hfile ⊢
      simp only [load,hfile]

/-- After a `save` that stopped anywhere, the key holds the earlier or the new payload, unless
it stopped between the removal and the rename, or renamed a file that had lost a part of the
frame: then it holds nothing. -/
theorem save_atomic_iff (io : Faults) (files : Directory) (key : Str) (old bytes : Bytes) (n : Nat)
    (hold : load files key = some old) (h : bytes.length ≤ kMaxPayload) :
    (load (stopped io key bytes n files) key = some old ∨
      load (stopped io key bytes n files) key = some bytes) ↔
      ¬ Uncovered io n ∧ (Committed io n → io.Whole bytes) := by
  rw [load_stopped io files key n h]
  by_cases hgap : Uncovered io n
  · simp [hgap]
  · by_cases hdone : Committed io n
    · by_cases hwhole : io.Whole bytes
      · simp [hgap,hdone,hwhole]
      · simp [hgap,hdone,hwhole]
    · simp [hgap,hdone,hold]

theorem save_atomic_iff_written :
    load (holding (text "planner_state") [1]) (text "planner_state") = some [1] ∧
    (load (stopped {} (text "planner_state") [2] 3 (holding (text "planner_state") [1]))
        (text "planner_state") = some [1] ∨
      load (stopped {} (text "planner_state") [2] 3 (holding (text "planner_state") [1]))
        (text "planner_state") = some [2]) := by
  have hold : load (holding (text "planner_state") [1]) (text "planner_state") = some [1] :=
    load_holding _ (by decide)
  exact ⟨hold,(save_atomic_iff {} _ _ [1] [2] 3 hold (by decide)).mpr (by decide)⟩

/-- A crash right after the removal, a rename that fails, and a flush that fails unseen, so that
`save` returns: the only copy is gone. -/
theorem save_loses :
    load (holding (text "planner_state") [1]) (text "planner_state") = some [1] ∧
    load (stopped {} (text "planner_state") [2] 4 (holding (text "planner_state") [1]))
      (text "planner_state") = none ∧
    load (stopped { renameFails := some (text "Permission denied") } (text "planner_state") [2] 5
      (holding (text "planner_state") [1])) (text "planner_state") = none ∧
    load (stopped { unflushed := some 0 } (text "planner_state") [2] 5
      (holding (text "planner_state") [1])) (text "planner_state") = none := by
  refine ⟨load_holding _ (by decide),?_,?_,?_⟩
  · rw [load_stopped {} _ _ 4 (by decide),if_pos (by decide)]
  · rw [load_stopped _ _ _ 5 (by decide),if_pos (by decide)]
  · rw [load_stopped _ _ _ 5 (by decide),if_neg (by decide),if_pos (by decide),if_neg (by decide)]

end FilePersistenceStore

end RecoveryPlanner
