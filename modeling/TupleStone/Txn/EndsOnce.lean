import TupleStone.Txn.TransactionManager

/-! # A transaction ends once

The state that is checked is the caller's copy. Which callers make it the truth.
-/

set_option autoImplicit false

namespace TupleStone.TransactionManager

/-- The handles passed are in date, and none of a commit is one that was never begun. -/
def Faithful : List Call → Prop :=
  Each fun log c => (∀ txn, c.handle? = some txn → InDate log txn) ∧
    ∀ txn, c = .commit (some txn) → txn.state = .kActive → txn.id ≠ kInvalidTxnId

theorem faithful_snoc {calls : List Call} {c : Call} :
    Faithful (calls ++ [c]) ↔
      Faithful calls ∧ (∀ txn, c.handle? = some txn → InDate (run calls).1 txn) ∧
        ∀ txn, c = .commit (some txn) → txn.state = .kActive → txn.id ≠ kInvalidTxnId := each_snoc

structure EndsOnce (calls : List Call) : Prop where
  succeeds : ∀ before c after, calls = before ++ c :: after → ∀ id state, ((run before).2.call c).1 = .finished id state →
    id ∈ issued (run before).1 ∧ id ∉ finished (run before).1
  once : (finished (run calls).1).Nodup
  one : ∀ id, ¬ (Event.finished id .kCommitted ∈ (run calls).1 ∧ Event.finished id .kAborted ∈ (run calls).1)
  committed : ∀ id, (run calls).2.isCommitted id = true → id ≠ kInvalidTxnId ∧ id ∈ issued (run calls).1

theorem Faithful.finished {calls : List Call} (h : Faithful calls) :
    (finished (run calls).1).Nodup ∧ (∀ id ∈ finished (run calls).1, id ∈ issued (run calls).1) ∧
      Event.finished kInvalidTxnId .kCommitted ∉ (run calls).1 := by
  induction calls using List.reverseRecOn with
  | nil => exact ⟨List.nodup_nil, fun _ h => absurd h List.not_mem_nil, List.not_mem_nil⟩
  | append_singleton calls c ih =>
    obtain ⟨hBefore, hInDate, hValid⟩ := faithful_snoc.mp h
    obtain ⟨hOnce, hIssued, hZero⟩ := ih hBefore
    rw [run_snoc]
    rcases (run calls).2.call_cases c with ⟨-, hDone⟩ | ⟨txn, state, hHandle, hActive, hCommit, hDone⟩ | ⟨-, hDone⟩
    · rw [hDone, finished_append, issued_append]
      refine ⟨?_, ?_, ?_⟩
      · exact (List.append_nil (TransactionManager.finished (run calls).1)).symm ▸ hOnce
      · intro id hId
        exact List.mem_append_left _ (hIssued id (by simpa [TransactionManager.finished, finishedId] using hId))
      · simpa using hZero
    · obtain ⟨hBegun, hNot⟩ := hInDate txn hHandle hActive
      rw [hDone, finished_append, issued_append]
      refine ⟨?_, ?_, ?_⟩
      · apply List.nodup_append.mpr
        refine ⟨hOnce, List.pairwise_singleton _ _, ?_⟩
        intro id hId last hLast hSame
        rw [List.mem_singleton.mp hLast] at hSame
        exact hNot (hSame ▸ hId)
      · intro id hId
        rcases List.mem_append.mp hId with hOld | hNew
        · exact List.mem_append_left _ (hIssued id hOld)
        · rw [List.mem_singleton.mp hNew]
          exact List.mem_append_left _ hBegun
      · rw [List.mem_append, List.mem_singleton]
        rintro (hOld | hNew)
        · exact hZero hOld
        · rw [Event.finished.injEq] at hNew
          exact hValid txn (hCommit.mp hNew.2.symm) hActive hNew.1.symm
    · rw [hDone, finished_append, issued_append]
      refine ⟨?_, ?_, ?_⟩
      · exact (List.append_nil (TransactionManager.finished (run calls).1)).symm ▸ hOnce
      · intro id hId
        exact List.mem_append_left _ (hIssued id (by simpa [TransactionManager.finished, finishedId] using hId))
      · simpa using hZero

/-- A call that finishes an identifier twice shows in the list of those finished. -/
theorem nodup_one {log : List Event} (h : (finished log).Nodup) (id : UInt64) :
    ¬ (Event.finished id .kCommitted ∈ log ∧ Event.finished id .kAborted ∈ log) := by
  rintro ⟨hCommitted, hAborted⟩
  obtain ⟨before, after, rfl⟩ := List.append_of_mem hCommitted
  rw [finished_append] at h
  have hApart := List.nodup_append.mp h
  rw [List.mem_append, List.mem_cons] at hAborted
  rcases hAborted with hBefore | hSame | hAfter
  · exact hApart.2.2 id (mem_finished.mpr ⟨_, hBefore⟩) id List.mem_cons_self rfl
  · cases hSame
  · exact (List.nodup_cons.mp hApart.2.1).1 (mem_finished.mpr ⟨_, hAfter⟩)

/-- Over a whole run: exactly when every call has a handle in date. -/
theorem endsOnce_iff (calls : List Call) : EndsOnce calls ↔ Faithful calls := by
  constructor
  · intro h before c after hSplit
    constructor
    · intro txn hHandle hActive
      rcases (run before).2.call_cases c with ⟨hBegin, -⟩ | ⟨other, state, hOther, -, -, hDone⟩ | ⟨hRefused, -⟩
      · rw [hBegin] at hHandle
        cases hHandle
      · rw [hHandle] at hOther
        cases hOther
        exact h.succeeds before c after hSplit txn.id state (by rw [hDone])
      · exact absurd hActive (hRefused txn hHandle)
    · rintro txn rfl hActive hZero
      have hEvent : Event.finished kInvalidTxnId .kCommitted ∈ (run calls).1 := by
        obtain ⟨behind, hBehind⟩ := run_append (before ++ [.commit (some txn)]) after
        rw [hSplit, ← List.singleton_append, ← List.append_assoc, hBehind, run_snoc]
        apply List.mem_append_left
        apply List.mem_append_right
        simp [call, commit, hActive, outcome, hZero]
      exact (h.committed _ (((kept_run calls).committed _).mpr hEvent)).1 rfl
  · intro h
    obtain ⟨hOnce, hIssued, hZero⟩ := h.finished
    constructor
    · intro before c after hSplit id state hEvent
      obtain ⟨hInDate, -⟩ := h before c after hSplit
      rcases (run before).2.call_cases c with ⟨-, hDone⟩ | ⟨txn, state', hHandle, hActive, -, hDone⟩ | ⟨-, hDone⟩
      · rw [hDone] at hEvent
        cases hEvent
      · rw [hDone] at hEvent
        cases hEvent
        exact hInDate txn hHandle hActive
      · rw [hDone] at hEvent
        cases hEvent
    · exact hOnce
    · exact nodup_one hOnce
    · intro id hCommitted
      have hEvent := ((kept_run calls).committed id).mp hCommitted
      constructor
      · rintro rfl
        exact hZero hEvent
      · exact hIssued id (mem_finished.mpr ⟨_, hEvent⟩)

/-- A copy of a handle aborts what the handle committed; a handle that was never begun commits identifier 0. -/
theorem endsOnce_copied :
    ¬ EndsOnce [.begin, .commit (some (begin {}).1), .abort (some (begin {}).1)] ∧
      ¬ EndsOnce [.commit (some {})] ∧ (run [.commit (some {})]).2.isCommitted kInvalidTxnId = true := by
  refine ⟨?_, ?_, ?_⟩
  · intro h
    exact absurd h.once (by decide)
  · intro h
    exact (h.committed kInvalidTxnId (by decide)).1 rfl
  · decide

end TupleStone.TransactionManager
