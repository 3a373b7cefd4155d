import TupleStone.Txn.TransactionManager

/-! # Snapshots are stable

What a snapshot calls finished stays as it was, and what commits later is in the snapshot as running or to come.
-/

set_option autoImplicit false

namespace TupleStone.TransactionManager

/-- Every handle of a transaction is in date: each one from `begin` is finished at most once. -/
def Careful : List Call → Prop :=
  Each fun log c => ∀ txn, c.handle? = some txn → txn.id ≠ kInvalidTxnId → InDate log txn

theorem careful_snoc {calls : List Call} {c : Call} :
    Careful (calls ++ [c]) ↔
      Careful calls ∧ ∀ txn, c.handle? = some txn → txn.id ≠ kInvalidTxnId → InDate (run calls).1 txn := each_snoc

/-- The transaction that begins behind some calls. -/
def begun (before : List Call) : TxnHandle := (run before).2.begin.1

/-- What finishes later was not finished before. -/
theorem Careful.not_finished {before later : List Call} (h : Careful (before ++ later)) {id : UInt64} {state : TxnState}
    (hId : id ≠ kInvalidTxnId) (hMem : Event.finished id state ∈ (run (before ++ later)).1.drop before.length) :
    id ∉ finished (run before).1 := by
  induction later using List.reverseRecOn with
  | nil =>
    rw [List.append_nil, ← length_run before, List.drop_length] at hMem
    cases hMem
  | append_singleton later c ih =>
    rw [← List.append_assoc] at h
    obtain ⟨hBefore, hLast⟩ := careful_snoc.mp h
    rw [← List.append_assoc, run_snoc, List.drop_append_of_le_length (by rw [length_run, List.length_append]; omega),
      List.mem_append, List.mem_singleton] at hMem
    rcases hMem with hOld | hNew
    · exact ih hBefore hOld
    · rcases (run (before ++ later)).2.call_cases c with ⟨-, hDone⟩ | ⟨txn, state', hHandle, hActive, -, hDone⟩ | ⟨-, hDone⟩
      · rw [hDone] at hNew
        cases hNew
      · rw [hDone] at hNew
        cases hNew
        have hInDate := hLast txn hHandle hId hActive
        obtain ⟨behind, hBehind⟩ := run_append before later
        rw [hBehind, finished_append, List.mem_append] at hInDate
        exact fun hMem => hInDate.2 (Or.inl hMem)
      · rw [hDone] at hNew
        cases hNew

/-- What the snapshot of a transaction does not list as running was finished when it was taken. -/
theorem finished_of_snapshot (before : List Call) {id : UInt64} (hId : id ≠ kInvalidTxnId)
    (hOther : id ≠ (begun before).id) (hBelow : id < (begun before).snapshot.xmax)
    (hActive : (begun before).snapshot.active.contains id = false) : id ∈ finished (run before).1 := by
  have hKept := kept_run before
  have hLess : id < (run before).2.nextId := (lt_or_eq_of_lt_succ hBelow).resolve_right hOther
  apply (hKept.tracked id (hKept.below id hId hLess)).resolve_left
  apply Bool.eq_false_iff.mp
  exact hActive

/-- Through every interleaving. Identifier 0 is no transaction's; it is covered while nobody finishes it. -/
theorem snapshot_stable (before later : List Call) (hCareful : Careful (before ++ .begin :: later)) :
    (∀ id, id ≠ (begun before).id →
        (id = kInvalidTxnId → kInvalidTxnId ∉ finished (run (before ++ .begin :: later)).1) →
        id < (begun before).snapshot.xmax → (begun before).snapshot.active.contains id = false →
        (run (before ++ .begin :: later)).2.isCommitted id = (run before).2.begin.2.isCommitted id) ∧
      (∀ id, id ≠ (begun before).id →
        (id = kInvalidTxnId → kInvalidTxnId ∉ finished (run (before ++ .begin :: later)).1) →
        Event.finished id .kCommitted ∈ (run (before ++ .begin :: later)).1.drop (before.length + 1) →
        (begun before).snapshot.xmax ≤ id ∨ (begun before).snapshot.active.contains id = true) ∧
      (∀ id ∈ issued (run before).1, id ≠ (begun before).id → id < (begun before).snapshot.xmin →
        id ∈ finished (run before).1) := by
  have hBehind : ∀ id, (id = kInvalidTxnId → kInvalidTxnId ∉ finished (run (before ++ .begin :: later)).1) →
      Event.finished id .kCommitted ∈ (run (before ++ .begin :: later)).1.drop before.length →
      id ≠ kInvalidTxnId ∧ id ∉ finished (run before).1 := by
    intro id hZero hMem
    have hId : id ≠ kInvalidTxnId := by
      rintro rfl
      exact hZero rfl (mem_finished.mpr ⟨_, List.mem_of_mem_drop hMem⟩)
    exact ⟨hId, hCareful.not_finished hId hMem⟩
  constructor
  · intro id hOther hZero hBelow hActive
    obtain ⟨behind, hLog⟩ := run_append before (.begin :: later)
    have hSame : (run before).2.begin.2.isCommitted id = (run before).2.isCommitted id := rfl
    rw [hSame, Bool.eq_iff_iff, (kept_run _).committed id, (kept_run _).committed id, hLog, List.mem_append]
    constructor
    · rintro (hOld | hNew)
      · exact hOld
      · have hDrop : (run (before ++ .begin :: later)).1.drop before.length = behind := by
          rw [hLog, ← length_run before, List.drop_left]
        obtain ⟨hId, hNot⟩ := hBehind id hZero (hDrop ▸ hNew)
        exact absurd (finished_of_snapshot before hId hOther hBelow hActive) hNot
    · exact Or.inl
  constructor
  · intro id hOther hZero hMem
    have hLater : Event.finished id .kCommitted ∈ (run (before ++ .begin :: later)).1.drop before.length := by
      rw [← List.drop_drop] at hMem
      exact List.mem_of_mem_drop hMem
    obtain ⟨hId, hNot⟩ := hBehind id hZero hLater
    by_cases hBelow : id < (begun before).snapshot.xmax
    · right
      rw [← Bool.not_eq_false]
      exact fun hActive => hNot (finished_of_snapshot before hId hOther hBelow hActive)
    · exact Or.inl (le_of_not_gt hBelow)
  · intro id hIssued hOther hBelow
    apply ((kept_run before).tracked id hIssued).resolve_left
    apply Bool.eq_false_iff.mp
    cases hFirst : (run before).2.active.first? with
    | none => exact OrderedSet.not_contains_of_first_none hFirst id
    | some first =>
      have hXmin : (begun before).snapshot.xmin = first := by
        rw [begun, begin, hFirst]
        rfl
      exact OrderedSet.not_contains_of_lt_first hFirst (hXmin ▸ hBelow)

/-- Two transactions run, the first commits, and the second commits behind the third's snapshot. -/
def sampleBefore : List Call := [.begin, .begin, .commit (some { id := 1 })]

theorem careful_sample : Careful (sampleBefore ++ .begin :: [.commit (some { id := 2 })]) := by
  have hBegin : ∀ calls, Careful calls → Careful (calls ++ [.begin]) := by
    intro calls hCalls
    apply careful_snoc.mpr
    constructor
    · exact hCalls
    · exact fun _ h => (nomatch h)
  have hCommit : ∀ calls txn, Careful calls → txn.id ∈ issued (run calls).1 ∧ txn.id ∉ finished (run calls).1 →
      Careful (calls ++ [.commit (some txn)]) := by
    intro calls txn hCalls hInDate
    apply careful_snoc.mpr
    constructor
    · exact hCalls
    · intro other hOther _ _
      cases hOther
      exact hInDate
  exact hCommit _ _ (hBegin _ (hCommit _ _ (hBegin _ (hBegin _ (each_nil _))) (by decide))) (by decide)

theorem snapshot_stable_sample :
    (run (sampleBefore ++ .begin :: [.commit (some { id := 2 })])).2.isCommitted 1 = true ∧
      ((begun sampleBefore).snapshot.xmax ≤ 2 ∨ (begun sampleBefore).snapshot.active.contains 2 = true) := by
  obtain ⟨hStable, hLater, -⟩ := snapshot_stable sampleBefore [.commit (some { id := 2 })] careful_sample
  constructor
  · rw [hStable 1 (by decide) (by decide) (by decide) (by decide)]
    decide
  · exact hLater 2 (by decide) (by decide) (by simp [sampleBefore, run, call, begin, commit, outcome])

end TupleStone.TransactionManager
