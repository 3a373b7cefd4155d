import TupleStone.Common.Status
import TupleStone.Lib.OrderedSet
import Mathlib.Data.List.Induction

/-! # The transaction manager

Identifiers, snapshots and the states of transactions. The observers leave the manager as it is, so a run has the
other calls only.
-/

set_option autoImplicit false

instance wordLinearOrder : LinearOrder UInt64 where
  le_refl := UInt64.le_refl
  le_trans _ _ _ := UInt64.le_trans
  le_antisymm _ _ := UInt64.le_antisymm
  le_total := UInt64.le_total
  lt_iff_le_not_ge a b := by
    rw [UInt64.lt_iff_toNat_lt, UInt64.le_iff_toNat_le, UInt64.le_iff_toNat_le]
    omega
  toDecidableLE := inferInstance

namespace TupleStone

def kInvalidTxnId : UInt64 := 0

structure Snapshot where
  xmin : UInt64 := kInvalidTxnId
  xmax : UInt64 := kInvalidTxnId
  active : OrderedSet UInt64 := OrderedMap.empty

inductive TxnState where
  | kActive
  | kCommitted
  | kAborted
  deriving DecidableEq, Repr

structure TxnHandle where
  id : UInt64 := kInvalidTxnId
  snapshot : Snapshot := {}
  state : TxnState := .kActive

structure TransactionManager where
  nextId : UInt64 := 1
  active : OrderedSet UInt64 := OrderedMap.empty
  committed : OrderedSet UInt64 := OrderedMap.empty

namespace TransactionManager

def begin (manager : TransactionManager) : TxnHandle × TransactionManager :=
  let nextId := manager.nextId + 1
  let snapshot : Snapshot :=
    { xmin := manager.active.first?.getD nextId
      xmax := nextId
      active := manager.active }
  ({ id := manager.nextId, snapshot }, { manager with nextId, active := manager.active.insert manager.nextId })

/-- The handle is the caller's, passed by pointer. -/
def commit (manager : TransactionManager) (txn : Option TxnHandle) : Status × Option TxnHandle × TransactionManager :=
  match txn with
  | none => (.invalidArgument (ascii "transaction is not active"), none, manager)
  | some handle =>
    if handle.state ≠ .kActive then (.invalidArgument (ascii "transaction is not active"), some handle, manager)
    else
      (.ok, some { handle with state := .kCommitted },
        { manager with active := manager.active.erase handle.id, committed := manager.committed.insert handle.id })

def abort (manager : TransactionManager) (txn : Option TxnHandle) : Status × Option TxnHandle × TransactionManager :=
  match txn with
  | none => (.invalidArgument (ascii "transaction is not active"), none, manager)
  | some handle =>
    if handle.state ≠ .kActive then (.invalidArgument (ascii "transaction is not active"), some handle, manager)
    else (.ok, some { handle with state := .kAborted }, { manager with active := manager.active.erase handle.id })

def isCommitted (manager : TransactionManager) (id : UInt64) : Bool := manager.committed.contains id

/-! ## Runs -/

/-- A caller may pass any handle: one from `begin`, a copy, or one of its own making. -/
inductive Call where
  | begin
  | commit (txn : Option TxnHandle)
  | abort (txn : Option TxnHandle)

inductive Event where
  | began (txn : TxnHandle)
  | finished (id : UInt64) (state : TxnState)
  | refused

/-- A finishing call by its status. -/
def outcome (state : TxnState) (txn : Option TxnHandle) : Status → Event
  | .ok =>
    match txn with
    | some handle => .finished handle.id state
    | none => .refused
  | .error _ _ => .refused

def call (manager : TransactionManager) : Call → Event × TransactionManager
  | .begin => (.began manager.begin.1, manager.begin.2)
  | .commit txn => (outcome .kCommitted txn (manager.commit txn).1, (manager.commit txn).2.2)
  | .abort txn => (outcome .kAborted txn (manager.abort txn).1, (manager.abort txn).2.2)

def run (calls : List Call) : List Event × TransactionManager :=
  calls.foldl (fun s c => (s.1 ++ [(s.2.call c).1], (s.2.call c).2)) ([], {})

theorem run_snoc (calls : List Call) (c : Call) :
    run (calls ++ [c]) = ((run calls).1 ++ [((run calls).2.call c).1], ((run calls).2.call c).2) := by
  rw [run, List.foldl_append]
  rfl

def issuedId : Event → Option UInt64
  | .began txn => some txn.id
  | _ => none

def finishedId : Event → Option UInt64
  | .finished id _ => some id
  | _ => none

/-- The identifiers handed out, in order. -/
def issued (log : List Event) : List UInt64 := log.filterMap issuedId

/-- The identifiers of the calls that succeeded, in order. -/
def finished (log : List Event) : List UInt64 := log.filterMap finishedId

def Call.handle? : Call → Option TxnHandle
  | .begin => none
  | .commit txn => txn
  | .abort txn => txn

/-- A handle that says that it is active names a transaction that was begun and is not finished. -/
def InDate (log : List Event) (txn : TxnHandle) : Prop :=
  txn.state = .kActive → txn.id ∈ issued log ∧ txn.id ∉ finished log

theorem issued_append (log more : List Event) : issued (log ++ more) = issued log ++ issued more := List.filterMap_append

theorem finished_append (log more : List Event) : finished (log ++ more) = finished log ++ finished more :=
  List.filterMap_append

theorem mem_finished {log : List Event} {id : UInt64} : id ∈ finished log ↔ ∃ state, Event.finished id state ∈ log := by
  rw [finished, List.mem_filterMap]
  constructor
  · rintro ⟨event, hMem, hId⟩
    cases event with
    | began txn => cases hId
    | finished other state =>
      cases hId
      exact ⟨state, hMem⟩
    | refused => cases hId
  · rintro ⟨state, hMem⟩
    exact ⟨_, hMem, rfl⟩

/-- What a call does: begin, finish what its handle names, or nothing. -/
theorem call_cases (manager : TransactionManager) (c : Call) :
    (c = .begin ∧ manager.call c = (.began manager.begin.1, manager.begin.2)) ∨
      (∃ txn state, c.handle? = some txn ∧ txn.state = .kActive ∧ (state = .kCommitted ↔ c = .commit (some txn)) ∧
        manager.call c = (.finished txn.id state,
          { manager with
            active := manager.active.erase txn.id
            committed := if state = .kCommitted then manager.committed.insert txn.id else manager.committed })) ∨
      ((∀ txn, c.handle? = some txn → txn.state ≠ .kActive) ∧ manager.call c = (.refused, manager)) := by
  cases c with
  | begin => exact Or.inl ⟨rfl, rfl⟩
  | commit txn =>
    right
    cases txn with
    | none => exact Or.inr ⟨fun _ h => (nomatch h), rfl⟩
    | some txn =>
      by_cases hState : txn.state = .kActive
      · refine Or.inl ⟨txn, .kCommitted, rfl, hState, ⟨fun _ => rfl, fun _ => rfl⟩, ?_⟩
        simp [call, commit, hState, outcome]
      · refine Or.inr ⟨?_, ?_⟩
        · intro other hOther
          cases hOther
          exact hState
        · simp [call, commit, hState, outcome, Status.invalidArgument]
  | abort txn =>
    right
    cases txn with
    | none => exact Or.inr ⟨fun _ h => (nomatch h), rfl⟩
    | some txn =>
      by_cases hState : txn.state = .kActive
      · refine Or.inl ⟨txn, .kAborted, rfl, hState, ⟨fun h => TxnState.noConfusion h, fun h => Call.noConfusion h⟩, ?_⟩
        simp [call, abort, hState, outcome]
      · refine Or.inr ⟨?_, ?_⟩
        · intro other hOther
          cases hOther
          exact hState
        · simp [call, abort, hState, outcome, Status.invalidArgument]

/-! ## What every run keeps -/

/-- Careful callers or not. -/
structure Kept (log : List Event) (manager : TransactionManager) : Prop where
  tracked : ∀ id ∈ issued log, manager.active.contains id = true ∨ id ∈ finished log
  below : ∀ id, id ≠ kInvalidTxnId → id < manager.nextId → id ∈ issued log
  committed : ∀ id, manager.isCommitted id = true ↔ Event.finished id .kCommitted ∈ log

theorem kept_fresh : Kept [] {} := by
  constructor
  · exact fun _ h => absurd h List.not_mem_nil
  · intro id hId hLess
    have hZero : id.toNat = 0 := by
      have hNat := UInt64.lt_iff_toNat_lt.mp hLess
      change id.toNat < 1 at hNat
      omega
    exact absurd (UInt64.toNat_inj.mp hZero) hId
  · intro id
    constructor
    · exact fun h => Bool.noConfusion h
    · exact fun h => absurd h List.not_mem_nil

/-- Below the next identifier but one there is only the next one more. -/
theorem lt_or_eq_of_lt_succ {x n : UInt64} (h : x < n + 1) : x < n ∨ x = n := by
  rw [UInt64.lt_iff_toNat_lt, UInt64.toNat_add] at h
  change x.toNat < (n.toNat + 1) % 2 ^ 64 at h
  have hLess : x.toNat < n.toNat ∨ x.toNat = n.toNat := by
    have hMod := Nat.mod_le (n.toNat + 1) (2 ^ 64)
    omega
  rcases hLess with hLess | hSame
  · exact Or.inl (UInt64.lt_iff_toNat_lt.mpr hLess)
  · exact Or.inr (UInt64.toNat_inj.mp hSame)

theorem Kept.call {log : List Event} {manager : TransactionManager} (h : Kept log manager) (c : Call) :
    Kept (log ++ [(manager.call c).1]) (manager.call c).2 := by
  rcases manager.call_cases c with ⟨-, hDone⟩ | ⟨txn, state, -, -, -, hDone⟩ | ⟨-, hDone⟩
  · rw [hDone]
    have hIssued : issued (log ++ [.began manager.begin.1]) = issued log ++ [manager.nextId] := issued_append _ _
    constructor
    · intro id hId
      rw [hIssued, List.mem_append, List.mem_singleton] at hId
      rw [finished_append, List.mem_append]
      change (manager.active.insert manager.nextId).contains id = true ∨ _
      rw [OrderedSet.contains_insert]
      rcases hId with hOld | hNew
      · rcases h.tracked id hOld with hActive | hFinished
        · exact Or.inl (Or.inr hActive)
        · exact Or.inr (Or.inl hFinished)
      · exact Or.inl (Or.inl hNew)
    · intro id hId hLess
      rw [hIssued, List.mem_append, List.mem_singleton]
      rcases lt_or_eq_of_lt_succ hLess with hLess | hSame
      · exact Or.inl (h.below id hId hLess)
      · exact Or.inr hSame
    · intro id
      rw [List.mem_append]
      apply (h.committed id).trans
      simp
  · rw [hDone]
    have hFinished : finished (log ++ [.finished txn.id state]) = finished log ++ [txn.id] := finished_append _ _
    have hIssued : issued (log ++ [.finished txn.id state]) = issued log :=
      (issued_append _ _).trans (List.append_nil _)
    constructor
    · intro id hId
      rw [hIssued] at hId
      rw [hFinished, List.mem_append, List.mem_singleton]
      change (manager.active.erase txn.id).contains id = true ∨ _
      rw [OrderedSet.contains_erase]
      by_cases hSame : id = txn.id
      · exact Or.inr (Or.inr hSame)
      · rcases h.tracked id hId with hActive | hOld
        · exact Or.inl ⟨hSame, hActive⟩
        · exact Or.inr (Or.inl hOld)
    · intro id hId hLess
      rw [hIssued]
      exact h.below id hId hLess
    · intro id
      rw [List.mem_append, List.mem_singleton, Event.finished.injEq, ← h.committed id]
      by_cases hState : state = .kCommitted
      · simp only [isCommitted, hState, if_true, OrderedSet.contains_insert]
        simp [or_comm]
      · simp only [isCommitted, hState, if_false]
        simp [Ne.symm hState]
  · rw [hDone]
    have hIssued : issued (log ++ [.refused]) = issued log := (issued_append _ _).trans (List.append_nil _)
    have hFinished : finished (log ++ [.refused]) = finished log := (finished_append _ _).trans (List.append_nil _)
    constructor
    · rw [hIssued, hFinished]
      exact h.tracked
    · rw [hIssued]
      exact h.below
    · intro id
      rw [List.mem_append]
      apply (h.committed id).trans
      simp

theorem kept_run (calls : List Call) : Kept (run calls).1 (run calls).2 := by
  induction calls using List.reverseRecOn with
  | nil => exact kept_fresh
  | append_singleton calls c ih =>
    rw [run_snoc]
    exact ih.call c

theorem length_run (calls : List Call) : (run calls).1.length = calls.length := by
  induction calls using List.reverseRecOn with
  | nil => rfl
  | append_singleton calls c ih => rw [run_snoc, List.length_append, List.length_append, ih]; rfl

theorem run_append (calls more : List Call) : ∃ behind, (run (calls ++ more)).1 = (run calls).1 ++ behind := by
  induction more using List.reverseRecOn with
  | nil => exact ⟨[], by rw [List.append_nil, List.append_nil]⟩
  | append_singleton more c ih =>
    obtain ⟨behind, hBehind⟩ := ih
    rw [← List.append_assoc, run_snoc, hBehind]
    exact ⟨_, List.append_assoc _ _ _⟩

/-- Every call meets a condition on the events before it. -/
def Each (P : List Event → Call → Prop) (calls : List Call) : Prop :=
  ∀ before c after, calls = before ++ c :: after → P (run before).1 c

theorem each_nil (P : List Event → Call → Prop) : Each P [] := by
  intro before c after h
  cases before <;> cases h

theorem each_snoc {P : List Event → Call → Prop} {calls : List Call} {c : Call} :
    Each P (calls ++ [c]) ↔ Each P calls ∧ P (run calls).1 c := by
  constructor
  · intro h
    constructor
    · intro before d after hSplit
      exact h before d (after ++ [c]) (by rw [hSplit, List.append_assoc, List.cons_append])
    · exact h calls c [] rfl
  · rintro ⟨hCalls, hLast⟩ before d after hSplit
    rcases List.eq_nil_or_concat after with rfl | ⟨front, last, rfl⟩
    · obtain ⟨rfl, hSame⟩ := List.append_inj' hSplit rfl
      cases hSame
      exact hLast
    · rw [List.concat_eq_append, ← List.cons_append, ← List.append_assoc] at hSplit
      exact hCalls before d front (List.append_inj' hSplit rfl).1

/-- The event of a call stands at the call's place. -/
theorem exists_call_of_mem {calls : List Call} {event : Event} (h : event ∈ (run calls).1) :
    ∃ before c after, calls = before ++ c :: after ∧ ((run before).2.call c).1 = event := by
  induction calls using List.reverseRecOn with
  | nil => cases h
  | append_singleton calls c ih =>
    rw [run_snoc, List.mem_append, List.mem_singleton] at h
    rcases h with hOld | hNew
    · obtain ⟨before, earlier, after, rfl, hEvent⟩ := ih hOld
      exact ⟨before, earlier, after ++ [c], by simp, hEvent⟩
    · exact ⟨calls, c, [], rfl, hNew.symm⟩

end TransactionManager

end TupleStone
