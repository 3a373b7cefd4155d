import TupleStone.Lib.OptimisticCommit
import TupleStone.Api.SnapshotLimits
import TupleStone.Api.StatementFrame

/-! # Transactions over whole runs

The connections of a process are clients of one shared table map, with the generation as the version. A run of calls
refines a run of optimistic commits over the user tables, whatever the files answer: the commits form a serial execution,
a transaction works on what it found and its own statements, and it commits only if nothing else was committed meanwhile.
-/

set_option autoImplicit false

namespace TupleStone

open OptimisticCommit OpProgram

/-- What a statement makes of the user tables. -/
def Stmt.apply (tables : Tables) (stmt : Stmt) : Tables :=
  match runStatement tables stmt.sql stmt.params with
  | .done ((_, tables'), _) => userTables tables'
  | _ => tables

theorem sameUser_userTables (tables : Tables) : SameUser tables (userTables tables) := by
  apply OrderedMap.ext_find?
  intro name
  cases hName : isCatalogName name with
  | false => rw [find?_userTables hName, find?_userTables hName, find?_userTables hName]
  | true =>
    rw [userTables, userTables, OrderedMap.find?_filterKeys, OrderedMap.find?_filterKeys, hName]
    rfl

theorem Stmt.apply_eq {tables tables' : Tables} {stmt : Stmt} {reply : Reply} {q : Parser}
    (h : runStatement tables stmt.sql stmt.params = .done ((reply, tables'), q)) :
    Stmt.apply (userTables tables) stmt = userTables tables' := by
  obtain ⟨other, hRun, hSame⟩ := runStatement_congr (sameUser_userTables tables) h
  rw [Stmt.apply, hRun]
  exact hSame.symm

namespace Process

/-! ## Calls as events -/

/-- The snapshot of a connection. -/
def snapshot (p : Process) (id : Nat) : Option Tables := p.connections[id]?.bind Connection.transactionTables

def event (p : Process) : Act → Option (Event Nat Stmt)
  | .begin id => if (p.snapshot id).isSome then none else some (.start id)
  | .drop id => some (.abandon id)
  | .commit id =>
    if (p.snapshot id).isSome then some (if (p.committing (.commit id)).isSome then .commit id else .refuse id) else none
  | .query id stmt =>
    if (p.snapshot id).isSome then some (.act id stmt)
    else if (p.committing (.query id stmt)).isSome then some (.direct stmt)
    else none
  | _ => none

/-- A statement that can change the shared tables without a commit: an INSERT or UPDATE outside a transaction that fails. -/
def Strays (p : Process) (act : Act) : Prop :=
  ∃ id stmt, act = .query id stmt ∧ p.snapshot id = none ∧ (commandWord stmt.sql = ascii "insert" ∨ commandWord stmt.sql = ascii "update") ∧
    p.committing act = none

/-- Calls in any order, with any answers of the files, of which none strays. -/
inductive Runs (p : Process) : List (Event Nat Stmt) → Process → Prop where
  | refl : Runs p [] p
  | call {es : List (Event Nat Stmt)} {p' p'' : Process} {c : Call} {response : Response} (h : Runs p es p')
      (hCall : Possible (p'.call c) (.done (response, p''))) (hKept : ¬ p'.Strays (p'.act c)) :
      Runs p (es ++ (p'.event (p'.act c)).toList) p''

/-! ## Refinement -/

/-- A connection without a snapshot, or with the copy's tables and the generation of its version. -/
inductive Held (first : UInt64) (version : Nat) : Option Connection → Option (Copy Tables Stmt) → Prop where
  | idle {conn : Option Connection} (hNone : conn.bind Connection.transactionTables = none) : Held first version conn none
  | open {tables : Tables} {generation : UInt64} {copy : Copy Tables Stmt} (hTables : userTables tables = copy.state Stmt.apply)
      (hGeneration : generation = first + UInt64.ofNat copy.version) (hVersion : copy.version ≤ version) :
      Held first version (some ⟨some tables, generation⟩) (some copy)

structure Refines (first : UInt64) (p : Process) (s : State Nat Tables Stmt) : Prop where
  shared : userTables p.db.tables = s.shared
  generation : p.db.generation = first + UInt64.ofNat s.version
  held : ∀ id, Held first s.version p.connections[id]? (s.copies id)

variable {p p' p'' : Process} {s : State Nat Tables Stmt} {first : UInt64} {id : Nat} {conn : Connection}

theorem Held.later {version version' : Nat} {conn : Option Connection} {copy : Option (Copy Tables Stmt)}
    (h : Held first version conn copy) (hLe : version ≤ version') : Held first version' conn copy := by
  cases h with
  | idle hNone => exact .idle hNone
  | «open» hTables hGeneration hVersion => exact .open hTables hGeneration (hVersion.trans hLe)

theorem snapshot_eq (hConn : p.connections[id]? = some conn) : p.snapshot id = conn.transactionTables := by
  rw [snapshot, hConn, Option.bind_some]

theorem getElem?_set_connection (hConn : p.connections[id]? = some conn) (conn' : Connection) (other : Nat) :
    (p.connections.set id conn')[other]? = if other = id then some conn' else p.connections[other]? := by
  obtain ⟨hBound, -⟩ := List.getElem?_eq_some_iff.mp hConn
  rw [List.getElem?_set]
  obtain rfl | hNe := eq_or_ne other id
  · rw [if_pos rfl, if_pos hBound, if_pos rfl]
  · rw [if_neg hNe.symm, if_neg hNe]

/-- One connection and its copy change. -/
theorem Refines.store (h : Refines first p s) (hConn : p.connections[id]? = some conn) {conn' : Connection}
    {copy : Option (Copy Tables Stmt)} (hHeld : Held first s.version (some conn') copy) (handles : List Handle) :
    Refines first (p.store id conn' handles) (s.set id copy) := by
  constructor
  · exact h.shared
  · exact h.generation
  · intro other
    change Held first s.version (p.connections.set id conn')[other]? _
    rw [getElem?_set_connection hConn]
    obtain rfl | hNe := eq_or_ne other id
    · rw [if_pos rfl, State.set_self]
      exact hHeld
    · rw [if_neg hNe, State.set_of_ne s hNe]
      exact h.held other

theorem held_discard (version : Nat) (conn : Connection) : Held first version (some conn.discard) none := .idle rfl

/-- Publishing moves the generation with the version. -/
theorem Refines.publish (h : Refines first p s) {db : Database} {tables shared : Tables} (hTables : db.tables = tables)
    (hShared : userTables tables = shared) (hGeneration : db.generation = p.db.generation + 1)
    {connections : List Connection} {copies : Nat → Option (Copy Tables Stmt)}
    (hHeld : ∀ id, Held first s.version connections[id]? (copies id)) (handles : List Handle) :
    Refines first ⟨db, connections, handles⟩ ⟨shared, s.version + 1, copies⟩ := by
  constructor
  · exact (congrArg userTables hTables).trans hShared
  · change db.generation = first + UInt64.ofNat (s.version + 1)
    rw [hGeneration, h.generation, UInt64.ofNat_add, UInt64.add_assoc]
    rfl
  · exact fun id => (hHeld id).later (Nat.le_succ _)

/-- The copy of a connection with a snapshot. -/
theorem Refines.copy_of_snapshot (h : Refines first p s) (hConn : p.connections[id]? = some conn) {tables : Tables}
    (hSome : conn.transactionTables = some tables) : ∃ copy, s.copies id = some copy ∧ userTables tables = copy.state Stmt.apply ∧
      conn.transactionGeneration = first + UInt64.ofNat copy.version ∧ copy.version ≤ s.version := by
  have hHeld := h.held id
  rw [hConn] at hHeld
  generalize hCopy : s.copies id = copy at hHeld
  cases hHeld with
  | idle hNone =>
    rw [Option.bind_some, hSome] at hNone
    cases hNone
  | «open» hTables hGeneration hVersion =>
    cases hSome
    exact ⟨_, rfl, hTables, hGeneration, hVersion⟩

theorem Refines.copy_of_none (h : Refines first p s) (hConn : p.connections[id]? = some conn)
    (hNone : conn.transactionTables = none) : s.copies id = none := by
  have hHeld := h.held id
  rw [hConn] at hHeld
  generalize s.copies id = copy at hHeld ⊢
  cases hHeld with
  | idle => rfl
  | «open» => cases hNone

/-- While the counter has not come round, equal generations are equal versions. -/
theorem generation_eq_iff {a b : Nat} (hA : a < 2 ^ 64) (hB : b < 2 ^ 64) :
    first + UInt64.ofNat a = first + UInt64.ofNat b ↔ a = b := by
  constructor
  · intro h
    have hNat := congrArg UInt64.toNat (UInt64.add_right_inj first |>.mp h)
    rwa [UInt64.toNat_ofNat_of_lt' hA, UInt64.toNat_ofNat_of_lt' hB] at hNat
  · exact fun h => h ▸ rfl

theorem possible_checkpoint_generation {db db' : Database} {status : Status} (h : Possible (checkpoint db) (status, db')) :
    db'.generation = db.generation := by
  rw [checkpoint] at h
  split at h
  · cases possible_ret.mp h
    rfl
  · obtain ⟨saved, -, h⟩ := possible_bind.mp h
    split at h
    · obtain ⟨r, -, h⟩ := possible_bind.mp h
      cases possible_ret.mp h
      rfl
    · cases possible_ret.mp h
      rfl

theorem possible_closeDatabase_generation {db db' : Database} {status : Status} (h : Possible (closeDatabase db) (status, db')) :
    db'.generation = db.generation := by
  rw [closeDatabase] at h
  split at h
  · cases possible_ret.mp h
    rfl
  · obtain ⟨saved, -, h⟩ := possible_bind.mp h
    obtain ⟨wal, -, h⟩ := possible_bind.mp h
    cases possible_ret.mp h
    rfl

/-- What a call that publishes leaves. -/
theorem possible_publish {db : Database} {tables tables' : Tables} {status : Status}
    (h : Possible (persistCommittedTables (p.db.publish tables) tables') (status, db)) :
    db.tables = tables ∧ db.generation = p.db.generation + 1 := possible_persist h

theorem committing_eq_none (hConn : p.connections[id]? = some conn) (hNone : conn.transactionTables = none) {stmt : Stmt}
    {tables : Tables} {reply : Reply} {q : Parser}
    (hRun : runStatement p.db.tables stmt.sql stmt.params = .done ((reply, tables), q)) (hReply : reply ≠ .persist) :
    p.committing (.query id stmt) = none := by
  rw [committing, hConn, Option.bind_some, hNone, hRun]
  cases reply with
  | persist => exact absurd rfl hReply
  | rows => rfl
  | status => rfl

/-- A statement that neither commits nor strays leaves the shared user tables. -/
theorem sameUser_of_not_strays (hConn : p.connections[id]? = some conn) (hNone : conn.transactionTables = none) {stmt : Stmt}
    {tables : Tables} {reply : Reply} {q : Parser}
    (hRun : runStatement p.db.tables stmt.sql stmt.params = .done ((reply, tables), q)) (hReply : reply ≠ .persist)
    (hKept : ¬ p.Strays (.query id stmt)) : SameUser tables p.db.tables := by
  have hSnapshot : p.snapshot id = none := (snapshot_eq hConn).trans hNone
  have hCommits := committing_eq_none hConn hNone hRun hReply
  have hLeftover := leftover_of_run hRun hReply
  cases hLeftover with
  | nothing hSame => exact hSame
  | inserted hWord => exact absurd ⟨id, stmt, rfl, hSnapshot, Or.inl hWord, hCommits⟩ hKept
  | updated hWord => exact absurd ⟨id, stmt, rfl, hSnapshot, Or.inr hWord, hCommits⟩ hKept

/-- One call is one step of the optimistic commits, or none. -/
theorem Refines.call (h : Refines first p s) (hBound : s.version < 2 ^ 64) {c : Call} {response : Response}
    (hCall : Possible (p.call c) (.done (response, p'))) (hKept : ¬ p.Strays (p.act c)) :
    (p.event (p.act c) = none ∧ Refines first p' s) ∨
      ∃ e s', p.event (p.act c) = some e ∧ Step Stmt.apply s e s' ∧ Refines first p' s' := by
  have hForm := call_form p c
  generalize p.act c = act at hForm hKept
  generalize p.call c = program at hForm hCall
  cases hForm with
  | undefined => cases possible_ret.mp hCall
  | outOfFuel => cases possible_ret.mp hCall
  | none =>
    cases possible_ret.mp hCall
    exact Or.inl ⟨rfl, h⟩
  | connect hNew =>
    cases possible_ret.mp hCall
    refine Or.inl ⟨rfl, h.shared, h.generation, fun id => ?_⟩
    obtain rfl | rfl := hNew
    · exact h.held id
    · -- the new connection has no snapshot, and there was no copy at its place
      have hOld := h.held id
      change Held first s.version (p.connections ++ [({} : Connection)])[id]? (s.copies id)
      rw [List.getElem?_append]
      split
      · exact hOld
      · rename_i hBeyond
        rw [List.getElem?_eq_none (Nat.le_of_not_lt hBeyond)] at hOld
        generalize s.copies id = copy at hOld ⊢
        cases hOld with
        | idle =>
          apply Held.idle
          cases hIndex : id - p.connections.length with
          | zero => rfl
          | succ n => rfl
  | begun hConn hNone hOk =>
    cases possible_ret.mp hCall
    rename_i id conn handles
    refine Or.inr ⟨.start id, _, ?_, .start (h.copy_of_none hConn hNone), h.store hConn (.open h.shared h.generation (Nat.le_refl _)) handles⟩
    rw [event, snapshot_eq hConn, hNone]
    rfl
  | begunBefore hConn hSome hError =>
    cases possible_ret.mp hCall
    refine Or.inl ⟨?_, h⟩
    rw [event, snapshot_eq hConn, if_pos (Option.isSome_iff_ne_none.mpr hSome)]
  | dropped hConn =>
    cases possible_ret.mp hCall
    exact Or.inr ⟨_, _, rfl, .abandon, h.store hConn (held_discard _ _) _⟩
  | commitNone hConn hNone hError =>
    cases possible_ret.mp hCall
    refine Or.inl ⟨?_, h⟩
    rw [event, snapshot_eq hConn, hNone]
    rfl
  | conflict hConn hGeneration hError =>
    cases possible_ret.mp hCall
    rename_i id conn handles
    have hRefused : (p.committing (.commit id)) = none := by
      rw [committing, hConn, Option.bind_some, if_neg hGeneration]
    cases hSnapshot : conn.transactionTables with
    | none =>
      refine Or.inl ⟨?_, ?_⟩
      · rw [event, snapshot_eq hConn, hSnapshot]
        rfl
      · have hSame : s.set id none = s := by
          rw [State.set, ← h.copy_of_none hConn hSnapshot, Function.update_eq_self]
        rw [← hSame]
        exact h.store hConn (held_discard _ _) _
    | some tables =>
      obtain ⟨copy, hCopy, -, hCopied, hVersion⟩ := h.copy_of_snapshot hConn hSnapshot
      refine Or.inr ⟨.refuse id, _, ?_, .refuse hCopy ?_, h.store hConn (held_discard _ _) _⟩
      · rw [event, snapshot_eq hConn, hSnapshot, hRefused]
        rfl
      · intro hSame
        rw [h.generation, hCopied, hSame] at hGeneration
        exact hGeneration rfl
  | commit hConn hGeneration hSome =>
    rename_i id conn snapshot handles
    obtain ⟨⟨status, db⟩, hPersist, hRest⟩ := possible_bind.mp hCall
    cases possible_ret.mp hRest
    obtain ⟨hTables, hNext⟩ := possible_publish hPersist
    obtain ⟨copy, hCopy, hState, hCopied, hVersion⟩ := h.copy_of_snapshot hConn hSome
    have hCommits : (p.committing (.commit id)) = some (refreshCatalog snapshot) := by
      rw [committing, hConn, Option.bind_some, if_pos hGeneration, hSome, Option.map_some]
    refine Or.inr ⟨.commit id, _, ?_, .commit hCopy ?_, ?_⟩
    · rw [event, snapshot_eq hConn, hSome, hCommits]
      rfl
    · rw [h.generation, hCopied, generation_eq_iff hBound (hVersion.trans_lt hBound)] at hGeneration
      exact hGeneration.symm
    · apply h.publish hTables ((userTables_refreshCatalog snapshot).trans hState) hNext
      exact (h.store hConn (held_discard _ _) handles).held
  | inside hConn hSome hRun hResponse =>
    cases possible_ret.mp hCall
    rename_i id conn snapshot tables stmt reply q
    obtain ⟨copy, hCopy, hState, hCopied, hVersion⟩ := h.copy_of_snapshot hConn hSome
    have hWork : userTables tables = Copy.state Stmt.apply { copy with work := copy.work ++ [stmt] } := by
      rw [Copy.state_append, ← hState]
      exact (Stmt.apply_eq hRun).symm
    refine Or.inr ⟨.act id stmt, _, ?_, .act hCopy, h.store hConn (.open hWork hCopied hVersion) _⟩
    rw [event, snapshot_eq hConn, hSome]
    rfl
  | outside hConn hNone hRun hReply hResponse =>
    cases possible_ret.mp hCall
    rename_i id conn tables stmt reply q
    have hCommits := committing_eq_none hConn hNone hRun hReply
    refine Or.inl ⟨?_, ?_, h.generation, h.held⟩
    · rw [event, snapshot_eq hConn, hNone, hCommits]
      rfl
    · exact (sameUser_of_not_strays hConn hNone hRun hReply hKept).trans h.shared
  | autocommit hConn hNone hRun hRespond =>
    rename_i id conn tables stmt q respond
    obtain ⟨⟨status, db⟩, hPersist, hRest⟩ := possible_bind.mp hCall
    cases possible_ret.mp hRest
    obtain ⟨hTables, hNext⟩ := possible_publish hPersist
    have hCommits : p.committing (.query id stmt) = some tables := by
      rw [committing, hConn, Option.bind_some, hNone, hRun]
      rfl
    refine Or.inr ⟨.direct stmt, _, ?_, .direct, ?_⟩
    · rw [event, snapshot_eq hConn, hNone, hCommits]
      rfl
    · apply h.publish hTables _ hNext h.held
      rw [← h.shared]
      exact (Stmt.apply_eq hRun).symm
  | checkpoint =>
    obtain ⟨⟨status, db⟩, hCheckpoint, hRest⟩ := possible_bind.mp hCall
    cases possible_ret.mp hRest
    refine Or.inl ⟨rfl, ?_, ?_, h.held⟩
    · exact (congrArg userTables (possible_checkpoint hCheckpoint)).trans h.shared
    · exact (possible_checkpoint_generation hCheckpoint).trans h.generation
  | close =>
    obtain ⟨⟨status, db⟩, hClose, hRest⟩ := possible_bind.mp hCall
    cases possible_ret.mp hRest
    refine Or.inl ⟨rfl, ?_, ?_, h.held⟩
    · exact (congrArg userTables (possible_closeDatabase hClose)).trans h.shared
    · exact (possible_closeDatabase_generation hClose).trans h.generation

/-- A run of calls is a run of optimistic commits. -/
theorem Refines.runs (h : Refines first p s) {es : List (Event Nat Stmt)} (hRuns : Runs p es p')
    (hBound : s.version + es.countP Event.publishes < 2 ^ 64) : ∃ s', Run Stmt.apply s es s' ∧ Refines first p' s' := by
  induction hRuns with
  | refl => exact ⟨s, .refl, h⟩
  | @call es p' p'' c response _ hCall hKept ih =>
    rw [List.countP_append] at hBound
    obtain ⟨s', hRun, hMid⟩ := ih (by omega)
    have hVersion := hRun.version
    obtain ⟨hNone, hEnd⟩ | ⟨e, s'', hSome, hStep, hEnd⟩ := hMid.call (by omega) hCall hKept
    · rw [hNone, Option.toList_none, List.append_nil]
      exact ⟨s', hRun, hEnd⟩
    · rw [hSome]
      exact ⟨s'', hRun.step hStep, hEnd⟩

/-- No transaction is open. -/
def Idle (p : Process) : Prop := ∀ id, p.snapshot id = none

/-- The optimistic commits before anything was committed. -/
def initial (p : Process) : State Nat Tables Stmt := ⟨userTables p.db.tables, 0, fun _ => none⟩

theorem Idle.refines (h : p.Idle) : Refines p.db.generation p p.initial := by
  constructor
  · rfl
  · exact (UInt64.add_zero p.db.generation).symm
  · exact fun id => .idle (h id)

end Process

open Process

variable {p : Process} {s : State Nat Tables Stmt} {first : UInt64}

/-- The committed work in its order is a serial execution that the shared user tables are the result of, and an open
transaction holds its own statements on what had been committed at its start. -/
theorem commits_serial (p p' : Process) (es : List (Event Nat Stmt)) (hIdle : p.Idle) (hRuns : Runs p es p')
    (hBound : (published es).length < 2 ^ 64) :
    userTables p'.db.tables = (published es).flatten.foldl Stmt.apply (userTables p.db.tables) ∧
    ∀ id tables, p'.snapshot id = some tables → (ledger es).seen id ≤ (published es).length ∧
      userTables tables = ((ledger es).pending id).foldl Stmt.apply
        (((published es).take ((ledger es).seen id)).flatten.foldl Stmt.apply (userTables p.db.tables)) := by
  have hCount : p.initial.version + es.countP Event.publishes < 2 ^ 64 := by
    rw [← length_published es]
    exact (Nat.zero_add _).trans_lt hBound
  obtain ⟨s, hRun, hRefines⟩ := hIdle.refines.runs hRuns hCount
  have hSerial := hRun.serial fun _ => rfl
  constructor
  · exact hRefines.shared.trans hSerial.shared
  · intro id tables hSnapshot
    obtain ⟨conn, hConn, hSome⟩ := Option.bind_eq_some_iff.mp hSnapshot
    obtain ⟨copy, hCopy, hState, -, -⟩ := hRefines.copy_of_snapshot hConn hSome
    refine ⟨hSerial.seen_le id copy hCopy, ?_⟩
    rw [hState, hSerial.copy id copy hCopy]
    rfl

/-- `CREATE TABLE t` -/
abbrev creation : Stmt := ⟨createTableT, []⟩

theorem committing_createFresh {p : Process} {id : Nat} (hDb : p.db = fresh.db) (hConn : p.connections[id]? = some ({} : Connection)) :
    p.committing (.query id ⟨createTableT, []⟩) = some tablesWithT := by
  have hFresh := committing_fresh
  have hFirst : fresh.connections[0]? = some ({} : Connection) := rfl
  rw [act_fresh, committing, hFirst] at hFresh
  rw [committing, hConn, hDb]
  exact hFresh

/-- The created table is the result of the one committed statement. -/
theorem commits_serial_sample : ∃ p' : Process, p'.db.tables = tablesWithT ∧
    (userTables p'.db.tables = [creation].foldl Stmt.apply (userTables fresh.db.tables) ∧
      ∀ id tables, p'.snapshot id = some tables → (ledger [Event.direct creation]).seen id ≤ 1 ∧
        userTables tables = ((ledger [Event.direct creation]).pending id).foldl Stmt.apply
          (([[creation]].take ((ledger [Event.direct creation]).seen id)).flatten.foldl Stmt.apply (userTables fresh.db.tables))) := by
  have hConn : fresh.connections[0]? = some ({} : Connection) := rfl
  have hCommits : fresh.committing (.query 0 creation) = some tablesWithT := committing_createFresh rfl hConn
  have hCall := possible_autocommit hConn rfl hCommits (by decide +kernel)
  have hKept : ¬ fresh.Strays (fresh.act (.query 0 createTableT [])) := by
    rintro ⟨id, stmt, -, -, -, hNone⟩
    cases hCommits.symm.trans hNone
  have hEvent : fresh.event (fresh.act (.query 0 createTableT [])) = some (.direct creation) := by
    have hSnapshot : fresh.snapshot 0 = none := rfl
    change fresh.event (.query 0 creation) = _
    rw [event, hSnapshot, hCommits]
    rfl
  have hRuns := Runs.refl.call hCall hKept
  rw [hEvent] at hRuns
  have hIdle : fresh.Idle := by
    intro id
    cases id with
    | zero => rfl
    | succ id => rfl
  have hUnits : published ([.direct creation] : List (Event Nat Stmt)) = [[creation]] := rfl
  have hSerial := commits_serial fresh _ [.direct creation] hIdle hRuns (by rw [hUnits]; decide)
  rw [hUnits] at hSerial
  exact ⟨_, rfl, hSerial⟩

/-- A transaction that began and did not end has a snapshot, and its generation is still the shared one exactly when
nothing was committed since. -/
theorem Process.Refines.current (h : Refines first p s) {id : Nat} {begin : Call} {response : Response}
    {begun working : Process} (hBegin : Possible (p.call begin) (.done (response, begun)))
    (hStart : p.event (p.act begin) = some (.start id)) {mid : List (Event Nat Stmt)} (hWork : Runs begun mid working)
    (hOpen : ∀ e ∈ mid, ¬ e.Bounds id) (hBound : s.version + mid.countP Event.publishes < 2 ^ 64) :
    ∃ conn tables, working.connections[id]? = some conn ∧ conn.transactionTables = some tables ∧
      (working.db.generation = conn.transactionGeneration ↔ ∀ e ∈ mid, e.publishes = false) := by
  have hKept : ¬ p.Strays (p.act begin) := by
    rintro ⟨other, stmt, hAct, hNone, -, hCommits⟩
    rw [hAct] at hStart hCommits
    rw [event, hNone, hCommits] at hStart
    cases hStart
  obtain ⟨hNone, -⟩ | ⟨e, s₁, hSome, hStep, hBegun⟩ := h.call (Nat.lt_of_le_of_lt (Nat.le_add_right _ _) hBound) hBegin hKept
  · rw [hNone] at hStart
    cases hStart
  cases hSome.symm.trans hStart
  have hVersion : s₁.version = s.version := hStep.version
  obtain ⟨s₂, hRun, hWorking⟩ := hBegun.runs hWork (hVersion ▸ hBound)
  have hEnd : s₂.version < 2 ^ 64 := by
    rw [hRun.version, hVersion]
    exact hBound
  cases hStep with
  | start hFree =>
    have hTaken : (s.set id (some ⟨s.shared, s.version, []⟩)).copies id = some ⟨s.shared, s.version, []⟩ := State.set_self ..
    obtain ⟨work, hCopy⟩ := hRun.keeps_copy hTaken hOpen
    have hCurrent := Run.current_iff (.start hFree) hRun hOpen hCopy
    have hHeld := hWorking.held id
    rw [hCopy] at hHeld
    generalize hConn : working.connections[id]? = conn at hHeld
    cases hHeld with
    | «open» hTables hGeneration hLe =>
      refine ⟨_, _, rfl, rfl, ?_⟩
      rw [hWorking.generation, hGeneration, generation_eq_iff hEnd (hLe.trans_lt hEnd), ← hCurrent]
      exact eq_comm

/-- A COMMIT publishes the snapshot of its transaction exactly when nothing was committed since its BEGIN. Otherwise it is
refused, and nothing shared changes. -/
theorem first_committer_wins (p opened begun working ended : Process) (es mid : List (Event Nat Stmt)) (id : Nat) (begin commit : Call)
    (response answer : Response) (hIdle : p.Idle) (hBefore : Runs p es opened)
    (hBegin : Possible (opened.call begin) (.done (response, begun))) (hStart : opened.event (opened.act begin) = some (.start id))
    (hWork : Runs begun mid working) (hOpen : ∀ e ∈ mid, ¬ e.Bounds id)
    (hCommit : Possible (working.call commit) (.done (answer, ended))) (hEnd : working.act commit = .commit id)
    (hBound : (published es).length + mid.countP Event.publishes < 2 ^ 64) :
    ((∀ e ∈ mid, e.publishes = false) → ∃ tables, working.snapshot id = some tables ∧ ended.db.tables = refreshCatalog tables ∧
      ended.db.generation = working.db.generation + 1) ∧
    ((∃ e ∈ mid, e.publishes = true) → answer.toStatus ≠ .ok ∧ ended.db = working.db) := by
  have hCount : p.initial.version + es.countP Event.publishes < 2 ^ 64 := by
    rw [← length_published es]
    exact (Nat.zero_add _).trans_lt (Nat.lt_of_le_of_lt (Nat.le_add_right _ _) hBound)
  obtain ⟨s, hRun, hRefines⟩ := hIdle.refines.runs hBefore hCount
  have hVersion : s.version = (published es).length := by
    rw [hRun.version, length_published]
    exact Nat.zero_add _
  obtain ⟨conn, tables, hConn, hSome, hCurrent⟩ := hRefines.current hBegin hStart hWork hOpen (hVersion ▸ hBound)
  have hForm := call_form working commit
  rw [hEnd] at hForm
  generalize working.call commit = program at hForm hCommit
  cases hForm with
  | undefined => cases possible_ret.mp hCommit
  | outOfFuel => cases possible_ret.mp hCommit
  | commitNone hThere hNone =>
    cases hThere.symm.trans hConn
    cases hNone.symm.trans hSome
  | conflict hThere hGeneration hError =>
    cases possible_ret.mp hCommit
    cases hThere.symm.trans hConn
    constructor
    · exact fun hNone => absurd (hCurrent.mpr hNone) hGeneration
    · exact fun _ => ⟨hError, rfl⟩
  | commit hThere hGeneration hSnapshot =>
    obtain ⟨⟨status, db⟩, hPersist, hRest⟩ := possible_bind.mp hCommit
    cases possible_ret.mp hRest
    cases hThere.symm.trans hConn
    obtain ⟨hTables, hNext⟩ := possible_publish hPersist
    constructor
    · exact fun _ => ⟨_, (snapshot_eq hConn).trans hSnapshot, hTables, hNext⟩
    · rintro ⟨e, hMem, hPublishes⟩
      rw [hCurrent.mp hGeneration e hMem] at hPublishes
      cases hPublishes

def twoClients : Process := { db := freshDatabase, connections := [{}, {}] }

/-- The first client has begun. -/
def oneBegun : Process := ⟨freshDatabase, [⟨some OrderedMap.empty, 0⟩, {}], [⟨0, false⟩]⟩

/-- The second client has created a table. -/
def oneBehind : Process := { oneBegun with db := (freshDatabase.publish tablesWithT).committed }

theorem committing_oneBegun : oneBegun.committing (.query 1 creation) = some tablesWithT := by
  have hConn : oneBegun.connections[1]? = some ({} : Connection) := rfl
  exact committing_createFresh rfl hConn

theorem possible_oneBehind : Possible (oneBegun.call (.query 1 createTableT [])) (.done (.reply (.status .ok), oneBehind)) := by
  have hConn : oneBegun.connections[1]? = some ({} : Connection) := rfl
  have hCall := possible_autocommit hConn rfl committing_oneBegun (by decide +kernel)
  exact hCall

theorem event_oneBegun : oneBegun.event (oneBegun.act (.query 1 createTableT [])) = some (.direct creation) := by
  have hSnapshot : oneBegun.snapshot 1 = none := rfl
  change oneBegun.event (.query 1 creation) = _
  rw [event, hSnapshot, committing_oneBegun]
  rfl

theorem runs_oneBehind : Runs oneBegun [.direct creation] oneBehind := by
  have hKept : ¬ oneBegun.Strays (oneBegun.act (.query 1 createTableT [])) := by
    rintro ⟨id, stmt, -, -, -, hNone⟩
    cases committing_oneBegun.symm.trans hNone
  have hRuns := Runs.refl.call possible_oneBehind hKept
  rwa [event_oneBegun] at hRuns

theorem idle_twoClients : twoClients.Idle := by
  intro id
  rcases id with _ | _ | id <;> rfl

theorem possible_oneBegun : Possible (twoClients.call (.beginTransaction 0)) (.done (.transaction 0, oneBegun)) := .ret _

theorem possible_refused_commit : Possible (oneBehind.call (.commit 0))
    (.done (.status (.serializationFailure (ascii "transaction conflict")), (oneBehind.finished 0 ⟨0, false⟩).store 0 ⟨none, 0⟩ [⟨0, true⟩])) := by
  have hHandle : oneBehind.handles[0]? = some ⟨0, false⟩ := rfl
  have hConn : oneBehind.connections[0]? = some ⟨some OrderedMap.empty, 0⟩ := rfl
  have hStale : oneBehind.db.generation ≠ 0 := by decide
  have hMethod : Connection.commitSnapshot (oneBehind.finished 0 ⟨0, false⟩).db ⟨some OrderedMap.empty, 0⟩ =
      Connection.finish (.serializationFailure (ascii "transaction conflict")) oneBehind.db ⟨none, 0⟩ := if_pos hStale
  rw [Process.call, commitHandle, hHandle]
  change Possible (onConnection (oneBehind.finished 0 ⟨0, false⟩) 0 .status Connection.commitSnapshot) _
  rw [onConnection_finish (p := oneBehind.finished 0 ⟨0, false⟩) hConn .status hMethod]
  exact .ret _

/-- The COMMIT of the first client is refused. -/
theorem first_committer_wins_sample : ∃ (ended : Process) (answer : Response),
    Possible (oneBehind.call (.commit 0)) (.done (answer, ended)) ∧ answer.toStatus ≠ .ok ∧ ended.db = oneBehind.db := by
  have hOpen : ∀ e ∈ ([.direct creation] : List (Event Nat Stmt)), ¬ e.Bounds 0 := by
    intro e he
    cases List.mem_singleton.mp he
    rintro (h | h | h | h) <;> cases h
  have hCount : (published ([] : List (Event Nat Stmt))).length + ([.direct creation] : List (Event Nat Stmt)).countP Event.publishes = 1 :=
    rfl
  have hBoth := first_committer_wins twoClients twoClients oneBegun oneBehind _ [] [.direct creation] 0 (.beginTransaction 0) (.commit 0)
    _ _ idle_twoClients .refl possible_oneBegun rfl runs_oneBehind hOpen possible_refused_commit rfl (by rw [hCount]; decide)
  exact ⟨_, _, possible_refused_commit, hBoth.2 ⟨_, List.mem_singleton_self _, rfl⟩⟩

end TupleStone
