import TupleStone.Api.Calls
import TupleStone.Api.OpenFailure

/-! # What a failed commit leaves in memory

Every commit path publishes its tables and advances the generation before it writes anything, and none of them takes
that back. So, whatever the files answer, the tables a commit was to publish are the shared ones afterwards.
-/

set_option autoImplicit false

namespace TupleStone

open OpProgram

/-- Persisting changes neither the tables nor the generation, however it ends. -/
theorem possible_persist {db db' : Database} {tables : Tables} {status : Status}
    (h : Possible (persistCommittedTables db tables) (status, db')) :
    db'.tables = db.tables ∧ db'.generation = db.generation := by
  obtain ⟨⟨appended, wal⟩, -, h⟩ := possible_bind.mp h
  cases appended with
  | error status =>
    cases possible_ret.mp h
    exact ⟨rfl, rfl⟩
  | ok lsn =>
    have hFinish : ∀ {flushed : Status} {saving : Database}, Possible (do
        if flushed = .ok then
          let saved ← saveTables tables
          pure (saved, saving)
        else pure (flushed, saving) : Io (Status × Database)) (status, db') → db' = saving := by
      intro flushed saving h
      split at h
      · obtain ⟨saved, -, h⟩ := possible_bind.mp h
        cases possible_ret.mp h
        rfl
      · cases possible_ret.mp h
        rfl
    dsimp only at h
    split at h
    · obtain ⟨flushed, -, h⟩ := possible_bind.mp h
      rw [hFinish h]
      exact ⟨rfl, rfl⟩
    · obtain ⟨flushed, -, h⟩ := possible_bind.mp h
      rw [hFinish h]
      exact ⟨rfl, rfl⟩

namespace Process

/-- The tables that an act hands to `PersistCommittedTables`, if it comes to that. -/
def committing (p : Process) : Act → Option Tables
  | .commit id =>
    p.connections[id]?.bind (fun conn =>
      if p.db.generation = conn.transactionGeneration then conn.transactionTables.map refreshCatalog else none)
  | .query id stmt =>
    p.connections[id]?.bind (fun conn =>
      if conn.transactionTables.isSome then none
      else
        match runStatement p.db.tables stmt.sql stmt.params with
        | .done ((.persist, tables), _) => some tables
        | _ => none)
  | _ => none

theorem Response.Shows.toStatus {response : Response} {status : Status} (h : response.Shows (.status status)) :
    response.toStatus = status := by
  obtain rfl | rfl := h <;> rfl

/-- A call that commits answers what persisting answered, and leaves the database that persisting left. -/
theorem persist_of_committing {p p' : Process} {c : Call} {tables : Tables} {response : Response}
    (h : p.committing (p.act c) = some tables) (hCall : Possible (p.call c) (.done (response, p'))) :
    Possible (persistCommittedTables (p.db.publish tables) tables) (response.toStatus, p'.db) := by
  have hForm := call_form p c
  generalize p.act c = act at hForm h
  generalize p.call c = program at hForm hCall
  cases hForm with
  | undefined => cases possible_ret.mp hCall
  | outOfFuel => cases possible_ret.mp hCall
  | none => cases h
  | connect hNew => cases h
  | begun hConn hNone hOk => cases h
  | begunBefore hConn hSome hError => cases h
  | dropped hConn => cases h
  | checkpoint => cases h
  | close => cases h
  | commitNone hConn hNone hError =>
    rw [committing, hConn, Option.bind_some, hNone] at h
    split at h <;> cases h
  | conflict hConn hGeneration hError =>
    rw [committing, hConn, Option.bind_some, if_neg hGeneration] at h
    cases h
  | commit hConn hGeneration hSome =>
    rw [committing, hConn, Option.bind_some, if_pos hGeneration, hSome] at h
    obtain ⟨⟨status, db⟩, hPersist, hRest⟩ := possible_bind.mp hCall
    cases possible_ret.mp hRest
    cases h
    exact hPersist
  | inside hConn hSome hRun hResponse =>
    rw [committing, hConn, Option.bind_some, hSome] at h
    cases h
  | outside hConn hNone hRun hReply hResponse =>
    rw [committing, hConn, Option.bind_some, hNone, hRun] at h
    rename_i reply _ _
    cases reply with
    | persist => exact absurd rfl hReply
    | rows => cases h
    | status => cases h
  | autocommit hConn hNone hRun hRespond =>
    rw [committing, hConn, Option.bind_some, hNone, hRun] at h
    obtain ⟨⟨status, db⟩, hPersist, hRest⟩ := possible_bind.mp hCall
    cases possible_ret.mp hRest
    cases h
    rw [Response.Shows.toStatus (hRespond status)]
    exact hPersist

theorem tables_of_committing {p p' : Process} {c : Call} {tables : Tables} {response : Response}
    (h : p.committing (p.act c) = some tables) (hCall : Possible (p.call c) (.done (response, p'))) : p'.db.tables = tables :=
  (possible_persist (persist_of_committing h hCall)).1

end Process

/-! ## A refused write -/

def freshDatabase : Database := { options := {}, wal := .emptied true }

theorem opens_fresh : (opens {} (fun _ => none)).1 = .ok freshDatabase := by
  have hRun : Replay.run { tables := OrderedMap.empty } [] = .ok { tables := OrderedMap.empty } := rfl
  have hStages : (Disk.store (fun _ => none)).stages {} =
      ((.ok, freshDatabase), ⟨some (serializeTables OrderedMap.empty), [], []⟩) := by
    have hData : openedData {} (Disk.store (fun _ => none)).data =
        (.ok OrderedMap.empty, some (serializeTables OrderedMap.empty)) := rfl
    have hRecords : diskRecords (fun _ => none) = [] := rfl
    rw [Store.stages, hData]
    simp only [Store.started, Disk.store, hRecords, Store.recover, hRun]
    rfl
  exact (safe_openDatabase (K := fun _ => True) (represents_ofDisk _) rfl rfl hStages trivial trivial trivial).result.1

def fresh : Process := { db := freshDatabase, connections := [{}] }

def createTableT : Bytes := ascii "CREATE TABLE t (a INTEGER)"

def tablesWithT : Tables :=
  (refreshCatalog OrderedMap.empty).insert (ascii "t") ⟨⟨[⟨ascii "a", .kInteger, true, false, false⟩]⟩, []⟩

def refusedFresh : Process := { fresh with db := (freshDatabase.publish tablesWithT).refused }

theorem possible_append_failed {log : LogManager} (hOpen : log.isOpen = true) (txnId prevLsn : UInt64)
    (type : LogRecordType) {payload : Bytes} (hPayload : payload.length ≤ LogManager.maxPayload) :
    Possible (log.append txnId prevLsn type payload)
      (.error (.ioError (ascii "cannot append WAL record")), { log with nextLsn := log.nextLsn + 1 }) := by
  have hOpened : ¬ (!log.isOpen) = true := by rw [hOpen]; exact Bool.false_ne_true
  rw [LogManager.append, if_neg hOpened, if_neg (Nat.not_lt.mpr hPayload)]
  exact possible_bind.mpr ⟨false, .call false (.ret false), .ret _⟩

theorem possible_refused {db : Database} (hOpen : db.wal.isOpen = true) (tables : Tables) :
    Possible (persistCommittedTables db tables) (.ioError (ascii "cannot append WAL record"), db.refused) := by
  have hEmpty : ([] : Bytes).length ≤ LogManager.maxPayload := Nat.zero_le _
  have hBegin := possible_append_failed hOpen db.nextWalTxn kInvalidLsn .kBegin hEmpty
  have hAppend : Possible (appendCommit db.wal db.nextWalTxn (snapshotPayload tables)) _ :=
    possible_bind.mpr ⟨_, hBegin, .ret _⟩
  exact possible_bind.mpr ⟨_, hAppend, .ret _⟩

theorem committing_fresh : fresh.committing (fresh.act (.execute 0 createTableT)) = some tablesWithT := by decide +kernel

theorem Process.run_of_committing {p : Process} {id : Nat} {conn : Connection} {stmt : Stmt} {tables : Tables}
    (hConn : p.connections[id]? = some conn) (h : p.committing (.query id stmt) = some tables) :
    conn.transactionTables = none ∧
      ∃ q, runStatement p.db.tables stmt.sql stmt.params = .done ((.persist, tables), q) := by
  rw [Process.committing, hConn, Option.bind_some] at h
  cases hNone : conn.transactionTables with
  | some snapshot =>
    rw [hNone] at h
    cases h
  | none =>
    rw [hNone] at h
    refine ⟨rfl, ?_⟩
    split at h
    · cases h
    · split at h
      · rename_i hRun
        cases h
        exact ⟨_, hRun⟩
      · cases h

/-- A statement outside a transaction whose commit the log refuses. -/
theorem Process.possible_autocommit_refused {p : Process} {id : Nat} {conn : Connection} {sql : Bytes} {tables : Tables}
    (hConn : p.connections[id]? = some conn) (hOpen : p.db.wal.isOpen = true) (hBegin : trimLower sql ≠ ascii "begin")
    (hRollback : trimLower sql ≠ ascii "rollback") (hCommit : trimLower sql ≠ ascii "commit")
    (h : p.committing (.query id ⟨sql, []⟩) = some tables) : Possible (p.call (.execute id sql))
      (.done (.status (.ioError (ascii "cannot append WAL record")), { p with db := (p.db.publish tables).refused })) := by
  obtain ⟨hNone, q, hRun⟩ := run_of_committing hConn h
  have hPublished : (p.db.publish tables).wal.isOpen = true := hOpen
  rw [Process.call, onConnection_execute p id hBegin hRollback hCommit, onConnection_autocommit hConn hNone hRun]
  exact possible_bind.mpr ⟨_, possible_refused hPublished tables, .ret _⟩

theorem act_fresh : fresh.act (.execute 0 createTableT) = .query 0 ⟨createTableT, []⟩ := by decide +kernel

theorem possible_fresh : Possible (fresh.call (.execute 0 createTableT))
    (.done (.status (.ioError (ascii "cannot append WAL record")), refusedFresh)) := by
  have hCommitting : fresh.committing (.query 0 ⟨createTableT, []⟩) = some tablesWithT := act_fresh ▸ committing_fresh
  have hConn : fresh.connections[0]? = some ({} : Connection) := rfl
  exact Process.possible_autocommit_refused hConn rfl (by decide) (by decide) (by decide) hCommitting

namespace Process

end Process

end TupleStone
