import TupleStone.Api.Database
import TupleStone.Api.Statement

/-! # Connections, transactions and the process

A connection works on the shared tables or on the snapshot of its transaction. A transaction handle only refers to
its connection. A process owns one database object with everything created from it, and its calls are programs over
the database's files; a call that leaves the defined behaviour has no result.
-/

set_option autoImplicit false

namespace TupleStone

/-- `Connection::Impl` -/
structure Connection where
  transactionTables : Option Tables := none
  transactionGeneration : UInt64 := 0
  deriving DecidableEq

/-- `Transaction::Impl`; a destroyed handle counts as finished. -/
structure Handle where
  connection : Nat
  finished : Bool := false
  deriving DecidableEq, Repr

/-- `StatusOr` as a status: a result set is a success. -/
def Reply.toStatus : Reply → Status
  | .status s => s
  | _ => .ok

namespace Connection

open Status (alreadyExists invalidArgument serializationFailure)

/-- A defined result of a call on a connection: the result, the database and the connection. -/
abbrev Called (α : Type) := Outcome (α × Database × Connection)

def finish {α : Type} (result : α) (db : Database) (conn : Connection) : Io (Called α) := pure (Outcome.done (result, db, conn))

def working (db : Database) (conn : Connection) : Tables := conn.transactionTables.getD db.tables

/-- Stores what a statement left in the working set, and commits it outside a transaction. -/
def conclude (db : Database) (conn : Connection) (reply : Reply) (tables : Tables) : Io (Called Reply) :=
  match conn.transactionTables with
  | some _ => finish (if reply = .persist then .status .ok else reply) db { conn with transactionTables := some tables }
  | none =>
    if reply = .persist then do
      let (status, db) ← persistCommittedTables { db with tables := tables, generation := db.generation + 1 } tables
      finish (.status status) db conn
    else finish reply { db with tables := tables } conn

/-- `ExecuteSql` -/
def executeQuery (db : Database) (conn : Connection) (sql : Bytes) (params : List Value) : Io (Called Reply) :=
  match runStatement (working db conn) sql params with
  | .undefined => pure Outcome.undefined
  | .outOfFuel => pure Outcome.outOfFuel
  | .done ((reply, tables), _) => conclude db conn reply tables

def beginTransaction (db : Database) (conn : Connection) : Status × Connection :=
  match conn.transactionTables with
  | some _ => (alreadyExists (ascii "transaction already active"), conn)
  | none => (.ok, ⟨some db.tables, db.generation⟩)

def discard (conn : Connection) : Connection := { conn with transactionTables := none }

/-- The commit paths from the comparison of generations on; without a snapshot they dereference null. -/
def commitSnapshot (db : Database) (conn : Connection) : Io (Called Status) :=
  if db.generation ≠ conn.transactionGeneration then
    finish (serializationFailure (ascii "transaction conflict")) db conn.discard
  else
    match conn.transactionTables with
    | none => pure Outcome.undefined
    | some snapshot => do
      let tables := refreshCatalog snapshot
      let (status, db) ← persistCommittedTables { db with tables := tables, generation := db.generation + 1 } tables
      finish status db conn.discard

/-- `Connection::Execute` -/
def execute (db : Database) (conn : Connection) (sql : Bytes) : Io (Called Status) :=
  let command := trimLower sql
  if command = ascii "begin" then
    let begun := beginTransaction db conn
    finish begun.1 db begun.2
  else if command = ascii "rollback" then finish .ok db conn.discard
  else if command = ascii "commit" then
    if conn.transactionTables.isNone then finish (invalidArgument (ascii "no active transaction")) db conn
    else commitSnapshot db conn
  else do
    match ← executeQuery db conn sql [] with
    | .done (reply, db, conn) => finish reply.toStatus db conn
    | .undefined => pure Outcome.undefined
    | .outOfFuel => pure Outcome.outOfFuel

end Connection

/-! ## The process -/

structure Process where
  db : Database
  connections : List Connection := []
  handles : List Handle := []

inductive Call where
  | connect
  | execute (connection : Nat) (sql : Bytes)
  | query (connection : Nat) (sql : Bytes) (params : List Value)
  | beginTransaction (connection : Nat)
  | commit (handle : Nat)
  | rollback (handle : Nat)
  | destroy (handle : Nat)
  | checkpoint
  | close
  deriving DecidableEq

inductive Response where
  | status (status : Status)
  | reply (reply : Reply)
  | connection (id : Nat)
  | transaction (handle : Nat)
  deriving DecidableEq

def Response.toStatus : Response → Status
  | .status s => s
  | .reply r => r.toStatus
  | _ => .ok

namespace Process

abbrev Answer := Outcome (Response × Process)

/-- Runs a method of connection `id` and stores what it returns. -/
def onConnection {α : Type} (p : Process) (id : Nat) (respond : α → Response)
    (method : Database → Connection → Io (Connection.Called α)) : Io Answer :=
  match p.connections[id]? with
  | none => pure Outcome.undefined
  | some conn => do
    match ← method p.db conn with
    | .done (result, db, conn) =>
      pure (Outcome.done (respond result, { p with db := db, connections := p.connections.set id conn }))
    | .undefined => pure Outcome.undefined
    | .outOfFuel => pure Outcome.outOfFuel

/-- `Connection::Begin` -/
def beginHandle (p : Process) (id : Nat) : Io Answer :=
  match p.connections[id]? with
  | none => pure Outcome.undefined
  | some conn =>
    match Connection.beginTransaction p.db conn with
    | (.ok, conn) =>
      pure (Outcome.done (.transaction p.handles.length,
        { p with connections := p.connections.set id conn, handles := p.handles ++ [⟨id, false⟩] }))
    | (status, _) => pure (Outcome.done (.status status, p))

def finished (p : Process) (handle : Nat) (h : Handle) : Process :=
  { p with handles := p.handles.set handle { h with finished := true } }

/-- `Transaction::Commit` -/
def commitHandle (p : Process) (handle : Nat) : Io Answer :=
  match p.handles[handle]? with
  | none => pure Outcome.undefined
  | some h =>
    if h.finished then pure (Outcome.done (.status (.invalidArgument (ascii "transaction is finished")), p))
    else onConnection (p.finished handle h) h.connection .status Connection.commitSnapshot

/-- `Transaction::Rollback`, which the destructor calls too. -/
def rollbackHandle (p : Process) (handle : Nat) : Io Answer :=
  match p.handles[handle]? with
  | none => pure Outcome.undefined
  | some h =>
    if h.finished then pure (Outcome.done (.status .ok, p))
    else onConnection (p.finished handle h) h.connection .status (fun db conn => Connection.finish .ok db conn.discard)

def call (p : Process) : Call → Io Answer
  | .connect =>
    if p.db.closed then pure (Outcome.done (.status (.invalidArgument (ascii "database is closed")), p))
    else pure (Outcome.done (.connection p.connections.length, { p with connections := p.connections ++ [{}] }))
  | .execute id sql => p.onConnection id .status (fun db conn => conn.execute db sql)
  | .query id sql params => p.onConnection id .reply (fun db conn => conn.executeQuery db sql params)
  | .beginTransaction id => p.beginHandle id
  | .commit handle => p.commitHandle handle
  | .rollback handle => p.rollbackHandle handle
  | .destroy handle => p.rollbackHandle handle
  | .checkpoint => do
    let (status, db) ← TupleStone.checkpoint p.db
    pure (Outcome.done (.status status, { p with db := db }))
  | .close => do
    let (status, db) ← closeDatabase p.db
    pure (Outcome.done (.status status, { p with db := db }))

end Process

end TupleStone
