import TupleStone.Api.Connection
import TupleStone.Api.StatementEffect

/-! # What a call amounts to

Whatever its name, a call begins, drops or commits the transaction of a connection, runs a statement on it, or works
on the files. `call_form` says once what each of these does; everything else about calls follows from it.
-/

set_option autoImplicit false

namespace TupleStone

structure Stmt where
  sql : Bytes
  params : List Value
  deriving DecidableEq

inductive Act where
  | none
  | connect
  | begin (connection : Nat)
  | drop (connection : Nat)
  | commit (connection : Nat)
  | query (connection : Nat) (stmt : Stmt)
  | checkpoint
  | close
  deriving DecidableEq

/-- The new shared tables of a commit. -/
def Database.publish (db : Database) (tables : Tables) : Database :=
  { db with tables := tables, generation := db.generation + 1 }

/-- A call answers with the reply itself or with its status. -/
def Response.Shows (response : Response) (reply : Reply) : Prop :=
  response = .reply reply ∨ response = .status reply.toStatus

/-- What a statement inside a transaction answers where it would commit outside. -/
def Reply.inside (reply : Reply) : Reply := if reply = .persist then .status .ok else reply

namespace Process

def handleAct (p : Process) (handle : Nat) (act : Nat → Act) : Act :=
  match p.handles[handle]? with
  | none => .none
  | some h => if h.finished then .none else act h.connection

def act (p : Process) : Call → Act
  | .connect => .connect
  | .execute id sql =>
    if trimLower sql = ascii "begin" then .begin id
    else if trimLower sql = ascii "rollback" then .drop id
    else if trimLower sql = ascii "commit" then .commit id
    else .query id ⟨sql, []⟩
  | .query id sql params => .query id ⟨sql, params⟩
  | .beginTransaction id => .begin id
  | .commit handle => p.handleAct handle .commit
  | .rollback handle => p.handleAct handle .drop
  | .destroy handle => p.handleAct handle .drop
  | .checkpoint => .checkpoint
  | .close => .close

/-- The process with new handles and, at `id`, a new connection. -/
def store (p : Process) (id : Nat) (conn : Connection) (handles : List Handle) : Process :=
  { p with connections := p.connections.set id conn, handles := handles }

inductive Form (p : Process) : Act → Io Answer → Prop where
  | undefined (act : Act) : Form p act (pure Outcome.undefined)
  | outOfFuel (act : Act) : Form p act (pure Outcome.outOfFuel)
  | none {response : Response} : Form p .none (pure (Outcome.done (response, p)))
  | connect {response : Response} {connections : List Connection}
      (hNew : connections = p.connections ∨ connections = p.connections ++ [({} : Connection)]) :
      Form p .connect (pure (Outcome.done (response, { p with connections := connections })))
  | begun {id : Nat} {conn : Connection} {response : Response} {handles : List Handle} (hConn : p.connections[id]? = some conn)
      (hNone : conn.transactionTables = Option.none) (hOk : response.toStatus = .ok) :
      Form p (.begin id) (pure (Outcome.done (response, p.store id ⟨some p.db.tables, p.db.generation⟩ handles)))
  | begunBefore {id : Nat} {conn : Connection} {response : Response} (hConn : p.connections[id]? = some conn)
      (hSome : conn.transactionTables ≠ Option.none) (hError : response.toStatus ≠ .ok) :
      Form p (.begin id) (pure (Outcome.done (response, p)))
  | dropped {id : Nat} {conn : Connection} {response : Response} {handles : List Handle} (hConn : p.connections[id]? = some conn) :
      Form p (.drop id) (pure (Outcome.done (response, p.store id conn.discard handles)))
  | commitNone {id : Nat} {conn : Connection} {response : Response} (hConn : p.connections[id]? = some conn)
      (hNone : conn.transactionTables = Option.none) (hError : response.toStatus ≠ .ok) :
      Form p (.commit id) (pure (Outcome.done (response, p)))
  | conflict {id : Nat} {conn : Connection} {response : Response} {handles : List Handle} (hConn : p.connections[id]? = some conn)
      (hGeneration : p.db.generation ≠ conn.transactionGeneration) (hError : response.toStatus ≠ .ok) :
      Form p (.commit id) (pure (Outcome.done (response, p.store id conn.discard handles)))
  | commit {id : Nat} {conn : Connection} {snapshot : Tables} {handles : List Handle} (hConn : p.connections[id]? = some conn)
      (hGeneration : p.db.generation = conn.transactionGeneration) (hSome : conn.transactionTables = some snapshot) :
      Form p (.commit id) (do
        let r ← persistCommittedTables (p.db.publish (refreshCatalog snapshot)) (refreshCatalog snapshot)
        pure (Outcome.done (.status r.1, { p.store id conn.discard handles with db := r.2 })))
  | inside {id : Nat} {conn : Connection} {snapshot tables : Tables} {stmt : Stmt} {reply : Reply} {q : Parser} {response : Response}
      (hConn : p.connections[id]? = some conn) (hSome : conn.transactionTables = some snapshot)
      (hRun : runStatement snapshot stmt.sql stmt.params = .done ((reply, tables), q)) (hResponse : response.Shows reply.inside) :
      Form p (.query id stmt)
        (pure (Outcome.done (response, p.store id { conn with transactionTables := some tables } p.handles)))
  | outside {id : Nat} {conn : Connection} {tables : Tables} {stmt : Stmt} {reply : Reply} {q : Parser} {response : Response}
      (hConn : p.connections[id]? = some conn) (hNone : conn.transactionTables = Option.none)
      (hRun : runStatement p.db.tables stmt.sql stmt.params = .done ((reply, tables), q)) (hReply : reply ≠ .persist)
      (hResponse : response.Shows reply) :
      Form p (.query id stmt) (pure (Outcome.done (response, { p with db := { p.db with tables := tables } })))
  | autocommit {id : Nat} {conn : Connection} {tables : Tables} {stmt : Stmt} {q : Parser} {respond : Status → Response}
      (hConn : p.connections[id]? = some conn) (hNone : conn.transactionTables = Option.none)
      (hRun : runStatement p.db.tables stmt.sql stmt.params = .done ((.persist, tables), q))
      (hRespond : ∀ status, (respond status).Shows (.status status)) :
      Form p (.query id stmt) (do
        let r ← persistCommittedTables (p.db.publish tables) tables
        pure (Outcome.done (respond r.1, { p with db := r.2 })))
  | checkpoint : Form p .checkpoint (do
      let r ← TupleStone.checkpoint p.db
      pure (Outcome.done (.status r.1, { p with db := r.2 })))
  | close : Form p .close (do
      let r ← closeDatabase p.db
      pure (Outcome.done (.status r.1, { p with db := r.2 })))

theorem store_self {p : Process} {id : Nat} {conn : Connection} (h : p.connections[id]? = some conn) :
    p.store id conn p.handles = p := by
  obtain ⟨hBound, hConn⟩ := List.getElem?_eq_some_iff.mp h
  rw [store, ← hConn, List.set_getElem_self]

theorem onConnection_none {α : Type} {p : Process} {id : Nat} (h : p.connections[id]? = none) (respond : α → Response)
    (method : Database → Connection → Io (Connection.Called α)) :
    p.onConnection id respond method = pure Outcome.undefined := by
  rw [onConnection, h]

theorem onConnection_finish {α : Type} {p : Process} {id : Nat} {conn : Connection} (h : p.connections[id]? = some conn)
    (respond : α → Response) {method : Database → Connection → Io (Connection.Called α)} {result : α} {db : Database}
    {conn' : Connection} (hMethod : method p.db conn = Connection.finish result db conn') :
    p.onConnection id respond method =
      pure (Outcome.done (respond result, { p.store id conn' p.handles with db := db })) := by
  rw [onConnection, h]
  dsimp only
  rw [hMethod]
  rfl

theorem onConnection_undefined {α : Type} {p : Process} {id : Nat} {conn : Connection} (h : p.connections[id]? = some conn)
    (respond : α → Response) {method : Database → Connection → Io (Connection.Called α)}
    (hMethod : method p.db conn = pure Outcome.undefined) : p.onConnection id respond method = pure Outcome.undefined := by
  rw [onConnection, h]
  dsimp only
  rw [hMethod]
  rfl

theorem onConnection_outOfFuel {α : Type} {p : Process} {id : Nat} {conn : Connection} (h : p.connections[id]? = some conn)
    (respond : α → Response) {method : Database → Connection → Io (Connection.Called α)}
    (hMethod : method p.db conn = pure Outcome.outOfFuel) : p.onConnection id respond method = pure Outcome.outOfFuel := by
  rw [onConnection, h]
  dsimp only
  rw [hMethod]
  rfl

theorem onConnection_persist {α : Type} {p : Process} {id : Nat} {conn : Connection} (h : p.connections[id]? = some conn)
    (respond : α → Response) {method : Database → Connection → Io (Connection.Called α)} {db : Database} {tables : Tables}
    (result : Status → α) {conn' : Connection} (hMethod : method p.db conn = (do
      let r ← persistCommittedTables db tables
      Connection.finish (result r.1) r.2 conn')) :
    p.onConnection id respond method = (do
      let r ← persistCommittedTables db tables
      pure (Outcome.done (respond (result r.1), { p.store id conn' p.handles with db := r.2 }))) := by
  rw [onConnection, h]
  dsimp only
  rw [hMethod, OpProgram.bind_assoc]
  rfl

/-! ## Statements -/

theorem onConnection_autocommit {p : Process} {id : Nat} {conn : Connection} (hConn : p.connections[id]? = some conn)
    (hNone : conn.transactionTables = none) {sql : Bytes} {params : List Value} {tables : Tables} {q : Parser}
    (hRun : runStatement p.db.tables sql params = .done ((.persist, tables), q)) (respond : Reply → Response) :
    p.onConnection id respond (fun db conn => conn.executeQuery db sql params) = (do
      let r ← persistCommittedTables (p.db.publish tables) tables
      pure (Outcome.done (respond (.status r.1), { p with db := r.2 }))) := by
  have hMethod : conn.executeQuery p.db sql params = (do
      let r ← persistCommittedTables (p.db.publish tables) tables
      Connection.finish (.status r.1) r.2 conn) := by
    rw [Connection.executeQuery, Connection.working, hNone, Option.getD_none, hRun]
    dsimp only
    rw [Connection.conclude, hNone]
    rfl
  rw [onConnection_persist hConn respond .status hMethod, store_self hConn]

theorem form_query (p : Process) (id : Nat) (stmt : Stmt) {respond : Reply → Response} (hRespond : ∀ reply, (respond reply).Shows reply) :
    Form p (.query id stmt) (p.onConnection id respond (fun db conn => conn.executeQuery db stmt.sql stmt.params)) := by
  cases hConn : p.connections[id]? with
  | none =>
    rw [onConnection_none hConn]
    exact .undefined _
  | some conn =>
    cases hSnapshot : conn.transactionTables with
    | some snapshot =>
      have hWorking : conn.working p.db = snapshot := by rw [Connection.working, hSnapshot, Option.getD_some]
      cases hRun : runStatement snapshot stmt.sql stmt.params with
      | undefined =>
        rw [onConnection_undefined hConn respond (by rw [Connection.executeQuery, hWorking, hRun])]
        exact .undefined _
      | outOfFuel =>
        rw [onConnection_outOfFuel hConn respond (by rw [Connection.executeQuery, hWorking, hRun])]
        exact .outOfFuel _
      | done r =>
        obtain ⟨⟨reply, tables⟩, q⟩ := r
        have hMethod : conn.executeQuery p.db stmt.sql stmt.params =
            Connection.finish reply.inside p.db { conn with transactionTables := some tables } := by
          rw [Connection.executeQuery, hWorking, hRun]
          dsimp only
          rw [Connection.conclude, hSnapshot]
          rfl
        rw [onConnection_finish hConn respond hMethod]
        exact .inside hConn hSnapshot hRun (hRespond _)
    | none =>
      have hWorking : conn.working p.db = p.db.tables := by rw [Connection.working, hSnapshot, Option.getD_none]
      cases hRun : runStatement p.db.tables stmt.sql stmt.params with
      | undefined =>
        rw [onConnection_undefined hConn respond (by rw [Connection.executeQuery, hWorking, hRun])]
        exact .undefined _
      | outOfFuel =>
        rw [onConnection_outOfFuel hConn respond (by rw [Connection.executeQuery, hWorking, hRun])]
        exact .outOfFuel _
      | done r =>
        obtain ⟨⟨reply, tables⟩, q⟩ := r
        cases hReply : decide (reply = .persist) with
        | true =>
          obtain rfl := of_decide_eq_true hReply
          rw [onConnection_autocommit hConn hSnapshot hRun respond]
          exact .autocommit hConn hSnapshot hRun (fun status => hRespond (.status status))
        | false =>
          have hOther := of_decide_eq_false hReply
          have hMethod : conn.executeQuery p.db stmt.sql stmt.params =
              Connection.finish reply { p.db with tables := tables } conn := by
            rw [Connection.executeQuery, hWorking, hRun]
            dsimp only
            rw [Connection.conclude, hSnapshot]
            exact if_neg hOther
          rw [onConnection_finish hConn respond hMethod, store_self hConn]
          exact .outside hConn hSnapshot hRun hOther (hRespond _)

/-- Any other text that `Execute` is given runs as a statement without parameters. -/
theorem onConnection_execute (p : Process) (id : Nat) {sql : Bytes} (hBegin : trimLower sql ≠ ascii "begin")
    (hRollback : trimLower sql ≠ ascii "rollback") (hCommit : trimLower sql ≠ ascii "commit") :
    p.onConnection id .status (fun db conn => conn.execute db sql) =
      p.onConnection id (fun reply => .status reply.toStatus) (fun db conn => conn.executeQuery db sql []) := by
  rw [onConnection, onConnection]
  cases p.connections[id]? with
  | none => rfl
  | some conn =>
    dsimp only
    rw [Connection.execute, if_neg hBegin, if_neg hRollback, if_neg hCommit, OpProgram.bind_assoc]
    refine congrArg _ (funext fun x => ?_)
    cases x <;> rfl

/-! ## Transactions -/

theorem beginTransaction_none {db : Database} {conn : Connection} (h : conn.transactionTables = none) :
    conn.beginTransaction db = (.ok, ⟨some db.tables, db.generation⟩) := by
  rw [Connection.beginTransaction, h]

theorem beginTransaction_some {db : Database} {conn : Connection} (h : conn.transactionTables ≠ none) :
    conn.beginTransaction db = (.alreadyExists (ascii "transaction already active"), conn) := by
  rw [Connection.beginTransaction]
  split
  · rfl
  · rename_i hNone
    exact absurd hNone h

/-- Both commit paths once the snapshot is known to be there or the generations to differ. -/
theorem form_commitSnapshot (p : Process) (id : Nat) (handles : List Handle) :
    Form p (.commit id) ({ p with handles := handles }.onConnection id .status Connection.commitSnapshot) := by
  cases hConn : p.connections[id]? with
  | none =>
    rw [onConnection_none (p := { p with handles := handles }) hConn]
    exact .undefined _
  | some conn =>
    have hHere : ({ p with handles := handles } : Process).connections[id]? = some conn := hConn
    cases hGeneration : decide (p.db.generation = conn.transactionGeneration) with
    | false =>
      have hGeneration := of_decide_eq_false hGeneration
      rw [onConnection_finish hHere .status (if_pos hGeneration)]
      exact .conflict hConn hGeneration Status.noConfusion
    | true =>
      have hGeneration := of_decide_eq_true hGeneration
      have hMethod : Connection.commitSnapshot p.db conn = _ := if_neg (not_not.mpr hGeneration)
      cases hSnapshot : conn.transactionTables with
      | none =>
        rw [hSnapshot] at hMethod
        rw [onConnection_undefined hHere .status hMethod]
        exact .undefined _
      | some snapshot =>
        rw [hSnapshot] at hMethod
        rw [onConnection_persist hHere .status (fun status => status) hMethod]
        exact .commit hConn hGeneration hSnapshot

theorem form_begin (p : Process) (id : Nat) :
    Form p (.begin id) (p.onConnection id .status (fun db conn =>
      Connection.finish (conn.beginTransaction db).1 db (conn.beginTransaction db).2)) := by
  cases hConn : p.connections[id]? with
  | none =>
    rw [onConnection_none hConn]
    exact .undefined _
  | some conn =>
    cases hSnapshot : conn.transactionTables with
    | none =>
      rw [onConnection_finish hConn .status (by rw [beginTransaction_none hSnapshot])]
      exact .begun hConn hSnapshot rfl
    | some snapshot =>
      have hSome : conn.transactionTables ≠ none := by rw [hSnapshot]; exact Option.some_ne_none _
      rw [onConnection_finish hConn .status (by rw [beginTransaction_some hSome]), store_self hConn]
      exact .begunBefore hConn hSome Status.noConfusion

theorem form_beginHandle (p : Process) (id : Nat) : Form p (.begin id) (p.beginHandle id) := by
  rw [beginHandle]
  cases hConn : p.connections[id]? with
  | none => exact .undefined _
  | some conn =>
    dsimp only
    cases hSnapshot : conn.transactionTables with
    | none =>
      rw [beginTransaction_none hSnapshot]
      exact .begun hConn hSnapshot rfl
    | some snapshot =>
      have hSome : conn.transactionTables ≠ none := by rw [hSnapshot]; exact Option.some_ne_none _
      rw [beginTransaction_some hSome]
      exact .begunBefore hConn hSome Status.noConfusion

theorem form_drop (p : Process) (id : Nat) (handles : List Handle) :
    Form p (.drop id) ({ p with handles := handles }.onConnection id .status
      (fun db conn => Connection.finish .ok db conn.discard)) := by
  cases hConn : p.connections[id]? with
  | none =>
    rw [onConnection_none (p := { p with handles := handles }) hConn]
    exact .undefined _
  | some conn =>
    have hHere : ({ p with handles := handles } : Process).connections[id]? = some conn := hConn
    have hMethod : (fun (db : Database) (conn : Connection) => Connection.finish Status.ok db conn.discard) p.db conn =
      Connection.finish Status.ok p.db conn.discard := rfl
    rw [onConnection_finish hHere .status hMethod]
    exact .dropped hConn

/-- `COMMIT` as SQL first asks for a transaction. -/
theorem form_sqlCommit (p : Process) (id : Nat) :
    Form p (.commit id) (p.onConnection id .status (fun db conn =>
      if conn.transactionTables.isNone then Connection.finish (.invalidArgument (ascii "no active transaction")) db conn
      else conn.commitSnapshot db)) := by
  cases hConn : p.connections[id]? with
  | none =>
    rw [onConnection_none hConn]
    exact .undefined _
  | some conn =>
    cases hSnapshot : conn.transactionTables with
    | none =>
      rw [onConnection_finish hConn .status (if_pos (by rw [hSnapshot]; rfl)), store_self hConn]
      exact .commitNone hConn hSnapshot Status.noConfusion
    | some snapshot =>
      have hMethod : p.onConnection id .status (fun db conn =>
          if conn.transactionTables.isNone then Connection.finish (.invalidArgument (ascii "no active transaction")) db conn
          else conn.commitSnapshot db) = p.onConnection id .status Connection.commitSnapshot := by
        rw [onConnection, onConnection, hConn]
        dsimp only
        rw [if_neg (by rw [hSnapshot]; exact Bool.false_ne_true)]
      rw [hMethod]
      exact form_commitSnapshot p id p.handles

/-- A method of a handle: nothing when the handle is finished. -/
theorem form_handle (p : Process) (handle : Nat) {act : Nat → Act} {finished : Response} {method : Handle → Io Answer}
    (hMethod : ∀ h, p.handles[handle]? = some h → Form p (act h.connection) (method h)) :
    Form p (p.handleAct handle act) (match p.handles[handle]? with
      | none => pure Outcome.undefined
      | some h => if h.finished then pure (Outcome.done (finished, p)) else method h) := by
  rw [handleAct]
  cases hHandle : p.handles[handle]? with
  | none => exact .undefined _
  | some h =>
    dsimp only
    split
    · exact .none
    · exact hMethod h hHandle

/-- Every call has the form of its act. -/
theorem call_form (p : Process) (c : Call) : Form p (p.act c) (p.call c) := by
  cases c with
  | connect =>
    rw [call]
    split
    · exact .connect (Or.inl rfl)
    · exact .connect (Or.inr rfl)
  | execute id sql =>
    rw [call, act]
    split
    · rename_i hBegin
      have hMethod : (fun (db : Database) (conn : Connection) => conn.execute db sql) = fun db conn =>
          Connection.finish (conn.beginTransaction db).1 db (conn.beginTransaction db).2 :=
        funext fun db => funext fun conn => if_pos hBegin
      rw [hMethod]
      exact form_begin p id
    split
    · rename_i hBegin hRollback
      have hMethod : (fun (db : Database) (conn : Connection) => conn.execute db sql) = fun db conn =>
          Connection.finish .ok db conn.discard :=
        funext fun db => funext fun conn => (if_neg hBegin).trans (if_pos hRollback)
      rw [hMethod]
      exact form_drop p id p.handles
    split
    · rename_i hBegin hRollback hCommit
      have hMethod : (fun (db : Database) (conn : Connection) => conn.execute db sql) = fun db conn =>
          if conn.transactionTables.isNone then Connection.finish (.invalidArgument (ascii "no active transaction")) db conn
          else conn.commitSnapshot db :=
        funext fun db => funext fun conn => (if_neg hBegin).trans ((if_neg hRollback).trans (if_pos hCommit))
      rw [hMethod]
      exact form_sqlCommit p id
    · rename_i hBegin hRollback hCommit
      rw [onConnection_execute p id hBegin hRollback hCommit]
      exact form_query p id ⟨sql, []⟩ (fun reply => Or.inr rfl)
  | query id sql params => exact form_query p id ⟨sql, params⟩ (fun reply => Or.inl rfl)
  | beginTransaction id => exact form_beginHandle p id
  | commit handle => exact form_handle p handle (fun h _ => form_commitSnapshot p h.connection _)
  | rollback handle => exact form_handle p handle (fun h _ => form_drop p h.connection _)
  | destroy handle => exact form_handle p handle (fun h _ => form_drop p h.connection _)
  | checkpoint => exact .checkpoint
  | close => exact .close

end Process

end TupleStone
