import TupleStone.Api.CatalogChange
import TupleStone.Api.SnapshotLimits

/-! # A statement by itself and a transaction of one statement

Outside a transaction the catalog is refreshed before the statement, inside one also when it commits. The two ways publish
the same user tables, but the snapshots they write are the same only where the statement leaves the catalog up to date.
-/

set_option autoImplicit false

namespace TupleStone

open OpProgram Statement

namespace Process

/-- A call that is this act succeeds. -/
def Succeeds (p : Process) (act : Act) (p' : Process) : Prop :=
  ∃ c response, p.act c = act ∧ Possible (p.call c) (.done (response, p')) ∧ response.toStatus = .ok

/-- The snapshot that an act writes to the log and to the data file. -/
def snapshotBytes (p : Process) (act : Act) : Option Bytes := (p.committing act).map serializeTables

/-- A statement by itself, and between `BEGIN` and `COMMIT`. -/
structure Twice (p : Process) (id : Nat) (stmt : Stmt) (alone started within ended : Process) : Prop where
  direct : p.Succeeds (.query id stmt) alone
  begun : p.Succeeds (.begin id) started
  inside : started.Succeeds (.query id stmt) within
  committed : within.Succeeds (.commit id) ended

/-- Both ways leave the same user tables and the same generation, and write the same bytes. -/
def Agree (p : Process) (id : Nat) (stmt : Stmt) (alone within ended : Process) : Prop :=
  userTables alone.db.tables = userTables ended.db.tables ∧ alone.db.generation = ended.db.generation ∧
    p.snapshotBytes (.query id stmt) = within.snapshotBytes (.commit id)

variable {p p' : Process} {id : Nat} {conn : Connection} {stmt : Stmt}

theorem getElem?_store (hConn : p.connections[id]? = some conn) (other : Connection) (handles : List Handle) :
    (p.store id other handles).connections[id]? = some other := by
  obtain ⟨hLess, -⟩ := List.getElem?_eq_some_iff.mp hConn
  exact List.getElem?_set_self hLess

/-- `BEGIN` succeeds only where no transaction is open. -/
theorem Succeeds.begun (h : p.Succeeds (.begin id) p') : ∃ conn handles, p.connections[id]? = some conn ∧
    conn.transactionTables = none ∧ p' = p.store id ⟨some p.db.tables, p.db.generation⟩ handles := by
  obtain ⟨c, response, hAct, hCall, hOk⟩ := h
  have hForm := call_form p c
  rw [hAct] at hForm
  generalize p.call c = program at hForm hCall
  cases hForm with
  | undefined => cases possible_ret.mp hCall
  | outOfFuel => cases possible_ret.mp hCall
  | begun hConn hNone hDone =>
    cases possible_ret.mp hCall
    exact ⟨_, _, hConn, hNone, rfl⟩
  | begunBefore hConn hSome hError =>
    cases possible_ret.mp hCall
    exact absurd hOk hError

theorem not_failed_of_shows {response : Response} {reply : Reply} (h : response.Shows reply) (hOk : response.toStatus = .ok) :
    ¬ reply.Failed := by
  rintro ⟨code, message, rfl⟩
  obtain rfl | rfl := h <;> cases hOk

/-- What the statement did by itself. -/
theorem Succeeds.outside (h : p.Succeeds (.query id stmt) p') (hConn : p.connections[id]? = some conn)
    (hNone : conn.transactionTables = none) : ∃ reply tables q,
      runStatement p.db.tables stmt.sql stmt.params = .done ((reply, tables), q) ∧ ¬ reply.Failed ∧
        (reply = .persist → Possible (persistCommittedTables (p.db.publish tables) tables) (.ok, p'.db)) ∧
        (reply ≠ .persist → p'.db.generation = p.db.generation) := by
  obtain ⟨c, response, hAct, hCall, hOk⟩ := h
  have hForm := call_form p c
  rw [hAct] at hForm
  generalize p.call c = program at hForm hCall
  cases hForm with
  | undefined => cases possible_ret.mp hCall
  | outOfFuel => cases possible_ret.mp hCall
  | inside hOther hSome =>
    cases hConn.symm.trans hOther
    rw [hNone] at hSome
    cases hSome
  | outside hOther _ hRun hReply hResponse =>
    cases possible_ret.mp hCall
    exact ⟨_, _, _, hRun, not_failed_of_shows hResponse hOk, fun hPersist => absurd hPersist hReply, fun _ => rfl⟩
  | autocommit hOther _ hRun hRespond =>
    obtain ⟨⟨status, db⟩, hPersist, hRest⟩ := possible_bind.mp hCall
    cases possible_ret.mp hRest
    have hStatus : status = .ok := (Response.Shows.toStatus (hRespond status)).symm.trans hOk
    refine ⟨_, _, _, hRun, ?_, fun _ => hStatus ▸ hPersist, fun hReply => absurd rfl hReply⟩
    rintro ⟨code, message, hFailed⟩
    cases hFailed

/-- What it did inside the transaction. -/
theorem Succeeds.inside (h : p.Succeeds (.query id stmt) p') (hConn : p.connections[id]? = some conn) {snapshot : Tables}
    (hSome : conn.transactionTables = some snapshot) : ∃ reply tables q,
      runStatement snapshot stmt.sql stmt.params = .done ((reply, tables), q) ∧
        p' = p.store id { conn with transactionTables := some tables } p.handles := by
  obtain ⟨c, response, hAct, hCall, -⟩ := h
  have hForm := call_form p c
  rw [hAct] at hForm
  generalize p.call c = program at hForm hCall
  cases hForm with
  | undefined => cases possible_ret.mp hCall
  | outOfFuel => cases possible_ret.mp hCall
  | inside hOther hSnapshot hRun =>
    cases hConn.symm.trans hOther
    cases hSome.symm.trans hSnapshot
    cases possible_ret.mp hCall
    exact ⟨_, _, _, hRun, rfl⟩
  | outside hOther hNone =>
    cases hConn.symm.trans hOther
    rw [hSome] at hNone
    cases hNone
  | autocommit hOther hNone =>
    cases hConn.symm.trans hOther
    rw [hSome] at hNone
    cases hNone

/-- What its commit did. -/
theorem Succeeds.committed (h : p.Succeeds (.commit id) p') (hConn : p.connections[id]? = some conn) {snapshot : Tables}
    (hSome : conn.transactionTables = some snapshot) : p.committing (.commit id) = some (refreshCatalog snapshot) ∧
      Possible (persistCommittedTables (p.db.publish (refreshCatalog snapshot)) (refreshCatalog snapshot)) (.ok, p'.db) := by
  obtain ⟨c, response, hAct, hCall, hOk⟩ := h
  have hForm := call_form p c
  rw [hAct] at hForm
  generalize p.call c = program at hForm hCall
  cases hForm with
  | undefined => cases possible_ret.mp hCall
  | outOfFuel => cases possible_ret.mp hCall
  | commitNone hOther hNone hError =>
    cases possible_ret.mp hCall
    exact absurd hOk hError
  | conflict hOther hGeneration hError =>
    cases possible_ret.mp hCall
    exact absurd hOk hError
  | commit hOther hGeneration hSnapshot =>
    cases hConn.symm.trans hOther
    cases hSome.symm.trans hSnapshot
    obtain ⟨⟨status, db⟩, hPersist, hRest⟩ := possible_bind.mp hCall
    cases possible_ret.mp hRest
    have hStatus : status = .ok := hOk
    refine ⟨?_, hStatus ▸ hPersist⟩
    rw [committing, hConn, Option.bind_some, if_pos hGeneration, hSome]
    rfl

theorem generation_ne_succ (generation : UInt64) : generation ≠ generation + 1 := by
  intro h
  have hZero : (1 : UInt64) = 0 := by simpa using h
  exact absurd hZero (by decide)

/-- What the statement did decides whether the two ways agree. -/
theorem Twice.agree_iff {alone started within ended : Process} (hReached : p.Reached)
    (h : Twice p id stmt alone started within ended) : ∃ reply tables q,
      runStatement p.db.tables stmt.sql stmt.params = .done ((reply, tables), q) ∧ ¬ reply.Failed ∧
        (reply = .persist → (serializeTables tables).length < 2 ^ 32) ∧
        (Agree p id stmt alone within ended ↔ reply = .persist ∧ Mirrored tables) := by
  obtain ⟨conn, handles, hConn, hNone, rfl⟩ := h.begun.begun
  obtain ⟨reply, tables, q, hRun, hOk, hPersist, hOther⟩ := h.direct.outside hConn hNone
  have hStarted := getElem?_store hConn ⟨some p.db.tables, p.db.generation⟩ handles
  obtain ⟨reply', tables', q', hRun', rfl⟩ := h.inside.inside hStarted rfl
  cases hRun.symm.trans hRun'
  have hWithin := getElem?_store hStarted ⟨some tables, p.db.generation⟩ handles
  obtain ⟨hCommitting, hCommitted⟩ := h.committed.committed hWithin rfl
  obtain ⟨hTables, hGeneration⟩ := possible_persist hCommitted
  refine ⟨reply, tables, q, hRun, hOk, ?_, ?_⟩
  · intro hReply
    exact length_of_payload (possible_persist_ok (hPersist hReply))
  constructor
  · rintro ⟨-, hSame, hBytes⟩
    by_cases hReply : reply = .persist
    · have hDirect : p.committing (.query id stmt) = some tables := by
        rw [committing, hConn, Option.bind_some, hNone, hRun, hReply]
        rfl
      rw [snapshotBytes, snapshotBytes, hDirect, hCommitting, Option.map_some, Option.map_some, Option.some.injEq] at hBytes
      have hLength := length_of_payload (possible_persist_ok (hPersist hReply))
      have hShaped : Shaped tables := hReached.shaped.committing preserved_shaped hDirect
      have hStorable := hShaped.storable hLength (within_representable hLength)
      have hLoad := hStorable.load_serialize
      rw [hBytes] at hLength hLoad
      have hRefreshed := hShaped.refreshCatalog.storable hLength (within_representable hLength)
      rw [hRefreshed.load_serialize] at hLoad
      exact ⟨hReply, Except.ok.inj hLoad⟩
    · rw [hOther hReply, hGeneration] at hSame
      exact absurd hSame (generation_ne_succ _)
  · rintro ⟨hReply, hMirrored⟩
    obtain ⟨hAlone, hNext⟩ := possible_persist (hPersist hReply)
    have hDirect : p.committing (.query id stmt) = some tables := by
      rw [committing, hConn, Option.bind_some, hNone, hRun, hReply]
      rfl
    refine ⟨?_, hNext.trans hGeneration.symm, ?_⟩
    · rw [hAlone, hTables]
      exact (userTables_refreshCatalog tables).symm
    · rw [snapshotBytes, snapshotBytes, hDirect, hCommitting, hMirrored]

/-- The tables a statement stored can be counted: those of a short snapshot, or those it found. -/
theorem counted_of_length {tables : Tables} (h : (serializeTables tables).length < 2 ^ 32) : Counted tables := by
  intro name table _ hFound
  have hRows := (within_representable h).rowCount _ ((OrderedMap.find?_eq_some_iff _ _ _).mp hFound)
  have hLimit : Limits.representable.rows.toNat = 4294967295 := rfl
  dsimp only at hRows
  omega

/-- In every reached state, a CREATE, DROP, INSERT, UPDATE or DELETE that succeeds both by itself and as the only statement of
a transaction leaves and writes the same both ways exactly when it changes nothing that the catalog lists. -/
theorem autocommit_agrees_iff (p alone started within ended : Process) (id : Nat) (stmt : Stmt) (first : Token) (rest : List Token)
    (hReached : p.Reached) (hCounted : Counted p.db.tables) (hTokens : tokenize stmt.sql = .ok (first :: rest))
    (hWord : first.text ∈ changeWords) (h : Twice p id stmt alone started within ended) :
    Agree p id stmt alone within ended ↔
      Unlisted (refreshCatalog p.db.tables) stmt.params first.text (.reading (first :: rest) 1) := by
  obtain ⟨reply, tables, q, hRun, hOk, hLength, hAgree⟩ := h.agree_iff hReached
  have hAfter : Counted tables := by
    cases reply with
    | persist => exact counted_of_length (hLength rfl)
    | rows schema rows =>
      rw [runStatement_rows hRun]
      exact hCounted.refreshCatalog
    | status status =>
      cases status with
      | ok => exact absurd rfl (runStatement_reply hRun)
      | error code message => exact absurd ⟨code, message, rfl⟩ hOk
  rw [hAgree]
  exact mirrored_iff_unlisted hTokens hWord hCounted.refreshCatalog hAfter hRun hOk

/-! ## Both ways at the fresh database -/

theorem execute_commit {db : Database} {snapshot : Tables} (hGeneration : db.generation = conn.transactionGeneration)
    (hSome : conn.transactionTables = some snapshot) : conn.execute db (ascii "commit") = (do
      let r ← persistCommittedTables (db.publish (refreshCatalog snapshot)) (refreshCatalog snapshot)
      Connection.finish r.1 r.2 conn.discard) := by
  have hWord : trimLower (ascii "commit") = ascii "commit" := by decide
  have hPresent : ¬ conn.transactionTables.isNone = true := by
    rw [hSome]
    exact Bool.false_ne_true
  have hMethod : Connection.commitSnapshot db conn = _ := if_neg (not_not.mpr hGeneration)
  rw [hSome] at hMethod
  rw [Connection.execute, hWord, if_neg (by decide), if_neg (by decide), if_pos rfl, if_neg hPresent, hMethod]
  rfl

/-- Where the log is open and the snapshots are not too long, both ways are possible. -/
theorem possible_twice (hConn : p.connections[id]? = some conn) (hOpen : p.db.wal.isOpen = true) {tables : Tables}
    (h : p.committing (.query id stmt) = some tables) (hDirect : (snapshotPayload tables).length ≤ LogManager.maxPayload)
    (hRefreshed : (snapshotPayload (refreshCatalog tables)).length ≤ LogManager.maxPayload) :
    ∃ alone started within ended, Twice p id stmt alone started within ended := by
  obtain ⟨hNone, q, hRun⟩ := run_of_committing hConn h
  let started := p.store id ⟨some p.db.tables, p.db.generation⟩ (p.handles ++ [⟨id, false⟩])
  have hStarted : started.connections[id]? = some ⟨some p.db.tables, p.db.generation⟩ := getElem?_store hConn _ _
  let within := started.store id ⟨some tables, p.db.generation⟩ started.handles
  have hWithin : within.connections[id]? = some ⟨some tables, p.db.generation⟩ := getElem?_store hStarted _ _
  have hBegin : p.call (.beginTransaction id) = pure (Outcome.done (.transaction p.handles.length, started)) := by
    rw [call, beginHandle, hConn]
    dsimp only
    rw [beginTransaction_none hNone]
    rfl
  have hStatement : started.call (.query id stmt.sql stmt.params) = pure (Outcome.done (.reply (.status .ok), within)) := by
    have hMethod : Connection.executeQuery p.db ⟨some p.db.tables, p.db.generation⟩ stmt.sql stmt.params =
        Connection.finish (.status .ok) p.db ⟨some tables, p.db.generation⟩ := by
      rw [Connection.executeQuery, Connection.working, Option.getD_some, hRun]
      rfl
    rw [call]
    exact onConnection_finish hStarted .reply hMethod
  have hCommit : within.call (.execute id (ascii "commit")) = (do
      let r ← persistCommittedTables (within.db.publish (refreshCatalog tables)) (refreshCatalog tables)
      pure (Outcome.done (.status r.1, { within.store id ⟨none, p.db.generation⟩ within.handles with db := r.2 }))) := by
    rw [call]
    exact onConnection_persist hWithin .status (fun status => status) (execute_commit rfl rfl)
  have hEnded : (within.db.publish (refreshCatalog tables)).wal.isOpen = true := hOpen
  have hBegun : p.Succeeds (.begin id) started := by
    refine ⟨.beginTransaction id, .transaction p.handles.length, rfl, ?_, rfl⟩
    rw [hBegin]
    exact .ret _
  have hInside : started.Succeeds (.query id stmt) within := by
    refine ⟨.query id stmt.sql stmt.params, .reply (.status .ok), rfl, ?_, rfl⟩
    rw [hStatement]
    exact .ret _
  have hCommitted : within.Succeeds (.commit id) { within.store id ⟨none, p.db.generation⟩ within.handles with
      db := (within.db.publish (refreshCatalog tables)).committed } := by
    refine ⟨.execute id (ascii "commit"), .status .ok, rfl, ?_, rfl⟩
    rw [hCommit]
    exact possible_bind.mpr ⟨_, possible_persist_committed hEnded hRefreshed, .ret _⟩
  exact ⟨_, started, within, _, ⟨_, _, rfl, possible_autocommit hConn hOpen h hDirect, rfl⟩, hBegun, hInside, hCommitted⟩

def createStmt : Stmt := ⟨createTableT, []⟩

theorem twice_createTable : ∃ alone started within ended, Twice fresh 0 createStmt alone started within ended := by
  have hConn : fresh.connections[0]? = some ({} : Connection) := rfl
  have hCommit := committing_fresh
  rw [act_fresh] at hCommit
  exact possible_twice hConn rfl hCommit (by decide +kernel) (by decide +kernel)

theorem not_mirrored_tablesWithT : ¬ Mirrored tablesWithT := by
  have hDiffers : refreshCatalog tablesWithT ≠ tablesWithT := by decide +kernel
  exact hDiffers

theorem run_createTable : ∃ q, runStatement fresh.db.tables createTableT [] = .done ((.persist, tablesWithT), q) := by
  have hConn : fresh.connections[0]? = some ({} : Connection) := rfl
  have hCommit := committing_fresh
  rw [act_fresh] at hCommit
  exact (run_of_committing hConn hCommit).2

theorem createTableT_tokens : ∃ first rest, tokenize createTableT = .ok (first :: rest) ∧ first.text = ascii "create" := by
  have hHead : (tokenize createTableT).toOption.bind (fun tokens => tokens.head?.map Token.text) = some (ascii "create") := by
    decide +kernel
  cases hTokens : tokenize createTableT with
  | error status =>
    rw [hTokens] at hHead
    cases hHead
  | ok tokens =>
    rw [hTokens] at hHead
    cases tokens with
    | nil => cases hHead
    | cons first rest => exact ⟨first, rest, rfl, Option.some.inj hHead⟩

theorem createTable_agrees_iff : ∃ alone started within ended first rest, Twice fresh 0 createStmt alone started within ended ∧
    (Agree fresh 0 createStmt alone within ended ↔
      Unlisted (refreshCatalog fresh.db.tables) [] (ascii "create") (.reading (first :: rest) 1)) := by
  obtain ⟨alone, started, within, ended, hTwice⟩ := twice_createTable
  obtain ⟨first, rest, hTokens, hText⟩ := createTableT_tokens
  have hWord : first.text ∈ changeWords := by
    rw [hText]
    decide
  have hIff := autocommit_agrees_iff fresh alone started within ended 0 createStmt first rest reached_fresh nofun hTokens hWord hTwice
  rw [hText] at hIff
  exact ⟨alone, started, within, ended, first, rest, hTwice, hIff⟩

/-- `CREATE TABLE t (a INTEGER)` as the first statement: by itself it writes a catalog without the table. -/
theorem createTable_apart : ¬ ∀ (p alone started within ended : Process) (id : Nat) (stmt : Stmt) (first : Token) (rest : List Token),
    p.Reached → Counted p.db.tables → tokenize stmt.sql = .ok (first :: rest) → first.text ∈ changeWords →
      Twice p id stmt alone started within ended → Agree p id stmt alone within ended := by
  intro hClaim
  obtain ⟨alone, started, within, ended, hTwice⟩ := twice_createTable
  obtain ⟨first, rest, hTokens, hText⟩ := createTableT_tokens
  obtain ⟨reply, tables, q, hRun, -, -, hAgree⟩ := hTwice.agree_iff reached_fresh
  obtain ⟨q', hRun'⟩ := run_createTable
  cases hRun'.symm.trans hRun
  have hBoth := hClaim fresh alone started within ended 0 createStmt first rest reached_fresh nofun hTokens
    (by rw [hText]; decide) hTwice
  exact not_mirrored_tablesWithT (hAgree.mp hBoth).2

end Process

end TupleStone
