import TupleStone.Api.SnapshotLimits

/-! # Tables that statements build up

Whatever a list of statements builds from nothing is the working set of a connection of some reached process: the
statements run in one transaction, where no file is asked for anything.
-/

set_option autoImplicit false

namespace TupleStone

open OpProgram

/-- The tables after statements that all end at `persist`. -/
def runScript (tables : Tables) : List Bytes → Option Tables
  | [] => some tables
  | sql :: rest =>
    match runStatement tables sql [] with
    | .done ((.persist, tables'), _) => runScript tables' rest
    | _ => none

namespace Process

/-- A statement inside a transaction. -/
theorem possible_inside {p : Process} {id : Nat} {conn : Connection} {tables tables' : Tables} {sql : Bytes} {q : Parser}
    (hConn : p.connections[id]? = some conn) (hSome : conn.transactionTables = some tables)
    (hRun : runStatement tables sql [] = .done ((.persist, tables'), q)) : Possible (p.call (.query id sql []))
      (.done (.reply (.status .ok), { p with connections := p.connections.set id { conn with transactionTables := some tables' } })) := by
  have hWorking : conn.working p.db = tables := by rw [Connection.working, hSome, Option.getD_some]
  have hCalled : conn.executeQuery p.db sql [] =
      Connection.finish (.status .ok) p.db { conn with transactionTables := some tables' } := by
    rw [Connection.executeQuery, hWorking, hRun]
    dsimp only
    rw [Connection.conclude, hSome]
    rfl
  rw [call, onConnection, hConn]
  dsimp only
  rw [hCalled]
  exact .ret _

theorem reached_runScript {p : Process} {conn : Connection} {tables tables' : Tables} {texts : List Bytes} (h : p.Reached)
    (hConn : p.connections[0]? = some conn) (hSome : conn.transactionTables = some tables)
    (hRun : runScript tables texts = some tables') :
    ∃ p' conn', Reached p' ∧ conn' ∈ p'.connections ∧ conn'.working p'.db = tables' := by
  induction texts generalizing p conn tables with
  | nil =>
    cases hRun
    refine ⟨p, conn, h, List.mem_of_getElem? hConn, ?_⟩
    rw [Connection.working, hSome, Option.getD_some]
  | cons sql rest ih =>
    rw [runScript] at hRun
    split at hRun
    · next middle q hStatement =>
      have hStored : (p.connections.set 0 { conn with transactionTables := some middle })[0]? =
          some { conn with transactionTables := some middle } := List.getElem?_set_self (List.getElem?_eq_some_iff.mp hConn).1
      exact ih (h.call (possible_inside hConn hSome hStatement)) hStored rfl hRun
    · cases hRun

theorem reached_script {tables : Tables} {texts : List Bytes} (h : runScript OrderedMap.empty texts = some tables) :
    ∃ p conn, Reached p ∧ conn ∈ p.connections ∧ conn.working p.db = tables := by
  have hBegin : Possible (fresh.call (.beginTransaction 0)) (.done (.transaction 0,
      { fresh with connections := [⟨some OrderedMap.empty, fresh.db.generation⟩], handles := [⟨0, false⟩] })) := .ret _
  exact reached_runScript (reached_fresh.call hBegin) rfl rfl h

end Process

end TupleStone
