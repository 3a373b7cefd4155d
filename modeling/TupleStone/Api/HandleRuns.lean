import TupleStone.Api.SerialRuns

/-! # Transaction handles

A handle keeps its own flag while the snapshot lives in the connection, so the two can part: an SQL COMMIT or ROLLBACK ends the
transaction of a handle behind its back. Among calls that leave transactions to their handles this cannot happen: an unfinished
handle has the snapshot that its own `Begin` created, and ends it exactly once.
-/

set_option autoImplicit false

namespace TupleStone

open OptimisticCommit OpProgram

/-- No BEGIN, COMMIT or ROLLBACK as SQL. -/
def Call.Plain (c : Call) : Prop :=
  ∀ id sql, c = .execute id sql → trimLower sql ≠ ascii "begin" ∧ trimLower sql ≠ ascii "rollback" ∧ trimLower sql ≠ ascii "commit"

namespace Process

variable {p p' p'' : Process} {c : Call} {response : Response} {id n : Nat} {h : Handle} {conn : Connection}

/-! ## What a plain call does to handles and snapshots -/

/-- Whether a connection has a snapshot. -/
def busy (p : Process) (id : Nat) : Bool := (p.snapshot id).isSome

inductive Change (p : Process) (act : Act) (p' : Process) : Prop where
  | kept (hHandles : p'.handles = p.handles) (hBusy : ∀ id, p'.busy id = p.busy id)
      (hEvent : ∀ id e, p.event act = some e → ¬ e.Bounds id) : Change p act p'
  | began {id : Nat} (hAct : act = .begin id) (hIdle : p.busy id = false)
      (hHandles : p'.handles = p.handles ++ [⟨id, false⟩]) (hBusy : ∀ other, p'.busy other = (decide (other = id) || p.busy other)) :
      Change p act p'
  | ended {n : Nat} {h : Handle} (hHandle : p.handles[n]? = some h) (hOpen : h.finished = false)
      (hAct : act = .commit h.connection ∨ act = .drop h.connection)
      (hHandles : p'.handles = p.handles.set n { h with finished := true })
      (hBusy : ∀ other, p'.busy other = (decide (other ≠ h.connection) && p.busy other)) : Change p act p'

theorem busy_of_connection (hConn : p.connections[id]? = some conn) : p.busy id = conn.transactionTables.isSome := by
  rw [busy, snapshot_eq hConn]

/-- One connection changes. -/
theorem busy_store (hConn : p.connections[id]? = some conn) (conn' : Connection) (handles : List Handle) (other : Nat) :
    (p.store id conn' handles).busy other = if other = id then conn'.transactionTables.isSome else p.busy other := by
  change ((p.connections.set id conn')[other]?.bind Connection.transactionTables).isSome = _
  rw [getElem?_set_connection hConn]
  split
  · rfl
  · rfl

theorem busy_discard (hConn : p.connections[id]? = some conn) (handles : List Handle) (other : Nat) :
    (p.store id conn.discard handles).busy other = (decide (other ≠ id) && p.busy other) := by
  rw [busy_store hConn]
  obtain rfl | hNe := eq_or_ne other id
  · rw [if_pos rfl, decide_eq_false (not_not.mpr rfl)]
    rfl
  · rw [if_neg hNe, decide_eq_true hNe]
    rfl

theorem not_bounds_query {id other : Nat} {stmt : Stmt} {e : Event Nat Stmt} (hEvent : p.event (.query id stmt) = some e) :
    ¬ e.Bounds other := by
  rw [event] at hEvent
  split at hEvent
  · cases hEvent
    rintro (h | h | h | h) <;> cases h
  split at hEvent
  · cases hEvent
    rintro (h | h | h | h) <;> cases h
  · cases hEvent

theorem change_query {program : Io Answer} {stmt : Stmt} (hForm : Form p (.query id stmt) program)
    (hCall : Possible program (.done (response, p'))) : Change p (.query id stmt) p' := by
  cases hForm with
  | undefined => cases possible_ret.mp hCall
  | outOfFuel => cases possible_ret.mp hCall
  | inside hConn hSome hRun hResponse =>
    cases possible_ret.mp hCall
    refine .kept rfl (fun other => ?_) fun other e => not_bounds_query
    rw [busy_store hConn]
    split
    · rename_i hSame
      rw [hSame, busy_of_connection hConn, hSome]
      rfl
    · rfl
  | outside hConn hNone hRun hReply hResponse =>
    cases possible_ret.mp hCall
    exact .kept rfl (fun other => rfl) fun other e => not_bounds_query
  | autocommit hConn hNone hRun hRespond =>
    obtain ⟨r, -, hRest⟩ := possible_bind.mp hCall
    cases possible_ret.mp hRest
    exact .kept rfl (fun other => rfl) fun other e => not_bounds_query

/-- `Begin` on a connection without a snapshot, or with one. -/
theorem possible_beginHandle (hCall : Possible (p.beginHandle id) (.done (response, p'))) :
    (∃ conn, p.connections[id]? = some conn ∧ conn.transactionTables = none ∧ response = .transaction p.handles.length ∧
      p' = p.store id ⟨some p.db.tables, p.db.generation⟩ (p.handles ++ [⟨id, false⟩])) ∨
    (p.busy id = true ∧ p' = p ∧ ∃ status, response = .status status) := by
  rw [beginHandle] at hCall
  cases hConn : p.connections[id]? with
  | none =>
    rw [hConn] at hCall
    cases possible_ret.mp hCall
  | some conn =>
    rw [hConn] at hCall
    dsimp only at hCall
    cases hSnapshot : conn.transactionTables with
    | none =>
      rw [beginTransaction_none hSnapshot] at hCall
      cases possible_ret.mp hCall
      exact Or.inl ⟨conn, rfl, hSnapshot, rfl, rfl⟩
    | some tables =>
      have hSome : conn.transactionTables ≠ none := by
        rw [hSnapshot]
        exact Option.some_ne_none _
      rw [beginTransaction_some hSome] at hCall
      cases possible_ret.mp hCall
      refine Or.inr ⟨?_, rfl, _, rfl⟩
      rw [busy_of_connection hConn, hSnapshot]
      rfl

theorem change_begin (hCall : Possible (p.beginHandle id) (.done (response, p'))) : Change p (.begin id) p' := by
  obtain ⟨conn, hConn, hNone, -, rfl⟩ | ⟨hBusy, rfl, -⟩ := possible_beginHandle hCall
  · refine .began rfl ?_ rfl fun other => ?_
    · rw [busy_of_connection hConn, hNone]
      rfl
    · rw [busy_store hConn]
      obtain rfl | hNe := eq_or_ne other id
      · rw [if_pos rfl, decide_eq_true rfl]
        rfl
      · rw [if_neg hNe, decide_eq_false hNe]
        rfl
  · refine .kept rfl (fun other => rfl) fun other e hEvent => ?_
    have hSome : (p'.snapshot id).isSome = true := hBusy
    rw [event, if_pos hSome] at hEvent
    cases hEvent

/-- A method of a connection leaves the handles. -/
theorem possible_onConnection {α : Type} {respond : α → Response} {method : Database → Connection → Io (Connection.Called α)}
    (hCall : Possible (p.onConnection id respond method) (.done (response, p'))) : p'.handles = p.handles := by
  rw [onConnection] at hCall
  cases hConn : p.connections[id]? with
  | none =>
    rw [hConn] at hCall
    cases possible_ret.mp hCall
  | some conn =>
    rw [hConn] at hCall
    obtain ⟨result, -, hRest⟩ := possible_bind.mp hCall
    cases result with
    | done result =>
      cases possible_ret.mp hRest
      rfl
    | undefined => cases possible_ret.mp hRest
    | outOfFuel => cases possible_ret.mp hRest

/-- What an act that ends a transaction does to the snapshots. -/
theorem busy_ended {act : Act} {program : Io Answer} (hForm : Form p act program) (hAct : act = .commit id ∨ act = .drop id)
    (hCall : Possible program (.done (response, p'))) (other : Nat) : p'.busy other = (decide (other ≠ id) && p.busy other) := by
  cases hForm with
  | undefined => cases possible_ret.mp hCall
  | outOfFuel => cases possible_ret.mp hCall
  | dropped hConn =>
    cases possible_ret.mp hCall
    obtain h | h := hAct <;> cases h
    exact busy_discard hConn _ other
  | commitNone hConn hNone hError =>
    cases possible_ret.mp hCall
    obtain h | h := hAct <;> cases h
    obtain rfl | hNe := eq_or_ne other id
    · rw [busy_of_connection hConn, hNone, decide_eq_false (not_not.mpr rfl)]
      rfl
    · rw [decide_eq_true hNe]
      rfl
  | conflict hConn hGeneration hError =>
    cases possible_ret.mp hCall
    obtain h | h := hAct <;> cases h
    exact busy_discard hConn _ other
  | @commit _ _ _ handles hConn hGeneration hSome =>
    obtain ⟨r, -, hRest⟩ := possible_bind.mp hCall
    cases possible_ret.mp hRest
    obtain h | h := hAct <;> cases h
    exact busy_discard hConn handles other
  | _ => obtain h | h := hAct <;> cases h

/-- A method of a handle: nothing when it is finished, else it ends. -/
theorem change_handle {act : Nat → Act} {finished : Response} {program : Io Answer}
    (hAct : act h.connection = .commit h.connection ∨ act h.connection = .drop h.connection) (hForm : Form p (act h.connection) program)
    (hHandles : Possible program (.done (response, p')) → p'.handles = p.handles.set n { h with finished := true })
    (hCall : Possible (if h.finished then pure (Outcome.done (finished, p)) else program) (.done (response, p')))
    (hHandle : p.handles[n]? = some h) : Change p (p.handleAct n act) p' := by
  rw [handleAct, hHandle]
  dsimp only
  split at hCall
  · rename_i hFinished
    cases possible_ret.mp hCall
    rw [if_pos hFinished]
    exact .kept rfl (fun other => rfl) fun other e hEvent => by cases hEvent
  · rename_i hOpen
    rw [if_neg hOpen]
    exact .ended hHandle (Bool.eq_false_iff.mpr hOpen) hAct (hHandles hCall) (busy_ended hForm hAct hCall)

theorem change_call (hPlain : c.Plain) (hCall : Possible (p.call c) (.done (response, p'))) : Change p (p.act c) p' := by
  cases c with
  | connect =>
    rw [call] at hCall
    have hEvent : ∀ id e, p.event .connect = some e → ¬ e.Bounds id := fun id e hEvent => by cases hEvent
    split at hCall
    · cases possible_ret.mp hCall
      exact .kept rfl (fun other => rfl) hEvent
    · cases possible_ret.mp hCall
      refine .kept rfl (fun other => ?_) hEvent
      change ((p.connections ++ [({} : Connection)])[other]?.bind Connection.transactionTables).isSome = _
      rw [List.getElem?_append, busy, snapshot]
      split
      · rfl
      · rename_i hBeyond
        rw [List.getElem?_eq_none (Nat.le_of_not_lt hBeyond)]
        cases hIndex : other - p.connections.length with
        | zero => rfl
        | succ n => rfl
  | execute id sql =>
    obtain ⟨hBegin, hRollback, hCommit⟩ := hPlain id sql rfl
    have hAct : p.act (.execute id sql) = .query id ⟨sql, []⟩ := by
      rw [act, if_neg hBegin, if_neg hRollback, if_neg hCommit]
    have hForm := call_form p (.execute id sql)
    rw [hAct] at hForm ⊢
    exact change_query hForm hCall
  | query id sql params => exact change_query (call_form p (.query id sql params)) hCall
  | beginTransaction id => exact change_begin hCall
  | commit n =>
    rw [call, commitHandle] at hCall
    cases hHandle : p.handles[n]? with
    | none =>
      rw [hHandle] at hCall
      cases possible_ret.mp hCall
    | some h =>
      rw [hHandle] at hCall
      change Change p (p.handleAct n .commit) p'
      exact change_handle (Or.inl rfl) (form_commitSnapshot p h.connection (p.finished n h).handles)
        (possible_onConnection (p := p.finished n h)) hCall hHandle
  | rollback n =>
    rw [call, rollbackHandle] at hCall
    cases hHandle : p.handles[n]? with
    | none =>
      rw [hHandle] at hCall
      cases possible_ret.mp hCall
    | some h =>
      rw [hHandle] at hCall
      change Change p (p.handleAct n .drop) p'
      exact change_handle (Or.inr rfl) (form_drop p h.connection (p.finished n h).handles)
        (possible_onConnection (p := p.finished n h)) hCall hHandle
  | destroy n =>
    rw [call, rollbackHandle] at hCall
    cases hHandle : p.handles[n]? with
    | none =>
      rw [hHandle] at hCall
      cases possible_ret.mp hCall
    | some h =>
      rw [hHandle] at hCall
      change Change p (p.handleAct n .drop) p'
      exact change_handle (Or.inr rfl) (form_drop p h.connection (p.finished n h).handles)
        (possible_onConnection (p := p.finished n h)) hCall hHandle
  | checkpoint =>
    obtain ⟨r, -, hRest⟩ := possible_bind.mp hCall
    cases possible_ret.mp hRest
    exact .kept rfl (fun other => rfl) fun other e hEvent => by cases hEvent
  | close =>
    obtain ⟨r, -, hRest⟩ := possible_bind.mp hCall
    cases possible_ret.mp hRest
    exact .kept rfl (fun other => rfl) fun other e hEvent => by cases hEvent

/-! ## Ownership -/

/-- Every snapshot belongs to one unfinished handle, and every unfinished handle has a snapshot. -/
structure Owned (p : Process) : Prop where
  held : ∀ (n : Nat) (h : Handle), p.handles[n]? = some h → h.finished = false → p.busy h.connection = true
  single : ∀ (n m : Nat) (h k : Handle), p.handles[n]? = some h → p.handles[m]? = some k → h.finished = false → k.finished = false →
    h.connection = k.connection → n = m
  owner : ∀ id, p.busy id = true → ∃ n : Nat, p.handles[n]? = some ⟨id, false⟩

theorem getElem?_append_handle {handles : List Handle} (hGet : (handles ++ [⟨id, false⟩])[n]? = some h) :
    handles[n]? = some h ∨ n = handles.length ∧ h = ⟨id, false⟩ := by
  rw [List.getElem?_append] at hGet
  split at hGet
  · exact Or.inl hGet
  · rename_i hBeyond
    cases hIndex : n - handles.length with
    | zero =>
      rw [hIndex] at hGet
      cases hGet
      exact Or.inr ⟨by omega, rfl⟩
    | succ k =>
      rw [hIndex] at hGet
      cases hGet

/-- An unfinished handle after another one was finished. -/
theorem getElem?_set_finished {handles : List Handle} {m : Nat} {k : Handle}
    (hGet : (handles.set n { h with finished := true })[m]? = some k) (hOpen : k.finished = false) :
    m ≠ n ∧ handles[m]? = some k := by
  rw [List.getElem?_set] at hGet
  split at hGet
  · split at hGet
    · cases hGet
      cases hOpen
    · cases hGet
  · rename_i hNe
    exact ⟨Ne.symm hNe, hGet⟩

theorem Owned.change {act : Act} (hOwned : p.Owned) (hChange : Change p act p') : p'.Owned := by
  cases hChange with
  | kept hHandles hBusy hEvent =>
    constructor
    · intro n h hGet hOpen
      rw [hBusy]
      exact hOwned.held n h (hHandles ▸ hGet) hOpen
    · intro n m h k hGet hGet'
      exact hOwned.single n m h k (hHandles ▸ hGet) (hHandles ▸ hGet')
    · intro id hSome
      rw [hBusy] at hSome
      rw [hHandles]
      exact hOwned.owner id hSome
  | @began id hAct hIdle hHandles hBusy =>
    have hFree : ∀ (n : Nat) (h : Handle), p.handles[n]? = some h → h.finished = false → h.connection ≠ id := by
      rintro n h hGet hOpen rfl
      cases hIdle.symm.trans (hOwned.held n h hGet hOpen)
    constructor
    · intro n h hGet hOpen
      rw [hBusy]
      rw [hHandles] at hGet
      obtain hOld | ⟨-, rfl⟩ := getElem?_append_handle hGet
      · rw [hOwned.held n h hOld hOpen, Bool.or_true]
      · rw [decide_eq_true rfl]
        rfl
    · intro n m h k hGet hGet' hOpen hOpen' hSame
      rw [hHandles] at hGet hGet'
      obtain hOld | ⟨hLast, rfl⟩ := getElem?_append_handle hGet
      · obtain hOld' | ⟨-, rfl⟩ := getElem?_append_handle hGet'
        · exact hOwned.single n m h k hOld hOld' hOpen hOpen' hSame
        · exact absurd hSame (hFree n h hOld hOpen)
      · obtain hOld' | ⟨hLast', -⟩ := getElem?_append_handle hGet'
        · exact absurd hSame.symm (hFree m k hOld' hOpen')
        · exact hLast.trans hLast'.symm
    · intro other hSome
      rw [hBusy, Bool.or_eq_true] at hSome
      rw [hHandles]
      obtain hSame | hOld := hSome
      · rw [of_decide_eq_true hSame]
        exact ⟨p.handles.length, List.getElem?_concat_length⟩
      · obtain ⟨n, hGet⟩ := hOwned.owner other hOld
        obtain ⟨hBound, -⟩ := List.getElem?_eq_some_iff.mp hGet
        exact ⟨n, (List.getElem?_append_left hBound).trans hGet⟩
  | @ended n h hHandle hOpen hAct hHandles hBusy =>
    constructor
    · intro m k hGet hOpen'
      rw [hHandles] at hGet
      obtain ⟨hNe, hOld⟩ := getElem?_set_finished hGet hOpen'
      have hOther : k.connection ≠ h.connection := fun hSame => hNe (hOwned.single m n k h hOld hHandle hOpen' hOpen hSame)
      rw [hBusy, hOwned.held m k hOld hOpen', decide_eq_true hOther]
      rfl
    · intro m l k g hGet hGet' hOpen' hOpen''
      rw [hHandles] at hGet hGet'
      obtain ⟨-, hOld⟩ := getElem?_set_finished hGet hOpen'
      obtain ⟨-, hOld'⟩ := getElem?_set_finished hGet' hOpen''
      exact hOwned.single m l k g hOld hOld' hOpen' hOpen''
    · intro other hSome
      rw [hBusy, Bool.and_eq_true] at hSome
      obtain ⟨m, hGet⟩ := hOwned.owner other hSome.2
      have hNe : n ≠ m := by
        rintro rfl
        rw [hHandle] at hGet
        cases hGet
        exact of_decide_eq_true hSome.1 rfl
      rw [hHandles]
      exact ⟨m, (List.getElem?_set_ne hNe).trans hGet⟩

/-! ## Runs -/

/-- Plain calls in any order, with any answers of the files. -/
inductive HandleRuns (p : Process) : List (Event Nat Stmt) → Process → Prop where
  | refl : HandleRuns p [] p
  | call {es : List (Event Nat Stmt)} {p' p'' : Process} {c : Call} {response : Response} (h : HandleRuns p es p') (hPlain : c.Plain)
      (hCall : Possible (p'.call c) (.done (response, p''))) : HandleRuns p (es ++ (p'.event (p'.act c)).toList) p''

theorem HandleRuns.owned {es : List (Event Nat Stmt)} (hRun : HandleRuns p es p') (hOwned : p.Owned) : p'.Owned := by
  induction hRun with
  | refl => exact hOwned
  | call _ hPlain hCall ih => exact ih.change (change_call hPlain hCall)

/-- A handle that is unfinished after a call was so before. -/
theorem Change.handle_before {act : Act} (hChange : Change p act p') (hHandle : p.handles[n]? = some h) {k : Handle}
    (hAfter : p'.handles[n]? = some k) (hOpen : k.finished = false) : h = k := by
  cases hChange with
  | kept hHandles =>
    rw [hHandles] at hAfter
    exact Option.some.inj (hHandle.symm.trans hAfter)
  | began hAct hIdle hHandles =>
    rw [hHandles] at hAfter
    obtain ⟨hBound, -⟩ := List.getElem?_eq_some_iff.mp hHandle
    rw [List.getElem?_append_left hBound] at hAfter
    exact Option.some.inj (hHandle.symm.trans hAfter)
  | ended hEnded hOpen' hAct hHandles =>
    rw [hHandles] at hAfter
    obtain ⟨-, hOld⟩ := getElem?_set_finished hAfter hOpen
    exact Option.some.inj (hHandle.symm.trans hOld)

theorem Change.handle_after {act : Act} (hChange : Change p act p') (hHandle : p.handles[n]? = some h) :
    ∃ k, p'.handles[n]? = some k := by
  obtain ⟨hBound, -⟩ := List.getElem?_eq_some_iff.mp hHandle
  have hLength : p.handles.length ≤ p'.handles.length := by
    cases hChange with
    | kept hHandles => exact hHandles ▸ Nat.le_refl _
    | began hAct hIdle hHandles =>
      rw [hHandles, List.length_append]
      exact Nat.le_add_right _ _
    | ended hEnded hOpen hAct hHandles =>
      rw [hHandles, List.length_set]
  exact ⟨_, List.getElem?_eq_getElem (Nat.lt_of_lt_of_le hBound hLength)⟩

/-- While its handle is unfinished, no call begins or ends a transaction of the connection. -/
theorem Change.not_bounds {act : Act} (hOwned : p.Owned) (hChange : Change p act p') (hHandle : p.handles[n]? = some ⟨id, false⟩)
    (hAfter : p'.handles[n]? = some ⟨id, false⟩) {e : Event Nat Stmt} (hEvent : p.event act = some e) : ¬ e.Bounds id := by
  cases hChange with
  | kept hHandles hBusy hNone => exact hNone id e hEvent
  | @began other hAct hIdle hHandles =>
    have hOther : other ≠ id := by
      rintro rfl
      cases hIdle.symm.trans (hOwned.held n _ hHandle rfl)
    rw [hAct, event] at hEvent
    split at hEvent
    · cases hEvent
    · cases hEvent
      rintro (h | h | h | h) <;> cases h
      exact hOther rfl
  | @ended m h hEnded hOpen hAct hHandles =>
    have hOther : h.connection ≠ id := by
      intro hSame
      cases hOwned.single m n h ⟨id, false⟩ hEnded hHandle hOpen rfl hSame
      rw [hHandles] at hAfter
      exact (getElem?_set_finished hAfter rfl).1 rfl
    obtain rfl | rfl := hAct
    · rw [event] at hEvent
      split at hEvent
      · cases hEvent
        split
        · rintro (h | h | h | h) <;> cases h
          exact hOther rfl
        · rintro (h | h | h | h) <;> cases h
          exact hOther rfl
      · cases hEvent
    · cases hEvent
      rintro (h | h | h | h) <;> cases h
      exact hOther rfl

theorem HandleRuns.own {mid : List (Event Nat Stmt)} (hRun : HandleRuns p mid p') (hOwned : p.Owned)
    (hHandle : p.handles[n]? = some ⟨id, false⟩) (hAfter : p'.handles[n]? = some h) (hOpen : h.finished = false) :
    h = ⟨id, false⟩ ∧ ∀ e ∈ mid, ¬ e.Bounds id := by
  induction hRun generalizing h with
  | refl =>
    cases hHandle.symm.trans hAfter
    exact ⟨rfl, fun e hMem => by cases hMem⟩
  | @call es p' p'' c response hBefore hPlain hCall ih =>
    have hChange := change_call hPlain hCall
    have hThere : ∃ k, p'.handles[n]? = some k := by
      clear ih hCall hChange hAfter
      induction hBefore with
      | refl => exact ⟨_, hHandle⟩
      | call _ hPlain' hCall' ih =>
        obtain ⟨k, hGet⟩ := ih
        exact (change_call hPlain' hCall').handle_after hGet
    obtain ⟨k, hGet⟩ := hThere
    cases hChange.handle_before hGet hAfter hOpen
    obtain ⟨rfl, hOthers⟩ := ih hGet hOpen
    refine ⟨rfl, fun e hMem => ?_⟩
    obtain hOld | hNew := List.mem_append.mp hMem
    · exact hOthers e hOld
    · exact hChange.not_bounds (hBefore.owned hOwned) hGet hAfter (Option.mem_toList.mp hNew)

theorem Idle.owned (hIdle : p.Idle) (hNone : p.handles = []) : p.Owned := by
  constructor
  · intro n h hGet
    rw [hNone] at hGet
    cases hGet
  · intro n m h k hGet
    rw [hNone] at hGet
    cases hGet
  · intro id hSome
    rw [busy, hIdle id] at hSome
    cases hSome

/-- What `Begin` returns is an unfinished handle of its connection. -/
theorem handle_of_begin (hCall : Possible (p.call (.beginTransaction id)) (.done (.transaction n, p'))) :
    p'.handles[n]? = some ⟨id, false⟩ := by
  obtain ⟨conn, hConn, hNone, hResponse, rfl⟩ | ⟨-, -, status, hResponse⟩ := possible_beginHandle hCall
  · cases hResponse
    exact List.getElem?_concat_length
  · cases hResponse

/-- The calls that end the transaction of a handle. -/
def Ends (n : Nat) (c : Call) : Prop := c = .commit n ∨ c = .rollback n ∨ c = .destroy n

/-- The methods of an unfinished handle whose connection has a snapshot do not dereference null. -/
theorem not_undefined_of_busy (hHandle : p.handles[n]? = some h) (hOpen : h.finished = false) (hBusy : p.busy h.connection = true)
    (hEnds : Ends n c) : ¬ Possible (p.call c) .undefined := by
  have hNot : ¬ h.finished = true := Bool.eq_false_iff.mp hOpen
  obtain ⟨tables, hSome⟩ := Option.isSome_iff_exists.mp hBusy
  obtain ⟨conn, hConn, hSnapshot⟩ := Option.bind_eq_some_iff.mp hSome
  have hHere : (p.finished n h).connections[h.connection]? = some conn := hConn
  have hDrop : ¬ Possible (onConnection (p.finished n h) h.connection .status (fun db conn => Connection.finish Status.ok db conn.discard))
      .undefined := by
    have hMethod : (fun (db : Database) (conn : Connection) => Connection.finish Status.ok db conn.discard) (p.finished n h).db conn =
        Connection.finish Status.ok p.db conn.discard := rfl
    rw [onConnection_finish hHere .status hMethod]
    intro hCall
    cases possible_ret.mp hCall
  obtain rfl | rfl | rfl := hEnds
  · rw [call, commitHandle, hHandle]
    dsimp only
    rw [if_neg hNot]
    cases hGeneration : decide (p.db.generation = conn.transactionGeneration) with
    | true =>
      have hMethod : Connection.commitSnapshot p.db conn = _ := if_neg (not_not.mpr (of_decide_eq_true hGeneration))
      rw [hSnapshot] at hMethod
      rw [onConnection_persist hHere .status (fun status => status) hMethod]
      intro hCall
      obtain ⟨r, -, hRest⟩ := possible_bind.mp hCall
      cases possible_ret.mp hRest
    | false =>
      rw [onConnection_finish hHere .status (if_pos (of_decide_eq_false hGeneration))]
      intro hCall
      cases possible_ret.mp hCall
  · rw [call, rollbackHandle, hHandle]
    dsimp only
    rw [if_neg hNot]
    exact hDrop
  · rw [call, rollbackHandle, hHandle]
    dsimp only
    rw [if_neg hNot]
    exact hDrop

/-- Ending the transaction of a handle finishes the handle and drops the snapshot. -/
theorem ended_of_call (hHandle : p.handles[n]? = some h) (hOpen : h.finished = false) (hEnds : Ends n c)
    (hCall : Possible (p.call c) (.done (response, p'))) :
    p'.busy h.connection = false ∧ p'.handles[n]? = some { h with finished := true } := by
  have hNot : ¬ h.finished = true := Bool.eq_false_iff.mp hOpen
  have hAct : ∀ act : Nat → Act, p.handleAct n act = act h.connection := by
    intro act
    rw [handleAct, hHandle]
    exact if_neg hNot
  have hForm := call_form p c
  have hEnded : (p.act c = .commit h.connection ∨ p.act c = .drop h.connection) ∧
      p'.handles = p.handles.set n { h with finished := true } := by
    obtain rfl | rfl | rfl := hEnds
    · rw [call, commitHandle, hHandle] at hCall
      dsimp only at hCall
      rw [if_neg hNot] at hCall
      exact ⟨Or.inl (hAct .commit), possible_onConnection hCall⟩
    · rw [call, rollbackHandle, hHandle] at hCall
      dsimp only at hCall
      rw [if_neg hNot] at hCall
      exact ⟨Or.inr (hAct .drop), possible_onConnection hCall⟩
    · rw [call, rollbackHandle, hHandle] at hCall
      dsimp only at hCall
      rw [if_neg hNot] at hCall
      exact ⟨Or.inr (hAct .drop), possible_onConnection hCall⟩
  obtain ⟨hKind, hHandles⟩ := hEnded
  constructor
  · rw [busy_ended hForm hKind hCall, decide_eq_false (not_not.mpr rfl)]
    rfl
  · obtain ⟨hBound, -⟩ := List.getElem?_eq_some_iff.mp hHandle
    rw [hHandles]
    exact List.getElem?_set_self hBound

end Process

open Process

/-- Where transactions are left to their handles: as long as a handle is unfinished, nothing else began or ended a transaction of
its connection, so the snapshot is the one that its own `Begin` created; its methods end that transaction and are defined. -/
theorem handle_owns_transaction (p opened begun working : Process) (es mid : List (Event Nat Stmt)) (id n : Nat) (h : Handle)
    (hIdle : p.Idle) (hNone : p.handles = []) (hBefore : HandleRuns p es opened)
    (hBegin : Possible (opened.call (.beginTransaction id)) (.done (.transaction n, begun))) (hWork : HandleRuns begun mid working)
    (hHandle : working.handles[n]? = some h) (hOpen : h.finished = false) :
    h.connection = id ∧ (∀ e ∈ mid, ¬ e.Bounds id) ∧ (working.snapshot id).isSome ∧ ∀ c, Ends n c →
      ¬ Possible (working.call c) .undefined ∧
      ∀ response ended, Possible (working.call c) (.done (response, ended)) →
        ended.snapshot id = none ∧ ended.handles[n]? = some { h with finished := true } := by
  have hOpened := hBefore.owned (hIdle.owned hNone)
  have hPlain : (Call.beginTransaction id).Plain := by
    rintro other sql ⟨⟩
  have hBegun := hOpened.change (change_call hPlain hBegin)
  obtain ⟨rfl, hOthers⟩ := hWork.own hBegun (handle_of_begin hBegin) hHandle hOpen
  have hBusy : working.busy id = true := (hWork.owned hBegun).held n _ hHandle rfl
  refine ⟨rfl, hOthers, hBusy, fun c hEnds => ⟨not_undefined_of_busy hHandle hOpen hBusy hEnds, fun response ended hCall => ?_⟩⟩
  obtain ⟨hFree, hFinished⟩ := ended_of_call hHandle hOpen hEnds hCall
  refine ⟨?_, hFinished⟩
  cases hSnapshot : ended.snapshot id with
  | none => rfl
  | some tables =>
    rw [busy, hSnapshot] at hFree
    cases hFree

/-- One client begins, and the other one creates a table. -/
theorem handle_owns_transaction_sample : (∀ e ∈ ([.direct creation] : List (Event Nat Stmt)), ¬ e.Bounds 0) ∧
    ∃ response ended, Possible (oneBehind.call (.commit 0)) (.done (response, ended)) ∧ ended.snapshot 0 = none := by
  have hPlain : (Call.query 1 createTableT []).Plain := by
    rintro other sql ⟨⟩
  have hWork := HandleRuns.refl.call hPlain possible_oneBehind
  rw [event_oneBegun] at hWork
  obtain ⟨-, hOthers, -, hEnds⟩ := handle_owns_transaction twoClients twoClients oneBegun oneBehind [] [.direct creation] 0 0 ⟨0, false⟩
    idle_twoClients rfl .refl possible_oneBegun hWork rfl rfl
  exact ⟨hOthers, _, _, possible_refused_commit, ((hEnds _ (Or.inl rfl)).2 _ _ possible_refused_commit).1⟩

end TupleStone
