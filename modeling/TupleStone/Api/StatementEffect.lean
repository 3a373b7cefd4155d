import TupleStone.Api.Diagnostics
import TupleStone.Api.Statement

/-! # What a statement can do to the tables

Every statement either leaves its refreshed working set as it is, or creates or drops one table, or replaces the
rows of one. Rows are only appended or overwritten after `validateRow` accepted them against the other rows.
-/

set_option autoImplicit false

namespace TupleStone

/-- The reply is an error. -/
def Reply.Failed (reply : Reply) : Prop := ∃ code message, reply = .status (.error code message)

/-- The reply of a statement that did not reach its end: never a success without a result. -/
def Reply.Returned (reply : Reply) : Prop := reply ≠ .persist ∧ reply ≠ .status .ok

theorem Reply.Failed.returned {reply : Reply} (h : reply.Failed) : reply.Returned := by
  obtain ⟨code, message, rfl⟩ := h
  simp [Returned]

theorem returned_rows (schema : Schema) (rows : List Row) : (Reply.rows schema rows).Returned := by
  simp [Reply.Returned]

theorem failed_status {status : Status} (h : status ≠ .ok) : (Reply.status status).Failed := by
  cases status with
  | ok => exact absurd rfl h
  | error code message => exact ⟨code, message, rfl⟩

namespace Statement

open Attempt

/-- `rows` grows by validated rows. -/
inductive Stored (schema : Schema) (rows : List Row) : List Row → Prop where
  | refl : Stored schema rows rows
  | push {rows' : List Row} {row : Row} (h : Stored schema rows rows') (hRow : validateRow schema rows' row = .done .ok) :
      Stored schema rows (rows' ++ [row])

/-- The rows after `visited` are kept or replaced by validated ones, up to some point. -/
inductive Rewritten (schema : Schema) : (visited rest result : List Row) → Prop where
  | stop (visited rest : List Row) : Rewritten schema visited rest (visited ++ rest)
  | keep {visited rest result : List Row} {row : Row} (h : Rewritten schema (visited ++ [row]) rest result) :
      Rewritten schema visited (row :: rest) result
  | replace {visited rest result : List Row} {row next : Row}
      (hRow : validateRow schema (visited ++ rest) next = .done .ok)
      (h : Rewritten schema (visited ++ [next]) rest result) : Rewritten schema visited (row :: rest) result

inductive Effect (tables : Tables) : Reply → Tables → Prop where
  | unchanged {reply : Reply} (hReply : reply.Returned) : Effect tables reply tables
  | create {name : Bytes} {columns : List Column} (hAbsent : tables.find? name = none) (hLower : lower name = name)
      (hTypes : ∀ column ∈ columns, column.type ≠ .kNull) : Effect tables .persist (tables.insert name ⟨⟨columns⟩, []⟩)
  | drop {name : Bytes} {table : Table} (hFound : tables.find? name = some table) :
      Effect tables .persist (tables.erase name)
  | insert {reply : Reply} {name : Bytes} {table : Table} {rows : List Row} (hFound : tables.find? name = some table)
      (hReply : reply = .persist ∨ reply.Failed) (hRows : Stored table.schema table.rows rows) :
      Effect tables reply (tables.insert name { table with rows := rows })
  | update {reply : Reply} {name : Bytes} {table : Table} {rows : List Row} (hFound : tables.find? name = some table)
      (hReply : reply = .persist ∨ reply.Failed) (hRows : Rewritten table.schema [] table.rows rows) :
      Effect tables reply (tables.insert name { table with rows := rows })
  | delete {name : Bytes} {table : Table} {rows : List Row} (hFound : tables.find? name = some table)
      (hRows : rows.Sublist table.rows) : Effect tables .persist (tables.insert name { table with rows := rows })

/-! ## Early returns -/

theorem ensures_reject {α : Type} {P : α → Prop} {status : Status} (h : status ≠ .ok) :
    Ensures (reject status : Front α) P Reply.Failed := ensures_throw (failed_status h)

theorem ensures_checkStatus : Ensures checkStatus (fun _ => True) Reply.Failed :=
  ensures_get.bind (fun _ _ => ensures_ite (fun _ => ensures_pure trivial) (fun h => ensures_reject h))

/-- What a check of the status adds to code that reports its failures there. -/
theorem ensures_checked {α β : Type} {m : ParseM α} {k : α → Front β} {P : α → Prop} {R : β → Prop}
    (hm : Flag.Honest (fun p : Parser => p.status = .ok) True m P) (hk : ∀ a, P a → Ensures (k a) R Reply.Failed) :
    Ensures (do
      let a ← (liftM m : Front α)
      checkStatus
      k a) R Reply.Failed := by
  intro c c' x h
  obtain ⟨e, hError, rfl⟩ | ⟨a, mid, hValue, hRest⟩ := exec_bind_done h
  · obtain ⟨_, hOk, -⟩ := exec_lift_done hError
    cases hOk
  obtain ⟨_, hOk, hm'⟩ := exec_lift_done hValue
  cases hOk
  obtain ⟨e, hError, rfl⟩ | ⟨_, mid', hCheck, hRest⟩ := exec_bind_done hRest
  · exact ⟨fun _ hx => (by cases hx), fun _ hx => (by cases hx; exact (ensures_checkStatus _ _ _ hError).2 e rfl)⟩
  · have hDown : mid.status = .ok ∧ mid' = mid := by
      change exec (if mid.status = .ok then pure () else reject mid.status) mid = _ at hCheck
      split at hCheck
      · cases hCheck
        exact ⟨‹_›, rfl⟩
      · cases hCheck
    exact hk a ((hm _ _ _ hm' hDown.1).2 trivial) _ _ _ (hDown.2 ▸ hRest)

theorem ensures_expectOrReturn (text : Bytes) : Ensures (expectOrReturn text) (fun _ => True) Reply.Failed := by
  intro c c' x h
  obtain ⟨e, hError, rfl⟩ | ⟨accepted, mid, hValue, hRest⟩ := exec_bind_done h
  · obtain ⟨_, hOk, -⟩ := exec_lift_done hError
    cases hOk
  obtain ⟨_, hOk, hExpect⟩ := exec_lift_done hValue
  cases hOk
  cases accepted with
  | true =>
    cases hRest
    exact ⟨fun _ _ => trivial, fun _ hx => by cases hx⟩
  | false =>
    have hReports : Parser.Reports True (Parser.expect text) (fun accepted => accepted = true) := Parser.reports_expect text
    have hRaised : mid.status ≠ .ok := fun hDown => by
      cases (hReports _ _ _ hExpect hDown).2 trivial
    cases hRest
    exact ⟨fun _ hx => (by cases hx), fun _ hx => (by cases hx; exact failed_status hRaised)⟩

theorem ensures_returned {α : Type} {m : Front α} {P : α → Prop} (h : Ensures m P Reply.Failed) :
    Ensures m P Reply.Returned := h.weaken (fun _ h => h) (fun _ h => h.returned)

theorem ensures_tableName : Ensures tableName (fun name => lower name = name) Reply.Failed :=
  (ensures_lift_true _).bind (fun name _ => ensures_checkStatus.bind (fun _ _ => ensures_pure (lower_lower name)))

theorem ensures_findTable (tables : Tables) (name : Bytes) :
    Ensures (findTable tables name) (fun table => tables.find? name = some table) Reply.Failed := by
  rw [findTable]
  cases tables.find? name with
  | some table => exact ensures_pure rfl
  | none => exact ensures_reject Status.noConfusion

theorem ensures_separator : Ensures separator (fun _ => True) Reply.Failed :=
  (ensures_lift_true _).bind (fun _ _ => ensures_ite (fun _ => ensures_pure trivial) (fun _ => ensures_expectOrReturn _))

theorem ensures_loopBound : Ensures loopBound (fun _ => True) Reply.Failed :=
  ensures_get.bind (fun _ _ => ensures_pure trivial)

theorem ensures_exhausted {α : Type} {P : α → Prop} {Q : Reply → Prop} : Ensures (exhausted : Front α) P Q := by
  rintro c c' x ⟨⟩

theorem ensures_undefined {α : Type} {P : α → Prop} {Q : Reply → Prop} : Ensures (undefined : Front α) P Q := by
  rintro c c' x ⟨⟩

/-! ## CREATE TABLE and DROP TABLE -/

theorem columnType_ne_null {name : Bytes} {type : TypeId} (h : columnType name = some type) : type ≠ .kNull := by
  rintro rfl
  simp only [columnType] at h
  split at h <;> [cases h; split at h <;> [cases h; split at h <;> [cases h; split at h <;> [cases h; split at h <;> cases h]]]]

theorem ensures_columnConstraints (column : Column) :
    Ensures (columnConstraints column) (fun result => result.type = column.type) Reply.Failed := by
  have hNotNull : Ensures (notNull column) (fun result => result.type = column.type) Reply.Failed :=
    (ensures_lift_true _).bind (fun _ _ => ensures_ite
      (fun _ => (ensures_expectOrReturn _).bind (fun _ _ => ensures_pure rfl)) (fun _ => ensures_pure rfl))
  refine hNotNull.bind (fun result hResult => ?_)
  have hPrimary : Ensures (primaryKey result) (fun result => result.type = column.type) Reply.Failed :=
    (ensures_lift_true _).bind (fun _ _ => ensures_ite
      (fun _ => (ensures_expectOrReturn _).bind (fun _ _ => ensures_pure hResult)) (fun _ => ensures_pure hResult))
  refine hPrimary.bind (fun result hResult => ?_)
  exact (ensures_lift_true _).bind (fun _ _ => ensures_ite (fun _ => ensures_pure hResult) (fun _ => ensures_pure hResult))

theorem ensures_columnDefinition : Ensures columnDefinition (fun column => column.type ≠ .kNull) Reply.Failed := by
  refine (ensures_lift_true _).bind (fun name _ => ensures_checkStatus.bind (fun _ _ => ?_))
  refine (ensures_lift_true _).bind (fun typeName _ => ensures_checkStatus.bind (fun _ _ => ?_))
  cases hType : columnType typeName with
  | none => exact ensures_reject Status.noConfusion
  | some type =>
    refine (ensures_columnConstraints _).weaken (fun column hColumn => ?_) (fun _ h => h)
    rw [hColumn]
    exact columnType_ne_null hType

theorem ensures_columnLoop (fuel : Nat) {columns : List Column} (h : ∀ column ∈ columns, column.type ≠ .kNull) :
    Ensures (columnLoop fuel columns) (fun result => ∀ column ∈ result, column.type ≠ .kNull) Reply.Failed := by
  induction fuel generalizing columns with
  | zero => exact ensures_exhausted
  | succ fuel ih =>
    refine (ensures_lift_true _).bind (fun _ _ => ensures_ite (fun _ => ensures_pure h) (fun _ => ?_))
    refine ensures_columnDefinition.bind (fun column hColumn => ensures_separator.bind (fun _ _ => ih ?_))
    intro c hc
    obtain hOld | hNew := List.mem_append.mp hc
    · exact h c hOld
    · rw [List.mem_singleton.mp hNew]
      exact hColumn

theorem ensures_createTable (tables : Tables) : Ensures (createTable tables) (Effect tables .persist) Reply.Returned := by
  refine (ensures_returned (ensures_expectOrReturn _)).bind (fun _ _ => (ensures_lift_true _).bind (fun optional _ => ?_))
  refine (ensures_returned ensures_tableName).bind (fun name hName => ensures_ite (fun _ => ?_) (fun hAbsent => ?_))
  · exact ensures_ite (fun _ => ensures_throw (returned_rows _ _))
      (fun _ => ensures_returned (ensures_reject Status.noConfusion))
  · refine ensures_returned ((ensures_expectOrReturn _).bind (fun _ _ => ensures_loopBound.bind (fun _ _ => ?_)))
    refine (ensures_columnLoop _ (by simp)).bind (fun columns hColumns => ensures_pure ?_)
    have hNone : tables.find? name = none := by simpa using hAbsent
    rw [OrderedMap.emplace_of_none tables hNone]
    exact .create hNone hName hColumns

theorem ensures_dropTable (tables : Tables) : Ensures (dropTable tables) (Effect tables .persist) Reply.Failed := by
  refine (ensures_expectOrReturn _).bind (fun _ _ => ensures_tableName.bind (fun name _ => ?_))
  exact (ensures_findTable tables name).bind (fun table hFound => ensures_pure (.drop hFound))

theorem effect_ofFront {tables tables' : Tables} {m : Front Tables} {p p' : Parser} {reply : Reply}
    (hm : Ensures m (Effect tables .persist) Reply.Returned) (h : ofFront tables m p = .done ((reply, tables'), p')) :
    Effect tables reply tables' := by
  obtain ⟨⟨x, q⟩, hExec, hResult⟩ := Outcome.bind_eq_done h
  cases x with
  | error returned =>
    cases hResult
    exact .unchanged ((hm _ _ _ hExec).2 reply rfl)
  | ok result =>
    cases hResult
    exact (hm _ _ _ hExec).1 tables' rfl

/-! ## INSERT -/

theorem ensures_insertHeader (tables : Tables) :
    Ensures (insertHeader tables) (fun plan => tables.find? plan.name = some plan.table) Reply.Failed := by
  refine (ensures_expectOrReturn _).bind (fun _ _ => ensures_tableName.bind (fun name _ => ?_))
  refine (ensures_findTable tables name).bind (fun table hFound => ?_)
  have hLoop : ∀ fuel targets, Ensures (targetLoop table.schema fuel targets) (fun _ => True) Reply.Failed := by
    intro fuel
    induction fuel with
    | zero => exact fun targets => ensures_exhausted
    | succ fuel ih =>
      intro targets
      refine (ensures_lift_true _).bind (fun _ _ => ensures_ite (fun _ => ensures_pure trivial) (fun _ => ?_))
      refine (ensures_lift_true _).bind (fun column _ => ?_)
      cases table.schema.find column with
      | none => exact ensures_reject Status.noConfusion
      | some index => exact ensures_separator.bind (fun _ _ => ih _)
  have hTargets : Ensures (targetColumns table.schema) (fun _ => True) Reply.Failed :=
    (ensures_lift_true _).bind (fun _ _ => ensures_ite
      (fun _ => ensures_loopBound.bind (fun _ _ => hLoop _ _)) (fun _ => ensures_pure trivial))
  exact hTargets.bind (fun _ _ => (ensures_expectOrReturn _).bind (fun _ _ => ensures_pure hFound))

theorem honest_evaluate {α : Type} {m : StatusM α} {P : α → Prop} {pre : Prop}
    (h : Flag.Honest (fun status : Status => status = .ok) pre m P) :
    Flag.Honest (fun p : Parser => p.status = .ok) pre (evaluate m) P := by
  intro p p' a hExec hDown
  obtain ⟨⟨value, status⟩, hEval, hRest⟩ := Outcome.bind_eq_done hExec
  cases hRest
  exact h _ _ _ hEval hDown

theorem ensures_insertValues (schema : Schema) (params : List Value) (targets : List Nat) (row : Row) :
    Ensures (insertValues schema params targets row) (fun _ => True) Reply.Failed := by
  induction targets generalizing row with
  | nil => exact ensures_pure trivial
  | cons target targets ih =>
    refine ensures_checked Parser.reports_expression (fun expr hWhole => ?_)
    refine ensures_checked (honest_evaluate ((reports_evalPtr _ expr).weaken (fun _ => hWhole) (fun _ _ h => h)))
      (fun value hValue => ?_)
    cases value with
    | none => cases hValue
    | some value =>
      exact ensures_ite (fun _ => ensures_pure trivial)
        (fun _ => (ensures_expectOrReturn _).bind (fun _ _ => ih _))

theorem ensures_insertTuple (plan : InsertPlan) (params : List Value) (stored : List Row) :
    Ensures (insertTuple plan params stored) (fun row => validateRow plan.table.schema stored row = .done .ok) Reply.Failed := by
  refine (ensures_expectOrReturn _).bind (fun _ _ => ?_)
  refine (ensures_insertValues _ _ _ _).bind (fun row _ => (ensures_expectOrReturn _).bind (fun _ _ => ?_))
  have hStatus : Ensures (liftM (liftM (validateRow plan.table.schema stored row) : ParseM Status) : Front Status)
      (fun status => validateRow plan.table.schema stored row = .done status) Reply.Failed := by
    exact ensures_lift (fun c c' status h => (lift_done h).1)
  refine hStatus.bind (fun status hValid => ensures_ite (fun hOk => ?_) (fun hFailed => ensures_reject hFailed))
  exact ensures_pure (hOk ▸ hValid)

theorem stored_insertLoop {plan : InsertPlan} {params : List Value} {fuel : Nat} {before stored rows : List Row}
    {p p' : Parser} {reply : Reply} (hStored : Stored plan.table.schema before stored)
    (h : insertLoop plan params fuel stored p = .done ((reply, rows), p')) :
    Stored plan.table.schema before rows ∧ (reply = .persist ∨ reply.Failed) := by
  induction fuel generalizing stored p with
  | zero => cases h
  | succ fuel ih =>
    obtain ⟨⟨x, q⟩, hExec, hResult⟩ := Outcome.bind_eq_done h
    cases x with
    | error returned =>
      cases hResult
      exact ⟨hStored, Or.inr ((ensures_insertTuple plan params _ _ _ _ hExec).2 reply rfl)⟩
    | ok row =>
      have hRow := (ensures_insertTuple plan params stored _ _ _ hExec).1 row rfl
      obtain ⟨⟨more, q'⟩, -, hRest⟩ := Outcome.bind_eq_done hResult
      cases more with
      | true => exact ih (hStored.push hRow) hRest
      | false =>
        cases hRest
        exact ⟨hStored.push hRow, Or.inl rfl⟩

theorem effect_runInsert {tables tables' : Tables} {params : List Value} {p p' : Parser} {reply : Reply}
    (h : runInsert tables params p = .done ((reply, tables'), p')) : Effect tables reply tables' := by
  obtain ⟨⟨x, q⟩, hExec, hResult⟩ := Outcome.bind_eq_done h
  cases x with
  | error returned =>
    cases hResult
    exact .unchanged ((ensures_insertHeader tables _ _ _ hExec).2 reply rfl).returned
  | ok plan =>
    have hFound := (ensures_insertHeader tables _ _ _ hExec).1 plan rfl
    obtain ⟨⟨⟨reply', rows⟩, q'⟩, hLoop, hRest⟩ := Outcome.bind_eq_done hResult
    cases hRest
    obtain ⟨hStored, hReply⟩ := stored_insertLoop .refl hLoop
    exact .insert hFound hReply hStored

/-! ## UPDATE and DELETE -/

theorem ensures_updateHeader (tables : Tables) :
    Ensures (updateHeader tables) (fun plan => tables.find? plan.name = some plan.table ∧
      ∀ assignment ∈ plan.assignments, Whole assignment.2) Reply.Failed := by
  refine ensures_tableName.bind (fun name _ => (ensures_findTable tables name).bind (fun table hFound => ?_))
  have hLoop : ∀ fuel assignments, (∀ assignment ∈ assignments, Whole assignment.2) →
      Ensures (assignmentLoop table.schema fuel assignments)
        (fun result => ∀ assignment ∈ result, Whole assignment.2) Reply.Failed := by
    intro fuel
    induction fuel with
    | zero => exact fun assignments _ => ensures_exhausted
    | succ fuel ih =>
      intro assignments hAssignments
      refine (ensures_lift_true _).bind (fun column _ => ensures_get.bind (fun p _ => ?_))
      split
      · refine (ensures_expectOrReturn _).bind (fun _ _ => ?_)
        refine ensures_checked Parser.reports_expression (fun expr hWhole => (ensures_lift_true _).bind (fun more _ => ?_))
        have hNext : ∀ index, ∀ assignment ∈ assignments ++ [(index, expr)], Whole assignment.2 := by
          intro index assignment hMem
          obtain hOld | hNew := List.mem_append.mp hMem
          · exact hAssignments assignment hOld
          · exact List.mem_singleton.mp hNew ▸ hWhole
        exact ensures_ite (fun _ => ih _ (hNext _)) (fun _ => ensures_pure (hNext _))
      · exact ensures_reject Status.noConfusion
  refine (ensures_expectOrReturn _).bind (fun _ _ => ensures_loopBound.bind (fun _ _ => ?_))
  refine (hLoop _ [] (by simp)).bind (fun assignments hAssignments => (ensures_lift_true _).bind (fun _ _ => ?_))
  exact ensures_pure ⟨hFound, hAssignments⟩

/-! ### Row by row -/

theorem ensures_checkRowStatus : Ensures checkRowStatus (fun _ => True) (fun status => status ≠ .ok) :=
  ensures_get.bind (fun _ _ => ensures_ite (fun _ => ensures_pure trivial) (fun h => ensures_throw h))

theorem ensures_checkedRow {α β : Type} {m : StatusM α} {k : α → RowM β} {P : α → Prop} {R : β → Prop}
    (hm : Flag.Honest (fun status : Status => status = .ok) True m P)
    (hk : ∀ a, P a → Ensures (k a) R (fun status => status ≠ .ok)) :
    Ensures (do
      let a ← (liftM m : RowM α)
      checkRowStatus
      k a) R (fun status => status ≠ .ok) := by
  intro c c' x h
  obtain ⟨e, hError, rfl⟩ | ⟨a, mid, hValue, hRest⟩ := exec_bind_done h
  · obtain ⟨_, hOk, -⟩ := exec_lift_done hError
    cases hOk
  obtain ⟨_, hOk, hm'⟩ := exec_lift_done hValue
  cases hOk
  obtain ⟨e, hError, rfl⟩ | ⟨_, mid', hCheck, hRest⟩ := exec_bind_done hRest
  · exact ⟨fun _ hx => (by cases hx), fun _ hx => (by cases hx; exact (ensures_checkRowStatus _ _ _ hError).2 e rfl)⟩
  · have hDown : mid = .ok ∧ mid' = mid := by
      change exec (if mid = .ok then pure () else throw mid : RowM Unit) mid = _ at hCheck
      split at hCheck
      · cases hCheck
        exact ⟨‹_›, rfl⟩
      · cases hCheck
    exact hk a ((hm _ _ _ hm' hDown.1).2 trivial) _ _ _ (hDown.2 ▸ hRest)

theorem ensures_selects (context : EvalContext) (predicate : ExprPtr) :
    Ensures (selects context predicate) (fun _ => True) (fun status => status ≠ .ok) :=
  (ensures_lift_true _).bind (fun _ _ => ensures_checkRowStatus.bind (fun _ _ => ensures_pure trivial))

theorem ensures_assign (context : EvalContext) {assignments : List (Nat × ExprPtr)}
    (h : ∀ assignment ∈ assignments, Whole assignment.2) (next : Row) :
    Ensures (assign context assignments next) (fun _ => True) (fun status => status ≠ .ok) := by
  induction assignments generalizing next with
  | nil => exact ensures_pure trivial
  | cons assignment assignments ih =>
    obtain ⟨column, expr⟩ := assignment
    have hWhole : Whole expr := h (column, expr) List.mem_cons_self
    refine ensures_checkedRow ((reports_evalPtr context expr).weaken (fun _ => hWhole) (fun _ _ h => h)) (fun value hValue => ?_)
    cases value with
    | none => cases hValue
    | some value => exact ih (fun assignment hMem => h assignment (List.mem_cons_of_mem _ hMem)) _

theorem ensures_updateRow {plan : UpdatePlan} (h : ∀ assignment ∈ plan.assignments, Whole assignment.2) (params : List Value)
    (others : List Row) (row : Row) :
    Ensures (updateRow plan params others row)
      (fun next => next = row ∨ validateRow plan.table.schema others next = .done .ok) (fun status => status ≠ .ok) := by
  refine (ensures_selects _ _).bind (fun selected _ => ensures_ite (fun _ => ?_) (fun _ => ensures_pure (Or.inl rfl)))
  refine (ensures_assign _ h row).bind (fun next _ => ?_)
  have hStatus : Ensures (liftM (liftM (validateRow plan.table.schema others next) : StatusM Status) : RowM Status)
      (fun status => validateRow plan.table.schema others next = .done status) (fun status => status ≠ .ok) :=
    ensures_lift (fun c c' status h => (lift_done h).1)
  refine hStatus.bind (fun status hValid => ensures_ite (fun hOk => ?_) (fun hFailed => ensures_throw hFailed))
  exact ensures_pure (Or.inr (hOk ▸ hValid))

theorem rewritten_updateLoop {plan : UpdatePlan} (hWhole : ∀ assignment ∈ plan.assignments, Whole assignment.2)
    {params : List Value} {visited rest rows : List Row} {status : Status} {reply : Reply}
    (h : updateLoop plan params visited rest status = .done (reply, rows)) :
    Rewritten plan.table.schema visited rest rows ∧ (reply = .persist ∨ reply.Failed) := by
  induction rest generalizing visited status with
  | nil =>
    cases h
    have hStop : Rewritten plan.table.schema rows [] (rows ++ []) := .stop rows []
    rw [List.append_nil] at hStop
    exact ⟨hStop, Or.inl rfl⟩
  | cons row rest ih =>
    obtain ⟨⟨x, status'⟩, hExec, hResult⟩ := Outcome.bind_eq_done h
    cases x with
    | error returned =>
      cases hResult
      exact ⟨.stop visited (row :: rest), Or.inr (failed_status ((ensures_updateRow hWhole params _ row _ _ _ hExec).2 _ rfl))⟩
    | ok next =>
      obtain ⟨hRest, hReply⟩ := ih hResult
      obtain rfl | hValid := (ensures_updateRow hWhole params _ row _ _ _ hExec).1 next rfl
      · exact ⟨.keep hRest, hReply⟩
      · exact ⟨.replace hValid hRest, hReply⟩

theorem effect_runUpdate {tables tables' : Tables} {params : List Value} {p p' : Parser} {reply : Reply}
    (h : runUpdate tables params p = .done ((reply, tables'), p')) : Effect tables reply tables' := by
  obtain ⟨⟨x, q⟩, hExec, hResult⟩ := Outcome.bind_eq_done h
  cases x with
  | error returned =>
    cases hResult
    exact .unchanged ((ensures_updateHeader tables _ _ _ hExec).2 reply rfl).returned
  | ok plan =>
    obtain ⟨hFound, hWhole⟩ := (ensures_updateHeader tables _ _ _ hExec).1 plan rfl
    obtain ⟨⟨reply', rows⟩, hLoop, hRest⟩ := Outcome.bind_eq_done hResult
    cases hRest
    obtain ⟨hRows, hReply⟩ := rewritten_updateLoop hWhole hLoop
    exact .update hFound hReply hRows

theorem ensures_deleteHeader (tables : Tables) :
    Ensures (deleteHeader tables) (fun plan => tables.find? plan.name = some plan.table) Reply.Failed := by
  refine (ensures_expectOrReturn _).bind (fun _ _ => ensures_tableName.bind (fun name _ => ?_))
  refine (ensures_findTable tables name).bind (fun table hFound => ?_)
  exact (ensures_lift_true _).bind (fun _ _ => ensures_pure hFound)

theorem ensures_filterRows (schema : Schema) (params : List Value) (predicate : ExprPtr) (wanted : Bool) (rows : List Row) :
    Ensures (filterRows schema params predicate wanted rows) (fun kept => kept.Sublist rows)
      (fun status => status ≠ .ok) := by
  induction rows with
  | nil => exact ensures_pure (List.Sublist.refl [])
  | cons row rows ih =>
    refine (ensures_selects _ _).bind (fun selected _ => ih.bind (fun kept hKept => ensures_pure ?_))
    split
    · exact hKept.cons_cons row
    · exact hKept.cons row

theorem effect_runDelete {tables tables' : Tables} {params : List Value} {p p' : Parser} {reply : Reply}
    (h : runDelete tables params p = .done ((reply, tables'), p')) : Effect tables reply tables' := by
  obtain ⟨⟨x, q⟩, hExec, hResult⟩ := Outcome.bind_eq_done h
  cases x with
  | error returned =>
    cases hResult
    exact .unchanged ((ensures_deleteHeader tables _ _ _ hExec).2 reply rfl).returned
  | ok plan =>
    have hFound := (ensures_deleteHeader tables _ _ _ hExec).1 plan rfl
    obtain ⟨⟨y, status⟩, hFilter, hRest⟩ := Outcome.bind_eq_done hResult
    cases y with
    | error returned =>
      cases hRest
      exact .unchanged (failed_status ((ensures_filterRows _ _ _ _ _ _ _ _ hFilter).2 returned rfl)).returned
    | ok kept =>
      cases hRest
      exact .delete hFound ((ensures_filterRows _ _ _ _ _ _ _ _ hFilter).1 kept rfl)

/-! ## SELECT -/

theorem ensures_selectLoop (fuel : Nat) {expressions : List Expr} (h : ∀ expr ∈ expressions, Whole (some expr)) :
    Ensures (selectLoop fuel expressions) (fun result => ∀ expr ∈ result, Whole (some expr)) Reply.Failed := by
  induction fuel generalizing expressions with
  | zero => exact ensures_exhausted
  | succ fuel ih =>
    refine ensures_checked Parser.reports_expression (fun expr hWhole => ?_)
    cases expr with
    | none => exact ensures_undefined
    | some expr =>
      have hNext : ∀ e ∈ expressions ++ [expr], Whole (some e) := by
        intro e he
        obtain hOld | hNew := List.mem_append.mp he
        · exact h e hOld
        · exact List.mem_singleton.mp hNew ▸ hWhole
      exact (ensures_lift_true _).bind (fun _ _ => ensures_ite (fun _ => ih hNext) (fun _ => ensures_pure hNext))

theorem ensures_orderBy : Ensures orderBy (fun _ => True) Reply.Failed := by
  have hLoop : ∀ fuel ordering, Ensures (orderLoop fuel ordering) (fun _ => True) Reply.Failed := by
    intro fuel
    induction fuel with
    | zero => exact fun ordering => ensures_exhausted
    | succ fuel ih =>
      intro ordering
      refine (ensures_lift_true _).bind (fun expr _ => ensures_checkStatus.bind (fun _ _ => ?_))
      refine (ensures_lift_true _).bind (fun _ _ => (ensures_lift_true _).bind (fun _ _ => ?_))
      exact (ensures_lift_true _).bind (fun _ _ => ensures_ite (fun _ => ih _) (fun _ => ensures_pure trivial))
  refine (ensures_lift_true _).bind (fun _ _ => ensures_ite (fun _ => ?_) (fun _ => ensures_pure trivial))
  exact (ensures_expectOrReturn _).bind (fun _ _ => ensures_loopBound.bind (fun _ _ => hLoop _ _))

theorem ensures_integerOperand (params : List Value) (message : Bytes) :
    Ensures (integerOperand params message) (fun _ => True) Reply.Failed := by
  refine (ensures_lift_true _).bind (fun expr _ => (ensures_lift_true _).bind (fun value _ => ?_))
  refine ensures_get.bind (fun p _ => ?_)
  split
  · exact ensures_pure trivial
  · exact ensures_reject Status.noConfusion

theorem ensures_limitClause (params : List Value) : Ensures (limitClause params) (fun _ => True) Reply.Failed := by
  refine (ensures_lift_true _).bind (fun _ _ => ensures_ite (fun _ => ?_) (fun _ => ensures_pure trivial))
  refine (ensures_integerOperand params _).bind (fun limit _ => (ensures_lift_true _).bind (fun _ _ => ?_))
  refine ensures_ite (fun _ => ?_) (fun _ => ensures_pure trivial)
  exact (ensures_integerOperand params _).bind (fun _ _ => ensures_pure trivial)

/-- A SELECT behind its list of outputs. -/
def selectTail (tables : Tables) (params : List Value) (distinct : Bool) (expressions : List Expr) : Front SelectPlan := do
  expectOrReturn (ascii "from")
  let name ← tableName
  let table ← findTable tables name
  let predicate ← wherePredicate
  let ordering ← orderBy
  let (limit, offset) ← limitClause params
  pure ⟨distinct, expressions, name, table, predicate, ordering, limit, offset⟩

theorem ensures_selectHeader (tables : Tables) (params : List Value) :
    Ensures (selectHeader tables params) (fun plan => ∀ expr ∈ plan.expressions, Whole (some expr)) Reply.Failed := by
  have hFrom : ∀ distinct expressions, (∀ expr ∈ expressions, Whole (some expr)) →
      Ensures (selectTail tables params distinct expressions)
        (fun plan => ∀ expr ∈ plan.expressions, Whole (some expr)) Reply.Failed := by
    intro distinct expressions hWhole
    refine (ensures_expectOrReturn _).bind (fun _ _ => ensures_tableName.bind (fun name _ => ?_))
    refine (ensures_findTable tables name).bind (fun table hFound => (ensures_lift_true _).bind (fun _ _ => ?_))
    exact ensures_orderBy.bind (fun _ _ => (ensures_limitClause params).bind (fun _ _ => ensures_pure hWhole))
  refine (ensures_lift_true _).bind (fun distinct _ => (ensures_lift_true _).bind (fun star _ => ?_))
  cases star with
  | true => exact hFrom distinct [] (by simp)
  | false =>
    refine ensures_loopBound.bind (fun _ _ => (ensures_selectLoop _ (by simp)).bind (fun expressions hWhole => ?_))
    exact hFrom distinct expressions hWhole

theorem SelectPlan.whole_outputs {plan : SelectPlan} (h : ∀ expr ∈ plan.expressions, Whole (some expr)) :
    ∀ expr ∈ plan.outputs, Whole (some expr) := by
  intro expr hMem
  rw [SelectPlan.outputs] at hMem
  split at hMem
  · obtain ⟨column, -, rfl⟩ := List.mem_map.mp hMem
    exact whole_leaf _ _ _ _ _
  · exact h expr hMem

theorem ensures_project (context : EvalContext) {expressions : List Expr} (h : ∀ expr ∈ expressions, Whole (some expr)) :
    Ensures (project context expressions) (fun _ => True) (fun status => status ≠ .ok) := by
  induction expressions with
  | nil => exact ensures_pure trivial
  | cons expr expressions ih =>
    refine ensures_checkedRow ((reports_evalExpr context expr).weaken (fun _ => h expr List.mem_cons_self) (fun _ _ h => h))
      (fun value hValue => ?_)
    cases value with
    | none => cases hValue
    | some value => exact (ih (fun e he => h e (List.mem_cons_of_mem _ he))).bind (fun _ _ => ensures_pure trivial)

theorem ensures_outputLoop {plan : SelectPlan} (h : ∀ expr ∈ plan.outputs, Whole (some expr)) (params : List Value)
    (candidates : List Row) (s : OutputState) :
    Ensures (outputLoop plan params candidates s) (fun _ => True) (fun status => status ≠ .ok) := by
  induction candidates generalizing s with
  | nil => exact ensures_pure trivial
  | cons row candidates ih =>
    refine ensures_ite (fun _ => ih _) (fun _ => ensures_ite (fun _ => ensures_pure trivial) (fun _ => ?_))
    refine (ensures_project _ h).bind (fun output _ => ensures_ite (fun _ => ih _) (fun _ => ih _))

theorem ensures_selectRows {plan : SelectPlan} (h : ∀ expr ∈ plan.expressions, Whole (some expr)) (params : List Value) :
    Ensures (selectRows plan params) (fun _ => True) (fun status => status ≠ .ok) :=
  (ensures_filterRows _ _ _ _ _).bind (fun _ _ => (ensures_lift_true _).bind
    (fun _ _ => ensures_outputLoop (SelectPlan.whole_outputs h) params _ _))

/-- SELECT changes no table. -/
theorem unchanged_runSelect {tables tables' : Tables} {params : List Value} {p p' : Parser} {reply : Reply}
    (h : runSelect tables params p = .done ((reply, tables'), p')) : reply.Returned ∧ tables' = tables := by
  obtain ⟨⟨x, q⟩, hExec, hResult⟩ := Outcome.bind_eq_done h
  cases x with
  | error returned =>
    cases hResult
    exact ⟨((ensures_selectHeader tables params _ _ _ hExec).2 reply rfl).returned, rfl⟩
  | ok plan =>
    have hWhole := (ensures_selectHeader tables params _ _ _ hExec).1 plan rfl
    obtain ⟨⟨y, status⟩, hRows, hRest⟩ := Outcome.bind_eq_done hResult
    cases y with
    | error returned =>
      cases hRest
      exact ⟨(failed_status ((ensures_selectRows hWhole params _ _ _ hRows).2 returned rfl)).returned, rfl⟩
    | ok rows =>
      cases hRest
      exact ⟨returned_rows _ _, rfl⟩

/-! ## Dispatch -/

theorem effect_runCommand {tables tables' : Tables} {params : List Value} {p p' : Parser} {reply : Reply}
    (h : runCommand tables params p = .done ((reply, tables'), p')) : Effect tables reply tables' := by
  obtain ⟨⟨command, p₁⟩, -, h⟩ := Outcome.bind_eq_done h
  obtain ⟨⟨first, p₂⟩, -, h⟩ := Outcome.bind_eq_done h
  obtain ⟨⟨second, p₃⟩, -, h⟩ := Outcome.bind_eq_done h
  dsimp only at h
  split at h
  · cases h
    exact .unchanged (failed_status Status.noConfusion).returned
  obtain ⟨⟨accepted, q⟩, -, h⟩ := Outcome.bind_eq_done h
  dsimp only at h
  split at h
  · exact effect_ofFront (ensures_createTable tables) h
  split at h
  · exact effect_ofFront (ensures_returned (ensures_dropTable tables)) h
  split at h
  · exact effect_runInsert h
  split at h
  · exact effect_runUpdate h
  split at h
  · exact effect_runDelete h
  split at h
  · obtain ⟨hReply, rfl⟩ := unchanged_runSelect h
    exact .unchanged hReply
  · cases h
    exact .unchanged (failed_status Status.noConfusion).returned

theorem returned_countTable (tables : Tables) (sql : Bytes) : (countTable tables sql).Returned := by
  rw [countTable]
  dsimp only
  cases findSubstring (ascii " from ") (lower sql) with
  | none => exact (failed_status Status.noConfusion).returned
  | some start =>
    dsimp only
    split
    · exact (failed_status Status.noConfusion).returned
    · exact returned_rows _ _

/-- Nothing happens before the text is tokenized; then the working set is refreshed and the statement takes effect. -/
theorem effect_run {tables tables' : Tables} {params : List Value} {fuel : Nat} {sql : Bytes} {p : Parser} {reply : Reply}
    (h : run tables params fuel sql = .done ((reply, tables'), p)) :
    (reply.Failed ∧ tables' = tables) ∨ Effect (refreshCatalog tables) reply tables' := by
  cases fuel with
  | zero => cases h
  | succ fuel =>
    rw [run] at h
    cases hTokens : tokenize sql with
    | error status =>
      rw [hTokens] at h
      cases h
      exact Or.inl ⟨failed_status (tokenize_error hTokens), rfl⟩
    | ok tokens =>
      rw [hTokens] at h
      obtain ⟨⟨command, q⟩, -, h⟩ := Outcome.bind_eq_done h
      right
      simp only at h
      split at h
      · cases h
        exact .unchanged (returned_rows _ _)
      split at h
      · obtain ⟨r, -, h⟩ := Outcome.bind_eq_done h
        split at h
        · cases h
          exact .unchanged (returned_rows _ _)
        · cases h
          exact .unchanged (returned_countTable _ _)
        · cases h
      · exact effect_runCommand h

end Statement

/-- The step of the tables of a working set in one statement. -/
theorem runStatement_effect {tables tables' : Tables} {sql : Bytes} {params : List Value} {reply : Reply} {p : Parser}
    (h : runStatement tables sql params = .done ((reply, tables'), p)) :
    (reply.Failed ∧ tables' = tables) ∨ Statement.Effect (refreshCatalog tables) reply tables' :=
  Statement.effect_run h

/-- A statement never answers with a success that has neither a result set nor a commit. -/
theorem runStatement_reply {tables tables' : Tables} {sql : Bytes} {params : List Value} {reply : Reply} {p : Parser}
    (h : runStatement tables sql params = .done ((reply, tables'), p)) : reply ≠ .status .ok := by
  have hPair : ∀ {reply : Reply}, reply = .persist ∨ reply.Failed → reply ≠ .status .ok := by
    rintro reply (rfl | hFailed)
    · simp
    · exact hFailed.returned.2
  obtain ⟨hFailed, -⟩ | hEffect := runStatement_effect h
  · exact hFailed.returned.2
  · cases hEffect with
    | unchanged hReply => exact hReply.2
    | create => simp
    | drop => simp
    | insert _ hReply _ => exact hPair hReply
    | update _ hReply _ => exact hPair hReply
    | delete => simp

/-- A result set comes from the refreshed tables, which stay as they are. -/
theorem runStatement_rows {tables tables' : Tables} {sql : Bytes} {params : List Value} {schema : Schema} {rows : List Row}
    {p : Parser} (h : runStatement tables sql params = .done ((.rows schema rows, tables'), p)) :
    tables' = refreshCatalog tables := by
  have hPair : ¬ (Reply.rows schema rows = .persist ∨ (Reply.rows schema rows).Failed) := by
    rintro (hPersist | ⟨code, message, hStatus⟩)
    · cases hPersist
    · cases hStatus
  obtain ⟨⟨code, message, hStatus⟩, -⟩ | hEffect := runStatement_effect h
  · cases hStatus
  · cases hEffect with
    | unchanged => rfl
    | insert _ hReply _ => exact absurd hReply hPair
    | update _ hReply _ => exact absurd hReply hPair

end TupleStone
