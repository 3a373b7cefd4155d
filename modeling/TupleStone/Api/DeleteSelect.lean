import TupleStone.Api.SelectRows

/-! # DELETE keeps what SELECT leaves

The row loops of the two statements are written apart. They evaluate the same predicate on the same rows and take
opposite decisions, so the rows of a table are those that stay and those that are picked.
-/

set_option autoImplicit false

namespace TupleStone

namespace Statement

open Attempt

/-- `predicate ? Eval(predicate, &context, &status) : std::optional<Value>(Value(true))` -/
def predicateValue (context : EvalContext) : ExprPtr → StatusM (Option Value)
  | none => pure (some (.boolean true))
  | some expr => evalPtr context (some expr)

/-- The loop of DELETE over the rows to come, which pushes a row to `kept` unless its predicate is TRUE. -/
def keptLoop (schema : Schema) (params : List Value) (predicate : ExprPtr) : (kept rows : List Row) → RowM (List Row)
  | kept, [] => pure kept
  | kept, row :: rows => do
    let selected ← (predicateValue ⟨some schema, some row, params⟩ predicate : StatusM (Option Value))
    checkRowStatus
    match selected with
    | none => keptLoop schema params predicate (kept ++ [row]) rows
    | some value =>
      if !truthy value then keptLoop schema params predicate (kept ++ [row]) rows
      else keptLoop schema params predicate kept rows

/-- The loop of SELECT over the rows to come, which pushes a row to `candidates` if its predicate is TRUE. -/
def candidateLoop (schema : Schema) (params : List Value) (predicate : ExprPtr) :
    (candidates rows : List Row) → RowM (List Row)
  | candidates, [] => pure candidates
  | candidates, row :: rows => do
    let selected ← (predicateValue ⟨some schema, some row, params⟩ predicate : StatusM (Option Value))
    checkRowStatus
    match selected with
    | none => candidateLoop schema params predicate candidates rows
    | some value =>
      if truthy value then candidateLoop schema params predicate (candidates ++ [row]) rows
      else candidateLoop schema params predicate candidates rows

/-! ## One loop with a decision -/

theorem selects_eq (context : EvalContext) (predicate : ExprPtr) : selects context predicate = (do
    let selected ← (predicateValue context predicate : StatusM (Option Value))
    checkRowStatus
    pure (selected.any truthy)) := by
  cases predicate with
  | none => rfl
  | some expr => rfl

theorem keptLoop_eq (schema : Schema) (params : List Value) (predicate : ExprPtr) (kept rows : List Row) :
    keptLoop schema params predicate kept rows =
      (filterRows schema params predicate false rows >>= fun rest => pure (kept ++ rest)) := by
  induction rows generalizing kept with
  | nil =>
    rw [keptLoop, filterRows, pure_bind, List.append_nil]
  | cons row rows ih =>
    simp only [keptLoop, filterRows, selects_eq, bind_assoc, pure_bind, ih]
    congr
    funext selected
    congr
    funext _
    cases selected with
    | none => simp
    | some value => cases h : truthy value <;> simp [h]

theorem candidateLoop_eq (schema : Schema) (params : List Value) (predicate : ExprPtr) (candidates rows : List Row) :
    candidateLoop schema params predicate candidates rows =
      (filterRows schema params predicate true rows >>= fun rest => pure (candidates ++ rest)) := by
  induction rows generalizing candidates with
  | nil =>
    rw [candidateLoop, filterRows, pure_bind, List.append_nil]
  | cons row rows ih =>
    simp only [candidateLoop, filterRows, selects_eq, bind_assoc, pure_bind, ih]
    congr
    funext selected
    congr
    funext _
    cases selected with
    | none => simp
    | some value => cases h : truthy value <;> simp [h]

theorem keptLoop_nil (schema : Schema) (params : List Value) (predicate : ExprPtr) (rows : List Row) :
    keptLoop schema params predicate [] rows = filterRows schema params predicate false rows := by
  rw [keptLoop_eq]
  exact bind_pure _

theorem candidateLoop_nil (schema : Schema) (params : List Value) (predicate : ExprPtr) (rows : List Row) :
    candidateLoop schema params predicate [] rows = filterRows schema params predicate true rows := by
  rw [candidateLoop_eq]
  exact bind_pure _

/-! ## The decisions of a run -/

/-- What the predicate decides for each row. -/
def decisions (schema : Schema) (params : List Value) (predicate : ExprPtr) : List Row → RowM (List Bool)
  | [] => pure []
  | row :: rows => do
    let selected ← selects ⟨some schema, some row, params⟩ predicate
    let rest ← decisions schema params predicate rows
    pure (selected :: rest)

/-- The rows whose decision is the wanted one. -/
def decided (wanted : Bool) : List Bool → List Row → List Row
  | selected :: rest, row :: rows => if selected = wanted then row :: decided wanted rest rows else decided wanted rest rows
  | _, _ => []

theorem filterRows_eq (schema : Schema) (params : List Value) (predicate : ExprPtr) (wanted : Bool) (rows : List Row) :
    filterRows schema params predicate wanted rows =
      (decisions schema params predicate rows >>= fun marks => pure (decided wanted marks rows)) := by
  induction rows with
  | nil =>
    rw [filterRows, decisions, pure_bind]
    rfl
  | cons row rows ih =>
    simp only [filterRows, decisions, bind_assoc, pure_bind, ih]
    rfl

theorem exec_filterRows (schema : Schema) (params : List Value) (predicate : ExprPtr) (wanted : Bool) (rows : List Row)
    (status : Status) : exec (filterRows schema params predicate wanted rows) status =
      (fun run => (run.1.map (fun marks => decided wanted marks rows), run.2)) <$>
        exec (decisions schema params predicate rows) status := by
  rw [filterRows_eq, exec_map]

/-- Neither loop notices an error, or leaves the defined behaviour, without the other. -/
theorem filterRows_alike (schema : Schema) (params : List Value) (predicate : ExprPtr) (rows : List Row) (status : Status) :
    (∃ returned status', exec (filterRows schema params predicate false rows) status = .done (.error returned, status') ∧
        exec (filterRows schema params predicate true rows) status = .done (.error returned, status')) ∨
      (∃ kept picked status', exec (filterRows schema params predicate false rows) status = .done (.ok kept, status') ∧
        exec (filterRows schema params predicate true rows) status = .done (.ok picked, status')) ∨
      (exec (filterRows schema params predicate false rows) status = .undefined ∧
        exec (filterRows schema params predicate true rows) status = .undefined) ∨
      (exec (filterRows schema params predicate false rows) status = .outOfFuel ∧
        exec (filterRows schema params predicate true rows) status = .outOfFuel) := by
  rw [exec_filterRows, exec_filterRows]
  cases exec (decisions schema params predicate rows) status with
  | done run =>
    obtain ⟨x, status'⟩ := run
    cases x with
    | error returned => exact Or.inl ⟨returned, status', rfl, rfl⟩
    | ok marks => exact Or.inr (Or.inl ⟨_, _, status', rfl, rfl⟩)
  | undefined => exact Or.inr (Or.inr (Or.inl ⟨rfl, rfl⟩))
  | outOfFuel => exact Or.inr (Or.inr (Or.inr ⟨rfl, rfl⟩))

variable {schema : Schema} {params : List Value} {predicate : ExprPtr} {status status' : Status} {rows : List Row}

/-- The rows on which a predicate is TRUE and the others, in their order. -/
theorem partition_of_filterRows {kept picked : List Row}
    (hKept : exec (filterRows schema params predicate false rows) status = .done (.ok kept, status'))
    (hPicked : exec (filterRows schema params predicate true rows) status = .done (.ok picked, status')) :
    rows.partition (fun row => isTrue ⟨some schema, some row, params⟩ predicate) = (picked, kept) := by
  obtain ⟨rfl, -, -⟩ := filterRows_ok hKept
  obtain ⟨rfl, -, -⟩ := filterRows_ok hPicked
  rw [List.partition_eq_filter_filter]
  congr 1
  · apply List.filter_congr
    intro row _
    exact (beq_true _).symm
  · apply List.filter_congr
    intro row _
    exact (beq_false _).symm

/-! ## The statements -/

theorem runDelete_eq {tables : Tables} {p q : Parser} {plan : DeletePlan}
    (hPlan : exec (deleteHeader tables) p = .done (.ok plan, q)) : runDelete tables params p =
      exec (keptLoop plan.table.schema params plan.predicate [] plan.table.rows) q.status >>= fun run =>
        match run.1 with
        | .error returned => .done ((.status returned, tables), q)
        | .ok kept => .done ((.persist, tables.insert plan.name { plan.table with rows := kept }), q) := by
  rw [runDelete, hPlan, keptLoop_nil, Outcome.done_bind]
  dsimp only
  cases exec (filterRows plan.table.schema params plan.predicate false plan.table.rows) q.status with
  | done run =>
    obtain ⟨x, status'⟩ := run
    cases x with
    | error returned => rfl
    | ok kept => rfl
  | undefined => rfl
  | outOfFuel => rfl

theorem selectRows_fails {plan : SelectPlan} {returned : Status}
    (h : exec (candidateLoop plan.table.schema params plan.predicate [] plan.table.rows) status =
      .done (.error returned, status')) : exec (selectRows plan params) status = .done (.error returned, status') := by
  rw [candidateLoop_nil] at h
  exact exec_bind_error h

end Statement

open Attempt Statement in
/-- The two loops fail alike and otherwise split the rows by whether the predicate is TRUE; what DELETE stores, and what
either statement returns for a failure, is what its loop ended with. -/
theorem delete_select_partition (table : Table) (params : List Value) (predicate : ExprPtr) (status : Status) :
    (∀ returned status',
      exec (keptLoop table.schema params predicate [] table.rows) status = .done (.error returned, status') ↔
        exec (candidateLoop table.schema params predicate [] table.rows) status = .done (.error returned, status')) ∧
    (exec (keptLoop table.schema params predicate [] table.rows) status = .undefined ↔
      exec (candidateLoop table.schema params predicate [] table.rows) status = .undefined) ∧
    (∀ kept status',
      exec (keptLoop table.schema params predicate [] table.rows) status = .done (.ok kept, status') → ∃ picked,
        exec (candidateLoop table.schema params predicate [] table.rows) status = .done (.ok picked, status') ∧
        table.rows.partition (fun row => isTrue ⟨some table.schema, some row, params⟩ predicate) = (picked, kept)) ∧
    (∀ picked status',
      exec (candidateLoop table.schema params predicate [] table.rows) status = .done (.ok picked, status') → ∃ kept,
        exec (keptLoop table.schema params predicate [] table.rows) status = .done (.ok kept, status')) ∧
    (∀ (tables : Tables) (p q : Parser) (name : Bytes), q.status = status →
      exec (deleteHeader tables) p = .done (.ok ⟨name, table, predicate⟩, q) →
        (∀ returned status',
          exec (keptLoop table.schema params predicate [] table.rows) status = .done (.error returned, status') →
            runDelete tables params p = .done ((.status returned, tables), q)) ∧
        ∀ kept status',
          exec (keptLoop table.schema params predicate [] table.rows) status = .done (.ok kept, status') →
            runDelete tables params p = .done ((.persist, tables.insert name { table with rows := kept }), q)) ∧
    (∀ plan : SelectPlan, plan.table = table → plan.predicate = predicate → ∀ returned status',
      exec (candidateLoop table.schema params predicate [] table.rows) status = .done (.error returned, status') →
        exec (selectRows plan params) status = .done (.error returned, status')) := by
  have hAlike := filterRows_alike table.schema params predicate table.rows status
  simp only [keptLoop_nil, candidateLoop_nil]
  constructor
  · intro returned status'
    obtain ⟨r, s, hKept, hPicked⟩ | ⟨k, l, s, hKept, hPicked⟩ | ⟨hKept, hPicked⟩ | ⟨hKept, hPicked⟩ := hAlike <;>
      simp [hKept, hPicked]
  constructor
  · obtain ⟨r, s, hKept, hPicked⟩ | ⟨k, l, s, hKept, hPicked⟩ | ⟨hKept, hPicked⟩ | ⟨hKept, hPicked⟩ := hAlike <;>
      simp [hKept, hPicked]
  constructor
  · intro kept status' hKept
    obtain ⟨r, s, hKept', -⟩ | ⟨k, picked, s, hKept', hPicked⟩ | ⟨hKept', -⟩ | ⟨hKept', -⟩ := hAlike <;>
      rw [hKept] at hKept' <;> cases hKept'
    exact ⟨picked, hPicked, partition_of_filterRows hKept hPicked⟩
  constructor
  · intro picked status' hPicked
    obtain ⟨r, s, -, hPicked'⟩ | ⟨kept, k, s, hKept, hPicked'⟩ | ⟨-, hPicked'⟩ | ⟨-, hPicked'⟩ := hAlike <;>
      rw [hPicked] at hPicked' <;> cases hPicked'
    exact ⟨kept, hKept⟩
  constructor
  · intro tables p q name hStatus hPlan
    subst hStatus
    rw [runDelete_eq hPlan, keptLoop_nil]
    constructor
    · intro returned status' hLoop
      rw [hLoop]
      rfl
    · intro kept status' hLoop
      rw [hLoop]
      rfl
  · rintro plan rfl rfl returned status' hLoop
    apply selectRows_fails
    rwa [candidateLoop_nil]

end TupleStone
