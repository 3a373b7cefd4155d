import TupleStone.Api.SelectAll

/-! # COUNT(*)

A SELECT whose text contains the eight characters is executed once more with a star in their place, and its rows are
counted. When that fails for whatever reason, all rows of the table named behind the first ` from ` are counted.
-/

set_option autoImplicit false

namespace TupleStone

theorem findSubstring_bound {needle text : Bytes} {start : Nat} (h : findSubstring needle text = some start) :
    start + needle.length ≤ text.length := by
  induction text generalizing start with
  | nil =>
    rw [findSubstring] at h
    split at h
    · next hEmpty =>
      cases h
      rw [List.isEmpty_iff.mp hEmpty]
      exact Nat.le_refl 0
    · cases h
  | cons c rest ih =>
    rw [findSubstring] at h
    split at h
    · next hPrefix =>
      cases h
      rw [Nat.zero_add]
      exact (List.isPrefixOf_iff_prefix.mp hPrefix).length_le
    · obtain ⟨before, hBefore, rfl⟩ := Option.map_eq_some_iff.mp h
      have hBound := ih hBefore
      rw [List.length_cons]
      omega

namespace Statement

/-! ## The text that is executed -/

/-- The statement of the count in front of any clauses, and that of the rows. -/
def countedSql (clauses : Bytes) : Bytes := ascii "SELECT COUNT(*)" ++ clauses
def filteredSql (clauses : Bytes) : Bytes := ascii "SELECT *" ++ clauses

theorem findSubstring_countedSql (clauses : Bytes) : findSubstring countMarker (lower (countedSql clauses)) = some 7 := by
  rw [countedSql, lower, List.map_append]
  rfl

theorem isCount_countedSql (clauses : Bytes) : isCount (countedSql clauses) (ascii "select") = true := by
  rw [isCount, findSubstring_countedSql]
  rfl

theorem expandCount_countedSql (clauses : Bytes) : expandCount (countedSql clauses) = filteredSql clauses := by
  rw [expandCount, findSubstring_countedSql]
  rfl

theorem length_expandCount {sql command : Bytes} (h : isCount sql command = true) : (expandCount sql).length < sql.length := by
  rw [isCount, Bool.and_eq_true] at h
  obtain ⟨start, hStart⟩ := Option.isSome_iff_exists.mp h.2
  have hBound := findSubstring_bound hStart
  have hMarker : countMarker.length = 8 := rfl
  rw [length_lower, hMarker] at hBound
  rw [expandCount, hStart, Option.getD_some, List.length_append, List.length_append, List.length_take, List.length_drop, hMarker]
  have hStar : (ascii "*").length = 1 := rfl
  rw [hStar]
  omega

/-! ## Executing it -/

variable {tables : Tables} {params : List Value} {sql : Bytes}

theorem run_tokenized {first : Token} {rest : List Token} (fuel : Nat) (hTokens : tokenize sql = .ok (first :: rest))
    (hSelect : first.text = ascii "select") (hCount : isCount sql (ascii "select") = true) :
    run tables params (fuel + 1) sql = (do
      match ← run (refreshCatalog tables) params fuel (expandCount sql) with
      | ((.rows _ rows, _), _) =>
        pure ((.rows countSchema [[.integer (Int64.ofNat rows.length)]], refreshCatalog tables), .reading (first :: rest) 0)
      | ((.status (.error _ _), _), _) => pure ((countTable (refreshCatalog tables) sql, refreshCatalog tables), .reading (first :: rest) 0)
      | _ => .undefined) := by
  have hExplain : ascii "select" ≠ ascii "explain" := by decide
  rw [run, hTokens]
  change (if first.text = ascii "explain" then _ else if isCount sql first.text = true then _ else _) = _
  rw [hSelect, if_neg hExplain, if_pos hCount]
  rfl

/-- More fuel than the text is long makes no difference. -/
theorem run_fuel {fuel fuel' : Nat} (h : sql.length < fuel) (h' : sql.length < fuel') :
    run tables params fuel sql = run tables params fuel' sql := by
  induction fuel generalizing tables sql fuel' with
  | zero => omega
  | succ fuel ih =>
    obtain ⟨fuel', rfl⟩ : ∃ more, fuel' = more + 1 := ⟨fuel' - 1, by omega⟩
    rw [run, run]
    cases tokenize sql with
    | error status => rfl
    | ok tokens =>
      dsimp only
      congr 1
      funext command
      have hInner : isCount sql command.1.text = true → run (refreshCatalog tables) params fuel (expandCount sql) =
          run (refreshCatalog tables) params fuel' (expandCount sql) := by
        intro hCount
        have hShorter := length_expandCount hCount
        exact ih (by omega) (by omega)
      split
      · rfl
      split
      · next hCount => rw [hInner hCount]
      · rfl

/-- A tokenized statement refreshes its working set itself. -/
theorem run_refreshed {tokens : List Token} (fuel : Nat) (hTokens : tokenize sql = .ok tokens) :
    run (refreshCatalog tables) params (fuel + 1) sql = run tables params (fuel + 1) sql := by
  rw [run, run, hTokens, refreshCatalog_refreshCatalog]

/-! ## What is counted -/

/-- The statement returns a result set. -/
def Returns (result : Outcome Result) (schema : Schema) (rows : List Row) : Prop :=
  ∃ tables p, result = .done ((.rows schema rows, tables), p)

/-- The statement returns an error. -/
def Fails (result : Outcome Result) : Prop := ∃ reply tables p, result = .done ((reply, tables), p) ∧ reply.Failed

/-- The table that is counted without a filter. -/
def namedTable (tables : Tables) (sql : Bytes) : Option Table := do
  let start ← findSubstring (ascii " from ") (lower sql)
  tables.find? ((((lower sql).drop (start + 6)).dropWhile isSpace).takeWhile isAlnum)

theorem countTable_named {table : Table} (h : namedTable tables sql = some table) :
    countTable tables sql = .rows countSchema [[.integer (Int64.ofNat table.rows.length)]] := by
  obtain ⟨start, hStart, hFound⟩ := Option.bind_eq_some_iff.mp h
  rw [countTable]
  dsimp only
  rw [hStart]
  dsimp only
  rw [hFound]

theorem countTable_unnamed (h : namedTable tables sql = none) : (countTable tables sql).Failed := by
  rw [countTable]
  dsimp only
  cases hStart : findSubstring (ascii " from ") (lower sql) with
  | none => exact failed_status Status.noConfusion
  | some start =>
    rw [namedTable, hStart, Option.bind_eq_bind, Option.bind_some] at h
    dsimp only
    rw [h]
    exact failed_status Status.noConfusion

theorem not_failed_rows {schema : Schema} {rows : List Row} : ¬ (Reply.rows schema rows).Failed := by
  rintro ⟨code, message, h⟩
  cases h

/-- The count is that of the rows, and there is none where the rows' statement fails. -/
structure CountAgrees (counted filtered : Outcome Result) : Prop where
  counts : ∀ schema rows, Returns counted schema rows → ∃ schema' rows', Returns filtered schema' rows' ∧
    schema = countSchema ∧ rows = [[.integer (Int64.ofNat rows'.length)]]
  fails : Fails filtered → Fails counted

/-- The inner statement replies as the rows' statement does by itself. -/
theorem run_expanded (tables : Tables) (params : List Value) (hCount : isCount sql (ascii "select") = true) :
    (∃ reply t t' p, reply.Failed ∧ run (refreshCatalog tables) params sql.length (expandCount sql) = .done ((reply, t), p) ∧
      runStatement tables (expandCount sql) params = .done ((reply, t'), p)) ∨
    run (refreshCatalog tables) params sql.length (expandCount sql) = runStatement tables (expandCount sql) params := by
  have hShorter := length_expandCount hCount
  have hFuel : ∀ tables, run tables params sql.length (expandCount sql) = runStatement tables (expandCount sql) params :=
    fun tables => run_fuel hShorter (Nat.lt_succ_self _)
  rw [hFuel]
  cases hTokens : tokenize (expandCount sql) with
  | error status =>
    refine Or.inl ⟨.status status, refreshCatalog tables, tables, ⟨[], 0, 0, false, .ok⟩, failed_status (tokenize_error hTokens), ?_, ?_⟩
    · rw [runStatement, run, hTokens]
    · rw [runStatement, run, hTokens]
  | ok tokens => exact Or.inr (run_refreshed _ hTokens)

theorem countAgrees_iff {first : Token} {rest : List Token} (hTokens : tokenize sql = .ok (first :: rest))
    (hSelect : first.text = ascii "select") (hCount : isCount sql (ascii "select") = true) :
    CountAgrees (runStatement tables sql params) (runStatement tables (expandCount sql) params) ↔
      (Fails (runStatement tables (expandCount sql) params) → namedTable (refreshCatalog tables) sql = none) := by
  have hRun : runStatement tables sql params = _ := run_tokenized sql.length hTokens hSelect hCount
  -- an error of the inner statement is answered with the count of the named table
  have hFailed : ∀ {reply t p}, reply.Failed → runStatement tables (expandCount sql) params = .done ((reply, t), p) →
      runStatement tables sql params = .done ((countTable (refreshCatalog tables) sql, refreshCatalog tables), .reading (first :: rest) 0) →
      (CountAgrees (runStatement tables sql params) (runStatement tables (expandCount sql) params) ↔
        (Fails (runStatement tables (expandCount sql) params) → namedTable (refreshCatalog tables) sql = none)) := by
    intro reply t p hFailed hInner hOuter
    have hFails : Fails (runStatement tables (expandCount sql) params) := ⟨reply, t, p, hInner, hFailed⟩
    rw [imp_iff_right hFails]
    cases hNamed : namedTable (refreshCatalog tables) sql with
    | none =>
      refine iff_of_true ⟨?_, fun _ => ⟨_, _, _, hOuter, countTable_unnamed hNamed⟩⟩ rfl
      rintro schema rows ⟨t', p', hRows⟩
      have hReply := hOuter.symm.trans hRows
      rw [Outcome.done.injEq, Prod.mk.injEq, Prod.mk.injEq] at hReply
      exact absurd (hReply.1.1 ▸ countTable_unnamed hNamed) not_failed_rows
    | some table =>
      refine iff_of_false (fun hAgrees => ?_) nofun
      rw [countTable_named hNamed] at hOuter
      obtain ⟨schema', rows', ⟨t', p', hRows⟩, -⟩ := hAgrees.counts _ _ ⟨_, _, hOuter⟩
      cases hInner.symm.trans hRows
      exact not_failed_rows hFailed
  obtain ⟨reply, t, t', p, ⟨code, message, rfl⟩, hInner, hFiltered⟩ | hInner := run_expanded tables params hCount
  · rw [hInner] at hRun
    exact hFailed ⟨code, message, rfl⟩ hFiltered hRun
  rw [hInner] at hRun
  have hNeither : ∀ {filtered : Outcome Result}, (∀ schema rows, ¬ Returns (runStatement tables sql params) schema rows) →
      ¬ Fails filtered → (CountAgrees (runStatement tables sql params) filtered ↔
        (Fails filtered → namedTable (refreshCatalog tables) sql = none)) := fun hCounted hFails =>
    iff_of_true ⟨fun schema rows h => absurd h (hCounted schema rows), fun h => absurd h hFails⟩ fun h => absurd h hFails
  have hNoRows : runStatement tables sql params = .undefined ∨ runStatement tables sql params = .outOfFuel →
      ∀ schema rows, ¬ Returns (runStatement tables sql params) schema rows := by
    rintro hNone schema rows ⟨t, p, hRows⟩
    obtain hNone | hNone := hNone
    · cases hNone.symm.trans hRows
    · cases hNone.symm.trans hRows
  cases hFiltered : runStatement tables (expandCount sql) params with
  | undefined =>
    rw [hFiltered] at hRun
    exact hNeither (hNoRows (Or.inl hRun)) (by rintro ⟨_, _, _, h, -⟩; cases h)
  | outOfFuel =>
    rw [hFiltered] at hRun
    exact hNeither (hNoRows (Or.inr hRun)) (by rintro ⟨_, _, _, h, -⟩; cases h)
  | done result =>
    obtain ⟨⟨reply, t⟩, p⟩ := result
    rw [hFiltered] at hRun
    have hReply : ∀ {P : Prop}, (reply.Failed → P) → Fails (.done ((reply, t), p)) → P := by
      rintro P hP ⟨reply', t', p', h, hReply⟩
      cases h
      exact hP hReply
    cases reply with
    | rows schema rows =>
      refine iff_of_true ⟨?_, hReply fun h => absurd h not_failed_rows⟩ (hReply fun h => absurd h not_failed_rows)
      rintro schema' rows' ⟨t', p', hRows⟩
      cases hRun.symm.trans hRows
      exact ⟨schema, rows, ⟨t, p, rfl⟩, rfl, rfl⟩
    | persist => exact hNeither (hNoRows (Or.inl hRun)) (hReply fun ⟨_, _, h⟩ => by cases h)
    | status status =>
      cases status with
      | ok => exact hNeither (hNoRows (Or.inl hRun)) (hReply fun ⟨_, _, h⟩ => by cases h)
      | error code message =>
        rw [← hFiltered]
        exact hFailed ⟨code, message, rfl⟩ hFiltered hRun

theorem tokens_countedSql {clauses : Bytes} {tokens : List Token} (h : tokenize (countedSql clauses) = .ok tokens) :
    ∃ first rest, tokens = first :: rest ∧ first.text = ascii "select" := by
  obtain ⟨read, more, hStep, -, rfl⟩ := Tokenize.loop_cons h
  have hRead : read = ⟨some (.kWord, ascii "select"), 5⟩ := Except.ok.inj (hStep.symm.trans rfl)
  subst hRead
  exact ⟨⟨.kWord, ascii "select", 0⟩, more, rfl, rfl⟩

/-- A text that is not tokenized is answered with its error. -/
theorem fails_of_tokenize {status : Status} (h : tokenize sql = .error status) : Fails (runStatement tables sql params) := by
  refine ⟨.status status, tables, ⟨[], 0, 0, false, .ok⟩, ?_, failed_status (tokenize_error h)⟩
  rw [runStatement, run, h]

theorem countAgrees_countedSql (clauses : Bytes) :
    CountAgrees (runStatement tables (countedSql clauses) params) (runStatement tables (filteredSql clauses) params) ↔
      (Fails (runStatement tables (filteredSql clauses) params) → (∃ status, tokenize (countedSql clauses) = .error status) ∨
        namedTable (refreshCatalog tables) (countedSql clauses) = none) := by
  cases hTokens : tokenize (countedSql clauses) with
  | error status =>
    refine iff_of_true ⟨?_, fun _ => fails_of_tokenize hTokens⟩ fun _ => Or.inl ⟨status, rfl⟩
    rintro schema rows ⟨t, p, hRows⟩
    obtain ⟨reply, t', p', hReply, hFailed⟩ : Fails (runStatement tables (countedSql clauses) params) := fails_of_tokenize hTokens
    cases hReply.symm.trans hRows
    exact absurd hFailed not_failed_rows
  | ok tokens =>
    obtain ⟨first, rest, rfl, hSelect⟩ := tokens_countedSql hTokens
    rw [← expandCount_countedSql, countAgrees_iff hTokens hSelect (isCount_countedSql clauses)]
    exact imp_congr_right fun _ => (or_iff_right nofun).symm

/-- Rows of a statement that is counted are a count. -/
theorem counted_rows {first : Token} {rest : List Token} {schema : Schema} {rows : List Row}
    (hTokens : tokenize sql = .ok (first :: rest)) (hSelect : first.text = ascii "select")
    (hCount : isCount sql (ascii "select") = true) (h : Returns (runStatement tables sql params) schema rows) :
    schema = countSchema ∧ rows.length = 1 := by
  obtain ⟨t, p, hRows⟩ := h
  have hRun : runStatement tables sql params = _ := run_tokenized sql.length hTokens hSelect hCount
  obtain ⟨⟨⟨reply, t'⟩, p'⟩, -, hOuter⟩ := Outcome.bind_eq_done (hRun.symm.trans hRows)
  cases reply with
  | rows schema' rows' =>
    cases hOuter
    exact ⟨rfl, rfl⟩
  | persist => cases hOuter
  | status status =>
    cases status with
    | ok => cases hOuter
    | error code message =>
      have hReply : countTable (refreshCatalog tables) sql = .rows schema rows := by
        injection hOuter with hPair
        exact congrArg (fun r => r.1.1) hPair
      cases hNamed : namedTable (refreshCatalog tables) sql with
      | none => exact absurd (hReply ▸ countTable_unnamed hNamed) not_failed_rows
      | some table =>
        cases (countTable_named hNamed).symm.trans hReply
        exact ⟨rfl, rfl⟩

end Statement

open Statement

def oneRowScript : List Bytes := [ascii "CREATE TABLE t (a INTEGER)", ascii "INSERT INTO t VALUES (1)"]

/-- A condition on a column that does not exist. -/
def unknownClauses : Bytes := ascii " FROM t WHERE missing = 1"

def literalSql : Bytes := ascii "SELECT 'count(*)' FROM t"

/-- Whether the statement returns these rows under this schema. -/
def returnsRows (result : Outcome Result) (schema : Schema) (rows : List Row) : Bool :=
  match result with
  | .done ((reply, _), _) => decide (reply = .rows schema rows)
  | _ => false

def failsWith (result : Outcome Result) : Bool :=
  match result with
  | .done ((.status (.error _ _), _), _) => true
  | _ => false

theorem returns_of_returnsRows {result : Outcome Result} {schema : Schema} {rows : List Row}
    (h : returnsRows result schema rows = true) : Returns result schema rows := by
  unfold returnsRows at h
  split at h
  · next reply tables p => exact ⟨tables, p, by rw [of_decide_eq_true h]⟩
  · cases h

theorem fails_of_failsWith {result : Outcome Result} (h : failsWith result = true) : Fails result := by
  unfold failsWith at h
  split at h
  · next code message tables p => exact ⟨_, tables, p, rfl, code, message, rfl⟩
  · cases h

end TupleStone
