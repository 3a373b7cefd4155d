import TupleStone.Api.CommitFailure

/-! # What a statement leaves alone

A statement depends on the user tables only and touches at most one of them. Unless it commits, it leaves them all as they
were, but for an INSERT that stored some of its rows and an UPDATE that rewrote some rows in place.
-/

set_option autoImplicit false

namespace TupleStone

variable {tables tables' other : Tables} {sql : Bytes} {params : List Value} {reply : Reply} {p q : Parser} {name : Bytes}

/-! ## The user tables decide -/

def SameUser (tables other : Tables) : Prop := userTables tables = userTables other

namespace Statement

theorem run_congr {fuel : Nat} (hSame : SameUser tables other) (h : run tables params fuel sql = .done ((reply, tables'), q)) :
    ∃ other', run other params fuel sql = .done ((reply, other'), q) ∧ SameUser tables' other' := by
  cases fuel with
  | zero => cases h
  | succ fuel =>
    rw [run] at h ⊢
    cases hTokens : tokenize sql with
    | error status =>
      rw [hTokens] at h
      cases h
      exact ⟨other, rfl, hSame⟩
    | ok tokens =>
      rw [hTokens] at h
      dsimp only at h ⊢
      rw [← refreshCatalog_congr hSame]
      exact ⟨tables', h, rfl⟩

end Statement

/-- On the same user tables a statement answers the same and leaves the same user tables. -/
theorem runStatement_congr (hSame : SameUser tables other) (h : runStatement tables sql params = .done ((reply, tables'), q)) :
    ∃ other', runStatement other sql params = .done ((reply, other'), q) ∧ SameUser tables' other' :=
  Statement.run_congr hSame h

/-! ## One table at most -/

namespace Statement

theorem Effect.frame (h : Effect tables reply tables') : ∃ name, ∀ other, other ≠ name → tables'.find? other = tables.find? other := by
  cases h with
  | unchanged hReply => exact ⟨[], fun _ _ => rfl⟩
  | @create name columns hAbsent hLower hTypes => exact ⟨name, fun other hNe => OrderedMap.find?_insert_of_ne _ hNe _⟩
  | @drop name table hFound => exact ⟨name, fun other hNe => by rw [OrderedMap.find?_erase, if_neg hNe]⟩
  | @insert _ name table rows hFound hReply hRows => exact ⟨name, fun other hNe => OrderedMap.find?_insert_of_ne _ hNe _⟩
  | @update _ name table rows hFound hReply hRows => exact ⟨name, fun other hNe => OrderedMap.find?_insert_of_ne _ hNe _⟩
  | @delete name table rows hFound hRows => exact ⟨name, fun other hNe => OrderedMap.find?_insert_of_ne _ hNe _⟩

theorem Stored.appended {schema : Schema} {rows rows' : List Row} (h : Stored schema rows rows') : ∃ more, rows' = rows ++ more := by
  induction h with
  | refl => exact ⟨[], (List.append_nil rows).symm⟩
  | @push _ row _ _ ih =>
    obtain ⟨more, rfl⟩ := ih
    exact ⟨more ++ [row], List.append_assoc ..⟩

theorem Rewritten.length {schema : Schema} {visited rest rows : List Row} (h : Rewritten schema visited rest rows) :
    rows.length = visited.length + rest.length := by
  induction h with
  | stop => exact List.length_append
  | keep _ ih =>
    rw [ih, List.length_append, List.length_singleton, List.length_cons]
    omega
  | replace _ _ ih =>
    rw [ih, List.length_append, List.length_singleton, List.length_cons]
    omega

end Statement

/-! ## Statements that do not commit -/

/-- The first word of a statement. -/
def commandWord (sql : Bytes) : Bytes := (((tokenize sql).toOption.bind List.head?).map Token.text).getD []

theorem commandWord_of_tokens {tokens : List Token} {token : Token} (h : tokenize sql = .ok tokens) (hFirst : tokens[0]? = some token) :
    commandWord sql = token.text := by
  have hHead : tokens.head? = some token := by rw [List.head?_eq_getElem?, hFirst]
  rw [commandWord, h]
  change ((tokens.head?).map Token.text).getD [] = token.text
  rw [hHead]
  rfl

/-- What a statement with this first word leaves behind without a commit. -/
inductive Leftover (tables : Tables) (word : Bytes) (tables' : Tables) : Prop where
  | nothing (hSame : SameUser tables' tables)
  | inserted {name : Bytes} {table : Table} {more : List Row} (hWord : word = ascii "insert")
      (hFound : (refreshCatalog tables).find? name = some table)
      (hAfter : tables' = (refreshCatalog tables).insert name { table with rows := table.rows ++ more })
  | updated {name : Bytes} {table : Table} {rows : List Row} (hWord : word = ascii "update")
      (hFound : (refreshCatalog tables).find? name = some table) (hLength : rows.length = table.rows.length)
      (hAfter : tables' = (refreshCatalog tables).insert name { table with rows := rows })

theorem leftover_refreshed {word : Bytes} : Leftover tables word (refreshCatalog tables) :=
  .nothing (userTables_refreshCatalog tables)

namespace Statement

theorem ofFront_unchanged {m : Front Tables} (h : ofFront tables m p = .done ((reply, tables'), q)) (hReply : reply ≠ .persist) :
    tables' = tables := by
  obtain ⟨⟨x, p'⟩, -, hResult⟩ := Outcome.bind_eq_done h
  cases x with
  | error returned =>
    cases hResult
    rfl
  | ok result =>
    cases hResult
    exact absurd rfl hReply

theorem runDelete_unchanged (h : runDelete tables params p = .done ((reply, tables'), q)) (hReply : reply ≠ .persist) :
    tables' = tables := by
  obtain ⟨⟨x, p'⟩, -, hResult⟩ := Outcome.bind_eq_done h
  cases x with
  | error returned =>
    cases hResult
    rfl
  | ok plan =>
    obtain ⟨⟨y, status⟩, -, hRest⟩ := Outcome.bind_eq_done hResult
    cases y with
    | error returned =>
      cases hRest
      rfl
    | ok kept =>
      cases hRest
      exact absurd rfl hReply

theorem runInsert_prefix (h : runInsert tables params p = .done ((reply, tables'), q)) : tables' = tables ∨
    ∃ name table more, tables.find? name = some table ∧ tables' = tables.insert name { table with rows := table.rows ++ more } := by
  obtain ⟨⟨x, p'⟩, hExec, hResult⟩ := Outcome.bind_eq_done h
  cases x with
  | error returned =>
    cases hResult
    exact Or.inl rfl
  | ok plan =>
    obtain ⟨⟨⟨reply', rows⟩, p''⟩, hLoop, hRest⟩ := Outcome.bind_eq_done hResult
    cases hRest
    obtain ⟨more, rfl⟩ := (stored_insertLoop .refl hLoop).1.appended
    exact Or.inr ⟨plan.name, plan.table, more, (ensures_insertHeader tables _ _ _ hExec).1 plan rfl, rfl⟩

theorem runUpdate_length (h : runUpdate tables params p = .done ((reply, tables'), q)) : tables' = tables ∨
    ∃ name table rows, tables.find? name = some table ∧ rows.length = table.rows.length ∧
      tables' = tables.insert name { table with rows := rows } := by
  obtain ⟨⟨x, p'⟩, hExec, hResult⟩ := Outcome.bind_eq_done h
  cases x with
  | error returned =>
    cases hResult
    exact Or.inl rfl
  | ok plan =>
    obtain ⟨hFound, hWhole⟩ := (ensures_updateHeader tables _ _ _ hExec).1 plan rfl
    obtain ⟨⟨reply', rows⟩, hLoop, hRest⟩ := Outcome.bind_eq_done hResult
    cases hRest
    have hLength := (rewritten_updateLoop hWhole hLoop).1.length
    rw [List.length_nil, Nat.zero_add] at hLength
    exact Or.inr ⟨plan.name, plan.table, rows, hFound, hLength, rfl⟩

theorem leftover_runCommand {token : Token} (h : runCommand (refreshCatalog tables) params p = .done ((reply, tables'), q))
    (hToken : p.tokens[p.index]? = some token) (hReply : reply ≠ .persist) : Leftover tables token.text tables' := by
  obtain ⟨⟨command, p₁⟩, hPeek, h⟩ := Outcome.bind_eq_done h
  obtain ⟨⟨first, p₂⟩, -, h⟩ := Outcome.bind_eq_done h
  obtain ⟨⟨second, p₃⟩, -, h⟩ := Outcome.bind_eq_done h
  have hCommand : command = token := by
    rw [Parser.peek, hToken] at hPeek
    cases hPeek
    rfl
  rw [← hCommand]
  dsimp only at h
  split at h
  · cases h
    exact leftover_refreshed
  obtain ⟨⟨accepted, p₄⟩, -, h⟩ := Outcome.bind_eq_done h
  dsimp only at h
  split at h
  · rw [ofFront_unchanged h hReply]
    exact leftover_refreshed
  split at h
  · rw [ofFront_unchanged h hReply]
    exact leftover_refreshed
  split at h
  · rename_i hWord
    obtain rfl | ⟨name, table, more, hFound, hAfter⟩ := runInsert_prefix h
    · exact leftover_refreshed
    · exact .inserted hWord hFound hAfter
  split at h
  · rename_i hWord
    obtain rfl | ⟨name, table, rows, hFound, hLength, hAfter⟩ := runUpdate_length h
    · exact leftover_refreshed
    · exact .updated hWord hFound hLength hAfter
  split at h
  · rw [runDelete_unchanged h hReply]
    exact leftover_refreshed
  split at h
  · rw [(unchanged_runSelect h).2]
    exact leftover_refreshed
  · cases h
    exact leftover_refreshed

end Statement

/-- Without a commit, a statement leaves every user table as it was, or some new rows of an INSERT, or some rewritten rows of an
UPDATE. -/
theorem leftover_of_run (h : runStatement tables sql params = .done ((reply, tables'), q)) (hReply : reply ≠ .persist) :
    Leftover tables (commandWord sql) tables' := by
  rw [runStatement, Statement.run] at h
  cases hTokens : tokenize sql with
  | error status =>
    rw [hTokens] at h
    cases h
    exact .nothing rfl
  | ok tokens =>
    rw [hTokens] at h
    obtain ⟨⟨command, p⟩, hPeek, h⟩ := Outcome.bind_eq_done h
    have hFirst : tokens[0]? = some command := by
      rw [Parser.peek] at hPeek
      dsimp only at hPeek
      cases hToken : tokens[0]? with
      | none =>
        rw [hToken] at hPeek
        cases hPeek
      | some token =>
        rw [hToken] at hPeek
        cases hPeek
        rfl
    simp only at h
    split at h
    · cases h
      exact leftover_refreshed
    split at h
    · obtain ⟨r, -, h⟩ := Outcome.bind_eq_done h
      split at h
      · cases h
        exact leftover_refreshed
      · cases h
        exact leftover_refreshed
      · cases h
    · rw [commandWord_of_tokens hTokens hFirst]
      exact Statement.leftover_runCommand h hFirst hReply

/-- The second row is refused, the first one stays. -/
def halfInsert : Bytes := ascii "INSERT INTO t VALUES (1), ('x')"

end TupleStone
