import TupleStone.Api.Store

/-! # The meaning of the log

The replay of a log only depends on the snapshots of its committed transactions, in commit order: it ends with the
last of them, and it fails at the first that does not load. Records of a transaction without its commit add nothing.
-/

set_option autoImplicit false

namespace TupleStone

def LogRecord.isSnapshot (record : LogRecord) : Prop :=
  record.type = LogRecordType.kUpdate.toByte ∧ kSnapshotPrefix.isPrefixOf record.payload

def LogRecord.isCommit (record : LogRecord) : Prop := record.type = LogRecordType.kCommit.toByte

instance (record : LogRecord) : Decidable record.isSnapshot := inferInstanceAs (Decidable (_ ∧ _))
instance (record : LogRecord) : Decidable record.isCommit := inferInstanceAs (Decidable (_ = _))

/-- The snapshots whose transactions have not committed yet, after one more record. -/
def uncommitted (snapshots : OrderedMap Nat Bytes) (record : LogRecord) : OrderedMap Nat Bytes :=
  if record.isSnapshot then snapshots.insert record.txnId.toNat (record.payload.drop kSnapshotPrefix.length)
  else if record.isCommit then snapshots.erase record.txnId.toNat
  else snapshots

/-- The snapshots committed by the records, given those that were not committed before them. -/
def committedAfter : OrderedMap Nat Bytes → List LogRecord → List Bytes
  | _, [] => []
  | snapshots, record :: records =>
    if record.isCommit then
      (snapshots.find? record.txnId.toNat).toList ++ committedAfter (uncommitted snapshots record) records
    else committedAfter (uncommitted snapshots record) records

def committedSnapshots (records : List LogRecord) : List Bytes := committedAfter OrderedMap.empty records

/-- Loads the snapshots in turn, keeping the tables reached when one is invalid. -/
def replaySnapshots (tables : Tables) : List Bytes → Except (Status × Tables) Tables
  | [] => .ok tables
  | snapshot :: snapshots =>
    match loadTablesBytes snapshot with
    | .error status => .error (invalidSnapshot status, tables)
    | .ok committed => replaySnapshots committed snapshots

theorem toByte_inj {type type' : LogRecordType} (h : type.toByte = type'.toByte) : type = type' := by
  cases type <;> cases type' <;> first | rfl | exact absurd h (by decide)

theorem isCommit_iff (lsn txnId prevLsn : UInt64) (type : LogRecordType) (payload : Bytes) :
    LogRecord.isCommit ⟨lsn, txnId, prevLsn, type.toByte, payload⟩ ↔ type = .kCommit :=
  ⟨toByte_inj, congrArg LogRecordType.toByte⟩

theorem not_isSnapshot (lsn txnId prevLsn : UInt64) {type : LogRecordType} (h : type ≠ .kUpdate) (payload : Bytes) :
    ¬ LogRecord.isSnapshot ⟨lsn, txnId, prevLsn, type.toByte, payload⟩ := fun hSnapshot => h (toByte_inj hSnapshot.1)

theorem not_isCommit {record : LogRecord} (h : record.isSnapshot) : ¬ record.isCommit := by
  intro hCommit
  have hTypes : LogRecordType.kUpdate.toByte = LogRecordType.kCommit.toByte := h.1.symm.trans hCommit
  exact absurd hTypes (by decide)

theorem committedAfter_append (snapshots : OrderedMap Nat Bytes) (before after : List LogRecord) :
    committedAfter snapshots (before ++ after) =
      committedAfter snapshots before ++ committedAfter (before.foldl uncommitted snapshots) after := by
  induction before generalizing snapshots with
  | nil => rfl
  | cons record before ih =>
    rw [List.cons_append, committedAfter, committedAfter, List.foldl_cons]
    split
    · rw [ih, List.append_assoc]
    · exact ih _

/-! ## Replay -/

/-- The replay that ends with `tables`. -/
def Replay.after (state : Replay) (records : List LogRecord) (tables : Tables) : Replay where
  tables := tables
  snapshots := records.foldl uncommitted state.snapshots
  largestTxn := records.foldl (fun largest record => max largest record.txnId) state.largestTxn
  recovered := state.recovered || !(committedAfter state.snapshots records).isEmpty

theorem Replay.run_cons (state : Replay) (record : LogRecord) (records : List LogRecord) :
    Replay.run state (record :: records) = (state.step record >>= fun next => Replay.run next records) := rfl

def Replay.seen (state : Replay) (record : LogRecord) : Replay :=
  { state with
    snapshots := uncommitted state.snapshots record
    largestTxn := max state.largestTxn record.txnId }

theorem Replay.step_snapshot (state : Replay) {record : LogRecord} (h : record.isSnapshot) :
    state.step record = .ok (state.seen record) := by
  have hBoth : record.type = LogRecordType.kUpdate.toByte ∧ kSnapshotPrefix.isPrefixOf record.payload := h
  rw [Replay.step, if_pos hBoth, Replay.seen, uncommitted, if_pos h]

theorem Replay.step_other (state : Replay) {record : LogRecord} (h : ¬ record.isSnapshot) (hCommit : ¬ record.isCommit) :
    state.step record = .ok (state.seen record) := by
  have hBoth : ¬ (record.type = LogRecordType.kUpdate.toByte ∧ kSnapshotPrefix.isPrefixOf record.payload) := h
  have hType : ¬ record.type = LogRecordType.kCommit.toByte := hCommit
  rw [Replay.step, if_neg hBoth, if_neg hType, Replay.seen, uncommitted, if_neg h, if_neg hCommit]

theorem Replay.step_commit (state : Replay) {record : LogRecord} (h : record.isCommit) :
    state.step record = match state.snapshots.find? record.txnId.toNat with
      | none => .ok (state.seen record)
      | some snapshot => match loadTablesBytes snapshot with
        | .error status => .error (invalidSnapshot status, state.tables)
        | .ok tables => .ok { state.seen record with tables := tables, recovered := true } := by
  have hSnapshot : ¬ record.isSnapshot := fun hSnapshot => not_isCommit hSnapshot h
  have hBoth : ¬ (record.type = LogRecordType.kUpdate.toByte ∧ kSnapshotPrefix.isPrefixOf record.payload) := hSnapshot
  have hType : record.type = LogRecordType.kCommit.toByte := h
  rw [Replay.step, if_neg hBoth, if_pos hType, Replay.seen, uncommitted, if_neg hSnapshot, if_pos h]
  dsimp only
  cases hFind : state.snapshots.find? record.txnId.toNat with
  | none => rw [OrderedMap.erase_of_none _ hFind]
  | some snapshot => rfl

theorem Replay.run_eq (state : Replay) (records : List LogRecord) :
    Replay.run state records =
      (replaySnapshots state.tables (committedAfter state.snapshots records)).map (state.after records) := by
  induction records generalizing state with
  | nil =>
    obtain ⟨tables, snapshots, largestTxn, recovered⟩ := state
    simp [Replay.run, committedAfter, replaySnapshots, Except.map, Replay.after, pure, Except.pure]
  | cons record records ih =>
    have hGoesOn : state.step record = .ok (state.seen record) →
        committedAfter state.snapshots (record :: records) = committedAfter (state.seen record).snapshots records →
        Replay.run state (record :: records) =
          (replaySnapshots state.tables (committedAfter state.snapshots (record :: records))).map
            (state.after (record :: records)) := by
      intro hStep hCommitted
      rw [Replay.run_cons, hStep]
      change Replay.run (state.seen record) records = _
      rw [ih, hCommitted]
      refine congrArg (fun f => Except.map f _) (funext fun tables => ?_)
      rw [Replay.after, Replay.after, hCommitted]
      rfl
    by_cases hCommit : record.isCommit
    · have hStep := state.step_commit hCommit
      cases hFind : state.snapshots.find? record.txnId.toNat with
      | none =>
        rw [hFind] at hStep
        refine hGoesOn hStep ?_
        rw [committedAfter, if_pos hCommit, hFind]
        rfl
      | some snapshot =>
        have hCommitted : committedAfter state.snapshots (record :: records) =
            snapshot :: committedAfter (state.seen record).snapshots records := by
          rw [committedAfter, if_pos hCommit, hFind]
          rfl
        rw [hFind] at hStep
        dsimp only at hStep
        rw [Replay.run_cons, hStep, hCommitted, replaySnapshots]
        cases loadTablesBytes snapshot with
        | error status => rfl
        | ok committed =>
          change Replay.run { state.seen record with tables := committed, recovered := true } records = _
          rw [ih]
          refine congrArg (fun f => Except.map f _) (funext fun tables => ?_)
          rw [Replay.after, Replay.after, hCommitted]
          simp [Replay.seen]
    · have hStep : state.step record = .ok (state.seen record) := by
        by_cases hSnapshot : record.isSnapshot
        · exact state.step_snapshot hSnapshot
        · exact state.step_other hSnapshot hCommit
      refine hGoesOn hStep ?_
      rw [committedAfter, if_neg hCommit]
      rfl

/-- Recovery in terms of the committed snapshots. -/
theorem Store.recover_eq (s : Store) (db : Database) :
    s.recover db = match replaySnapshots db.tables (committedSnapshots s.durable) with
      | .error (status, tables) => ((status, { db with tables := tables }), s)
      | .ok tables => ((.ok, db.recovered (Replay.after { tables := db.tables } s.durable tables)),
          if (committedSnapshots s.durable).isEmpty then s else s.save tables) := by
  have hRun : Replay.run { tables := db.tables } s.durable =
      (replaySnapshots db.tables (committedSnapshots s.durable)).map (Replay.after { tables := db.tables } s.durable) :=
    Replay.run_eq _ _
  rw [Store.recover, hRun]
  cases replaySnapshots db.tables (committedSnapshots s.durable) with
  | error failure => rfl
  | ok tables =>
    refine Prod.ext rfl ?_
    rw [committedSnapshots]
    simp only [Except.map, Replay.after, Bool.false_or]
    cases (committedAfter OrderedMap.empty s.durable).isEmpty <;> rfl

/-! ## Loading in turn -/

theorem replaySnapshots_append (tables : Tables) (before after : List Bytes) :
    replaySnapshots tables (before ++ after) =
      (replaySnapshots tables before >>= fun reached => replaySnapshots reached after) := by
  induction before generalizing tables with
  | nil => rfl
  | cons snapshot before ih =>
    rw [List.cons_append, replaySnapshots, replaySnapshots]
    cases loadTablesBytes snapshot with
    | error status => rfl
    | ok committed => exact ih committed

/-- The replay ends with the last snapshot, or with what it started from. -/
theorem replaySnapshots_last {tables reached : Tables} {snapshots : List Bytes}
    (h : replaySnapshots tables snapshots = .ok reached) :
    (snapshots = [] ∧ reached = tables) ∨ ∃ last, snapshots.getLast? = some last ∧ loadTablesBytes last = .ok reached := by
  obtain rfl | ⟨init, last, rfl⟩ := snapshots.eq_nil_or_concat
  · cases h
    exact Or.inl ⟨rfl, rfl⟩
  · rw [List.concat_eq_append, replaySnapshots_append] at h
    right
    refine ⟨last, by rw [List.concat_eq_append, List.getLast?_concat], ?_⟩
    cases hInit : replaySnapshots tables init with
    | error failure =>
      rw [hInit] at h
      cases h
    | ok middle =>
      rw [hInit] at h
      change replaySnapshots middle [last] = _ at h
      rw [replaySnapshots] at h
      cases hLast : loadTablesBytes last with
      | error status =>
        rw [hLast] at h
        cases h
      | ok committed =>
        rw [hLast] at h
        cases h
        rfl

theorem storable_replaySnapshots {tables reached : Tables} {snapshots : List Bytes} (h : Storable .loader tables)
    (hReplay : replaySnapshots tables snapshots = .ok reached) : Storable .loader reached := by
  obtain ⟨-, rfl⟩ | ⟨last, -, hLoad⟩ := replaySnapshots_last hReplay
  · exact h
  · exact storable_of_load hLoad

/-- Once there is a snapshot it does not matter where the replay started. -/
theorem replaySnapshots_start {tables reached : Tables} {snapshots : List Bytes}
    (h : replaySnapshots tables snapshots = .ok reached) (hSome : snapshots ≠ []) (tables' : Tables) :
    replaySnapshots tables' snapshots = .ok reached := by
  cases snapshots with
  | nil => exact absurd rfl hSome
  | cons snapshot snapshots =>
    rw [replaySnapshots] at h ⊢
    cases hLoad : loadTablesBytes snapshot with
    | error status =>
      rw [hLoad] at h
      cases h
    | ok committed =>
      rw [hLoad] at h
      exact h

theorem replaySnapshots_invalid {tables reached : Tables} {good : List Bytes} (h : replaySnapshots tables good = .ok reached)
    {bad : Bytes} {cause : Status} (hBad : loadTablesBytes bad = .error cause) (rest : List Bytes) :
    replaySnapshots tables (good ++ bad :: rest) = .error (invalidSnapshot cause, reached) := by
  rw [replaySnapshots_append, h]
  change replaySnapshots reached (bad :: rest) = _
  rw [replaySnapshots, hBad]

/-- A failed replay stopped at the first snapshot that does not load. -/
theorem replaySnapshots_error {tables reached : Tables} {snapshots : List Bytes} {status : Status}
    (h : replaySnapshots tables snapshots = .error (status, reached)) :
    ∃ good bad rest, snapshots = good ++ bad :: rest ∧ replaySnapshots tables good = .ok reached ∧
      ∃ cause, loadTablesBytes bad = .error cause ∧ status = invalidSnapshot cause := by
  induction snapshots generalizing tables with
  | nil => cases h
  | cons snapshot snapshots ih =>
    rw [replaySnapshots] at h
    cases hLoad : loadTablesBytes snapshot with
    | error cause =>
      rw [hLoad] at h
      cases h
      exact ⟨[], snapshot, snapshots, rfl, rfl, cause, hLoad, rfl⟩
    | ok committed =>
      rw [hLoad] at h
      obtain ⟨good, bad, rest, rfl, hGood, hBad⟩ := ih h
      refine ⟨snapshot :: good, bad, rest, rfl, ?_, hBad⟩
      rw [replaySnapshots, hLoad]
      exact hGood

/-! ## The records of one commit -/

theorem isPrefixOf_snapshotPayload (tables : Tables) : kSnapshotPrefix.isPrefixOf (snapshotPayload tables) = true := by
  rw [List.isPrefixOf_iff_prefix]
  exact List.prefix_append _ _

/-- The commit record publishes the snapshot; an initial part of the three records publishes nothing. -/
theorem committedSnapshots_commit (records : List LogRecord) (log : LogManager) (txnId : UInt64) (tables : Tables) (k : Nat) :
    committedSnapshots (records ++ (commitRecords log txnId (snapshotPayload tables)).take k) =
      committedSnapshots records ++ if 3 ≤ k then [serializeTables tables] else [] := by
  rw [committedSnapshots, committedAfter_append, ← committedSnapshots]
  generalize records.foldl uncommitted OrderedMap.empty = snapshots
  have hQuiet : ∀ lsn prevLsn, ∀ type : LogRecordType, type ≠ .kCommit → ∀ payload,
      ¬ LogRecord.isCommit ⟨lsn, txnId, prevLsn, type.toByte, payload⟩ :=
    fun lsn prevLsn type hType payload hCommit => hType ((isCommit_iff lsn txnId prevLsn type payload).mp hCommit)
  have hBegin : uncommitted snapshots ⟨log.nextLsn, txnId, kInvalidLsn, LogRecordType.kBegin.toByte, []⟩ = snapshots := by
    rw [uncommitted, if_neg (not_isSnapshot _ _ _ (by decide) _), if_neg (hQuiet _ _ _ (by decide) _)]
  have hUpdate : uncommitted snapshots
      ⟨log.nextLsn + 1, txnId, log.nextLsn, LogRecordType.kUpdate.toByte, snapshotPayload tables⟩ =
        snapshots.insert txnId.toNat (serializeTables tables) := by
    rw [uncommitted, if_pos ⟨rfl, isPrefixOf_snapshotPayload tables⟩, snapshotPayload, List.drop_left]
  congr 1
  match k with
  | 0 => rfl
  | 1 =>
    rw [commitRecords, List.take_succ_cons, List.take_zero, committedAfter, if_neg (hQuiet _ _ _ (by decide) _)]
    rfl
  | 2 =>
    rw [commitRecords, List.take_succ_cons, List.take_succ_cons, List.take_zero, committedAfter,
      if_neg (hQuiet _ _ _ (by decide) _), committedAfter, if_neg (hQuiet _ _ _ (by decide) _)]
    rfl
  | k + 3 =>
    rw [commitRecords, List.take_succ_cons, List.take_succ_cons, List.take_succ_cons, List.take_nil, committedAfter,
      if_neg (hQuiet _ _ _ (by decide) _), hBegin, committedAfter, if_neg (hQuiet _ _ _ (by decide) _), hUpdate,
      committedAfter, if_pos ((isCommit_iff _ _ _ _ _).mpr rfl), OrderedMap.find?_insert_self, if_pos (by omega)]
    rfl

end TupleStone
