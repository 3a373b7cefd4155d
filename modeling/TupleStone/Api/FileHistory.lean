import TupleStone.Api.SerialRuns

/-! # The files over whole histories

Processes run one after the other on the same files. Each may be killed between its calls, inside one of them or while it
opens the database, and the next one finds what the files then hold. One call says which user tables the files may yield
from then on, and `reopens` follows for every history.
-/

set_option autoImplicit false

namespace TupleStone

open OpProgram

/-! ## What the files yield -/

/-- What `Open` makes of the data file and the log. -/
def Yields (options : Options) (s : Store) (tables : Tables) : Prop :=
  ∃ loaded, (openedData options s.data).1 = .ok loaded ∧ replaySnapshots loaded (committedSnapshots s.durable) = .ok tables

/-- Whichever end of the pending records is lost, the rest yields user tables in `P`. -/
def Recovers (options : Options) (P : Set Tables) (s : Store) : Prop :=
  ∀ k, ∃ tables, Yields options ⟨s.data, s.durable ++ s.pending.take k, []⟩ tables ∧ userTables tables ∈ P

variable {options : Options} {s : Store} {tables reached : Tables} {P Q : Set Tables}

theorem Yields.recovers (h : Yields options s tables) (hPending : s.pending = []) (hTables : userTables tables ∈ P) :
    Recovers options P s := by
  intro k
  rw [hPending, List.take_nil, List.append_nil]
  exact ⟨tables, h, hTables⟩

theorem Recovers.weaken (h : Recovers options P s) (hWeaker : P ⊆ Q) : Recovers options Q s := by
  intro k
  obtain ⟨tables, hYields, hTables⟩ := h k
  exact ⟨tables, hYields, hWeaker hTables⟩

theorem Recovers.whole (h : Recovers options P s) : ∃ tables, Yields options ⟨s.data, s.durable ++ s.pending, []⟩ tables ∧
    userTables tables ∈ P := by
  have hWhole := h s.pending.length
  rwa [List.take_length] at hWhole

theorem Recovers.flush (h : Recovers options P s) : Recovers options P s.flush := by
  obtain ⟨tables, hYields, hTables⟩ := h.whole
  exact Yields.recovers hYields rfl hTables

/-- A saved data file counts while the log has no snapshot. -/
theorem Recovers.save (h : Recovers options P s) (hLoad : loadTablesBytes (serializeTables tables) = .ok tables) :
    Recovers options (insert (userTables tables) P) (s.save tables) := by
  intro k
  obtain ⟨reached, ⟨loaded, -, hReplay⟩, hReached⟩ := h k
  dsimp only at hReplay
  cases hSnapshots : committedSnapshots (s.durable ++ s.pending.take k) with
  | nil =>
    refine ⟨tables, ⟨tables, hLoad, ?_⟩, Set.mem_insert _ _⟩
    change replaySnapshots tables (committedSnapshots (s.durable ++ s.pending.take k)) = _
    rw [hSnapshots]
    rfl
  | cons snapshot snapshots =>
    have hSome : committedSnapshots (s.durable ++ s.pending.take k) ≠ [] := by
      rw [hSnapshots]
      exact List.cons_ne_nil _ _
    exact ⟨reached, ⟨tables, hLoad, replaySnapshots_start hReplay hSome tables⟩, Set.mem_insert_of_mem _ hReached⟩

theorem recovers_truncate (hLoad : loadTablesBytes (serializeTables tables) = .ok tables) :
    Recovers options {userTables tables} (s.save tables).truncate :=
  Yields.recovers (s := (s.save tables).truncate) ⟨tables, hLoad, rfl⟩ rfl rfl

/-- The log during a commit: its snapshot counts once all three records are there. -/
theorem Yields.commit (h : Yields options s reached) (hLoad : loadTablesBytes (serializeTables tables) = .ok tables)
    (log : LogManager) (txnId : UInt64) (k : Nat) :
    Yields options ⟨s.data, s.durable ++ (commitRecords log txnId (snapshotPayload tables)).take k, []⟩
      (if 3 ≤ k then tables else reached) := by
  obtain ⟨loaded, hData, hReplay⟩ := h
  refine ⟨loaded, hData, ?_⟩
  change replaySnapshots loaded (committedSnapshots (s.durable ++ _)) = _
  rw [committedSnapshots_commit]
  split
  · rw [replaySnapshots_append, hReplay]
    change replaySnapshots reached [serializeTables tables] = _
    rw [replaySnapshots, hLoad]
    rfl
  · rw [List.append_nil]
    exact hReplay

theorem Yields.commit_save (h : Yields options s reached) (hLoad : loadTablesBytes (serializeTables tables) = .ok tables)
    (log : LogManager) (txnId : UInt64) :
    Yields options ⟨some (serializeTables tables), s.durable ++ commitRecords log txnId (snapshotPayload tables), []⟩ tables := by
  obtain ⟨loaded, hData, hReplay⟩ := h.commit hLoad log txnId 3
  refine ⟨tables, hLoad, replaySnapshots_start hReplay ?_ tables⟩
  have hSnapshots := committedSnapshots_commit s.durable log txnId tables 3
  change committedSnapshots (s.durable ++ _) ≠ []
  rw [hSnapshots]
  exact List.append_ne_nil_of_right_ne_nil _ (List.cons_ne_nil _ _)

/-- While a commit writes its records. -/
theorem Recovers.commit (h : Recovers options P s) (hLoad : loadTablesBytes (serializeTables tables) = .ok tables)
    (log : LogManager) (txnId : UInt64) (k : Nat) :
    Recovers options (insert (userTables tables) P) (s.pushAll ((commitRecords log txnId (snapshotPayload tables)).take k)) := by
  intro j
  rw [Store.pushAll]
  dsimp only
  rw [List.take_append, ← List.append_assoc, List.take_take]
  obtain hShort | hLong := Nat.le_total j s.pending.length
  · -- the cut falls into what was pending before
    rw [Nat.sub_eq_zero_of_le hShort, Nat.zero_min, List.take_zero, List.append_nil]
    obtain ⟨reached, hYields, hReached⟩ := h j
    exact ⟨reached, hYields, Set.mem_insert_of_mem _ hReached⟩
  · rw [List.take_of_length_le hLong]
    obtain ⟨reached, hYields, hReached⟩ := h.whole
    refine ⟨_, Yields.commit hYields hLoad log txnId _, ?_⟩
    split
    · exact Set.mem_insert _ _
    · exact Set.mem_insert_of_mem _ hReached

/-- After a commit: with synchronised records nothing older is yielded. -/
theorem Recovers.committed (h : Recovers options P s) (hLoad : loadTablesBytes (serializeTables tables) = .ok tables)
    (log : LogManager) (txnId : UInt64) (sync : Bool) :
    Recovers options {found | found = userTables tables ∨ sync = false ∧ found ∈ P}
      (s.commit sync (commitRecords log txnId (snapshotPayload tables)) tables) := by
  cases sync with
  | true =>
    obtain ⟨reached, hYields, -⟩ := h.whole
    have hSaved := hYields.commit_save hLoad log txnId
    rw [List.append_assoc] at hSaved
    exact hSaved.recovers rfl (Or.inl rfl)
  | false =>
    have hAll := (h.commit hLoad log txnId 3).save hLoad
    refine hAll.weaken fun found hFound => ?_
    obtain hNew | hNew | hOld := hFound
    · exact Or.inl hNew
    · exact Or.inl hNew
    · exact Or.inr ⟨rfl, hOld⟩

/-! ## Opening -/

theorem Store.recover_ok {db : Database} (h : replaySnapshots db.tables (committedSnapshots s.durable) = .ok tables) :
    s.recover db = ((.ok, db.recovered (Replay.after { tables := db.tables } s.durable tables)),
      if (committedSnapshots s.durable).isEmpty then s else s.save tables) := by
  rw [Store.recover_eq, h]

/-- The stages of `Open` on files that yield some tables. -/
theorem Yields.stages (h : Yields options s tables) : ∃ db s', s.stages options = ((.ok, db), s') ∧ db.tables = tables ∧
    db.options = options ∧ db.closed = false ∧ db.wal.isOpen = true ∧ s'.pending = s.pending ∧
    Yields options (s.started options) tables ∧ Yields options s' tables := by
  obtain ⟨loaded, hData, hReplay⟩ := h
  have hStorable : Storable .loader loaded := by
    cases hFile : s.data with
    | some bytes =>
      rw [hFile] at hData
      exact storable_of_load hData
    | none =>
      rw [hFile, openedData] at hData
      split at hData
      · cases hData
        exact storable_empty .loader
      · cases hData
  have hStarted : Yields options (s.started options) tables := by
    refine ⟨loaded, ?_, hReplay⟩
    rw [Store.started]
    cases hFile : s.data with
    | some bytes => rwa [hFile] at hData
    | none =>
      rw [hFile, openedData] at hData
      dsimp only
      rw [openedData]
      split at hData
      · rename_i hCreate
        cases hData
        rw [if_pos hCreate]
        exact hStorable.load_serialize
      · cases hData
  have hLog : ((LogManager.emptied true).afterLast s.durable).isOpen = true := LogManager.isOpen_afterLast _ _
  rw [Store.stages, hData]
  dsimp only
  rw [Store.recover_ok (s := s.started options) hReplay]
  refine ⟨_, _, rfl, rfl, rfl, rfl, hLog, ?_, hStarted, ?_⟩
  · split <;> rfl
  · split
    · exact hStarted
    · rename_i hSome
      refine ⟨tables, (storable_replaySnapshots hStorable hReplay).load_serialize, ?_⟩
      exact replaySnapshots_start hReplay (fun hNil => hSome (List.isEmpty_iff.mpr hNil)) tables

/-- An `Open` that succeeds shows what the files yield. -/
theorem yields_of_opens {disk : Files.Disk FileId} {db : Database} {world : Files.World FileId}
    (h : opens options disk = (.ok db, world)) : Yields options (Disk.store disk) db.tables := by
  have hStart : Represents (Files.ofDisk disk) (Disk.store disk) := represents_ofDisk disk
  obtain ⟨⟨⟨status, opened⟩, s'⟩, hStages⟩ : ∃ r, (Disk.store disk).stages options = r := ⟨_, rfl⟩
  have hResult : (opens options disk).1 = .ok db := congrArg Prod.fst h
  have hOk : status = .ok := by
    by_contra hFailed
    rw [opens, (safe_openDatabase_error hStart rfl rfl hStages hFailed).result.1] at hResult
    cases hResult
  subst hOk
  rw [opens, (safe_openDatabase (K := fun _ => True) hStart rfl rfl hStages trivial trivial trivial).result.1] at hResult
  cases hResult
  rw [Store.stages] at hStages
  cases hData : (openedData options (Disk.store disk).data).1 with
  | error cause =>
    rw [hData] at hStages
    exact absurd (congrArg (fun r => r.1.1) hStages) (malformed_or_missing hData)
  | ok loaded =>
    rw [hData] at hStages
    dsimp only at hStages
    rw [Store.recover_eq] at hStages
    cases hReplay : replaySnapshots loaded (committedSnapshots (Disk.store disk).durable) with
    | error failure =>
      obtain ⟨failed, stopped⟩ := failure
      obtain ⟨-, -, -, -, -, cause, -, rfl⟩ := replaySnapshots_error hReplay
      have hStopped : replaySnapshots loaded (committedSnapshots ((Disk.store disk).started options).durable) = _ := hReplay
      dsimp only at hStages
      rw [hStopped] at hStages
      exact absurd (congrArg (fun r => r.1.1) hStages) Status.noConfusion
    | ok tables =>
      have hWhole : replaySnapshots loaded (committedSnapshots ((Disk.store disk).started options).durable) = _ := hReplay
      dsimp only at hStages
      rw [hWhole] at hStages
      have hTables : tables = db.tables := congrArg (fun r => r.1.2.tables) hStages
      exact ⟨loaded, hData, hTables ▸ hReplay⟩

/-- Opening files that yield some tables: it succeeds with them, and at every moment the files yield them still. -/
theorem Yields.safe_open {disk : Files.Disk FileId} (h : Yields options (Disk.store disk) tables) (hTables : userTables tables ∈ P) :
    Safe Files.handler (Kept (Recovers options P)) (openDatabase options) (Files.ofDisk disk) (fun r w => ∃ db s', r = .ok db ∧
      db.tables = tables ∧ db.options = options ∧ db.closed = false ∧ db.wal.isOpen = true ∧ Opened w s' ∧
      Recovers options {userTables tables} s') := by
  obtain ⟨db, s', hStages, hDb, hOptions, hClosed, hOpen, hPending, hStarted, hYields⟩ := h.stages
  have hSafe := safe_openDatabase (represents_ofDisk disk) rfl rfl hStages (h.recovers rfl hTables) (hStarted.recovers rfl hTables)
    (hYields.recovers hPending hTables)
  refine hSafe.weaken (fun _ h => h) ?_
  rintro r w ⟨rfl, hBacked⟩
  exact ⟨db, s', rfl, hDb, hOptions, hClosed, hOpen, hBacked.opened hOpen, hYields.recovers hPending rfl⟩

/-- A kill leaves a disk that yields what every recovery yields. -/
theorem Kept.survives {w : Files.World FileId} (h : Kept (Recovers options P) w) {disk : Files.Disk FileId}
    (hDisk : Files.Survives w disk) : ∃ tables, Yields options (Disk.store disk) tables ∧ userTables tables ∈ P := by
  obtain ⟨s, hRepresents, hRecovers⟩ := h
  obtain ⟨hData, k, hRecords⟩ := hRepresents.survives hDisk
  obtain ⟨tables, hYields, hTables⟩ := hRecovers k
  rw [← hData, ← hRecords] at hYields
  exact ⟨tables, hYields, hTables⟩

theorem Kept.weaken {w : Files.World FileId} (h : Kept (Recovers options P) w) (hWeaker : P ⊆ Q) : Kept (Recovers options Q) w := by
  obtain ⟨s, hRepresents, hRecovers⟩ := h
  exact ⟨s, hRepresents, hRecovers.weaken hWeaker⟩

/-! ## What a call does to the files -/

namespace Process

/-- A call that does no work on the files. -/
structure Quiet (p : Process) (act : Act) (p' : Process) : Prop where
  closed : p'.db.closed = p.db.closed
  wal : p'.db.wal = p.db.wal
  options : p'.db.options = p.db.options
  tables : ¬ p.Strays act → SameUser p'.db.tables p.db.tables
  nothing : p.committing act = none
  act : act ≠ .checkpoint ∧ act ≠ .close

/-- The file program of a call. -/
inductive Works (p : Process) (act : Act) : Io Answer → Prop where
  | quiet {answer : Outcome (Response × Process)}
      (hAnswer : ∀ response p', answer = .done (response, p') → Quiet p act p') : Works p act (pure answer)
  | commit {tables : Tables} {respond : Status → Response} {connections : List Connection} {handles : List Handle}
      (hCommits : p.committing act = some tables) (hRespond : ∀ status, (respond status).toStatus = status) :
      Works p act (do
        let r ← persistCommittedTables (p.db.publish tables) tables
        pure (Outcome.done (respond r.1, ⟨r.2, connections, handles⟩)))
  | checkpoint (hAct : act = .checkpoint) : Works p act (do
      let r ← TupleStone.checkpoint p.db
      pure (Outcome.done (.status r.1, { p with db := r.2 })))
  | close (hAct : act = .close) : Works p act (do
      let r ← closeDatabase p.db
      pure (Outcome.done (.status r.1, { p with db := r.2 })))

variable {p p' : Process} {act : Act} {response : Response}

theorem quiet_of_db (hDb : p'.db = p.db) (hNothing : p.committing act = none) (hAct : act ≠ .checkpoint ∧ act ≠ .close) :
    Quiet p act p' :=
  ⟨hDb ▸ rfl, hDb ▸ rfl, hDb ▸ rfl, fun _ => hDb ▸ rfl, hNothing, hAct⟩

theorem works (p : Process) (c : Call) : Works p (p.act c) (p.call c) := by
  have hForm := call_form p c
  generalize p.act c = act at hForm ⊢
  generalize p.call c = program at hForm ⊢
  cases hForm with
  | undefined => exact .quiet fun response p' hDone => by cases hDone
  | outOfFuel => exact .quiet fun response p' hDone => by cases hDone
  | none =>
    apply Works.quiet
    rintro response p' ⟨⟩
    exact quiet_of_db rfl rfl ⟨Act.noConfusion, Act.noConfusion⟩
  | connect hNew =>
    apply Works.quiet
    rintro response p' ⟨⟩
    exact quiet_of_db rfl rfl ⟨Act.noConfusion, Act.noConfusion⟩
  | begun hConn hNone hOk =>
    apply Works.quiet
    rintro response p' ⟨⟩
    exact quiet_of_db rfl rfl ⟨Act.noConfusion, Act.noConfusion⟩
  | begunBefore hConn hSome hError =>
    apply Works.quiet
    rintro response p' ⟨⟩
    exact quiet_of_db rfl rfl ⟨Act.noConfusion, Act.noConfusion⟩
  | dropped hConn =>
    apply Works.quiet
    rintro response p' ⟨⟩
    exact quiet_of_db rfl rfl ⟨Act.noConfusion, Act.noConfusion⟩
  | commitNone hConn hNone hError =>
    apply Works.quiet
    rintro response p' ⟨⟩
    refine quiet_of_db rfl ?_ ⟨Act.noConfusion, Act.noConfusion⟩
    rw [committing, hConn, Option.bind_some, hNone]
    exact ite_self _
  | conflict hConn hGeneration hError =>
    apply Works.quiet
    rintro response p' ⟨⟩
    refine quiet_of_db rfl ?_ ⟨Act.noConfusion, Act.noConfusion⟩
    rw [committing, hConn, Option.bind_some, if_neg hGeneration]
  | inside hConn hSome hRun hResponse =>
    apply Works.quiet
    rintro response p' ⟨⟩
    refine quiet_of_db rfl ?_ ⟨Act.noConfusion, Act.noConfusion⟩
    rw [committing, hConn, Option.bind_some, hSome]
    rfl
  | outside hConn hNone hRun hReply hResponse =>
    apply Works.quiet
    rintro response p' ⟨⟩
    constructor
    · rfl
    · rfl
    · rfl
    · exact sameUser_of_not_strays hConn hNone hRun hReply
    · exact committing_eq_none hConn hNone hRun hReply
    · exact ⟨Act.noConfusion, Act.noConfusion⟩
  | commit hConn hGeneration hSome =>
    have hRespond : ∀ status, (Response.status status).toStatus = status := fun _ => rfl
    refine .commit ?_ hRespond
    rw [committing, hConn, Option.bind_some, if_pos hGeneration, hSome]
    rfl
  | autocommit hConn hNone hRun hRespond =>
    refine .commit ?_ fun status => Response.Shows.toStatus (hRespond status)
    rw [committing, hConn, Option.bind_some, hNone, hRun]
    rfl
  | checkpoint => exact .checkpoint rfl
  | close => exact .close rfl

/-- The sizes that the log and the decoder take. -/
structure Fits (p : Process) (act : Act) : Prop where
  commit : ∀ tables, p.committing act = some tables →
    (snapshotPayload tables).length ≤ LogManager.maxPayload ∧ Within .loader tables
  save : act = .checkpoint ∨ act = .close → (serializeTables p.db.tables).length < 2 ^ 32 ∧ Within .loader p.db.tables

/-- What the files may yield while the call runs, if they yielded tables in `P` before. -/
def during (p : Process) (act : Act) (P : Set Tables) : Set Tables :=
  {found | found ∈ P ∨ (p.committing act).map userTables = some found ∨
    (act = .checkpoint ∨ act = .close) ∧ p.db.closed = false ∧ found = userTables p.db.tables}

/-- What they may yield after it. -/
def after (p : Process) (act : Act) (response : Response) (P : Set Tables) : Set Tables :=
  match p.committing act with
  | some tables =>
    if response.toStatus = .ok then {found | found = userTables tables ∨ p.db.options.syncOnCommit = false ∧ found ∈ P} else P
  | none =>
    if p.db.closed then P
    else if act = .checkpoint then {userTables p.db.tables}
    else if act = .close then insert (userTables p.db.tables) P
    else P

theorem subset_during (p : Process) (act : Act) (P : Set Tables) : P ⊆ p.during act P := fun _ => Or.inl

theorem after_of_quiet (h : Quiet p act p') (response : Response) (P : Set Tables) : p.after act response P = P := by
  rw [after, h.nothing]
  dsimp only
  rw [if_neg h.act.1, if_neg h.act.2]
  exact ite_self P

/-- The files of a running process yield tables in `P`. -/
inductive Serving (options : Options) (w : Files.World FileId) (p : Process) (P : Set Tables) : Prop where
  | open {s : Store} (hOpened : Opened w s) (hRecovers : Recovers options P s) (hClosed : p.db.closed = false)
      (hLog : p.db.wal.isOpen = true) (hOptions : p.db.options = options) : Serving options w p P
  | closed (hKept : Kept (Recovers options P) w) (hClosed : p.db.closed = true) (hLog : p.db.wal.isOpen = false)
      (hOptions : p.db.options = options) : Serving options w p P

variable {w : Files.World FileId}

theorem Serving.kept (h : Serving options w p P) : Kept (Recovers options P) w := by
  cases h with
  | «open» hOpened hRecovers => exact ⟨_, hOpened.represents, hRecovers⟩
  | closed hKept => exact hKept

theorem Serving.options_eq (h : Serving options w p P) : p.db.options = options := by
  cases h with
  | «open» _ _ _ _ hOptions => exact hOptions
  | closed _ _ _ hOptions => exact hOptions

theorem Serving.quiet (h : Serving options w p P) (hQuiet : Quiet p act p') : Serving options w p' P := by
  cases h with
  | «open» hOpened hRecovers hClosed hLog hOptions =>
    exact .open hOpened hRecovers (hQuiet.closed.trans hClosed) (hQuiet.wal ▸ hLog) (hQuiet.options.trans hOptions)
  | closed hKept hClosed hLog hOptions =>
    exact .closed hKept (hQuiet.closed.trans hClosed) (hQuiet.wal ▸ hLog) (hQuiet.options.trans hOptions)

/-- Until a commit is acknowledged the files yield the old tables or the new ones. -/
theorem Serving.safe_persist (h : Serving options w p P) (hShaped : Shaped tables)
    (hPayload : (snapshotPayload tables).length ≤ LogManager.maxPayload) (hWithin : Within .loader tables) :
    Safe Files.handler (Kept (Recovers options (insert (userTables tables) P)))
      (persistCommittedTables (p.db.publish tables) tables) w
      (fun r w' => (r.2.closed = false → p.db.closed = false ∧ r.1 = .ok) ∧ ∀ p' : Process, p'.db = r.2 → Serving options w' p'
        (if r.1 = .ok then {found | found = userTables tables ∨ p.db.options.syncOnCommit = false ∧ found ∈ P} else P)) := by
  cases h with
  | closed hKept hClosed hLog hOptions =>
    have hShut : (p.db.publish tables).wal.isOpen = false := hLog
    rw [persist_closed hShut]
    refine Safe.ret (hKept.weaken (Set.subset_insert _ _)) ⟨fun hNot => ?_, fun p' hDb => ?_⟩
    · cases hClosed.symm.trans hNot
    apply Serving.closed hKept
    · rw [hDb]
      exact hClosed
    · rw [hDb]
      exact hLog
    · rw [hDb]
      exact hOptions
  | @«open» s hOpened hRecovers hClosed hLog hOptions =>
    have hLoad := (hShaped.storable (length_of_payload hPayload) hWithin).load_serialize
    have hOpen : (p.db.publish tables).wal.isOpen = true := hLog
    have hPart := hRecovers.commit hLoad (p.db.publish tables).wal (p.db.publish tables).nextWalTxn
    have hCommitted := hRecovers.committed hLoad (p.db.publish tables).wal (p.db.publish tables).nextWalTxn
      p.db.options.syncOnCommit
    refine (TupleStone.safe_persist hOpened hOpen hPayload rfl hPart (hPart 3).flush ?_).weaken (fun _ h => h) ?_
    · refine hCommitted.weaken fun found hFound => ?_
      obtain hNew | ⟨-, hOld⟩ := hFound
      · exact Or.inl hNew
      · exact Or.inr hOld
    · rintro r w' ⟨rfl, hAfter⟩
      refine ⟨fun _ => ⟨hClosed, rfl⟩, fun p' hDb => ?_⟩
      rw [if_pos rfl]
      refine .open hAfter hCommitted ?_ ?_ ?_
      · rw [hDb]
        exact hClosed
      · rw [hDb]
        change (p.db.wal.committed p.db.options.syncOnCommit).isOpen = true
        rw [LogManager.committed]
        split <;> exact hLog
      · rw [hDb]
        exact hOptions

/-- A checkpoint replaces the log by the data file. -/
theorem Serving.safe_checkpoint (h : Serving options w p P) (hShaped : Shaped p.db.tables)
    (hLength : (serializeTables p.db.tables).length < 2 ^ 32) (hWithin : Within .loader p.db.tables) :
    Safe Files.handler (Kept (Recovers options (p.during .checkpoint P))) (checkpoint p.db) w
      (fun r w' => (r.2.closed = false → p.db.closed = false) ∧ ∀ p' : Process, p'.db = r.2 →
        Serving options w' p' (if p.db.closed then P else {userTables p.db.tables})) := by
  have hStart := h.kept.weaken (p.subset_during .checkpoint P)
  cases h with
  | closed hKept hClosed hLog hOptions =>
    rw [checkpoint, if_pos hClosed]
    refine Safe.ret hStart ⟨id, fun p' hDb => ?_⟩
    rw [if_pos hClosed]
    exact .closed hKept (hDb ▸ hClosed) (hDb ▸ hLog) (hDb ▸ hOptions)
  | @«open» s hOpened hRecovers hClosed hLog hOptions =>
    have hLoad := (hShaped.storable hLength hWithin).load_serialize
    have hTruncated : Recovers options {userTables p.db.tables} (s.save p.db.tables).truncate := recovers_truncate hLoad
    have hShared : userTables p.db.tables ∈ p.during .checkpoint P := Or.inr (Or.inr ⟨Or.inl rfl, hClosed, rfl⟩)
    have hSave : Recovers options (p.during .checkpoint P) (s.save p.db.tables) :=
      (hRecovers.save hLoad).weaken (Set.insert_subset hShared (p.subset_during .checkpoint P))
    refine (TupleStone.safe_checkpoint hOpened hClosed hLog (hRecovers.weaken (p.subset_during .checkpoint P)) hSave hSave.flush
      (hTruncated.weaken (Set.singleton_subset_iff.mpr hShared))).weaken (fun _ h => h) ?_
    rintro r w' ⟨rfl, hAfter⟩
    refine ⟨fun _ => hClosed, fun p' hDb => ?_⟩
    rw [hClosed, if_neg Bool.false_ne_true]
    refine .open hAfter hTruncated ?_ ?_ ?_
    · rw [hDb]
      exact hClosed
    · rw [hDb]
      rfl
    · rw [hDb]
      exact hOptions

/-- Closing saves the tables and keeps the log. -/
theorem Serving.safe_close (h : Serving options w p P) (hShaped : Shaped p.db.tables)
    (hLength : (serializeTables p.db.tables).length < 2 ^ 32) (hWithin : Within .loader p.db.tables) :
    Safe Files.handler (Kept (Recovers options (p.during .close P))) (closeDatabase p.db) w
      (fun r w' => (r.2.closed = false → p.db.closed = false) ∧ ∀ p' : Process, p'.db = r.2 →
        Serving options w' p' (if p.db.closed then P else insert (userTables p.db.tables) P)) := by
  have hStart := h.kept.weaken (p.subset_during .close P)
  cases h with
  | closed hKept hClosed hLog hOptions =>
    rw [closeDatabase, if_pos hClosed]
    refine Safe.ret hStart ⟨id, fun p' hDb => ?_⟩
    rw [if_pos hClosed]
    exact .closed hKept (hDb ▸ hClosed) (hDb ▸ hLog) (hDb ▸ hOptions)
  | @«open» s hOpened hRecovers hClosed hLog hOptions =>
    have hLoad := (hShaped.storable hLength hWithin).load_serialize
    have hShared : userTables p.db.tables ∈ p.during .close P := Or.inr (Or.inr ⟨Or.inr rfl, hClosed, rfl⟩)
    have hSave := hRecovers.save hLoad
    have hDuring := hSave.weaken (Set.insert_subset hShared (p.subset_during .close P))
    refine (safe_closeDatabase hOpened hClosed hLog (hRecovers.weaken (p.subset_during .close P)) hDuring hDuring.flush).weaken
      (fun _ h => h) ?_
    rintro r w' ⟨rfl, hAfter⟩
    refine ⟨fun _ => hClosed, fun p' hDb => ?_⟩
    rw [hClosed, if_neg Bool.false_ne_true]
    refine .closed ⟨_, hAfter.represents, hSave.flush⟩ ?_ ?_ ?_
    · rw [hDb]
    · rw [hDb]
    · rw [hDb]
      exact hOptions

/-- A served call leaves a serving process, and if the database is open, it was open before and acknowledged its commit. -/
structure Served (options : Options) (w : Files.World FileId) (p : Process) (act : Act) (P : Set Tables) (response : Response)
    (p' : Process) : Prop where
  serving : Serving options w p' (p.after act response P)
  opened : p'.db.closed = false → p.db.closed = false ∧ (p.committing act = none ∨ response.toStatus = .ok)

/-- What the files may yield after a call they may yield during it. -/
theorem after_subset_during (p : Process) (act : Act) (response : Response) (P : Set Tables) :
    p.after act response P ⊆ p.during act P := by
  rw [after]
  cases hCommits : p.committing act with
  | some tables =>
    dsimp only
    split
    · rintro found (hNew | ⟨-, hOld⟩)
      · exact Or.inr (Or.inl (by rw [hCommits, hNew]; rfl))
      · exact Or.inl hOld
    · exact p.subset_during act P
  | none =>
    cases hClosed : p.db.closed with
    | true => exact p.subset_during act P
    | false =>
      dsimp only
      rw [if_neg Bool.false_ne_true]
      split
      · rename_i hAct
        exact Set.singleton_subset_iff.mpr (Or.inr (Or.inr ⟨Or.inl hAct, hClosed, rfl⟩))
      split
      · rename_i hAct
        exact Set.insert_subset (Or.inr (Or.inr ⟨Or.inr hAct, hClosed, rfl⟩)) (p.subset_during act P)
      · exact p.subset_during act P

/-- A call that answers what a file program ends with. -/
theorem safe_answer {program : Io (Status × Database)} {post : Status × Database → Files.World FileId → Prop}
    {respond : Status × Database → Response} {after : Status × Database → Process}
    (hSafe : Safe Files.handler (Kept (Recovers options (p.during act P))) program w post)
    (hPost : ∀ r w', post r w' → Served options w' p act P (respond r) (after r)) :
    Safe Files.handler (Kept (Recovers options (p.during act P))) (program >>= fun r => pure (Outcome.done (respond r, after r))) w
      (fun answer w' => ∀ response p', answer = .done (response, p') → Served options w' p act P response p') := by
  refine Safe.bind hSafe fun r w' hResult => ?_
  have hServed := hPost r w' hResult
  refine Safe.ret (hServed.serving.kept.weaken (p.after_subset_during act (respond r) P)) ?_
  rintro response p' ⟨⟩
  exact hServed

/-- One call, killed anywhere inside or not at all. -/
theorem Serving.serves (h : Serving options w p P) (hHolds : p.Holds Shaped) (c : Call) (hFits : p.Fits (p.act c)) :
    Safe Files.handler (Kept (Recovers options (p.during (p.act c) P))) (p.call c) w (fun answer w' =>
      ∀ response p', answer = .done (response, p') → Served options w' p (p.act c) P response p') := by
  have hWorks := works p c
  generalize p.act c = act at hWorks hFits ⊢
  generalize p.call c = program at hWorks ⊢
  cases hWorks with
  | quiet hAnswer =>
    refine Safe.ret (h.kept.weaken (p.subset_during act P)) fun response p' hDone => ?_
    have hQuiet := hAnswer response p' hDone
    constructor
    · rw [after_of_quiet hQuiet]
      exact h.quiet hQuiet
    · exact fun hNot => ⟨hQuiet.closed.symm.trans hNot, Or.inl hQuiet.nothing⟩
  | @commit tables respond connections handles hCommits hRespond =>
    obtain ⟨hPayload, hWithin⟩ := hFits.commit tables hCommits
    have hInsert : insert (userTables tables) P ⊆ p.during act P := by
      apply Set.insert_subset
      · exact Or.inr (Or.inl (by rw [hCommits]; rfl))
      · exact p.subset_during act P
    have hSafe := (h.safe_persist (hHolds.committing preserved_shaped hCommits) hPayload hWithin).weaken
      (fun _ hKept => hKept.weaken hInsert) (fun _ _ h => h)
    refine safe_answer hSafe fun r w' ⟨hOpen, hServing⟩ => ⟨?_, fun hNot => ?_⟩
    · rw [after, hCommits]
      dsimp only
      rw [hRespond]
      exact hServing _ rfl
    · obtain ⟨hClosed, hOk⟩ := hOpen hNot
      exact ⟨hClosed, Or.inr ((hRespond r.1).trans hOk)⟩
  | checkpoint hAct =>
    subst hAct
    obtain ⟨hLength, hWithin⟩ := hFits.save (Or.inl rfl)
    have hSafe := h.safe_checkpoint hHolds.shared hLength hWithin
    refine safe_answer hSafe fun r w' ⟨hOpen, hServing⟩ => ⟨hServing _ rfl, fun hNot => ⟨hOpen hNot, Or.inl rfl⟩⟩
  | close hAct =>
    subst hAct
    obtain ⟨hLength, hWithin⟩ := hFits.save (Or.inr rfl)
    have hSafe := h.safe_close hHolds.shared hLength hWithin
    refine safe_answer hSafe fun r w' ⟨hOpen, hServing⟩ => ⟨hServing _ rfl, fun hNot => ⟨hOpen hNot, Or.inl rfl⟩⟩

/-- The shared user tables after a call that does not stray. -/
theorem shared_after {c : Call} (h : Possible (p.call c) (.done (response, p'))) (hKept : ¬ p.Strays (p.act c)) :
    userTables p'.db.tables = ((p.committing (p.act c)).map userTables).getD (userTables p.db.tables) := by
  have hWorks := works p c
  generalize p.act c = act at hWorks hKept ⊢
  generalize p.call c = program at hWorks h
  cases hWorks with
  | quiet hAnswer =>
    have hQuiet := hAnswer response p' (possible_ret.mp h).symm
    rw [hQuiet.nothing]
    exact hQuiet.tables hKept
  | commit hCommits hRespond =>
    obtain ⟨⟨status, db⟩, hPersist, hRest⟩ := possible_bind.mp h
    cases possible_ret.mp hRest
    rw [hCommits]
    exact congrArg userTables (possible_persist hPersist).1
  | checkpoint hAct =>
    obtain ⟨⟨status, db⟩, hCheckpoint, hRest⟩ := possible_bind.mp h
    cases possible_ret.mp hRest
    rw [hAct]
    exact congrArg userTables (possible_checkpoint hCheckpoint)
  | close hAct =>
    obtain ⟨⟨status, db⟩, hClose, hRest⟩ := possible_bind.mp h
    cases possible_ret.mp hRest
    rw [hAct]
    exact congrArg userTables (possible_closeDatabase hClose)

end Process

/-! ## Histories -/

/-- The files after a kill, or the files with a running process. -/
inductive Machine where
  | down (disk : Files.Disk FileId)
  | up (w : Files.World FileId) (p : Process)

inductive Occurrence where
  | opened (db : Database)
  | called (p : Process) (c : Call) (response : Response)
  | killed
  | killedInside (p : Process) (c : Call)
  | killedOpening

/-- Processes one after the other on the files `first`. -/
inductive History (options : Options) (first : Files.Disk FileId) : List Occurrence → Machine → Prop where
  | start : History options first [] (.down first)
  | opened {events : List Occurrence} {disk : Files.Disk FileId} {db : Database} {w : Files.World FileId}
      (h : History options first events (.down disk)) (hOpen : opens options disk = (.ok db, w)) :
      History options first (events ++ [.opened db]) (.up w { db := db })
  | called {events : List Occurrence} {w w' : Files.World FileId} {p p' : Process} {c : Call} {response : Response}
      (h : History options first events (.up w p)) (hFits : p.Fits (p.act c))
      (hCall : run Files.handler (p.call c) w = (.done (response, p'), w')) :
      History options first (events ++ [.called p c response]) (.up w' p')
  | killed {events : List Occurrence} {w : Files.World FileId} {p : Process} {disk : Files.Disk FileId}
      (h : History options first events (.up w p)) (hDisk : Files.Survives w disk) :
      History options first (events ++ [.killed]) (.down disk)
  | killedInside {events : List Occurrence} {w w' : Files.World FileId} {p : Process} {c : Call} {disk : Files.Disk FileId}
      (h : History options first events (.up w p)) (hFits : p.Fits (p.act c)) (hVisit : w' ∈ visits Files.handler (p.call c) w)
      (hDisk : Files.Survives w' disk) : History options first (events ++ [.killedInside p c]) (.down disk)
  | killedOpening {events : List Occurrence} {disk disk' : Files.Disk FileId} {w : Files.World FileId}
      (h : History options first events (.down disk)) (hVisit : w ∈ visits Files.handler (openDatabase options) (Files.ofDisk disk))
      (hDisk : Files.Survives w disk') : History options first (events ++ [.killedOpening]) (.down disk')

/-- What the files may yield after an occurrence. -/
def Occurrence.after (P : Set Tables) : Occurrence → Set Tables
  | .opened db => {userTables db.tables}
  | .called p c response => p.after (p.act c) response P
  | .killedInside p c => p.during (p.act c) P
  | _ => P

/-- The user tables that the files may yield after the occurrences. -/
def expected (P : Set Tables) (events : List Occurrence) : Set Tables := events.foldl Occurrence.after P

theorem expected_append (P : Set Tables) (events : List Occurrence) (e : Occurrence) :
    expected P (events ++ [e]) = e.after (expected P events) := by
  rw [expected, List.foldl_append]
  rfl

inductive Sound (options : Options) (P : Set Tables) : Machine → Prop where
  | down {disk : Files.Disk FileId} {tables : Tables} (hYields : Yields options (Disk.store disk) tables)
      (hTables : userTables tables ∈ P) : Sound options P (.down disk)
  | up {w : Files.World FileId} {p : Process} (hServing : p.Serving options w P) (hHolds : p.Holds Shaped) :
      Sound options P (.up w p)

theorem possible_of_run {α : Type} {program : Io α} {w w' : Files.World FileId} {a : α}
    (h : run Files.handler program w = (a, w')) : Possible program a := by
  have hPossible : Possible program (run Files.handler program w).1 := possible_run program w
  rwa [h] at hPossible

variable {first disk : Files.Disk FileId} {db : Database} {w : Files.World FileId} {events : List Occurrence} {m : Machine}

theorem History.sound (hFirst : opens options first = (.ok db, w)) (h : History options first events m) :
    Sound options (expected {userTables db.tables} events) m := by
  induction h with
  | start => exact .down (yields_of_opens hFirst) rfl
  | @opened events disk db' w' _ hOpen ih =>
    rw [expected_append]
    have hResult := ((yields_of_opens hOpen).safe_open (P := Set.univ) trivial).result
    rw [show run Files.handler (openDatabase options) (Files.ofDisk disk) = (.ok db', w') from hOpen] at hResult
    obtain ⟨_, s', ⟨⟩, -, hOptions, hClosed, hLog, hOpened, hRecovers⟩ := hResult
    have hLoaded : Loaded db'.tables := possible_openDatabase (possible_of_run hOpen)
    exact .up (.open hOpened hRecovers hClosed hLog hOptions) (.start hLoaded.shaped)
  | @called events w w' p p' c response _ hFits hCall ih =>
    rw [expected_append]
    cases ih with
    | up hServing hHolds =>
      have hResult := (hServing.serves hHolds c hFits).result
      rw [hCall] at hResult
      exact .up (hResult response p' rfl).serving (hHolds.call preserved_shaped (possible_of_run hCall))
  | killed _ hDisk ih =>
    rw [expected_append]
    cases ih with
    | up hServing hHolds =>
      obtain ⟨tables, hYields, hTables⟩ := hServing.kept.survives hDisk
      exact .down hYields hTables
  | killedInside _ hFits hVisit hDisk ih =>
    rw [expected_append]
    cases ih with
    | up hServing hHolds =>
      obtain ⟨tables, hYields, hTables⟩ := ((hServing.serves hHolds _ hFits).visited _ hVisit).survives hDisk
      exact .down hYields hTables
  | killedOpening _ hVisit hDisk ih =>
    rw [expected_append]
    cases ih with
    | down hYields hTables =>
      obtain ⟨tables, hYields', hTables'⟩ := ((hYields.safe_open hTables).visited _ hVisit).survives hDisk
      exact .down hYields' hTables'

theorem Sound.opens (h : Sound options P (.down disk)) : ∃ db w, opens options disk = (.ok db, w) ∧ userTables db.tables ∈ P := by
  cases h with
  | down hYields hTables =>
    obtain ⟨db, s', hResult, hSame, -⟩ := (hYields.safe_open (P := Set.univ) trivial).result
    exact ⟨db, _, Prod.ext hResult rfl, hSame ▸ hTables⟩

/-! ## Invariants of the tables -/

/-- The files yield such tables, and a process holds them. -/
inductive Steady (T : Tables → Prop) (P : Set Tables) : Machine → Prop where
  | down {disk : Files.Disk FileId} (hYields : ∀ found ∈ P, T found) : Steady T P (.down disk)
  | up {w : Files.World FileId} {p : Process} (hYields : ∀ found ∈ P, T found) (hHolds : p.Holds T) : Steady T P (.up w p)

namespace Process

variable {T : Tables → Prop} {p : Process} {act : Act}

theorem Holds.during (hT : Preserved T) (hUser : ∀ {tables}, T (userTables tables) ↔ T tables) (h : p.Holds T)
    (hYields : ∀ found ∈ P, T found) : ∀ found ∈ p.during act P, T found := by
  rintro found (hOld | hNew | ⟨-, -, rfl⟩)
  · exact hYields found hOld
  · obtain ⟨tables, hCommits, rfl⟩ := Option.map_eq_some_iff.mp hNew
    exact hUser.mpr (h.committing hT hCommits)
  · exact hUser.mpr h.shared

end Process

/-- What statements and refreshing preserve, as a property of the user tables, holds throughout every history. -/
theorem History.steady {T : Tables → Prop} (hT : Preserved T) (hUser : ∀ {tables}, T (userTables tables) ↔ T tables)
    (hFirst : opens options first = (.ok db, w)) (hTables : T db.tables) (h : History options first events m) :
    Steady T (expected {userTables db.tables} events) m := by
  induction h with
  | start =>
    apply Steady.down
    rintro found rfl
    exact hUser.mpr hTables
  | @opened events disk db' w' h hOpen ih =>
    rw [expected_append]
    obtain ⟨db'', w'', hAgain, hMem⟩ := (h.sound hFirst).opens
    cases hAgain.symm.trans hOpen
    cases ih with
    | down hYields =>
      have hLoaded := hYields _ hMem
      refine .up ?_ (.start (hUser.mp hLoaded))
      rintro found rfl
      exact hLoaded
  | called h hFits hCall ih =>
    rw [expected_append]
    cases ih with
    | up hYields hHolds =>
      refine .up (fun found hFound => ?_) (hHolds.call hT (possible_of_run hCall))
      exact hHolds.during hT hUser hYields found (Process.after_subset_during _ _ _ _ hFound)
  | killed h hDisk ih =>
    rw [expected_append]
    cases ih with
    | up hYields hHolds => exact .down hYields
  | killedInside h hFits hVisit hDisk ih =>
    rw [expected_append]
    cases ih with
    | up hYields hHolds => exact .down (hHolds.during hT hUser hYields)
  | killedOpening h hVisit hDisk ih =>
    rw [expected_append]
    cases ih with
    | down hYields => exact .down hYields

theorem History.holds {T : Tables → Prop} (hT : Preserved T) (hUser : ∀ {tables}, T (userTables tables) ↔ T tables)
    (hFirst : opens options first = (.ok db, w)) (hTables : T db.tables) {w' : Files.World FileId} {p : Process}
    (h : History options first events (.up w' p)) : p.Holds T := by
  cases h.steady hT hUser hFirst hTables with
  | up hYields hHolds => exact hHolds

end TupleStone
