import TupleStone.Api.Recovery

/-! # What a failed Open does to the database file

The destructor of the partially opened object closes it, and closing saves the tables the object holds. So the file
keeps its bytes only when they are already what the object would save.
-/

set_option autoImplicit false

namespace TupleStone

open OpProgram

/-- `Database::Open` on a disk, with the destruction of the object when it fails: the result and the files. -/
def opens (options : Options) (d : Files.Disk FileId) : Except Status Database × Files.World FileId :=
  run Files.handler (openDatabase options) (Files.ofDisk d)

def Disk.store (d : Files.Disk FileId) : Store := ⟨d .data, diskRecords d, []⟩

/-- The file is the saved form of `tables`, and so is, as loaded, the last committed snapshot in front of the first
invalid one, if there is any. -/
structure SavedBeforeInvalid (d : Files.Disk FileId) (tables : Tables) : Prop where
  file : d .data = some (serializeTables tables)
  loads : loadTablesBytes (serializeTables tables) = .ok tables
  log : ∃ good bad rest, committedSnapshots (diskRecords d) = good ++ bad :: rest ∧
    replaySnapshots tables good = .ok tables ∧ ∃ cause, loadTablesBytes bad = .error cause

/-- What the object holds when `Open` fails. -/
theorem stages_error {options : Options} {s s' : Store} {status : Status} {db : Database}
    (h : s.stages options = ((status, db), s')) (hStatus : status ≠ .ok) :
    (∃ cause, (openedData options s.data).1 = .error cause ∧ db.tables = OrderedMap.empty) ∨
      ∃ tables good bad rest, (openedData options s.data).1 = .ok tables ∧
        committedSnapshots s.durable = good ++ bad :: rest ∧ replaySnapshots tables good = .ok db.tables ∧
        ∃ cause, loadTablesBytes bad = .error cause := by
  rw [Store.stages] at h
  cases hData : (openedData options s.data).1 with
  | error cause =>
    rw [hData] at h
    cases h
    exact Or.inl ⟨_, rfl, rfl⟩
  | ok tables =>
    rw [hData] at h
    dsimp only at h
    rw [Store.recover_eq, Store.started] at h
    dsimp only at h
    cases hReplay : replaySnapshots tables (committedSnapshots s.durable) with
    | ok reached =>
      rw [hReplay] at h
      cases h
      exact absurd rfl hStatus
    | error failure =>
      obtain ⟨cause, reached⟩ := failure
      rw [hReplay] at h
      cases h
      obtain ⟨good, bad, rest, hSplit, hGood, cause, hBad, -⟩ := replaySnapshots_error hReplay
      exact Or.inr ⟨tables, good, bad, rest, rfl, hSplit, hGood, cause, hBad⟩

theorem stages_failed {options : Options} {d : Files.Disk FileId} {status : Status}
    (h : (opens options d).1 = .error status) : ∃ db s', (Disk.store d).stages options = ((status, db), s') ∧ status ≠ .ok ∧
      ((opens options d).2 .data).content = some (serializeTables db.tables) := by
  have hStart : Represents (Files.ofDisk d) (Disk.store d) := represents_ofDisk d
  obtain ⟨⟨⟨status', db⟩, s'⟩, hStages⟩ : ∃ r, (Disk.store d).stages options = r := ⟨_, rfl⟩
  cases hOk : decide (status' = .ok) with
  | true =>
    obtain rfl := of_decide_eq_true hOk
    have hSafe := safe_openDatabase (K := fun _ => True) hStart rfl rfl hStages trivial trivial trivial
    rw [opens, hSafe.result.1] at h
    cases h
  | false =>
    have hStatus := of_decide_eq_false hOk
    obtain ⟨hResult, s'', hEnd, hData⟩ := (safe_openDatabase_error hStart rfl rfl hStages hStatus).result
    rw [opens, hResult] at h
    cases h
    refine ⟨db, s', hStages, hStatus, ?_⟩
    rw [opens, hEnd.data, hData]

def truncatedDisk : Files.Disk FileId
  | .data => some [1, 2, 3]
  | _ => none

theorem load_truncated : loadTablesBytes [1, 2, 3] = .error (.incompatible (ascii "unsupported database format")) :=
  loadTablesWithin_eq (c := ⟨[1, 2, 3], 3⟩) (by decide +kernel)

theorem stages_truncated : (Disk.store truncatedDisk).stages {} =
    ((.incompatible (ascii "unsupported database format"), { options := {} }), (Disk.store truncatedDisk).started {}) := by
  have hData : (openedData {} (Disk.store truncatedDisk).data).1 = _ := load_truncated
  rw [Store.stages, hData]

theorem opens_truncated : (opens {} truncatedDisk).1 = .error (.incompatible (ascii "unsupported database format")) :=
  (safe_openDatabase_error (represents_ofDisk truncatedDisk) rfl rfl stages_truncated Status.noConfusion).result.1

/-- Opening the truncated file fails and replaces it by an empty database. -/
theorem truncated_file_replaced :
    ¬ ∀ options d status, (opens options d).1 = .error status → ((opens options d).2 .data).content = d .data := by
  intro hClaim
  have hSame := hClaim {} truncatedDisk _ opens_truncated
  obtain ⟨-, s'', hEnd, hData⟩ :=
    (safe_openDatabase_error (represents_ofDisk truncatedDisk) rfl rfl stages_truncated Status.noConfusion).result
  rw [opens, hEnd.data, hData] at hSame
  exact absurd hSame (by decide)

/-- A failed `Open` leaves the file as it was exactly when the file holds what recovery had reached. -/
theorem failedOpen_leaves_file_iff (options : Options) (d : Files.Disk FileId) (status : Status)
    (h : (opens options d).1 = .error status) :
    ((opens options d).2 .data).content = d .data ↔ ∃ tables, SavedBeforeInvalid d tables := by
  obtain ⟨db, s', hStages, hStatus, hContent⟩ := stages_failed h
  rw [hContent]
  obtain ⟨cause, hData, hEmpty⟩ | ⟨tables, good, bad, rest, hData, hSplit, hGood, hBad⟩ := stages_error hStages hStatus
  · constructor
    · intro hSame
      rw [Disk.store, ← hSame, hEmpty] at hData
      rw [openedData, loadTablesBytes, (storable_empty .loader).load_serialize] at hData
      cases hData
    · rintro ⟨tables, hSaved⟩
      rw [Disk.store, hSaved.file, openedData, hSaved.loads] at hData
      cases hData
  · constructor
    · intro hSame
      rw [Disk.store, ← hSame, openedData] at hData
      have hStorable := storable_replaySnapshots (storable_of_load hData) hGood
      have hTables : tables = db.tables := Except.ok.inj (hData.symm.trans hStorable.load_serialize)
      rw [hTables] at hGood
      exact ⟨db.tables, hSame.symm, hStorable.load_serialize, good, bad, rest, hSplit, hGood, hBad⟩
    · rintro ⟨saved, hSaved⟩
      rw [Disk.store, hSaved.file, openedData, hSaved.loads] at hData
      cases hData
      obtain ⟨good', bad', rest', hSplit', hGood', cause', hBad'⟩ := hSaved.log
      obtain ⟨cause, hBad⟩ := hBad
      have hStop := replaySnapshots_invalid hGood hBad rest
      have hStop' := replaySnapshots_invalid hGood' hBad' rest'
      have hLog : good ++ bad :: rest = good' ++ bad' :: rest' := hSplit.symm.trans hSplit'
      rw [hLog, hStop'] at hStop
      have hReached : tables = db.tables := congrArg Prod.snd (Except.error.inj hStop)
      rw [hSaved.file, hReached]

theorem failedOpen_leaves_truncated_iff :
    ((opens {} truncatedDisk).2 .data).content = truncatedDisk .data ↔ ∃ tables, SavedBeforeInvalid truncatedDisk tables :=
  failedOpen_leaves_file_iff {} truncatedDisk _ opens_truncated

end TupleStone
