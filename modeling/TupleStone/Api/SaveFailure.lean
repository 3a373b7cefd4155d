import TupleStone.Api.Database
import TupleStone.Lib.Platform
import Mathlib.Data.List.TakeDrop

/-! # Replacing the data file when operations fail

`SaveTables` flushes the temporary file without looking at the result, so that a part of the bytes can be installed;
and when the rename fails it removes the data file before it tries again.
-/

set_option autoImplicit false

namespace TupleStone

open OpProgram

/-- Which steps of `SaveTables` fail. A stream that fails to hand over its bytes hands over some of them. -/
structure SavePattern where
  create : Fault := .none
  write : Fault := .none
  flush : Fault := .none
  close : Fault := .none
  rename : Fault := .none
  remove : Fault := .none
  renameAgain : Fault := .none
  deriving DecidableEq, Repr

/-- What a file holds whose stream is flushed and closed with `bytes` in its buffer. -/
def handedOver (flush close : Fault) (bytes : Bytes) : Bytes :=
  match flush, close with
  | .fails flushed, .fails closed => bytes.take flushed ++ (bytes.drop flushed).take closed
  | _, _ => bytes

namespace SavePattern

def script (p : SavePattern) : List Fault :=
  if p.write = .none then [p.create, p.write, p.flush, p.close, p.rename, p.remove, p.renameAgain]
  else [p.create, p.write, p.close]

/-- The status and the file at the path. -/
def outcome (p : SavePattern) (bytes : Bytes) (old : Option Bytes) : Status × Option Bytes :=
  if p.create ≠ .none then (.ioError (ascii "cannot create database file"), old)
  else if p.write ≠ .none then (.ioError (ascii "cannot write database file"), old)
  else if p.rename = .none ∨ p.renameAgain = .none then (.ok, some (handedOver p.flush p.close bytes))
  else (.ioError (ascii "cannot replace database file: "), if p.remove = .none then none else old)

/-- The temporary file is complete when it is closed. -/
def Whole (p : SavePattern) (bytes : Bytes) : Prop :=
  match p.flush, p.close with
  | .fails flushed, .fails closed => bytes.length ≤ flushed + closed
  | _, _ => True

/-- The temporary file is written, and then the only copy is not at the path any more. -/
def Lost (p : SavePattern) (old : Option Bytes) : Prop :=
  p.rename ≠ .none ∧ p.remove = .none ∧ p.renameAgain ≠ .none ∧ old ≠ none

theorem handedOver_eq_iff (p : SavePattern) (bytes : Bytes) : handedOver p.flush p.close bytes = bytes ↔ p.Whole bytes := by
  rw [Whole]
  cases p.flush with
  | none => simp [handedOver]
  | fails flushed =>
    cases p.close with
    | none => simp [handedOver]
    | fails closed =>
      have hTaken : bytes.take flushed ++ (bytes.drop flushed).take closed = bytes.take (flushed + closed) :=
        List.take_add.symm
      simp only [handedOver]
      rw [hTaken, List.take_eq_self_iff]

end SavePattern

/-! ## The steps -/

/-- Replacing the file by the temporary file. -/
def replaceFile : Io Status := do
  if ← Files.rename .temp .data then pure .ok
  else
    let _ ← Files.remove .data
    if ← Files.rename .temp .data then pure .ok
    else pure (.ioError (ascii "cannot replace database file: "))

theorem run_replaceFile {w : Files.World FileId} {written : Bytes} (hTemp : (w .temp).content = some written)
    (stable : Files.Disk FileId) (rename remove renameAgain : Fault) :
    let r := run Files.platform replaceFile ⟨w, stable, [rename, remove, renameAgain]⟩
    (r.1, (r.2.files .data).content) =
      if rename = .none ∨ renameAgain = .none then (.ok, some written)
      else (.ioError (ascii "cannot replace database file: "), if remove = .none then none else (w .data).content) := by
  have hRemoved : (Function.update w .data ⟨none, []⟩ .temp).content = some written := by
    rw [Function.update_of_ne (by decide), hTemp]
  cases rename with
  | none => simp [replaceFile, Files.run_rename hTemp]
  | fails kept =>
    cases remove with
    | none => cases renameAgain <;> simp [replaceFile, Files.run_rename hRemoved]
    | fails kept => cases renameAgain <;> simp [replaceFile, Files.run_rename hTemp]

theorem run_closeStream {w : Files.World FileId} {bytes : Bytes} (hTemp : w .temp = ⟨some [], bytes⟩)
    (stable : Files.Disk FileId) (flush close : Fault) (rest : List Fault) {α : Type} (k : Io α) :
    run Files.platform (do let _ ← Files.flush .temp; let _ ← Files.close .temp; k) ⟨w, stable, flush :: close :: rest⟩ =
      run Files.platform k ⟨Function.update w .temp ⟨some (handedOver flush close bytes), []⟩, stable, rest⟩ := by
  cases flush <;> cases close <;> simp [hTemp, handedOver, Files.FileState.flushed]

/-- What `SaveTables` returns under a pattern of failures, and the file at the path afterwards. -/
def saves (tables : Tables) (s : Files.Platform FileId) (p : SavePattern) : Status × Option Bytes :=
  let r := run Files.platform (saveTables tables) { s with faults := p.script }
  (r.1, (r.2.files .data).content)

theorem saves_eq (tables : Tables) (s : Files.Platform FileId) (p : SavePattern) :
    saves tables s p = p.outcome (serializeTables tables) (s.files .data).content := by
  obtain ⟨files, stable, faults⟩ := s
  obtain ⟨create, write, flush, close, rename, remove, renameAgain⟩ := p
  generalize hBytes : serializeTables tables = bytes
  rw [saves, saveTables, hBytes]
  cases create with
  | fails kept => cases write <;> rfl
  | none =>
    cases write with
    | fails kept => cases close <;> rfl
    | none =>
      rw [SavePattern.script, if_pos rfl, Files.run_create rfl]
      dsimp only [List.tail]
      rw [if_pos rfl, Files.run_write rfl]
      dsimp only [List.tail]
      rw [if_pos rfl]
      rw [← replaceFile]
      have hTemp : Function.update (Function.update files .temp ⟨some [], []⟩) .temp
          ⟨(Function.update files .temp ⟨some [], []⟩ .temp).content,
            (Function.update files .temp ⟨some [], []⟩ .temp).buffer ++ bytes⟩ .temp = ⟨some [], bytes⟩ := by
        simp
      rw [run_closeStream hTemp, run_replaceFile (by rw [Function.update_self])]
      simp [SavePattern.outcome]

/-! ## When the replacement is atomic -/

/-- The file at the path is the old one or the new one, and the new one if the call succeeds. -/
def Atomic (bytes : Bytes) (old : Option Bytes) (result : Status × Option Bytes) : Prop :=
  (result.2 = old ∨ result.2 = some bytes) ∧ (result.1 = .ok → result.2 = some bytes)

/-- A rename that fails twice: the file that was removed in between is gone. -/
theorem rename_failure_removed (tables : Tables) (stable : Files.Disk FileId) (bytes : Bytes) :
    saves tables ⟨Files.ofDisk (fun _ => some bytes), stable, []⟩ { rename := .fails 0, renameAgain := .fails 0 } =
      (.ioError (ascii "cannot replace database file: "), none) :=
  saves_eq _ _ _

end TupleStone
