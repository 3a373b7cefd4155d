import TupleStone.Lib.OpProgram
import Mathlib.Logic.Function.Basic

/-! # Buffered file streams

Operations on named files: a stream holds written bytes until they are flushed, and closing flushes. The
handler below is the platform on which nothing fails; renaming replaces the target in one step. What a kill
leaves of a file is its content and some prefix of the bytes that were still buffered.
-/

set_option autoImplicit false

inductive FileOp (F : Type) where
  | create (f : F)
  | openAppend (f : F)
  | write (f : F) (bytes : List UInt8)
  | flush (f : F)
  | close (f : F)
  | read (f : F)
  | fileSize (f : F)
  | resize (f : F) (size : Nat)
  | rename (f g : F)
  | remove (f : F)
  | sync (f : F)
  deriving DecidableEq, Repr

/-- Whether the operation succeeded; for a read the whole content; for a size the size; for a synchronisation
nothing when the file cannot be opened. -/
def FileOp.Result {F : Type} : FileOp F → Type
  | read _ => Option (List UInt8)
  | fileSize _ => Option Nat
  | sync _ => Option Bool
  | _ => Bool

namespace Files

variable {F : Type}

abbrev Program (F α : Type) := OpProgram (FileOp F) FileOp.Result α

section Operations

def create (f : F) : Program F Bool := OpProgram.perform (FileOp.create f)
def openAppend (f : F) : Program F Bool := OpProgram.perform (FileOp.openAppend f)
def write (f : F) (bytes : List UInt8) : Program F Bool := OpProgram.perform (FileOp.write f bytes)
def flush (f : F) : Program F Bool := OpProgram.perform (FileOp.flush f)
def close (f : F) : Program F Bool := OpProgram.perform (FileOp.close f)
def read (f : F) : Program F (Option (List UInt8)) := OpProgram.perform (FileOp.read f)
def fileSize (f : F) : Program F (Option Nat) := OpProgram.perform (FileOp.fileSize f)
def resize (f : F) (size : Nat) : Program F Bool := OpProgram.perform (FileOp.resize f size)
def rename (f g : F) : Program F Bool := OpProgram.perform (FileOp.rename f g)
def remove (f : F) : Program F Bool := OpProgram.perform (FileOp.remove f)
def sync (f : F) : Program F (Option Bool) := OpProgram.perform (FileOp.sync f)

end Operations

structure FileState where
  content : Option (List UInt8)
  buffer : List UInt8
  deriving DecidableEq, Repr

abbrev World (F : Type) := F → FileState
abbrev Disk (F : Type) := F → Option (List UInt8)

def FileState.flushed (s : FileState) : FileState := ⟨s.content.map (· ++ s.buffer), []⟩

def resized (size : Nat) (bytes : List UInt8) : List UInt8 :=
  bytes.take size ++ List.replicate (size - bytes.length) 0

variable [DecidableEq F]

def handler (w : World F) : (op : FileOp F) → op.Result × World F
  | .create f => (true, Function.update w f ⟨some [], []⟩)
  | .openAppend f => (true, Function.update w f ⟨some ((w f).content.getD []), (w f).buffer⟩)
  | .write f bytes => (true, Function.update w f ⟨(w f).content, (w f).buffer ++ bytes⟩)
  | .flush f => (true, Function.update w f (w f).flushed)
  | .close f => (true, Function.update w f (w f).flushed)
  | .read f => ((w f).content, w)
  | .fileSize f => ((w f).content.map List.length, w)
  | .resize f size => (true, Function.update w f ⟨(w f).content.map (resized size), (w f).buffer⟩)
  | .rename f g =>
    match (w f).content with
    | none => (false, w)
    | some bytes => (true, Function.update (Function.update w f ⟨none, []⟩) g ⟨some bytes, []⟩)
  | .remove f => (true, Function.update w f ⟨none, []⟩)
  | .sync _ => (some true, w)

/-- `d` is a disk that a process killed in world `w` may leave behind. -/
def Survives (w : World F) (d : Disk F) : Prop :=
  ∀ f, match (w f).content with
    | none => d f = none
    | some bytes => ∃ kept, kept <+: (w f).buffer ∧ d f = some (bytes ++ kept)

/-- A new process sees the disk and has nothing buffered. -/
def ofDisk (d : Disk F) : World F := fun f => ⟨d f, []⟩

def toDisk (w : World F) : Disk F := fun f => (w f).content

omit [DecidableEq F] in
theorem survives_toDisk (w : World F) : Survives w (toDisk w) := by
  intro f
  cases h : (w f).content with
  | none => simp [toDisk, h]
  | some bytes => exact ⟨[], List.nil_prefix, by simp [toDisk, h]⟩

omit [DecidableEq F] in
theorem Survives.of_buffer_nil {w : World F} {d : Disk F} (h : Survives w d) {f : F} (hBuffer : (w f).buffer = []) :
    d f = (w f).content := by
  have hf := h f
  split at hf
  · rename_i hNone
    rw [hf, hNone]
  · rename_i bytes hSome
    obtain ⟨kept, hKept, hd⟩ := hf
    rw [hBuffer, List.prefix_nil] at hKept
    rw [hd, hKept, hSome, List.append_nil]

/-! ## Rules for a run that is killed anywhere -/

section Rules

open OpProgram

variable {α : Type} {kept : World F → Prop} {w : World F} {post : α → World F → Prop} {f g : F}

theorem safe_create {k : Bool → Program F α} (hKept : kept w)
    (hNext : Safe handler kept (k true) (Function.update w f ⟨some [], []⟩) post) :
    Safe handler kept (create f >>= k) w post := Safe.call hKept hNext

theorem safe_openAppend {k : Bool → Program F α} (hKept : kept w)
    (hNext : Safe handler kept (k true) (Function.update w f ⟨some ((w f).content.getD []), (w f).buffer⟩) post) :
    Safe handler kept (openAppend f >>= k) w post := Safe.call hKept hNext

theorem safe_write {bytes : List UInt8} {k : Bool → Program F α} (hKept : kept w)
    (hNext : Safe handler kept (k true) (Function.update w f ⟨(w f).content, (w f).buffer ++ bytes⟩) post) :
    Safe handler kept (write f bytes >>= k) w post := Safe.call hKept hNext

theorem safe_flush {k : Bool → Program F α} (hKept : kept w)
    (hNext : Safe handler kept (k true) (Function.update w f (w f).flushed) post) :
    Safe handler kept (flush f >>= k) w post := Safe.call hKept hNext

theorem safe_close {k : Bool → Program F α} (hKept : kept w)
    (hNext : Safe handler kept (k true) (Function.update w f (w f).flushed) post) :
    Safe handler kept (close f >>= k) w post := Safe.call hKept hNext

theorem safe_read {k : Option (List UInt8) → Program F α} (hKept : kept w)
    (hNext : Safe handler kept (k (w f).content) w post) : Safe handler kept (read f >>= k) w post :=
  Safe.call hKept hNext

theorem safe_fileSize {k : Option Nat → Program F α} (hKept : kept w)
    (hNext : Safe handler kept (k ((w f).content.map List.length)) w post) :
    Safe handler kept (fileSize f >>= k) w post := Safe.call hKept hNext

theorem safe_resize {size : Nat} {k : Bool → Program F α} (hKept : kept w)
    (hNext : Safe handler kept (k true) (Function.update w f ⟨(w f).content.map (resized size), (w f).buffer⟩) post) :
    Safe handler kept (resize f size >>= k) w post := Safe.call hKept hNext

theorem safe_rename {bytes : List UInt8} {k : Bool → Program F α} (hContent : (w f).content = some bytes) (hKept : kept w)
    (hNext : Safe handler kept (k true) (Function.update (Function.update w f ⟨none, []⟩) g ⟨some bytes, []⟩) post) :
    Safe handler kept (rename f g >>= k) w post := by
  have hHandler : handler w (.rename f g) =
      (true, Function.update (Function.update w f ⟨none, []⟩) g ⟨some bytes, []⟩) := by
    simp only [handler, hContent]
    rfl
  refine Safe.call hKept ?_
  rw [hHandler]
  exact hNext

theorem safe_sync {k : Option Bool → Program F α} (hKept : kept w) (hNext : Safe handler kept (k (some true)) w post) :
    Safe handler kept (sync f >>= k) w post := Safe.call hKept hNext

end Rules

end Files
