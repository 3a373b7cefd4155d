import TupleStone.Lib.Files

/-! # A platform with stable storage and scripted failures

Each operation takes the next entry of a script that says whether it fails, and how many of the bytes it was to hand
over get through when it does; past the end of the script nothing fails. The content of a file reaches stable storage
when the file is synchronised, and in no other way.
-/

set_option autoImplicit false

inductive Fault where
  | none
  | fails (kept : Nat)
  deriving DecidableEq, Repr

namespace Files

variable {F : Type} [DecidableEq F]

/-- The answer to an operation that fails, and what it leaves. -/
def failed (w : World F) (kept : Nat) : (op : FileOp F) → op.Result × World F
  | .create _ => (false, w)
  | .openAppend _ => (false, w)
  | .write f bytes => (false, Function.update w f ⟨(w f).content.map (· ++ (w f).buffer ++ bytes.take kept), []⟩)
  | .flush f =>
    (false, Function.update w f ⟨(w f).content.map (· ++ (w f).buffer.take kept), (w f).buffer.drop kept⟩)
  | .close f => (false, Function.update w f ⟨(w f).content.map (· ++ (w f).buffer.take kept), []⟩)
  | .read _ => (none, w)
  | .fileSize _ => (none, w)
  | .resize _ _ => (false, w)
  | .rename _ _ => (false, w)
  | .remove _ => (false, w)
  | .sync _ => (if kept = 0 then none else some false, w)

/-- Stable storage after an operation that succeeds. -/
def stored (w : World F) (stable : Disk F) : FileOp F → Disk F
  | .sync f => Function.update stable f (w f).content
  | _ => stable

structure Platform (F : Type) where
  files : World F
  stable : Disk F
  faults : List Fault := []

def platform (s : Platform F) (op : FileOp F) : op.Result × Platform F :=
  match s.faults.headD .none with
  | .fails kept => ((failed s.files kept op).1, ⟨(failed s.files kept op).2, s.stable, s.faults.tail⟩)
  | .none => ((handler s.files op).1, ⟨(handler s.files op).2, stored s.files s.stable op, s.faults.tail⟩)

/-! ## One operation -/

section Operation

open OpProgram

variable {α : Type} {w : World F} {stable : Disk F} {faults : List Fault} {kept : Nat} {f g : F}

theorem run_operation (h : faults.headD .none = .none) (op : FileOp F) (k : op.Result → Program F α) :
    run platform (.call op k) ⟨w, stable, faults⟩ =
      run platform (k (handler w op).1) ⟨(handler w op).2, stored w stable op, faults.tail⟩ := by
  rw [run_call]
  simp only [platform, h]

theorem run_operation_fails (h : faults.headD .none = .fails kept) (op : FileOp F) (k : op.Result → Program F α) :
    run platform (.call op k) ⟨w, stable, faults⟩ =
      run platform (k (failed w kept op).1) ⟨(failed w kept op).2, stable, faults.tail⟩ := by
  rw [run_call]
  simp only [platform, h]

@[simp] theorem run_create {k : Bool → Program F α} (h : faults.headD .none = .none) :
    run platform (create f >>= k) ⟨w, stable, faults⟩ =
      run platform (k true) ⟨Function.update w f ⟨some [], []⟩, stable, faults.tail⟩ :=
  run_operation h (.create f) k

@[simp] theorem run_create_fails {k : Bool → Program F α} (h : faults.headD .none = .fails kept) :
    run platform (create f >>= k) ⟨w, stable, faults⟩ =
      run platform (k false) ⟨w, stable, faults.tail⟩ :=
  run_operation_fails h (.create f) k

@[simp] theorem run_openAppend {k : Bool → Program F α} (h : faults.headD .none = .none) :
    run platform (openAppend f >>= k) ⟨w, stable, faults⟩ =
      run platform (k true) ⟨Function.update w f ⟨some ((w f).content.getD []), (w f).buffer⟩, stable, faults.tail⟩ :=
  run_operation h (.openAppend f) k

@[simp] theorem run_write {bytes : List UInt8} {k : Bool → Program F α} (h : faults.headD .none = .none) :
    run platform (write f bytes >>= k) ⟨w, stable, faults⟩ =
      run platform (k true) ⟨Function.update w f ⟨(w f).content, (w f).buffer ++ bytes⟩, stable, faults.tail⟩ :=
  run_operation h (.write f bytes) k

@[simp] theorem run_write_fails {bytes : List UInt8} {k : Bool → Program F α} (h : faults.headD .none = .fails kept) :
    run platform (write f bytes >>= k) ⟨w, stable, faults⟩ =
      run platform (k false)
        ⟨Function.update w f ⟨(w f).content.map (· ++ (w f).buffer ++ bytes.take kept), []⟩, stable, faults.tail⟩ :=
  run_operation_fails h (.write f bytes) k

@[simp] theorem run_flush {k : Bool → Program F α} (h : faults.headD .none = .none) :
    run platform (flush f >>= k) ⟨w, stable, faults⟩ =
      run platform (k true) ⟨Function.update w f (w f).flushed, stable, faults.tail⟩ :=
  run_operation h (.flush f) k

@[simp] theorem run_flush_fails {k : Bool → Program F α} (h : faults.headD .none = .fails kept) :
    run platform (flush f >>= k) ⟨w, stable, faults⟩ =
      run platform (k false) ⟨Function.update w f
        ⟨(w f).content.map (· ++ (w f).buffer.take kept), (w f).buffer.drop kept⟩, stable, faults.tail⟩ :=
  run_operation_fails h (.flush f) k

@[simp] theorem run_close {k : Bool → Program F α} (h : faults.headD .none = .none) :
    run platform (close f >>= k) ⟨w, stable, faults⟩ =
      run platform (k true) ⟨Function.update w f (w f).flushed, stable, faults.tail⟩ :=
  run_operation h (.close f) k

@[simp] theorem run_close_fails {k : Bool → Program F α} (h : faults.headD .none = .fails kept) :
    run platform (close f >>= k) ⟨w, stable, faults⟩ =
      run platform (k false)
        ⟨Function.update w f ⟨(w f).content.map (· ++ (w f).buffer.take kept), []⟩, stable, faults.tail⟩ :=
  run_operation_fails h (.close f) k

@[simp] theorem run_read {k : Option (List UInt8) → Program F α} (h : faults.headD .none = .none) :
    run platform (read f >>= k) ⟨w, stable, faults⟩ =
      run platform (k (w f).content) ⟨w, stable, faults.tail⟩ :=
  run_operation h (.read f) k

@[simp] theorem run_fileSize {k : Option Nat → Program F α} (h : faults.headD .none = .none) :
    run platform (fileSize f >>= k) ⟨w, stable, faults⟩ =
      run platform (k ((w f).content.map List.length)) ⟨w, stable, faults.tail⟩ :=
  run_operation h (.fileSize f) k

@[simp] theorem run_resize {size : Nat} {k : Bool → Program F α} (h : faults.headD .none = .none) :
    run platform (resize f size >>= k) ⟨w, stable, faults⟩ =
      run platform (k true) ⟨Function.update w f ⟨(w f).content.map (resized size), (w f).buffer⟩, stable, faults.tail⟩ :=
  run_operation h (.resize f size) k

@[simp] theorem run_rename_fails {k : Bool → Program F α} (h : faults.headD .none = .fails kept) :
    run platform (rename f g >>= k) ⟨w, stable, faults⟩ =
      run platform (k false) ⟨w, stable, faults.tail⟩ :=
  run_operation_fails h (.rename f g) k

@[simp] theorem run_remove {k : Bool → Program F α} (h : faults.headD .none = .none) :
    run platform (remove f >>= k) ⟨w, stable, faults⟩ =
      run platform (k true) ⟨Function.update w f ⟨none, []⟩, stable, faults.tail⟩ :=
  run_operation h (.remove f) k

@[simp] theorem run_remove_fails {k : Bool → Program F α} (h : faults.headD .none = .fails kept) :
    run platform (remove f >>= k) ⟨w, stable, faults⟩ =
      run platform (k false) ⟨w, stable, faults.tail⟩ :=
  run_operation_fails h (.remove f) k

@[simp] theorem run_sync {k : Option Bool → Program F α} (h : faults.headD .none = .none) :
    run platform (sync f >>= k) ⟨w, stable, faults⟩ =
      run platform (k (some true)) ⟨w, Function.update stable f (w f).content, faults.tail⟩ :=
  run_operation h (.sync f) k

@[simp] theorem run_sync_fails {k : Option Bool → Program F α} (h : faults.headD .none = .fails kept) :
    run platform (sync f >>= k) ⟨w, stable, faults⟩ =
      run platform (k (if kept = 0 then none else some false)) ⟨w, stable, faults.tail⟩ :=
  run_operation_fails h (.sync f) k

theorem run_rename {bytes : List UInt8} {k : Bool → Program F α} (hContent : (w f).content = some bytes)
    (h : faults.headD .none = .none) :
    run platform (rename f g >>= k) ⟨w, stable, faults⟩ = run platform (k true)
      ⟨Function.update (Function.update w f ⟨none, []⟩) g ⟨some bytes, []⟩, stable, faults.tail⟩ := by
  have hHandler : handler w (.rename f g) =
      (true, Function.update (Function.update w f ⟨none, []⟩) g ⟨some bytes, []⟩) := by
    simp only [handler, hContent]
    rfl
  refine (run_operation h (.rename f g) k).trans ?_
  rw [hHandler]
  rfl

end Operation

/-! ## Runs without failures -/

theorem platform_nil (w : World F) (stable : Disk F) (op : FileOp F) :
    platform ⟨w, stable, []⟩ op = ((handler w op).1, ⟨(handler w op).2, stored w stable op, []⟩) := rfl

section Unfailing

open OpProgram

variable {α : Type}

/-- Without failures the platform answers as the plain one does. -/
theorem run_platform (p : Program F α) (w : World F) (stable : Disk F) :
    ∃ stable', run platform p ⟨w, stable, []⟩ = ((run handler p w).1, ⟨(run handler p w).2, stable', []⟩) := by
  induction p generalizing w stable with
  | ret a => exact ⟨stable, rfl⟩
  | call op next ih =>
    rw [run_operation rfl]
    exact ih _ _ _

theorem visits_platform (p : Program F α) (w : World F) (stable : Disk F) {s : Platform F}
    (h : s ∈ visits platform p ⟨w, stable, []⟩) : s.files ∈ visits handler p w := by
  induction p generalizing w stable with
  | ret a =>
    rw [List.mem_singleton.mp h]
    exact List.mem_singleton_self w
  | call op next ih =>
    obtain rfl | h := List.mem_cons.mp h
    · exact List.mem_cons_self
    · rw [platform_nil] at h
      exact List.mem_cons_of_mem _ (ih _ _ _ h)

/-- The program never synchronises a file. -/
inductive SyncFree : Program F α → Prop where
  | ret (a : α) : SyncFree (.ret a)
  | call {op : FileOp F} {next : op.Result → Program F α} (hOp : ∀ f, op ≠ .sync f) (hNext : ∀ r, SyncFree (next r)) :
      SyncFree (.call op next)

omit [DecidableEq F] in
theorem SyncFree.bind {β : Type} {p : Program F α} {k : α → Program F β} (hp : SyncFree p) (hk : ∀ a, SyncFree (k a)) :
    SyncFree (p >>= k) := by
  induction hp with
  | ret a => exact hk a
  | call hOp _ ih => exact .call hOp ih

omit [DecidableEq F] in
theorem SyncFree.perform {op : FileOp F} (hOp : ∀ f, op ≠ .sync f) :
    SyncFree (OpProgram.perform op : Program F op.Result) := .call hOp (fun r => .ret r)

theorem stored_of_not_sync (w : World F) (stable : Disk F) {op : FileOp F} (hOp : ∀ f, op ≠ .sync f) :
    stored w stable op = stable := by
  cases op with
  | sync f => exact absurd rfl (hOp f)
  | _ => rfl

theorem SyncFree.visits_stable {p : Program F α} (hp : SyncFree p) (w : World F) (stable : Disk F) {s : Platform F}
    (h : s ∈ visits platform p ⟨w, stable, []⟩) : s.stable = stable := by
  induction hp generalizing w with
  | ret a =>
    rw [List.mem_singleton.mp h]
  | call hOp _ ih =>
    obtain rfl | h := List.mem_cons.mp h
    · rfl
    · rw [platform_nil, stored_of_not_sync w stable hOp] at h
      exact ih _ _ h

end Unfailing

end Files
