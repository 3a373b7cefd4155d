import Mathlib.Data.List.Basic
import Mathlib.Tactic.Common

/-! # Programs over the operations of an environment

A program is a tree of operations whose results choose what follows. A handler answers every operation and
changes the environment; the worlds a run visits are those between its operations, where it may be killed.
`Possible` assumes nothing about the answers.
-/

set_option autoImplicit false

inductive OpProgram (Op : Type) (Res : Op → Type) (α : Type) where
  | ret (a : α)
  | call (op : Op) (next : Res op → OpProgram Op Res α)

namespace OpProgram

variable {Op : Type} {Res : Op → Type} {W α β : Type}

protected def bind : OpProgram Op Res α → (α → OpProgram Op Res β) → OpProgram Op Res β
  | ret a, k => k a
  | call op next, k => call op (fun r => (next r).bind k)

instance : Monad (OpProgram Op Res) where
  pure := ret
  bind := OpProgram.bind

@[simp] theorem pure_eq (a : α) : (pure a : OpProgram Op Res α) = ret a := rfl
@[simp] theorem ret_bind (a : α) (k : α → OpProgram Op Res β) : (ret a >>= k) = k a := rfl
@[simp] theorem call_bind (op : Op) (next : Res op → OpProgram Op Res α) (k : α → OpProgram Op Res β) :
    (call op next >>= k) = call op (fun r => next r >>= k) := rfl

theorem bind_ret (p : OpProgram Op Res α) : p >>= ret = p := by
  induction p with
  | ret a => rfl
  | call op next ih => exact congrArg (call op) (funext ih)

theorem bind_assoc {γ : Type} (p : OpProgram Op Res α) (k : α → OpProgram Op Res β) (l : β → OpProgram Op Res γ) :
    p >>= k >>= l = p >>= fun a => k a >>= l := by
  induction p with
  | ret a => rfl
  | call op next ih => exact congrArg (call op) (funext ih)

instance : LawfulMonad (OpProgram Op Res) := LawfulMonad.mk' _
  bind_ret (fun _ _ => rfl) bind_assoc

def perform (op : Op) : OpProgram Op Res (Res op) := call op ret

/-! ## Runs under a handler -/

def run (handler : W → (op : Op) → Res op × W) : OpProgram Op Res α → W → α × W
  | ret a, w => (a, w)
  | call op next, w => run handler (next (handler w op).1) (handler w op).2

/-- The worlds between the operations of a run, the first and the last included. -/
def visits (handler : W → (op : Op) → Res op × W) : OpProgram Op Res α → W → List W
  | ret _, w => [w]
  | call op next, w => w :: visits handler (next (handler w op).1) (handler w op).2

variable (handler : W → (op : Op) → Res op × W)

@[simp] theorem run_ret (a : α) (w : W) : run handler (ret a : OpProgram Op Res α) w = (a, w) := rfl

@[simp] theorem run_call (op : Op) (next : Res op → OpProgram Op Res α) (w : W) :
    run handler (call op next) w = run handler (next (handler w op).1) (handler w op).2 := rfl

theorem run_bind (p : OpProgram Op Res α) (k : α → OpProgram Op Res β) (w : W) :
    run handler (p >>= k) w = run handler (k (run handler p w).1) (run handler p w).2 := by
  induction p generalizing w with
  | ret a => rfl
  | call op next ih => exact ih _ _

@[simp] theorem run_perform (op : Op) (w : W) : run handler (perform op) w = handler w op := rfl

theorem run_mem_visits (p : OpProgram Op Res α) (w : W) : (run handler p w).2 ∈ visits handler p w := by
  induction p generalizing w with
  | ret a => exact List.mem_singleton_self w
  | call op next ih => exact List.mem_cons_of_mem _ (ih _ _)

theorem start_mem_visits (p : OpProgram Op Res α) (w : W) : w ∈ visits handler p w := by
  cases p <;> exact List.mem_cons_self

theorem mem_visits_bind {p : OpProgram Op Res α} {k : α → OpProgram Op Res β} {w w' : W}
    (h : w' ∈ visits handler (p >>= k) w) :
    w' ∈ visits handler p w ∨ w' ∈ visits handler (k (run handler p w).1) (run handler p w).2 := by
  induction p generalizing w with
  | ret a => exact Or.inr h
  | call op next ih =>
    rcases List.mem_cons.mp h with rfl | h
    · exact Or.inl List.mem_cons_self
    · exact (ih _ h).imp (List.mem_cons_of_mem _) id

/-! ## Safety at every kill point -/

/-- Every world the run visits satisfies `kept`, and its result and last world satisfy `post`. -/
structure Safe (kept : W → Prop) (p : OpProgram Op Res α) (w : W) (post : α → W → Prop) : Prop where
  visited : ∀ w' ∈ visits handler p w, kept w'
  result : post (run handler p w).1 (run handler p w).2

variable {handler}

theorem Safe.ret {kept : W → Prop} {a : α} {w : W} {post : α → W → Prop} (hKept : kept w) (hPost : post a w) :
    Safe handler kept (OpProgram.ret a : OpProgram Op Res α) w post :=
  ⟨fun _ h => List.mem_singleton.mp h ▸ hKept, hPost⟩

theorem Safe.call {kept : W → Prop} {op : Op} {next : Res op → OpProgram Op Res α} {w : W} {post : α → W → Prop}
    (hKept : kept w) (hNext : Safe handler kept (next (handler w op).1) (handler w op).2 post) :
    Safe handler kept (OpProgram.call op next) w post := by
  refine ⟨fun w' h => ?_, hNext.result⟩
  rcases List.mem_cons.mp h with rfl | h
  · exact hKept
  · exact hNext.visited w' h

theorem Safe.bind {kept : W → Prop} {p : OpProgram Op Res α} {k : α → OpProgram Op Res β} {w : W}
    {mid : α → W → Prop} {post : β → W → Prop} (hp : Safe handler kept p w mid)
    (hk : ∀ a w', mid a w' → Safe handler kept (k a) w' post) : Safe handler kept (p >>= k) w post := by
  have hNext := hk _ _ hp.result
  refine ⟨fun w' h => ?_, ?_⟩
  · rcases mem_visits_bind handler h with h | h
    · exact hp.visited w' h
    · exact hNext.visited w' h
  · rw [run_bind]
    exact hNext.result

theorem Safe.weaken {kept kept' : W → Prop} {p : OpProgram Op Res α} {w : W} {post post' : α → W → Prop}
    (h : Safe handler kept p w post) (hKept : ∀ w, kept w → kept' w) (hPost : ∀ a w, post a w → post' a w) :
    Safe handler kept' p w post' :=
  ⟨fun w' hw => hKept w' (h.visited w' hw), hPost _ _ h.result⟩

theorem Safe.and {kept kept' : W → Prop} {p : OpProgram Op Res α} {w : W} {post post' : α → W → Prop}
    (h : Safe handler kept p w post) (h' : Safe handler kept' p w post') :
    Safe handler (fun w => kept w ∧ kept' w) p w (fun a w => post a w ∧ post' a w) :=
  ⟨fun w' hw => ⟨h.visited w' hw, h'.visited w' hw⟩, h.result, h'.result⟩

/-! ## Results under any answers -/

inductive Possible : OpProgram Op Res α → α → Prop where
  | ret (a : α) : Possible (.ret a) a
  | call {op : Op} {next : Res op → OpProgram Op Res α} {a : α} (r : Res op) (h : Possible (next r) a) :
      Possible (.call op next) a

theorem possible_run (p : OpProgram Op Res α) (w : W) : Possible p (run handler p w).1 := by
  induction p generalizing w with
  | ret a => exact .ret a
  | call op next ih => exact .call _ (ih _ _)

theorem possible_bind {p : OpProgram Op Res α} {k : α → OpProgram Op Res β} {b : β} :
    Possible (p >>= k) b ↔ ∃ a, Possible p a ∧ Possible (k a) b := by
  constructor
  · intro h
    induction p with
    | ret a => exact ⟨a, .ret a, h⟩
    | call op next ih =>
      cases h with
      | call r h =>
        obtain ⟨a, ha, hk⟩ := ih r h
        exact ⟨a, .call r ha, hk⟩
  · rintro ⟨a, ha, hk⟩
    induction ha with
    | ret a => exact hk
    | call r _ ih => exact .call r (ih hk)

theorem possible_ret {a b : α} : Possible (.ret a : OpProgram Op Res α) b ↔ b = a := by
  constructor
  · rintro ⟨⟩
    rfl
  · rintro rfl
    exact .ret b

end OpProgram
