import TupleStone.Lib.Flag

/-! # Simulation of one code by another

Whatever the first code does, the second one does from a related state, with a related value and in a related state.
-/

set_option autoImplicit false

namespace Outcome

variable {σ τ α β α' β' : Type}

def Simulates (R : σ → τ → Prop) (m : StateT σ Outcome α) (n : StateT τ Outcome β) (R' : α → β → σ → τ → Prop) : Prop :=
  ∀ s t a s', R s t → m s = .done (a, s') → ∃ b t', n t = .done (b, t') ∧ R' a b s' t'

variable {R : σ → τ → Prop} {R' : α → β → σ → τ → Prop}

theorem simulates_pure {a : α} {b : β} (h : ∀ s t, R s t → R' a b s t) :
    Simulates R (pure a : StateT σ Outcome α) (pure b : StateT τ Outcome β) R' := by
  rintro s t a' s' hR ⟨⟩
  exact ⟨b, t, rfl, h s t hR⟩

theorem Simulates.bind {m : StateT σ Outcome α} {n : StateT τ Outcome β} {k : α → StateT σ Outcome α'}
    {l : β → StateT τ Outcome β'} {R'' : α' → β' → σ → τ → Prop} (hFirst : Simulates R m n R')
    (hRest : ∀ a b, Simulates (R' a b) (k a) (l b) R'') : Simulates R (m >>= k) (n >>= l) R'' := by
  intro s t c s' hR hRun
  obtain ⟨a, mid, hLeft, hThen⟩ := Flag.bind_done hRun
  obtain ⟨b, mid', hRight, hMid⟩ := hFirst s t a mid hR hLeft
  obtain ⟨d, t', hLast, hEnd⟩ := hRest a b mid mid' c s' hMid hThen
  refine ⟨d, t', ?_, hEnd⟩
  change (n t >>= fun r => l r.1 r.2) = _
  rw [hRight]
  exact hLast

theorem Simulates.weaken {m : StateT σ Outcome α} {n : StateT τ Outcome β} (h : Simulates R m n R') {S : σ → τ → Prop}
    {S' : α → β → σ → τ → Prop} (hPre : ∀ s t, S s t → R s t) (hPost : ∀ a b s t, R' a b s t → S' a b s t) :
    Simulates S m n S' := by
  intro s t a s' hS hRun
  obtain ⟨b, t', hOther, hEnd⟩ := h s t a s' (hPre s t hS) hRun
  exact ⟨b, t', hOther, hPost a b s' t' hEnd⟩

/-- The second value is the first one under `f`. -/
def Under (f : α → β) (R : σ → τ → Prop) (a : α) (b : β) (s : σ) (t : τ) : Prop := b = f a ∧ R s t

theorem simulates_value {f : α → β} {a : α} {b : β} (h : b = f a) : Simulates R (pure a) (pure b) (Under f R) :=
  simulates_pure fun _ _ hR => ⟨h, hR⟩

theorem Simulates.under {m : StateT σ Outcome α} {n : StateT τ Outcome β} {f : α → β} {S : σ → τ → Prop}
    {k : α → StateT σ Outcome α'} {l : β → StateT τ Outcome β'} {R'' : α' → β' → σ → τ → Prop}
    (hFirst : Simulates R m n (Under f S)) (hRest : ∀ a, Simulates S (k a) (l (f a)) R'') :
    Simulates R (m >>= k) (n >>= l) R'' := by
  refine hFirst.bind fun a b s t c s' hR hRun => ?_
  obtain ⟨rfl, hS⟩ := hR
  exact hRest a s t c s' hS hRun

/-- What the relation says of the values may be assumed. -/
theorem simulates_given {m : StateT σ Outcome α} {n : StateT τ Outcome β} {P : Prop} (hFact : ∀ s t, R s t → P)
    (h : P → Simulates R m n R') : Simulates R m n R' :=
  fun s t a s' hR hRun => h (hFact s t hR) s t a s' hR hRun

/-- Both take the same branch. -/
theorem simulates_ite {c c' : Prop} [Decidable c] [Decidable c'] {m m' : StateT σ Outcome α} {n n' : StateT τ Outcome β}
    (hSame : c ↔ c') (hThen : c → Simulates R m n R') (hElse : ¬ c → Simulates R m' n' R') :
    Simulates R (if c then m else m') (if c' then n else n') R' := by
  by_cases h : c
  · rw [if_pos h, if_pos (hSame.mp h)]
    exact hThen h
  · rw [if_neg h, if_neg (fun h' => h (hSame.mpr h'))]
    exact hElse h

end Outcome
