import TupleStone.Lib.Flag

/-! # Executions in lockstep

Code is run from two related states. If the first run ends with the flag down, the second one ends with the same value and
in a related state. As with honest code, the flag is never lowered.
-/

set_option autoImplicit false

namespace Flag

variable {σ α β : Type}

def Lockstep (down : σ → Prop) (R : σ → σ → Prop) (m : StateT σ Outcome α) (R' : α → σ → σ → Prop) : Prop :=
  ∀ s t a, m s = .done (a, t) → down t → down s ∧ ∀ s', R s s' → ∃ t', m s' = .done (a, t') ∧ R' a t t'

variable {down : σ → Prop} {R : σ → σ → Prop} {R' : α → σ → σ → Prop}

theorem lockstep_pure {a : α} (h : ∀ s s', R s s' → R' a s s') : Lockstep down R (pure a) R' := by
  rintro s t a' ⟨⟩ hDown
  exact ⟨hDown, fun s' hR => ⟨s', rfl, h s s' hR⟩⟩

theorem Lockstep.bind {m : StateT σ Outcome α} {k : α → StateT σ Outcome β} {R'' : β → σ → σ → Prop}
    (hm : Lockstep down R m R') (hk : ∀ a, Lockstep down (R' a) (k a) R'') : Lockstep down R (m >>= k) R'' := by
  intro s t b h hDown
  obtain ⟨a, mid, hFirst, hRest⟩ := bind_done h
  obtain ⟨hMid, hFollows⟩ := hk a mid t b hRest hDown
  obtain ⟨hStart, hFollowsFirst⟩ := hm s mid a hFirst hMid
  refine ⟨hStart, fun s' hR => ?_⟩
  obtain ⟨mid', hFirst', hMid'⟩ := hFollowsFirst s' hR
  obtain ⟨t', hRest', hEnd⟩ := hFollows mid' hMid'
  refine ⟨t', ?_, hEnd⟩
  change (m s' >>= fun r => k r.1 r.2) = _
  rw [hFirst']
  exact hRest'

theorem Lockstep.weaken {m : StateT σ Outcome α} (h : Lockstep down R m R') {S : σ → σ → Prop} {S' : α → σ → σ → Prop}
    (hPre : ∀ s s', S s s' → R s s') (hPost : ∀ a t t', R' a t t' → S' a t t') : Lockstep down S m S' := by
  intro s t a hRun hDown
  obtain ⟨hStart, hFollows⟩ := h s t a hRun hDown
  refine ⟨hStart, fun s' hS => ?_⟩
  obtain ⟨t', hRun', hEnd⟩ := hFollows s' (hPre s s' hS)
  exact ⟨t', hRun', hPost a t t' hEnd⟩

/-- Where no states are related, the flag is all that counts. -/
theorem Lockstep.never {m : StateT σ Outcome α} (h : Lockstep down R m R') {S : σ → σ → Prop} {S' : α → σ → σ → Prop}
    (hNever : ∀ s s', ¬ S s s') : Lockstep down S m S' := by
  intro s t a hRun hDown
  exact ⟨(h s t a hRun hDown).1, fun s' hS => absurd hS (hNever s s')⟩

theorem lockstep_ite {c : Prop} [Decidable c] {m n : StateT σ Outcome α} (hm : c → Lockstep down R m R')
    (hn : ¬ c → Lockstep down R n R') : Lockstep down R (if c then m else n) R' := by
  split
  · exact hm ‹c›
  · exact hn ‹¬ c›

/-- Code that ends with the flag raised. -/
theorem lockstep_raised {m : StateT σ Outcome α} (h : ∀ s t a, m s = .done (a, t) → ¬ down t) : Lockstep down R m R' :=
  fun s t a hRun hDown => absurd hDown (h s t a hRun)

/-- Only states from which the flag stays down have to be followed. -/
theorem Lockstep.unless {m : StateT σ Outcome α} {C : σ → Prop} (h : Lockstep down (fun s s' => R s s' ∧ ¬ C s) m R')
    (hRaised : ∀ s s' t a, R s s' → C s → m s = .done (a, t) → ¬ down t) : Lockstep down R m R' := by
  intro s t a hRun hDown
  obtain ⟨hStart, hFollows⟩ := h s t a hRun hDown
  exact ⟨hStart, fun s' hR => hFollows s' ⟨hR, fun hC => hRaised s s' t a hR hC hRun hDown⟩⟩

/-- Related states may be of either of two kinds. -/
theorem Lockstep.or {m : StateT σ Outcome α} {S : σ → σ → Prop} (h : Lockstep down R m R') (h' : Lockstep down S m R') :
    Lockstep down (fun s s' => R s s' ∨ S s s') m R' := by
  intro s t a hRun hDown
  obtain ⟨hStart, hFollows⟩ := h s t a hRun hDown
  refine ⟨hStart, fun s' hRS => ?_⟩
  obtain hR | hS := hRS
  · exact hFollows s' hR
  · exact (h' s t a hRun hDown).2 s' hS

end Flag
