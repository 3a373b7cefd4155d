import TupleStone.Lib.Outcome

/-! # Computations with a state and a failure

The state survives a failure, as the members of an object do when a method returns early.
-/

set_option autoImplicit false

abbrev Attempt (σ ε α : Type) := ExceptT ε (StateT σ Outcome) α

namespace Attempt

variable {σ ε α β : Type}

def exec (m : Attempt σ ε α) (c : σ) : Outcome (Except ε α × σ) := m c

@[simp] theorem exec_pure (a : α) (c : σ) : exec (pure a : Attempt σ ε α) c = .done (.ok a, c) := rfl

@[simp] theorem exec_throw (e : ε) (c : σ) : exec (throw e : Attempt σ ε α) c = .done (.error e, c) := rfl

theorem exec_bind_ok {m : Attempt σ ε α} {k : α → Attempt σ ε β} {c c' : σ} {a : α}
    (h : exec m c = .done (.ok a, c')) : exec (m >>= k) c = exec (k a) c' := by
  change (exec m c >>= fun r => ExceptT.bindCont k r.1 r.2) = exec (k a) c'
  rw [h]
  rfl

theorem exec_bind_error {m : Attempt σ ε α} {k : α → Attempt σ ε β} {c c' : σ} {e : ε}
    (h : exec m c = .done (.error e, c')) : exec (m >>= k) c = .done (.error e, c') := by
  change (exec m c >>= fun r => ExceptT.bindCont k r.1 r.2) = _
  rw [h]
  rfl

/-- A sequence stops at the failure of its first part or goes on with its value. -/
theorem exec_bind_done {m : Attempt σ ε α} {k : α → Attempt σ ε β} {c c' : σ} {x : Except ε β}
    (h : exec (m >>= k) c = .done (x, c')) :
    (∃ e, exec m c = .done (.error e, c') ∧ x = .error e) ∨
      ∃ a mid, exec m c = .done (.ok a, mid) ∧ exec (k a) mid = .done (x, c') := by
  cases hm : exec m c with
  | done r =>
    obtain ⟨y, mid⟩ := r
    cases y with
    | ok a =>
      rw [exec_bind_ok hm] at h
      exact Or.inr ⟨a, mid, rfl, h⟩
    | error e =>
      rw [exec_bind_error hm] at h
      cases h
      exact Or.inl ⟨e, rfl, rfl⟩
  | undefined =>
    change (exec m c >>= fun r => ExceptT.bindCont k r.1 r.2) = _ at h
    rw [hm] at h
    cases h
  | outOfFuel =>
    change (exec m c >>= fun r => ExceptT.bindCont k r.1 r.2) = _ at h
    rw [hm] at h
    cases h

theorem exec_bind_eq_ok {m : Attempt σ ε α} {k : α → Attempt σ ε β} {c c' : σ} {b : β}
    (h : exec (m >>= k) c = .done (.ok b, c')) :
    ∃ a mid, exec m c = .done (.ok a, mid) ∧ exec (k a) mid = .done (.ok b, c') := by
  obtain ⟨e, -, hError⟩ | hOk := exec_bind_done h
  · cases hError
  · exact hOk

theorem exec_map (m : Attempt σ ε α) (f : α → β) (c : σ) :
    exec (m >>= fun a => pure (f a)) c = (fun run => (run.1.map f, run.2)) <$> exec m c := by
  change (exec m c >>= fun run => ExceptT.bindCont (fun a => (pure (f a) : Attempt σ ε β)) run.1 run.2) = _
  cases exec m c with
  | done run =>
    obtain ⟨x, c'⟩ := run
    cases x with
    | error e => rfl
    | ok a => rfl
  | undefined => rfl
  | outOfFuel => rfl

/-! ## Postconditions -/

/-- A value satisfies `P` and a failure `Q`, whatever the states. -/
def Ensures (m : Attempt σ ε α) (P : α → Prop) (Q : ε → Prop) : Prop :=
  ∀ c c' x, exec m c = .done (x, c') → (∀ a, x = .ok a → P a) ∧ ∀ e, x = .error e → Q e

variable {P : α → Prop} {Q : ε → Prop}

theorem ensures_pure {a : α} (h : P a) : Ensures (pure a : Attempt σ ε α) P Q := by
  rintro c c' x ⟨⟩
  exact ⟨fun _ hx => by cases hx; exact h, fun _ hx => by cases hx⟩

theorem ensures_throw {e : ε} (h : Q e) : Ensures (throw e : Attempt σ ε α) P Q := by
  rintro c c' x ⟨⟩
  exact ⟨fun _ hx => (by cases hx), fun _ hx => by cases hx; exact h⟩

theorem Ensures.bind {m : Attempt σ ε α} {k : α → Attempt σ ε β} {R : β → Prop} (hm : Ensures m P Q)
    (hk : ∀ a, P a → Ensures (k a) R Q) : Ensures (m >>= k) R Q := by
  intro c c' x h
  obtain ⟨e, hExec, rfl⟩ | ⟨a, mid, hExec, hRest⟩ := exec_bind_done h
  · exact ⟨fun _ hx => (by cases hx), fun _ hx => (by cases hx; exact (hm _ _ _ hExec).2 e rfl)⟩
  · exact hk a ((hm _ _ _ hExec).1 a rfl) _ _ _ hRest

theorem Ensures.weaken {m : Attempt σ ε α} {P' : α → Prop} {Q' : ε → Prop} (h : Ensures m P Q) (hP : ∀ a, P a → P' a)
    (hQ : ∀ e, Q e → Q' e) : Ensures m P' Q' := fun c c' x hExec =>
  ⟨fun a hx => hP a ((h c c' x hExec).1 a hx), fun e hx => hQ e ((h c c' x hExec).2 e hx)⟩

theorem ensures_ite {c : Prop} [Decidable c] {m n : Attempt σ ε α} (hm : c → Ensures m P Q) (hn : ¬ c → Ensures n P Q) :
    Ensures (if c then m else n) P Q := by
  split
  · exact hm ‹c›
  · exact hn ‹¬ c›

/-! ## Computations that cannot fail -/

theorem exec_lift (m : StateT σ Outcome α) (c : σ) :
    exec (liftM m : Attempt σ ε α) c = (fun r => (.ok r.1, r.2)) <$> m c := by
  change (m c >>= fun r => pure (Except.ok r.1, r.2)) = _
  cases m c <;> rfl

theorem exec_lift_done {m : StateT σ Outcome α} {c c' : σ} {x : Except ε α}
    (h : exec (liftM m : Attempt σ ε α) c = .done (x, c')) : ∃ a, x = .ok a ∧ m c = .done (a, c') := by
  rw [exec_lift] at h
  obtain ⟨r, hr, hPair⟩ := Outcome.map_eq_done h
  cases hPair
  exact ⟨r.1, rfl, hr⟩

theorem ensures_lift {m : StateT σ Outcome α} (h : ∀ c c' a, m c = .done (a, c') → P a) :
    Ensures (liftM m : Attempt σ ε α) P Q := by
  intro c c' x hExec
  obtain ⟨a, rfl, ha⟩ := exec_lift_done hExec
  exact ⟨fun _ hx => by cases hx; exact h c c' a ha, fun _ hx => by cases hx⟩

theorem ensures_lift_true (m : StateT σ Outcome α) : Ensures (liftM m : Attempt σ ε α) (fun _ => True) Q :=
  ensures_lift (fun _ _ _ _ => trivial)

theorem lift_done {x : Outcome α} {c c' : σ} {a : α} (h : (liftM x : StateT σ Outcome α) c = .done (a, c')) :
    x = .done a ∧ c' = c := by
  change (x >>= fun a => pure (a, c)) = _ at h
  obtain ⟨b, rfl, hPair⟩ := Outcome.bind_eq_done h
  cases hPair
  exact ⟨rfl, rfl⟩

theorem ensures_get : Ensures (get : Attempt σ ε σ) (fun _ => True) Q := by
  rintro c c' x ⟨⟩
  exact ⟨fun _ _ => trivial, fun _ hx => by cases hx⟩

end Attempt
