import TupleStone.Lib.Outcome

/-! # Mutual recursion unrolled

Mutually recursive computations are given by a body that takes the computations it calls. Unrolled ever further, a body
that is built from sequences, choices and calls has a limit, and the limit satisfies the equations of the recursion.
-/

set_option autoImplicit false

namespace Unroll

variable {ι σ α β γ : Type}

def unroll (body : (ι → StateT σ Outcome α) → ι → StateT σ Outcome α) : Nat → ι → StateT σ Outcome α
  | 0 => fun _ _ => .outOfFuel
  | fuel + 1 => body (unroll body fuel)

/-- The second family does what the first one does wherever that has an outcome. -/
def Extends (call call' : ι → StateT σ Outcome α) : Prop := ∀ i s, call i s ≠ .outOfFuel → call' i s = call i s

theorem Extends.refl (call : ι → StateT σ Outcome α) : Extends call call := fun _ _ _ => rfl

theorem Extends.trans {f g h : ι → StateT σ Outcome α} (hfg : Extends f g) (hgh : Extends g h) : Extends f h := by
  intro i s hs
  have hg := hfg i s hs
  rw [hgh i s (hg ▸ hs), hg]

/-- A growing sequence of families, and the family of all their outcomes. -/
structure Limit (chain : Nat → ι → StateT σ Outcome α) (limit : ι → StateT σ Outcome α) : Prop where
  grows : ∀ n, Extends (chain n) (chain (n + 1))
  bounds : ∀ n, Extends (chain n) limit
  reached : ∀ i s, limit i s ≠ .outOfFuel → ∃ n, chain n i s = limit i s

theorem Limit.le {chain : Nat → ι → StateT σ Outcome α} {limit : ι → StateT σ Outcome α} (h : Limit chain limit) {m n : Nat}
    (hLe : m ≤ n) : Extends (chain m) (chain n) := by
  induction hLe with
  | refl => exact .refl _
  | step _ ih => exact ih.trans (h.grows _)

/-- A computation that depends on the outcomes of its calls only, and on finitely many of them. -/
structure Regular (F : (ι → StateT σ Outcome α) → StateT σ Outcome β) : Prop where
  mono : ∀ call call', Extends call call' → ∀ s, F call s ≠ .outOfFuel → F call' s = F call s
  finite : ∀ chain limit, Limit chain limit → ∀ s, F limit s ≠ .outOfFuel → ∃ n, F (chain n) s = F limit s

theorem regular_const (m : StateT σ Outcome β) : Regular (fun _ : ι → StateT σ Outcome α => m) :=
  ⟨fun _ _ _ _ _ => rfl, fun _ _ _ _ _ => ⟨0, rfl⟩⟩

theorem regular_call (i : ι) : Regular (fun call : ι → StateT σ Outcome α => call i) :=
  ⟨fun _ _ h s hs => h i s hs, fun _ _ h s hs => h.reached i s hs⟩

theorem bind_of_done {m : StateT σ Outcome β} {k : β → StateT σ Outcome γ} {s s' : σ} {b : β} (h : m s = .done (b, s')) :
    (m >>= k) s = k b s' := by
  change (m s >>= fun r => k r.1 r.2) = _
  rw [h]
  rfl

theorem bind_congr_left {m m' : StateT σ Outcome β} {k : β → StateT σ Outcome γ} {s : σ} (h : m' s = m s) :
    (m' >>= k) s = (m >>= k) s := by
  change (m' s >>= fun r => k r.1 r.2) = (m s >>= fun r => k r.1 r.2)
  rw [h]

theorem left_ne_outOfFuel {m : StateT σ Outcome β} {k : β → StateT σ Outcome γ} {s : σ} (h : (m >>= k) s ≠ .outOfFuel) :
    m s ≠ .outOfFuel := by
  intro hm
  apply h
  change (m s >>= fun r => k r.1 r.2) = _
  rw [hm]
  rfl

/-- A first part without a value is the outcome of the sequence. -/
theorem bind_of_undefined {m : StateT σ Outcome β} {k : β → StateT σ Outcome γ} {s : σ} (h : m s = .undefined) :
    (m >>= k) s = .undefined := by
  change (m s >>= fun r => k r.1 r.2) = _
  rw [h]
  rfl

theorem Regular.bind {F : (ι → StateT σ Outcome α) → StateT σ Outcome β}
    {G : β → (ι → StateT σ Outcome α) → StateT σ Outcome γ} (hF : Regular F) (hG : ∀ b, Regular (G b)) :
    Regular (fun call => F call >>= fun b => G b call) := by
  constructor
  · intro call call' hExtends s hs
    have hFirst := hF.mono call call' hExtends s (left_ne_outOfFuel hs)
    rw [bind_congr_left hFirst]
    cases hm : F call s with
    | done r =>
      rw [bind_of_done hm] at hs ⊢
      rw [bind_of_done hm]
      exact (hG r.1).mono call call' hExtends r.2 hs
    | undefined => rw [bind_of_undefined hm, bind_of_undefined hm]
    | outOfFuel => exact absurd hm (left_ne_outOfFuel hs)
  · intro chain limit hLimit s hs
    obtain ⟨m, hm⟩ := hF.finite chain limit hLimit s (left_ne_outOfFuel hs)
    cases hFirst : F limit s with
    | done r =>
      rw [bind_of_done hFirst] at hs ⊢
      obtain ⟨n, hn⟩ := (hG r.1).finite chain limit hLimit r.2 hs
      refine ⟨max m n, ?_⟩
      have hLeft := hF.mono _ _ (hLimit.le (Nat.le_max_left m n)) s (by rw [hm, hFirst]; exact nofun)
      have hRight := (hG r.1).mono _ _ (hLimit.le (Nat.le_max_right m n)) r.2 (by rw [hn]; exact hs)
      rw [bind_of_done (hLeft.trans (hm.trans hFirst)), hRight, hn]
    | undefined =>
      refine ⟨m, ?_⟩
      rw [bind_of_undefined (hm.trans hFirst), bind_of_undefined hFirst]
    | outOfFuel => exact absurd hFirst (left_ne_outOfFuel hs)

theorem regular_ite {c : Prop} [Decidable c] {F G : (ι → StateT σ Outcome α) → StateT σ Outcome β} (hF : Regular F)
    (hG : Regular G) : Regular (fun call => if c then F call else G call) := by
  split
  · exact hF
  · exact hG

/-! ## The limit -/

open Classical in
noncomputable def limit (body : (ι → StateT σ Outcome α) → ι → StateT σ Outcome α) : ι → StateT σ Outcome α := fun i s =>
  if h : ∃ n, unroll body n i s ≠ .outOfFuel then unroll body h.choose i s else .outOfFuel

variable {body : (ι → StateT σ Outcome α) → ι → StateT σ Outcome α}

theorem unroll_grows (hBody : ∀ i, Regular (fun call => body call i)) (n : Nat) :
    Extends (unroll body n) (unroll body (n + 1)) := by
  induction n with
  | zero => exact fun _ _ hs => absurd rfl hs
  | succ n ih => exact fun i s hs => (hBody i).mono _ _ ih s hs

theorem unroll_le (hBody : ∀ i, Regular (fun call => body call i)) {m n : Nat} (hLe : m ≤ n) :
    Extends (unroll body m) (unroll body n) := by
  induction hLe with
  | refl => exact .refl _
  | step _ ih => exact ih.trans (unroll_grows hBody _)

theorem unroll_extends_limit (hBody : ∀ i, Regular (fun call => body call i)) (n : Nat) :
    Extends (unroll body n) (limit body) := by
  intro i s hs
  have hSome : ∃ n, unroll body n i s ≠ .outOfFuel := ⟨n, hs⟩
  rw [limit, dif_pos hSome]
  obtain hLe | hLe := Nat.le_total n hSome.choose
  · exact unroll_le hBody hLe i s hs
  · exact (unroll_le hBody hLe i s hSome.choose_spec).symm

theorem limit_reached {i : ι} {s : σ} (hs : limit body i s ≠ .outOfFuel) : ∃ n, unroll body n i s = limit body i s := by
  by_cases hSome : ∃ n, unroll body n i s ≠ .outOfFuel
  · exact ⟨hSome.choose, by rw [limit, dif_pos hSome]⟩
  · exact absurd (by rw [limit, dif_neg hSome]) hs

theorem limit_unroll (hBody : ∀ i, Regular (fun call => body call i)) : Limit (unroll body) (limit body) :=
  ⟨unroll_grows hBody, unroll_extends_limit hBody, fun _ _ => limit_reached⟩

/-- The limit satisfies the equations of the recursion. -/
theorem limit_eq (hBody : ∀ i, Regular (fun call => body call i)) (i : ι) : limit body i = body (limit body) i := by
  funext s
  by_cases hOut : body (limit body) i s = .outOfFuel
  · rw [hOut]
    by_contra hs
    obtain ⟨n, hn⟩ := limit_reached hs
    cases n with
    | zero => exact hs hn.symm
    | succ n =>
      have hStep : body (unroll body n) i s ≠ .outOfFuel := fun h => hs (hn.symm.trans h)
      rw [(hBody i).mono _ _ (unroll_extends_limit hBody n) s hStep] at hOut
      exact hStep hOut
  · obtain ⟨n, hn⟩ := (hBody i).finite _ _ (limit_unroll hBody) s hOut
    have hStep : unroll body (n + 1) i s = body (limit body) i s := hn
    rw [← hStep]
    exact unroll_extends_limit hBody (n + 1) i s (by rw [hStep]; exact hOut)

end Unroll
