import TupleStone.Lib.Outcome

/-! # Failures reported through the state

Some code reports a failure by leaving a flag in its state and returns a value all the same. Such code is *honest*
when it never lowers the flag and, if the flag is down at the end, the value satisfies a postcondition.
-/

set_option autoImplicit false

namespace Flag

variable {σ α β : Type}

/-- `down c` says that no failure was reported; `pre` is what the postcondition may assume. -/
def Honest (down : σ → Prop) (pre : Prop) (m : StateT σ Outcome α) (post : α → Prop) : Prop :=
  ∀ c c' a, m c = .done (a, c') → down c' → down c ∧ (pre → post a)

variable {down : σ → Prop} {pre : Prop} {post : α → Prop}

theorem honest_pure {a : α} (h : pre → post a) : Honest down pre (pure a) post := by
  rintro c c' a' ⟨⟩ hDown
  exact ⟨hDown, h⟩

theorem bind_done {m : StateT σ Outcome α} {k : α → StateT σ Outcome β} {c c' : σ} {b : β}
    (h : (m >>= k) c = .done (b, c')) : ∃ a mid, m c = .done (a, mid) ∧ k a mid = .done (b, c') := by
  obtain ⟨⟨a, mid⟩, hFirst, hRest⟩ := Outcome.bind_eq_done h
  exact ⟨a, mid, hFirst, hRest⟩

/-- The rest may assume the postcondition of the first part. -/
theorem Honest.bind {m : StateT σ Outcome α} {k : α → StateT σ Outcome β} {post' : β → Prop}
    (hm : Honest down pre m post) (hk : ∀ a, Honest down (pre ∧ post a) (k a) post') : Honest down pre (m >>= k) post' := by
  intro c c' b h hDown
  obtain ⟨a, mid, hFirst, hRest⟩ := bind_done h
  obtain ⟨hMid, hPost⟩ := hk a _ _ _ hRest hDown
  obtain ⟨hStart, hValue⟩ := hm _ _ _ hFirst hMid
  exact ⟨hStart, fun hPre => hPost ⟨hPre, hValue hPre⟩⟩

theorem Honest.weaken {m : StateT σ Outcome α} {pre' : Prop} {post' : α → Prop} (h : Honest down pre m post)
    (hPre : pre' → pre) (hPost : pre' → ∀ a, post a → post' a) : Honest down pre' m post' := by
  intro c c' a hExec hDown
  obtain ⟨hStart, hValue⟩ := h c c' a hExec hDown
  exact ⟨hStart, fun hGiven => hPost hGiven a (hValue (hPre hGiven))⟩

theorem honest_ite {c : Prop} [Decidable c] {m n : StateT σ Outcome α} (hm : c → Honest down pre m post)
    (hn : ¬ c → Honest down pre n post) : Honest down pre (if c then m else n) post := by
  split
  · exact hm ‹c›
  · exact hn ‹¬ c›

/-- Code that ends with the flag raised promises nothing. -/
theorem honest_raised {m : StateT σ Outcome α} (h : ∀ c c' a, m c = .done (a, c') → ¬ down c') : Honest down pre m post :=
  fun c c' a hExec hDown => absurd hDown (h c c' a hExec)

end Flag
