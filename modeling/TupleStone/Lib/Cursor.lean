import TupleStone.Lib.Attempt
import Mathlib.Data.List.Basic

/-! # Reading through a cursor

A reader keeps a position in a fixed string and may fail. It *scans* when, from every position inside the
string, it is defined, moves forward without leaving the string, and what it consumed on success determines
its result in front of any other rest. Scanning and the inversion of an encoder are closed under sequencing.
-/

set_option autoImplicit false

structure Cursor (σ : Type) where
  data : List σ
  pos : Nat
  deriving DecidableEq, Repr

abbrev CursorM (σ ε α : Type) := Attempt (Cursor σ) ε α

namespace CursorM

variable {σ ε ε' α β : Type}

open Attempt

/-! ## Exact reads -/

/-- In front of every rest the reader consumes exactly `used` and returns `a`. -/
def Reads (m : CursorM σ ε α) (a : α) (used : List σ) : Prop :=
  ∀ pre more, exec m ⟨pre ++ (used ++ more), pre.length⟩ =
    .done (.ok a, ⟨pre ++ (used ++ more), pre.length + used.length⟩)

theorem reads_pure (a : α) : Reads (pure a : CursorM σ ε α) a [] := fun _ _ => rfl

theorem Reads.bind {m : CursorM σ ε α} {k : α → CursorM σ ε β} {a : α} {b : β} {used used' : List σ}
    (hm : Reads m a used) (hk : Reads (k a) b used') : Reads (m >>= k) b (used ++ used') := by
  intro pre more
  have hFirst := hm pre (used' ++ more)
  have hSecond := hk (pre ++ used) more
  rw [List.append_assoc, List.length_append] at hSecond
  rw [List.append_assoc, exec_bind_ok hFirst, hSecond, List.length_append, Nat.add_assoc]

theorem Reads.bind_pure {m : CursorM σ ε α} {a : α} {used : List σ} (h : Reads m a used) (f : α → β) :
    Reads (m >>= fun a => pure (f a)) (f a) used := by
  have hBind := h.bind (k := fun a => pure (f a)) (reads_pure (f a))
  rwa [List.append_nil] at hBind

/-- What follows a reader that was defined does not change it. -/
theorem Reads.unique {m : CursorM σ ε α} {a : α} {used : List σ} (h : Reads m a used) {more : List σ}
    {x : Except ε α} {c : Cursor σ} (hx : exec m ⟨used ++ more, 0⟩ = .done (x, c)) :
    x = .ok a ∧ c = ⟨used ++ more, used.length⟩ := by
  have h := h [] more
  simp only [List.nil_append, List.length_nil, Nat.zero_add] at h
  rw [h] at hx
  cases hx
  exact ⟨rfl, rfl⟩

/-! ## Scanning -/

def Scans (m : CursorM σ ε α) : Prop :=
  ∀ pre rest, ∃ x used more, rest = used ++ more ∧
    exec m ⟨pre ++ rest, pre.length⟩ = .done (x, ⟨pre ++ rest, pre.length + used.length⟩) ∧
    ∀ a, x = .ok a → Reads m a used

theorem scans_pure (a : α) : Scans (pure a : CursorM σ ε α) := fun _ rest =>
  ⟨.ok a, [], rest, rfl, rfl, fun _ h => by cases h; exact reads_pure a⟩

theorem scans_throw (e : ε) : Scans (throw e : CursorM σ ε α) := fun _ rest =>
  ⟨.error e, [], rest, rfl, rfl, fun _ h => by cases h⟩

theorem Scans.bind {m : CursorM σ ε α} {k : α → CursorM σ ε β} (hm : Scans m) (hk : ∀ a, Scans (k a)) :
    Scans (m >>= k) := by
  intro pre rest
  obtain ⟨x, used, more, rfl, hExec, hReads⟩ := hm pre rest
  cases x with
  | error e => exact ⟨.error e, used, more, rfl, exec_bind_error hExec, fun _ h => by cases h⟩
  | ok a =>
    obtain ⟨y, used', more', rfl, hExec', hReads'⟩ := hk a (pre ++ used) more
    rw [List.append_assoc, List.length_append] at hExec'
    refine ⟨y, used ++ used', more', (List.append_assoc _ _ _).symm, ?_, ?_⟩
    · rw [exec_bind_ok hExec, hExec', List.length_append, Nat.add_assoc]
    · rintro b rfl
      exact (hReads a rfl).bind (hReads' b rfl)

theorem Scans.bind_pure {m : CursorM σ ε α} (h : Scans m) (f : α → β) : Scans (m >>= fun a => pure (f a)) :=
  h.bind (fun a => scans_pure (f a))

/-- From inside the string a scanning reader is defined and stays inside. -/
theorem Scans.inside {m : CursorM σ ε α} (h : Scans m) {c : Cursor σ} (hc : c.pos ≤ c.data.length) :
    ∃ x c', exec m c = .done (x, c') ∧ c'.data = c.data ∧ c.pos ≤ c'.pos ∧ c'.pos ≤ c'.data.length := by
  obtain ⟨data, pos⟩ := c
  have hSplit : data.take pos ++ data.drop pos = data := List.take_append_drop pos data
  have hPos : (data.take pos).length = pos := List.length_take_of_le hc
  obtain ⟨x, used, more, hRest, hExec, -⟩ := h (data.take pos) (data.drop pos)
  rw [hSplit, hPos] at hExec
  refine ⟨x, ⟨data, pos + used.length⟩, hExec, rfl, Nat.le_add_right _ _, ?_⟩
  have hLength := congrArg List.length hRest
  simp only [List.length_drop, List.length_append] at hLength
  change pos ≤ data.length at hc
  change pos + used.length ≤ data.length
  omega

theorem Scans.ite {c : Prop} [Decidable c] {m n : CursorM σ ε α} (hm : Scans m) (hn : Scans n) :
    Scans (if c then m else n) := by
  split
  · exact hm
  · exact hn

/-! ## Postconditions -/

def Yields (m : CursorM σ ε α) (P : α → Prop) : Prop :=
  ∀ c c' a, exec m c = .done (.ok a, c') → P a

theorem yields_true (m : CursorM σ ε α) : Yields m (fun _ => True) := fun _ _ _ _ => trivial

theorem yields_pure {a : α} {P : α → Prop} (h : P a) : Yields (pure a : CursorM σ ε α) P := by
  rintro _ _ _ ⟨⟩
  exact h

theorem yields_throw (e : ε) (P : α → Prop) : Yields (throw e : CursorM σ ε α) P := by
  rintro _ _ _ ⟨⟩

theorem Yields.bind {m : CursorM σ ε α} {k : α → CursorM σ ε β} {P : α → Prop} {Q : β → Prop}
    (hm : Yields m P) (hk : ∀ a, P a → Yields (k a) Q) : Yields (m >>= k) Q := by
  intro c c' b h
  obtain ⟨a, mid, h₁, h₂⟩ := exec_bind_eq_ok h
  exact hk a (hm _ _ _ h₁) _ _ _ h₂

/-! ## Weaker readers -/

/-- Every success of `m` is one of `m'`. -/
def Implies (m m' : CursorM σ ε α) : Prop :=
  ∀ c c' a, exec m c = .done (.ok a, c') → exec m' c = .done (.ok a, c')

theorem Implies.refl (m : CursorM σ ε α) : Implies m m := fun _ _ _ h => h

theorem Implies.bind {m m' : CursorM σ ε α} {k k' : α → CursorM σ ε β} (hm : Implies m m')
    (hk : ∀ a, Implies (k a) (k' a)) : Implies (m >>= k) (m' >>= k') := by
  intro c c' b h
  obtain ⟨a, mid, h₁, h₂⟩ := exec_bind_eq_ok h
  rw [exec_bind_ok (hm _ _ _ h₁)]
  exact hk a _ _ _ h₂

theorem Implies.guard {p p' : Prop} [Decidable p] [Decidable p'] {e e' : ε} {m m' : CursorM σ ε α}
    (hp : ¬ p → ¬ p') (hm : Implies m m') : Implies (if p then throw e else m) (if p' then throw e' else m') := by
  intro c c' a h
  split at h
  · cases h
  · rename_i hNot
    rw [if_neg (hp hNot)]
    exact hm c c' a h

/-! ## Counted sequences -/

def times (m : CursorM σ ε α) : Nat → CursorM σ ε (List α)
  | 0 => pure []
  | n + 1 => do
    let a ← m
    let as ← times m n
    pure (a :: as)

theorem Scans.times {m : CursorM σ ε α} (hm : Scans m) (n : Nat) : Scans (m.times n) := by
  induction n with
  | zero => exact scans_pure []
  | succ n ih => exact hm.bind (fun a => ih.bind (fun as => scans_pure (a :: as)))

theorem Reads.times {m : CursorM σ ε α} {encode : α → List σ} (as : List α)
    (h : ∀ a ∈ as, Reads m a (encode a)) : Reads (m.times as.length) as (as.flatMap encode) := by
  induction as with
  | nil => exact reads_pure []
  | cons a as ih =>
    have hTail := ih (fun a' ha' => h a' (List.mem_cons_of_mem _ ha'))
    exact Reads.bind (h a List.mem_cons_self) (hTail.bind_pure (a :: ·))

theorem Implies.times {m m' : CursorM σ ε α} (h : Implies m m') (n : Nat) : Implies (m.times n) (m'.times n) := by
  induction n with
  | zero => exact .refl _
  | succ n ih => exact h.bind (fun a => ih.bind (fun as => .refl _))

theorem Yields.times {m : CursorM σ ε α} {P : α → Prop} (hm : Yields m P) (n : Nat) :
    Yields (m.times n) (fun as => as.length = n ∧ ∀ a ∈ as, P a) := by
  induction n with
  | zero => exact yields_pure ⟨rfl, by simp⟩
  | succ n ih =>
    refine hm.bind (fun a ha => ih.bind (fun as has => yields_pure ⟨by simp [has.1], ?_⟩))
    intro a' ha'
    rcases List.mem_cons.mp ha' with rfl | ha'
    · exact ha
    · exact has.2 a' ha'

/-! ## Renaming the failure -/

def mapError (f : ε → ε') (m : CursorM σ ε α) : CursorM σ ε' α :=
  ExceptT.mk ((fun x => x.mapError f) <$> m.run)

theorem exec_mapError (f : ε → ε') {m : CursorM σ ε α} {c c' : Cursor σ} {x : Except ε α}
    (h : exec m c = .done (x, c')) : exec (m.mapError f) c = .done (x.mapError f, c') := by
  change (fun r => (r.1.mapError f, r.2)) <$> exec m c = _
  rw [h]
  rfl

theorem Reads.mapError {m : CursorM σ ε α} {a : α} {used : List σ} (h : Reads m a used) (f : ε → ε') :
    Reads (m.mapError f) a used := fun pre more => exec_mapError f (h pre more)

theorem Scans.mapError {m : CursorM σ ε α} (h : Scans m) (f : ε → ε') : Scans (m.mapError f) := by
  intro pre rest
  obtain ⟨x, used, more, hRest, hExec, hReads⟩ := h pre rest
  refine ⟨x.mapError f, used, more, hRest, exec_mapError f hExec, ?_⟩
  intro a ha
  cases x with
  | error e => cases ha
  | ok a' =>
    cases ha
    exact (hReads a rfl).mapError f

theorem Yields.mapError {m : CursorM σ ε α} {P : α → Prop} (h : Yields m P) (f : ε → ε') : Yields (m.mapError f) P := by
  intro c c' a ha
  cases hm : exec m c with
  | done r =>
    obtain ⟨x, mid⟩ := r
    rw [exec_mapError f hm] at ha
    cases x with
    | error e => cases ha
    | ok a' =>
      cases ha
      exact h _ _ _ hm
  | undefined =>
    change (fun r => (Except.mapError f r.1, r.2)) <$> exec m c = _ at ha
    rw [hm] at ha
    cases ha
  | outOfFuel =>
    change (fun r => (Except.mapError f r.1, r.2)) <$> exec m c = _ at ha
    rw [hm] at ha
    cases ha

/-- A renamed failure is the name. -/
theorem ensures_mapError {m : CursorM σ ε α} (e : ε') :
    Ensures (m.mapError (fun _ => e)) (fun _ => True) (fun e' => e' = e) := by
  intro c c' x h
  refine ⟨fun _ _ => trivial, ?_⟩
  rintro e' rfl
  change (fun r => (Except.mapError (fun _ => e) r.1, r.2)) <$> exec m c = _ at h
  obtain ⟨⟨y, mid⟩, -, hPair⟩ := Outcome.map_eq_done h
  cases y with
  | error _ =>
    cases hPair
    rfl
  | ok _ => cases hPair

theorem ensures_times {m : CursorM σ ε α} {Q : ε → Prop} (h : Ensures m (fun _ => True) Q) (n : Nat) :
    Ensures (m.times n) (fun _ => True) Q := by
  induction n with
  | zero => exact ensures_pure trivial
  | succ n ih => exact h.bind (fun _ _ => ih.bind (fun _ _ => ensures_pure trivial))

end CursorM
