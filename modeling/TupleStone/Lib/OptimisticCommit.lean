import Mathlib.Data.List.Induction
import Mathlib.Logic.Function.Basic

/-! # Optimistic commits over one version counter

Clients work on private copies of a shared state. A copy remembers the version it was taken at, and its work is
published only if that version is still the current one. Actions may also be published directly. The order in which
work is published is then a serial execution.
-/

set_option autoImplicit false

namespace OptimisticCommit

variable {ι σ α : Type} [DecidableEq ι]

/-- The state that a private copy was taken from, its version, and the work done on the copy since. -/
structure Copy (σ α : Type) where
  base : σ
  version : Nat
  work : List α

structure State (ι σ α : Type) where
  shared : σ
  version : Nat
  copies : ι → Option (Copy σ α)

inductive Event (ι α : Type) where
  | start (client : ι)
  | act (client : ι) (action : α)
  | abandon (client : ι)
  | refuse (client : ι)
  | commit (client : ι)
  | direct (action : α)

def Copy.state (apply : σ → α → σ) (copy : Copy σ α) : σ := copy.work.foldl apply copy.base

theorem Copy.state_append (apply : σ → α → σ) (copy : Copy σ α) (x : α) :
    Copy.state apply { copy with work := copy.work ++ [x] } = apply (copy.state apply) x := List.foldl_append

def State.set (s : State ι σ α) (i : ι) (copy : Option (Copy σ α)) : State ι σ α :=
  { s with copies := Function.update s.copies i copy }

@[simp] theorem State.set_self (s : State ι σ α) (i : ι) (copy : Option (Copy σ α)) : (s.set i copy).copies i = copy :=
  Function.update_self ..

@[simp] theorem State.set_of_ne (s : State ι σ α) {i j : ι} (h : j ≠ i) (copy : Option (Copy σ α)) :
    (s.set i copy).copies j = s.copies j := Function.update_of_ne h ..

inductive Step (apply : σ → α → σ) : State ι σ α → Event ι α → State ι σ α → Prop where
  | start {s : State ι σ α} {i : ι} (hIdle : s.copies i = none) :
      Step apply s (.start i) (s.set i (some ⟨s.shared, s.version, []⟩))
  | act {s : State ι σ α} {i : ι} {copy : Copy σ α} {x : α} (hCopy : s.copies i = some copy) :
      Step apply s (.act i x) (s.set i (some { copy with work := copy.work ++ [x] }))
  | abandon {s : State ι σ α} {i : ι} : Step apply s (.abandon i) (s.set i none)
  | refuse {s : State ι σ α} {i : ι} {copy : Copy σ α} (hCopy : s.copies i = some copy) (hStale : copy.version ≠ s.version) :
      Step apply s (.refuse i) (s.set i none)
  | commit {s : State ι σ α} {i : ι} {copy : Copy σ α} (hCopy : s.copies i = some copy) (hCurrent : copy.version = s.version) :
      Step apply s (.commit i) ⟨copy.state apply, s.version + 1, Function.update s.copies i none⟩
  | direct {s : State ι σ α} {x : α} :
      Step apply s (.direct x) { s with shared := apply s.shared x, version := s.version + 1 }

inductive Run (apply : σ → α → σ) (s : State ι σ α) : List (Event ι α) → State ι σ α → Prop where
  | refl : Run apply s [] s
  | step {es : List (Event ι α)} {e : Event ι α} {s' s'' : State ι σ α} (h : Run apply s es s') (hStep : Step apply s' e s'') :
      Run apply s (es ++ [e]) s''

/-! ## What the events alone say -/

/-- What every client found published at its last start, its work since then, and what was published, one list for each commit. -/
structure Ledger (ι α : Type) where
  seen : ι → Nat
  pending : ι → List α
  units : List (List α)

def Ledger.after (l : Ledger ι α) : Event ι α → Ledger ι α
  | .start i => { l with seen := Function.update l.seen i l.units.length, pending := Function.update l.pending i [] }
  | .act i x => { l with pending := Function.update l.pending i (l.pending i ++ [x]) }
  | .abandon _ => l
  | .refuse _ => l
  | .commit i => { l with units := l.units ++ [l.pending i] }
  | .direct x => { l with units := l.units ++ [[x]] }

def ledger (es : List (Event ι α)) : Ledger ι α := es.foldl Ledger.after ⟨fun _ => 0, fun _ => [], []⟩

/-- The published work in the order of its publication. -/
def published (es : List (Event ι α)) : List (List α) := (ledger es).units

theorem ledger_append_singleton (es : List (Event ι α)) (e : Event ι α) : ledger (es ++ [e]) = (ledger es).after e :=
  List.foldl_append

def Event.publishes : Event ι α → Bool
  | .commit _ => true
  | .direct _ => true
  | _ => false

/-- The event begins or ends a copy of the client. -/
def Event.Bounds (i : ι) (e : Event ι α) : Prop := e = .start i ∨ e = .abandon i ∨ e = .refuse i ∨ e = .commit i

variable {apply : σ → α → σ} {s s' s'' : State ι σ α} {es : List (Event ι α)} {e : Event ι α} {i : ι}

theorem Step.version (h : Step apply s e s') : s'.version = s.version + if e.publishes then 1 else 0 := by
  cases h <;> rfl

theorem Run.version (h : Run apply s es s') : s'.version = s.version + es.countP Event.publishes := by
  induction h with
  | refl => rfl
  | step _ hStep ih =>
    rw [hStep.version, ih, List.countP_append, List.countP_singleton, Nat.add_assoc]

theorem length_published (es : List (Event ι α)) : (published es).length = es.countP Event.publishes := by
  induction es using List.reverseRecOn with
  | nil => rfl
  | append_singleton es e ih =>
    rw [published, ledger_append_singleton, List.countP_append, List.countP_singleton, ← ih, published]
    cases e <;> simp [Ledger.after, Event.publishes]

/-! ## Serial execution -/

/-- The published work in its order, up to the given number of units. -/
def Ledger.upTo (apply : σ → α → σ) (base : σ) (l : Ledger ι α) (seen : Nat) : σ := (l.units.take seen).flatten.foldl apply base

/-- The shared state is the published work in its order, and a copy is its client's work on what it found published. -/
structure Serial (apply : σ → α → σ) (base : σ) (version : Nat) (l : Ledger ι α) (s : State ι σ α) : Prop where
  shared : s.shared = l.units.flatten.foldl apply base
  version_eq : s.version = version + l.units.length
  seen_le : ∀ i copy, s.copies i = some copy → l.seen i ≤ l.units.length
  copy : ∀ i copy, s.copies i = some copy → copy = ⟨l.upTo apply base (l.seen i), version + l.seen i, l.pending i⟩

variable {base : σ} {version : Nat} {l l' : Ledger ι α}

theorem Serial.set_none (h : Serial apply base version l s) (i : ι) : Serial apply base version l (s.set i none) := by
  have hKept : ∀ j copy, (s.set i none).copies j = some copy → s.copies j = some copy := by
    intro j copy hCopy
    obtain rfl | hNe := eq_or_ne j i
    · rw [State.set_self] at hCopy
      cases hCopy
    · rwa [State.set_of_ne s hNe] at hCopy
  constructor
  · exact h.shared
  · exact h.version_eq
  · exact fun j copy hCopy => h.seen_le j copy (hKept j copy hCopy)
  · exact fun j copy hCopy => h.copy j copy (hKept j copy hCopy)

/-- A new copy of one client. -/
theorem Serial.set_some (h : Serial apply base version l s) {seen : Nat} (hSeen : seen ≤ l.units.length) (work : List α) :
    Serial apply base version ⟨Function.update l.seen i seen, Function.update l.pending i work, l.units⟩
      (s.set i (some ⟨l.upTo apply base seen, version + seen, work⟩)) := by
  constructor
  · exact h.shared
  · exact h.version_eq
  · intro j copy hCopy
    obtain rfl | hNe := eq_or_ne j i
    · simpa using hSeen
    · rw [State.set_of_ne s hNe] at hCopy
      simpa [Function.update_of_ne hNe] using h.seen_le j copy hCopy
  · intro j copy hCopy
    obtain rfl | hNe := eq_or_ne j i
    · rw [State.set_self] at hCopy
      cases hCopy
      simp [Ledger.upTo]
    · rw [State.set_of_ne s hNe] at hCopy
      simpa [Function.update_of_ne hNe, Ledger.upTo] using h.copy j copy hCopy

omit [DecidableEq ι] in
/-- Publishing appends one unit to the execution. -/
theorem Serial.publish (h : Serial apply base version l s) (unit : List α) {copies : ι → Option (Copy σ α)}
    (hCopies : ∀ i copy, copies i = some copy → s.copies i = some copy) :
    Serial apply base version { l with units := l.units ++ [unit] } ⟨unit.foldl apply s.shared, s.version + 1, copies⟩ := by
  constructor
  · rw [List.flatten_append, List.flatten_singleton, List.foldl_append, ← h.shared]
  · rw [h.version_eq, List.length_append, List.length_singleton, Nat.add_assoc]
  · intro i copy hCopy
    rw [List.length_append]
    exact Nat.le_add_right_of_le (h.seen_le i copy (hCopies i copy hCopy))
  · intro i copy hCopy
    rw [Ledger.upTo, List.take_append_of_le_length (h.seen_le i copy (hCopies i copy hCopy))]
    exact h.copy i copy (hCopies i copy hCopy)

theorem Serial.step (h : Serial apply base version l s) (hStep : Step apply s e s') : Serial apply base version (l.after e) s' := by
  cases hStep with
  | @start i hIdle =>
    have hShared : s.shared = l.upTo apply base l.units.length := by rw [Ledger.upTo, List.take_length, h.shared]
    rw [hShared, h.version_eq]
    exact h.set_some (Nat.le_refl _) []
  | @act i copy x hCopy =>
    cases h.copy i copy hCopy
    have hSeen : Function.update l.seen i (l.seen i) = l.seen := Function.update_eq_self i l.seen
    have hSet := h.set_some (i := i) (h.seen_le i _ hCopy) (l.pending i ++ [x])
    rw [hSeen] at hSet
    exact hSet
  | @abandon i => exact h.set_none i
  | @refuse i copy hCopy hStale => exact h.set_none i
  | @commit i copy hCopy hCurrent =>
    cases h.copy i copy hCopy
    -- nothing was published since the copy was taken, so its base is the shared state
    have hAll : l.seen i = l.units.length := Nat.add_left_cancel (hCurrent.trans h.version_eq)
    have hState : Copy.state apply ⟨l.upTo apply base (l.seen i), version + l.seen i, l.pending i⟩ =
        (l.pending i).foldl apply s.shared := by
      rw [Copy.state, Ledger.upTo, hAll, List.take_length, h.shared]
    rw [hState]
    apply h.publish (l.pending i)
    intro j other hOther
    obtain rfl | hNe := eq_or_ne j i
    · rw [Function.update_self] at hOther
      cases hOther
    · rwa [Function.update_of_ne hNe] at hOther
  | @direct x => exact h.publish [x] fun _ _ hCopy => hCopy

/-- From a state without copies, every run is serial. -/
theorem Run.serial (hIdle : ∀ i, s.copies i = none) (h : Run apply s es s') : Serial apply s.shared s.version (ledger es) s' := by
  induction h with
  | refl =>
    constructor
    · rfl
    · rfl
    · exact fun i copy hCopy => by simp [hIdle i] at hCopy
    · exact fun i copy hCopy => by simp [hIdle i] at hCopy
  | step _ hStep ih =>
    rw [ledger_append_singleton]
    exact ih.step hStep

/-! ## The first committer wins -/

theorem Step.keeps_copy (h : Step apply s e s') {copy : Copy σ α} (hCopy : s.copies i = some copy) (hOther : ¬ e.Bounds i) :
    ∃ work, s'.copies i = some { copy with work := work } := by
  have hNe (j : ι) (f : ι → Event ι α) (hEnds : (f i).Bounds i) (hEvent : e = f j) : i ≠ j := by
    rintro rfl
    exact hOther (hEvent ▸ hEnds)
  cases h with
  | @start j hIdle =>
    exact ⟨copy.work, (Function.update_of_ne (hNe j .start (Or.inl rfl) rfl) ..).trans hCopy⟩
  | @act j c x hActs =>
    obtain rfl | hNe := eq_or_ne i j
    · cases hCopy.symm.trans hActs
      exact ⟨_, Function.update_self ..⟩
    · exact ⟨copy.work, (Function.update_of_ne hNe ..).trans hCopy⟩
  | @abandon j => exact ⟨copy.work, (Function.update_of_ne (hNe j .abandon (Or.inr (Or.inl rfl)) rfl) ..).trans hCopy⟩
  | @refuse j c hStale hRefused =>
    exact ⟨copy.work, (Function.update_of_ne (hNe j .refuse (Or.inr (Or.inr (Or.inl rfl))) rfl) ..).trans hCopy⟩
  | @commit j c hCommits hCurrent =>
    exact ⟨copy.work, (Function.update_of_ne (hNe j .commit (Or.inr (Or.inr (Or.inr rfl))) rfl) ..).trans hCopy⟩
  | direct => exact ⟨copy.work, hCopy⟩

theorem Run.keeps_copy (h : Run apply s es s') {copy : Copy σ α} (hCopy : s.copies i = some copy)
    (hOthers : ∀ e ∈ es, ¬ e.Bounds i) : ∃ work, s'.copies i = some { copy with work := work } := by
  induction h with
  | refl => exact ⟨copy.work, hCopy⟩
  | @step es e s' s'' _ hStep ih =>
    obtain ⟨work, hMid⟩ := ih fun e he => hOthers e (List.mem_append_left _ he)
    obtain ⟨work', hEnd⟩ := hStep.keeps_copy hMid (hOthers e (List.mem_append_right _ (List.mem_singleton_self e)))
    exact ⟨work', hEnd⟩

/-- The version of a copy is still current exactly when nothing was published since its start. -/
theorem Run.current_iff (hStart : Step apply s (.start i) s') (h : Run apply s' es s'') (hOthers : ∀ e ∈ es, ¬ e.Bounds i)
    {copy : Copy σ α} (hCopy : s''.copies i = some copy) :
    copy.version = s''.version ↔ ∀ e ∈ es, e.publishes = false := by
  cases hStart with
  | start hIdle =>
    have hTaken : (s.set i (some ⟨s.shared, s.version, []⟩)).copies i = some ⟨s.shared, s.version, []⟩ := Function.update_self ..
    obtain ⟨work, hKept⟩ := h.keeps_copy hTaken hOthers
    cases hKept.symm.trans hCopy
    have hVersion : s''.version = s.version + es.countP Event.publishes := h.version
    rw [hVersion, Nat.left_eq_add, List.countP_eq_zero]
    constructor
    · intro hNone e he
      exact Bool.eq_false_iff.mpr (hNone e he)
    · intro hNone e he
      exact Bool.eq_false_iff.mp (hNone e he)

end OptimisticCommit
