import TupleStone.Lib.OrderedMap
import Mathlib.Data.List.Induction
import Mathlib.Logic.Function.Basic

/-! # A keyed store by its history

What was added, changed and removed, oldest first, says what each key holds. When the keys are added in
ascending order, a map kept along the history lists in key order what was added and is still there.
-/

set_option autoImplicit false

namespace KeyedLog

variable {κ α : Type} [LinearOrder κ]

inductive Event (κ α : Type) where
  | added (key : κ) (value : α)
  | changed (key : κ) (value : α)
  | removed (key : κ)

/-- Only what is there changes. -/
def after (content : κ → Option α) : Event κ α → κ → Option α
  | .added key value => Function.update content key (some value)
  | .changed key value => Function.update content key ((content key).map fun _ => value)
  | .removed key => Function.update content key none

def content (log : List (Event κ α)) : κ → Option α := log.foldl after (fun _ => none)

def addedKey : Event κ α → Option κ
  | .added key _ => some key
  | _ => none

def keys (log : List (Event κ α)) : List κ := log.filterMap addedKey

def live (log : List (Event κ α)) : List (κ × α) :=
  (keys log).filterMap (fun key => (content log key).map (fun value => (key, value)))

theorem content_snoc (log : List (Event κ α)) (event : Event κ α) : content (log ++ [event]) = after (content log) event := by
  rw [content, List.foldl_append]
  rfl

theorem keys_snoc (log : List (Event κ α)) (event : Event κ α) :
    keys (log ++ [event]) = keys log ++ (addedKey event).toList := by
  rw [keys, List.filterMap_append]
  cases event <;> rfl

/-- Nothing is held that was not added. -/
theorem mem_keys_of_content {log : List (Event κ α)} {key : κ} (h : content log key ≠ none) : key ∈ keys log := by
  induction log using List.reverseRecOn with
  | nil => exact absurd rfl h
  | append_singleton log event ih =>
    rw [content_snoc] at h
    rw [keys_snoc, List.mem_append]
    cases event with
    | added other value =>
      by_cases hSame : key = other
      · right
        simp [addedKey, hSame]
      · rw [after, Function.update_of_ne hSame] at h
        exact Or.inl (ih h)
    | changed other value =>
      by_cases hSame : key = other
      · subst hSame
        rw [after, Function.update_self, Ne, Option.map_eq_none_iff] at h
        exact Or.inl (ih h)
      · rw [after, Function.update_of_ne hSame] at h
        exact Or.inl (ih h)
    | removed other =>
      by_cases hSame : key = other
      · rw [after, hSame, Function.update_self] at h
        exact absurd rfl h
      · rw [after, Function.update_of_ne hSame] at h
        exact Or.inl (ih h)

theorem live_sorted {log : List (Event κ α)} (h : (keys log).Pairwise (· < ·)) :
    (live log).Pairwise (fun a b => a.1 < b.1) := by
  apply h.filterMap
  intro a b hLess x hx y hy
  obtain ⟨_, -, rfl⟩ := Option.map_eq_some_iff.mp hx
  obtain ⟨_, -, rfl⟩ := Option.map_eq_some_iff.mp hy
  exact hLess

theorem mem_live {log : List (Event κ α)} {key : κ} {value : α} :
    (key, value) ∈ live log ↔ content log key = some value := by
  rw [live, List.mem_filterMap]
  constructor
  · rintro ⟨other, -, h⟩
    obtain ⟨_, hHeld, hPair⟩ := Option.map_eq_some_iff.mp h
    cases hPair
    exact hHeld
  · intro h
    have hKey : key ∈ keys log := mem_keys_of_content (by rw [h]; exact Option.some_ne_none _)
    exact ⟨key, hKey, by rw [h]; rfl⟩

/-! ## Beside a map -/

/-- The map holds what the history says. -/
def Holds (m : OrderedMap κ α) (log : List (Event κ α)) : Prop := ∀ key, m.find? key = content log key

theorem holds_empty : Holds (OrderedMap.empty : OrderedMap κ α) [] := fun _ => rfl

theorem Holds.entries {m : OrderedMap κ α} {log : List (Event κ α)} (h : Holds m log)
    (hKeys : (keys log).Pairwise (· < ·)) : m.entries = live log := by
  apply OrderedMap.eq_of_lookup_eq m.sorted (live_sorted hKeys)
  intro key
  apply Option.ext
  intro value
  rw [OrderedMap.lookup_eq_some_iff (live_sorted hKeys), mem_live]
  change m.find? key = some value ↔ _
  rw [h key]

theorem Holds.add {m : OrderedMap κ α} {log : List (Event κ α)} (h : Holds m log) {key : κ} (hNew : key ∉ keys log)
    (value : α) : Holds (m.emplace key value) (log ++ [.added key value]) := by
  have hNone : m.find? key = none := by
    rw [h key]
    exact not_not.mp (mt mem_keys_of_content hNew)
  intro other
  rw [OrderedMap.emplace_of_none m hNone, OrderedMap.find?_insert, content_snoc, after, Function.update_apply, h other]

theorem Holds.change {m : OrderedMap κ α} {log : List (Event κ α)} (h : Holds m log) {key : κ} {held : α}
    (hHeld : m.find? key = some held) (value : α) : Holds (m.insert key value) (log ++ [.changed key value]) := by
  intro other
  rw [OrderedMap.find?_insert, content_snoc, after, Function.update_apply, ← h key, hHeld, h other]
  rfl

theorem Holds.change_absent {m : OrderedMap κ α} {log : List (Event κ α)} (h : Holds m log) {key : κ}
    (hNone : m.find? key = none) (value : α) : Holds m (log ++ [.changed key value]) := by
  intro other
  rw [content_snoc, after, ← h key, hNone, Function.update_apply]
  split
  · rename_i hSame
    rw [hSame, hNone]
    rfl
  · exact h other

theorem Holds.remove {m : OrderedMap κ α} {log : List (Event κ α)} (h : Holds m log) (key : κ) :
    Holds (m.erase key) (log ++ [.removed key]) := by
  intro other
  rw [OrderedMap.find?_erase, content_snoc, after, Function.update_apply, h other]

end KeyedLog
