import TupleStone.Lib.OrderedMap

/-! # Ordered sets

Maps to nothing; the first element is the least.
-/

set_option autoImplicit false

abbrev OrderedSet (κ : Type) [LinearOrder κ] : Type := OrderedMap κ Unit

namespace OrderedSet

variable {κ : Type} [LinearOrder κ]

def contains (s : OrderedSet κ) (x : κ) : Bool := (OrderedMap.find? s x).isSome

def insert (s : OrderedSet κ) (x : κ) : OrderedSet κ := OrderedMap.insert s x ()

def erase (s : OrderedSet κ) (x : κ) : OrderedSet κ := OrderedMap.erase s x

def first? (s : OrderedSet κ) : Option κ := s.entries.head?.map Prod.fst

theorem contains_empty (x : κ) : contains (OrderedMap.empty : OrderedSet κ) x = false := rfl

theorem contains_insert (s : OrderedSet κ) (x y : κ) : (s.insert x).contains y = true ↔ y = x ∨ s.contains y = true := by
  rw [contains, contains, insert, OrderedMap.find?_insert]
  split
  · rename_i h
    simp [h]
  · rename_i h
    simp [h]

theorem contains_erase (s : OrderedSet κ) (x y : κ) : (s.erase x).contains y = true ↔ y ≠ x ∧ s.contains y = true := by
  rw [contains, contains, erase, OrderedMap.find?_erase]
  split
  · rename_i h
    simp [h]
  · rename_i h
    simp [h]

theorem mem_entries_of_contains {s : OrderedSet κ} {x : κ} (h : s.contains x = true) : (x, ()) ∈ s.entries := by
  obtain ⟨⟨⟩, hFind⟩ := Option.isSome_iff_exists.mp h
  exact (OrderedMap.find?_eq_some_iff s x ()).mp hFind

/-- Below the first element there is nothing. -/
theorem not_contains_of_lt_first {s : OrderedSet κ} {first x : κ} (hFirst : s.first? = some first) (hLess : x < first) :
    s.contains x = false := by
  rw [Bool.eq_false_iff]
  intro hContains
  have hMem := mem_entries_of_contains hContains
  obtain ⟨entry, hHead, rfl⟩ := Option.map_eq_some_iff.mp hFirst
  cases hEntries : s.entries with
  | nil => rw [hEntries] at hMem; cases hMem
  | cons e rest =>
    have hSorted := hEntries ▸ s.sorted
    rw [hEntries] at hHead hMem
    obtain rfl := Option.some.inj hHead
    rcases List.mem_cons.mp hMem with hSame | hLater
    · rw [← hSame] at hLess
      exact lt_irrefl x hLess
    · exact lt_asymm hLess ((List.pairwise_cons.mp hSorted).1 _ hLater)

theorem not_contains_of_first_none {s : OrderedSet κ} (h : s.first? = none) (x : κ) : s.contains x = false := by
  rw [Bool.eq_false_iff]
  intro hContains
  have hMem := mem_entries_of_contains hContains
  rw [first?, Option.map_eq_none_iff, List.head?_eq_none_iff] at h
  rw [h] at hMem
  cases hMem

end OrderedSet
