import Mathlib.Order.Lattice
import Mathlib.Data.List.Basic
import Mathlib.Tactic.Common

/-! # Finite maps as key-ordered association lists

The order of the keys is a field, so a map has one representation and iteration in key order is the list
itself. Two maps with the same lookups are equal.
-/

set_option autoImplicit false

structure OrderedMap (κ α : Type) [LinearOrder κ] where
  entries : List (κ × α)
  sorted : entries.Pairwise (fun a b => a.1 < b.1)

namespace OrderedMap

variable {κ α : Type} [LinearOrder κ]

@[ext] theorem ext_entries {m n : OrderedMap κ α} (h : m.entries = n.entries) : m = n := by
  cases m
  cases n
  cases h
  rfl

instance [DecidableEq α] : DecidableEq (OrderedMap κ α) := fun m n =>
  decidable_of_iff (m.entries = n.entries) ⟨ext_entries, fun h => h ▸ rfl⟩

def empty : OrderedMap κ α := ⟨[], List.Pairwise.nil⟩

instance : Inhabited (OrderedMap κ α) := ⟨empty⟩

def size (m : OrderedMap κ α) : Nat := m.entries.length

/-! ## Association lists -/

def lookup (k : κ) : List (κ × α) → Option α
  | [] => none
  | (k', a) :: rest => if k = k' then some a else lookup k rest

def put (k : κ) (a : α) : List (κ × α) → List (κ × α)
  | [] => [(k, a)]
  | (k', a') :: rest =>
    if k < k' then (k, a) :: (k', a') :: rest
    else if k = k' then (k, a) :: rest
    else (k', a') :: put k a rest

theorem lookup_eq_none_of_lt {k : κ} {xs : List (κ × α)} (h : ∀ e ∈ xs, k < e.1) : lookup k xs = none := by
  induction xs with
  | nil => rfl
  | cons e xs ih =>
    rw [lookup, if_neg (ne_of_lt (h e List.mem_cons_self))]
    exact ih (fun e he => h e (List.mem_cons_of_mem _ he))

theorem lookup_put_self (k : κ) (a : α) (xs : List (κ × α)) : lookup k (put k a xs) = some a := by
  induction xs with
  | nil => simp [put, lookup]
  | cons e xs ih =>
    rw [put]
    split
    · simp [lookup]
    · split
      · simp [lookup]
      · rename_i hne
        simp [lookup, hne, ih]

theorem lookup_put_of_ne {k k' : κ} (hne : k' ≠ k) (a : α) (xs : List (κ × α)) :
    lookup k' (put k a xs) = lookup k' xs := by
  induction xs with
  | nil => simp [put, lookup, hne]
  | cons e xs ih =>
    rw [put]
    split
    · simp [lookup, hne]
    · split
      · rename_i he
        simp [lookup, hne, ← he]
      · simp [lookup, ih]

theorem mem_put {k : κ} {a : α} {xs : List (κ × α)} {e : κ × α} (h : e ∈ put k a xs) :
    e = (k, a) ∨ e ∈ xs := by
  induction xs with
  | nil => exact Or.inl (List.mem_singleton.mp h)
  | cons e' xs ih =>
    rw [put] at h
    split at h
    · exact List.mem_cons.mp h
    · split at h
      · rcases List.mem_cons.mp h with rfl | h
        · exact Or.inl rfl
        · exact Or.inr (List.mem_cons_of_mem _ h)
      · rcases List.mem_cons.mp h with rfl | h
        · exact Or.inr List.mem_cons_self
        · exact (ih h).imp id (List.mem_cons_of_mem _)

theorem sorted_put (k : κ) (a : α) {xs : List (κ × α)} (h : xs.Pairwise (fun a b => a.1 < b.1)) :
    (put k a xs).Pairwise (fun a b => a.1 < b.1) := by
  induction xs with
  | nil => exact List.pairwise_singleton _ _
  | cons e xs ih =>
    obtain ⟨hHead, hTail⟩ := List.pairwise_cons.mp h
    rw [put]
    split
    · rename_i hlt
      refine List.pairwise_cons.mpr ⟨?_, h⟩
      intro e' he'
      rcases List.mem_cons.mp he' with rfl | he'
      · exact hlt
      · exact lt_trans hlt (hHead e' he')
    · split
      · rename_i heq
        exact List.pairwise_cons.mpr ⟨fun e' he' => heq ▸ hHead e' he', hTail⟩
      · rename_i hlt hne
        refine List.pairwise_cons.mpr ⟨?_, ih hTail⟩
        intro e' he'
        rcases mem_put he' with rfl | he'
        · exact lt_of_le_of_ne (not_lt.mp hlt) (Ne.symm hne)
        · exact hHead e' he'

theorem lookup_eq_some_iff {xs : List (κ × α)} (h : xs.Pairwise (fun a b => a.1 < b.1)) (k : κ) (a : α) :
    lookup k xs = some a ↔ (k, a) ∈ xs := by
  induction xs with
  | nil => simp [lookup]
  | cons e xs ih =>
    obtain ⟨k', a'⟩ := e
    obtain ⟨hHead, hTail⟩ := List.pairwise_cons.mp h
    rw [lookup]
    split
    · rename_i heq
      subst heq
      constructor
      · rintro ⟨⟩
        exact List.mem_cons_self
      · intro hmem
        rcases List.mem_cons.mp hmem with heq | hmem
        · cases heq
          rfl
        · exact absurd (hHead _ hmem) (lt_irrefl _)
    · rename_i hne
      rw [ih hTail, List.mem_cons]
      exact ⟨Or.inr, fun hmem => hmem.resolve_left (fun heq => hne (congrArg Prod.fst heq))⟩

theorem lookup_filter (p : κ → Bool) (k : κ) (xs : List (κ × α)) :
    lookup k (xs.filter (fun e => p e.1)) = if p k then lookup k xs else none := by
  induction xs with
  | nil => simp [lookup]
  | cons e xs ih =>
    obtain ⟨k', a'⟩ := e
    rw [List.filter_cons]
    by_cases hk : k = k'
    · subst hk
      by_cases hp : p k <;> simp [lookup, hp, ih]
    · by_cases hp : p k' <;> simp [lookup, hp, hk, ih]

theorem eq_of_lookup_eq {xs ys : List (κ × α)} (hx : xs.Pairwise (fun a b => a.1 < b.1))
    (hy : ys.Pairwise (fun a b => a.1 < b.1)) (h : ∀ k, lookup k xs = lookup k ys) : xs = ys := by
  induction xs generalizing ys with
  | nil =>
    cases ys with
    | nil => rfl
    | cons e ys =>
      have h := h e.1
      simp [lookup] at h
  | cons e xs ih =>
    obtain ⟨hHead, hTail⟩ := List.pairwise_cons.mp hx
    cases ys with
    | nil =>
      have h := h e.1
      simp [lookup] at h
    | cons f ys =>
      obtain ⟨hHead', hTail'⟩ := List.pairwise_cons.mp hy
      have hmem : ∀ k a, (k, a) ∈ e :: xs ↔ (k, a) ∈ f :: ys := fun k a => by
        rw [← lookup_eq_some_iff hx, ← lookup_eq_some_iff hy, h]
      have hef : e = f := by
        rcases List.mem_cons.mp ((hmem e.1 e.2).mp List.mem_cons_self) with hEq | he
        · exact hEq
        · rcases List.mem_cons.mp ((hmem f.1 f.2).mpr List.mem_cons_self) with hEq | hf
          · exact hEq.symm
          · exact absurd (lt_trans (hHead _ hf) (hHead' _ he)) (lt_irrefl _)
      subst hef
      congr 1
      refine ih hTail hTail' (fun k => ?_)
      by_cases hk : k = e.1
      · subst hk
        rw [lookup_eq_none_of_lt (fun e' he' => hHead e' he'), lookup_eq_none_of_lt (fun e' he' => hHead' e' he')]
      · have h := h k
        rwa [lookup, lookup, if_neg hk, if_neg hk] at h

/-! ## Maps -/

def find? (m : OrderedMap κ α) (k : κ) : Option α := lookup k m.entries

/-- Assignment through a reference to the value of `k`, which is created when absent. -/
def insert (m : OrderedMap κ α) (k : κ) (a : α) : OrderedMap κ α := ⟨put k a m.entries, sorted_put k a m.sorted⟩

/-- Insertion that keeps the value of a key that is present. -/
def emplace (m : OrderedMap κ α) (k : κ) (a : α) : OrderedMap κ α :=
  match m.find? k with
  | some _ => m
  | none => m.insert k a

def filterKeys (m : OrderedMap κ α) (p : κ → Bool) : OrderedMap κ α :=
  ⟨m.entries.filter (fun e => p e.1), m.sorted.filter _⟩

def erase (m : OrderedMap κ α) (k : κ) : OrderedMap κ α := m.filterKeys (fun k' => k' ≠ k)

theorem ext_find? {m n : OrderedMap κ α} (h : ∀ k, m.find? k = n.find? k) : m = n :=
  ext_entries (eq_of_lookup_eq m.sorted n.sorted h)

@[simp] theorem find?_empty (k : κ) : (empty : OrderedMap κ α).find? k = none := rfl

@[simp] theorem find?_insert_self (m : OrderedMap κ α) (k : κ) (a : α) : (m.insert k a).find? k = some a :=
  lookup_put_self k a m.entries

theorem find?_insert_of_ne (m : OrderedMap κ α) {k k' : κ} (hne : k' ≠ k) (a : α) :
    (m.insert k a).find? k' = m.find? k' := lookup_put_of_ne hne a m.entries

theorem find?_insert (m : OrderedMap κ α) (k k' : κ) (a : α) :
    (m.insert k a).find? k' = if k' = k then some a else m.find? k' := by
  split
  · rename_i h
    rw [h, find?_insert_self]
  · rename_i h
    exact find?_insert_of_ne m h a

theorem find?_filterKeys (m : OrderedMap κ α) (p : κ → Bool) (k : κ) :
    (m.filterKeys p).find? k = if p k then m.find? k else none := lookup_filter p k m.entries

theorem find?_erase (m : OrderedMap κ α) (k k' : κ) :
    (m.erase k).find? k' = if k' = k then none else m.find? k' := by
  rw [erase, find?_filterKeys]
  by_cases h : k' = k <;> simp [h]

theorem erase_of_none (m : OrderedMap κ α) {k : κ} (h : m.find? k = none) : m.erase k = m := by
  apply ext_find?
  intro k'
  rw [find?_erase]
  split
  · rename_i hSame
    rw [hSame, h]
  · rfl

theorem find?_eq_some_iff (m : OrderedMap κ α) (k : κ) (a : α) : m.find? k = some a ↔ (k, a) ∈ m.entries :=
  lookup_eq_some_iff m.sorted k a

theorem filterKeys_insert_of_neg (m : OrderedMap κ α) (p : κ → Bool) {k : κ} (hk : p k = false) (a : α) :
    (m.insert k a).filterKeys p = m.filterKeys p := by
  apply ext_find?
  intro k'
  rw [find?_filterKeys, find?_filterKeys]
  by_cases h : k' = k
  · simp [h, hk]
  · rw [find?_insert_of_ne m h]

theorem filterKeys_insert_of_pos (m : OrderedMap κ α) (p : κ → Bool) {k : κ} (hk : p k = true) (a : α) :
    (m.insert k a).filterKeys p = (m.filterKeys p).insert k a := by
  apply ext_find?
  intro k'
  rw [find?_filterKeys, find?_insert, find?_insert, find?_filterKeys]
  by_cases h : k' = k
  · simp [h, hk]
  · simp [h]

theorem insert_find? (m : OrderedMap κ α) {k : κ} {a : α} (h : m.find? k = some a) : m.insert k a = m := by
  apply ext_find?
  intro k'
  rw [find?_insert]
  split
  · rename_i hk
    rw [hk, h]
  · rfl

theorem emplace_of_none (m : OrderedMap κ α) {k : κ} (h : m.find? k = none) (a : α) :
    m.emplace k a = m.insert k a := by
  rw [emplace, h]

theorem mem_emplace {m : OrderedMap κ α} {k : κ} {a : α} {e : κ × α} (h : e ∈ (m.emplace k a).entries) :
    e = (k, a) ∨ e ∈ m.entries := by
  cases hFind : m.find? k with
  | none =>
    rw [emplace_of_none m hFind] at h
    exact mem_put h
  | some b =>
    rw [emplace, hFind] at h
    exact Or.inr h

theorem length_put_le (k : κ) (a : α) (xs : List (κ × α)) : (put k a xs).length ≤ xs.length + 1 := by
  induction xs with
  | nil => simp [put]
  | cons e xs ih =>
    rw [put]
    split
    · simp
    · split
      · simp
      · simpa using ih

theorem size_emplace_le (m : OrderedMap κ α) (k : κ) (a : α) : (m.emplace k a).size ≤ m.size + 1 := by
  cases hFind : m.find? k with
  | none =>
    rw [emplace_of_none m hFind]
    exact length_put_le k a m.entries
  | some b =>
    rw [emplace, hFind]
    exact Nat.le_succ _

theorem mem_foldl_emplace {xs : List (κ × α)} {m : OrderedMap κ α} {e : κ × α}
    (h : e ∈ (xs.foldl (fun n e => n.emplace e.1 e.2) m).entries) : e ∈ xs ∨ e ∈ m.entries := by
  induction xs generalizing m with
  | nil => exact Or.inr h
  | cons x xs ih =>
    obtain hTail | hHead := ih h
    · exact Or.inl (List.mem_cons_of_mem _ hTail)
    · obtain rfl | hMem := mem_emplace hHead
      · exact Or.inl List.mem_cons_self
      · exact Or.inr hMem

theorem size_foldl_emplace_le (xs : List (κ × α)) (m : OrderedMap κ α) :
    (xs.foldl (fun n e => n.emplace e.1 e.2) m).size ≤ m.size + xs.length := by
  induction xs generalizing m with
  | nil => exact Nat.le_refl _
  | cons x xs ih =>
    have hTail := ih (m.emplace x.1 x.2)
    have hHead := size_emplace_le m x.1 x.2
    rw [List.foldl_cons, List.length_cons]
    omega

theorem put_of_forall_lt {k : κ} (a : α) {xs : List (κ × α)} (h : ∀ e ∈ xs, e.1 < k) :
    put k a xs = xs ++ [(k, a)] := by
  induction xs with
  | nil => rfl
  | cons e xs ih =>
    have he := h e List.mem_cons_self
    rw [put, if_neg (not_lt_of_gt he), if_neg (ne_of_gt he), ih (fun e he => h e (List.mem_cons_of_mem _ he))]
    rfl

/-- Emplacing the entries of a map in key order rebuilds the map. -/
theorem foldl_emplace_entries (m : OrderedMap κ α) :
    m.entries.foldl (fun n e => n.emplace e.1 e.2) empty = m := by
  have key : ∀ (suffix : List (κ × α)) (n : OrderedMap κ α),
      (n.entries ++ suffix).Pairwise (fun a b => a.1 < b.1) →
      (suffix.foldl (fun n e => n.emplace e.1 e.2) n).entries = n.entries ++ suffix := by
    intro suffix
    induction suffix with
    | nil => intro n _; simp
    | cons e suffix ih =>
      intro n h
      have hlt : ∀ e' ∈ n.entries, e'.1 < e.1 := fun e' he' =>
        (List.pairwise_append.mp h).2.2 e' he' e List.mem_cons_self
      have hnone : n.find? e.1 = none := by
        cases hf : n.find? e.1 with
        | none => rfl
        | some a => exact absurd (hlt _ ((n.find?_eq_some_iff _ _).mp hf)) (lt_irrefl _)
      have hEntries : (n.emplace e.1 e.2).entries = n.entries ++ [e] := by
        rw [emplace_of_none n hnone]
        exact put_of_forall_lt e.2 hlt
      rw [List.foldl_cons, ih _ (by rw [hEntries]; simpa using h), hEntries]
      simp
  exact ext_entries (key m.entries empty (by simpa [empty] using m.sorted))

/-! ## Values under a function -/

theorem put_map {β : Type} (g : α → β) (k : κ) (a : α) (xs : List (κ × α)) :
    put k (g a) (xs.map (fun e => (e.1, g e.2))) = (put k a xs).map (fun e => (e.1, g e.2)) := by
  induction xs with
  | nil => rfl
  | cons e xs ih =>
    rw [List.map_cons, put, put]
    split
    · rfl
    · split
      · rfl
      · rw [ih]
        rfl

def mapValues {β : Type} (m : OrderedMap κ α) (g : α → β) : OrderedMap κ β :=
  ⟨m.entries.map (fun e => (e.1, g e.2)), List.pairwise_map.mpr m.sorted⟩

theorem insert_mapValues {β : Type} (m : OrderedMap κ α) (g : α → β) (k : κ) (a : α) :
    (m.mapValues g).insert k (g a) = (m.insert k a).mapValues g := ext_entries (put_map g k a m.entries)

theorem erase_mapValues {β : Type} (m : OrderedMap κ α) (g : α → β) (k : κ) :
    (m.mapValues g).erase k = (m.erase k).mapValues g := ext_entries List.filter_map

theorem lookup_map {β : Type} (g : α → β) (k : κ) (xs : List (κ × α)) :
    lookup k (xs.map (fun e => (e.1, g e.2))) = (lookup k xs).map g := by
  induction xs with
  | nil => rfl
  | cons e xs ih =>
    rw [List.map_cons, lookup, lookup]
    split
    · rfl
    · exact ih

theorem find?_mapValues {β : Type} (m : OrderedMap κ α) (g : α → β) (k : κ) :
    (m.mapValues g).find? k = (m.find? k).map g := lookup_map g k m.entries

theorem size_mapValues {β : Type} (m : OrderedMap κ α) (g : α → β) : (m.mapValues g).size = m.size := List.length_map _

end OrderedMap
