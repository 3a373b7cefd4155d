import TupleStone.Lib.OrderedMap

/-! # Ordered maps to lists

Several values a key, read as the list of pairs in key order.
-/

set_option autoImplicit false

namespace OrderedMap

section Entries

variable {κ α : Type} [LinearOrder κ]

/-- The entry of a present key is replaced where it stands. -/
theorem put_of_mem {k : κ} {a b : α} {xs : List (κ × α)} (hSorted : xs.Pairwise (fun x y => x.1 < y.1))
    (h : (k, b) ∈ xs) : put k a xs = xs.map (fun e => if e.1 = k then (k, a) else e) := by
  induction xs with
  | nil => cases h
  | cons e xs ih =>
    obtain ⟨hHead, hTail⟩ := List.pairwise_cons.mp hSorted
    rw [put, List.map_cons]
    rcases List.mem_cons.mp h with hSame | hLater
    · subst hSame
      have hRest : xs.map (fun e => if e.1 = k then (k, a) else e) = xs := by
        apply (List.map_congr_left _).trans (List.map_id xs)
        intro e he
        exact if_neg (ne_of_gt (hHead e he))
      rw [if_neg (lt_irrefl k), if_pos rfl, if_pos rfl, hRest]
    · have hLess : e.1 < k := hHead _ hLater
      rw [if_neg (not_lt_of_gt hLess), if_neg (ne_of_gt hLess), if_neg (ne_of_lt hLess), ih hTail hLater]

end Entries

section Pairs

variable {κ β : Type}

def paired (e : κ × List β) : List (κ × β) := e.2.map (fun b => (e.1, b))

theorem mem_paired {e : κ × List β} {p : κ × β} : p ∈ paired e ↔ p.1 = e.1 ∧ p.2 ∈ e.2 := by
  rw [paired, List.mem_map]
  constructor
  · rintro ⟨b, hb, rfl⟩
    exact ⟨rfl, hb⟩
  · rintro ⟨hKey, hb⟩
    exact ⟨p.2, hb, by rw [← hKey]⟩

end Pairs

variable {κ β : Type} [LinearOrder κ]

def bucket (m : OrderedMap κ (List β)) (k : κ) : List β := (m.find? k).getD []

def pairs (m : OrderedMap κ (List β)) : List (κ × β) := m.entries.flatMap paired

theorem bucket_of_mem {m : OrderedMap κ (List β)} {k : κ} {values : List β} (h : (k, values) ∈ m.entries) :
    m.bucket k = values := by
  rw [bucket, (m.find?_eq_some_iff k values).mpr h]
  rfl

theorem mem_pairs {m : OrderedMap κ (List β)} {k : κ} {b : β} : (k, b) ∈ m.pairs ↔ b ∈ m.bucket k := by
  rw [pairs, List.mem_flatMap]
  constructor
  · rintro ⟨⟨k', values⟩, he, hp⟩
    obtain ⟨rfl, hb⟩ := mem_paired.mp hp
    rw [bucket_of_mem he]
    exact hb
  · intro h
    cases hFind : m.find? k with
    | none =>
      rw [bucket, hFind] at h
      cases h
    | some values =>
      rw [bucket, hFind] at h
      exact ⟨(k, values), (m.find?_eq_some_iff k values).mp hFind, mem_paired.mpr ⟨rfl, h⟩⟩

/-- Pairs stand in key order. -/
theorem pairs_ascending (m : OrderedMap κ (List β)) : m.pairs.Pairwise (fun p q => p.1 ≤ q.1) := by
  rw [pairs, List.pairwise_flatMap]
  constructor
  · intro e _
    rw [paired, List.pairwise_map]
    exact List.pairwise_of_forall fun _ _ => le_refl _
  · apply m.sorted.imp
    intro e f hLess p hp q hq
    rw [(mem_paired.mp hp).1, (mem_paired.mp hq).1]
    exact le_of_lt hLess

theorem filter_paired_self (k : κ) (values : List β) : (paired (k, values)).filter (fun p => p.1 = k) = paired (k, values) := by
  apply List.filter_eq_self.mpr
  intro p hp
  exact decide_eq_true (mem_paired.mp hp).1

theorem filter_paired_of_ne {k : κ} {e : κ × List β} (h : e.1 ≠ k) : (paired e).filter (fun p => p.1 = k) = [] := by
  apply List.filter_eq_nil_iff.mpr
  intro p hp
  rw [(mem_paired.mp hp).1, decide_eq_true_iff]
  exact h

/-- The pairs of a key are its bucket, in the bucket's order. -/
theorem filter_pairs (m : OrderedMap κ (List β)) (k : κ) : m.pairs.filter (fun p => p.1 = k) = paired (k, m.bucket k) := by
  have hNone : ∀ xs : List (κ × List β), (∀ e ∈ xs, e.1 ≠ k) → (xs.flatMap paired).filter (fun p => p.1 = k) = [] := by
    intro xs hxs
    rw [List.filter_flatMap, List.flatMap_eq_nil_iff]
    exact fun e he => filter_paired_of_ne (hxs e he)
  cases hFind : m.find? k with
  | none =>
    have hAbsent : ∀ e ∈ m.entries, e.1 ≠ k := by
      rintro ⟨k', values⟩ he rfl
      rw [(m.find?_eq_some_iff k' values).mpr he] at hFind
      cases hFind
    rw [pairs, hNone _ hAbsent, bucket, hFind]
    rfl
  | some values =>
    obtain ⟨before, after, hEntries⟩ := List.append_of_mem ((m.find?_eq_some_iff k values).mp hFind)
    have hSorted := hEntries ▸ m.sorted
    rw [List.pairwise_append, List.pairwise_cons] at hSorted
    obtain ⟨-, ⟨hAfter, -⟩, hBefore⟩ := hSorted
    have hBeforeNe : ∀ e ∈ before, e.1 ≠ k := fun e he => ne_of_lt (hBefore e he _ List.mem_cons_self)
    have hAfterNe : ∀ e ∈ after, e.1 ≠ k := fun e he => ne_of_gt (hAfter e he)
    rw [pairs, hEntries, List.flatMap_append, List.flatMap_cons, List.filter_append, List.filter_append, hNone _ hBeforeNe,
      hNone _ hAfterNe, filter_paired_self, List.nil_append, List.append_nil, bucket, hFind]
    rfl

theorem length_pairs (m : OrderedMap κ (List β)) :
    m.pairs.length = m.entries.foldl (fun count e => count + e.2.length) 0 := by
  have hFrom : ∀ (xs : List (κ × List β)) (count : Nat),
      xs.foldl (fun count e => count + e.2.length) count = count + (xs.flatMap paired).length := by
    intro xs
    induction xs with
    | nil => exact fun _ => rfl
    | cons e xs ih =>
      intro count
      rw [List.foldl_cons, ih, List.flatMap_cons, List.length_append, paired, List.length_map]
      omega
  rw [hFrom, pairs, Nat.zero_add]

/-! ## What changes them -/

theorem pairs_erase (m : OrderedMap κ (List β)) (k : κ) : (m.erase k).pairs = m.pairs.filter (fun p => p.1 ≠ k) := by
  have hList : ∀ xs : List (κ × List β),
      (xs.filter (fun e => e.1 ≠ k)).flatMap paired = (xs.flatMap paired).filter (fun p => p.1 ≠ k) := by
    intro xs
    induction xs with
    | nil => rfl
    | cons e xs ih =>
      rw [List.flatMap_cons, List.filter_append, ← ih]
      by_cases hKey : e.1 = k
      · have hGone : (paired e).filter (fun p => p.1 ≠ k) = [] := by
          apply List.filter_eq_nil_iff.mpr
          intro p hp
          simp [(mem_paired.mp hp).1, hKey]
        rw [List.filter_cons_of_neg (by simp [hKey]), hGone, List.nil_append]
      · have hKept : (paired e).filter (fun p => p.1 ≠ k) = paired e := by
          apply List.filter_eq_self.mpr
          intro p hp
          simp [(mem_paired.mp hp).1, hKey]
        rw [List.filter_cons_of_pos (by simp [hKey]), List.flatMap_cons, hKept]
  exact hList m.entries

/-- A bucket without others goes with its key. -/
theorem pairs_erase_of_single [DecidableEq β] {m : OrderedMap κ (List β)} {k : κ} {b : β} (h : ∀ b' ∈ m.bucket k, b' = b) :
    (m.erase k).pairs = m.pairs.filter (fun p => p ≠ (k, b)) := by
  rw [pairs_erase]
  apply List.filter_congr
  rintro ⟨k', b'⟩ hMem
  apply decide_eq_decide.mpr
  constructor
  · rintro hKey hSame
    cases hSame
    exact hKey rfl
  · rintro hPair rfl
    exact hPair (by rw [h b' (mem_pairs.mp hMem)])

/-- Filtering a bucket filters the pairs. -/
theorem pairs_insert_filter [DecidableEq β] {m : OrderedMap κ (List β)} {k : κ} {values : List β}
    (h : m.find? k = some values) (b : β) :
    (m.insert k (values.filter (fun b' => b' ≠ b))).pairs = m.pairs.filter (fun p => p ≠ (k, b)) := by
  have hMem := (m.find?_eq_some_iff k values).mp h
  change (put k _ m.entries).flatMap paired = (m.entries.flatMap paired).filter _
  rw [put_of_mem m.sorted hMem, List.flatMap_map, List.filter_flatMap]
  apply List.flatMap_congr
  rintro ⟨k', values'⟩ he
  dsimp only
  by_cases hKey : k' = k
  · subst hKey
    have hSame : values' = values := by
      rw [(m.find?_eq_some_iff k' values').mpr he] at h
      exact Option.some.inj h
    subst hSame
    rw [if_pos rfl, paired, paired, List.filter_map]
    congr 1
    apply List.filter_congr
    intro b' _
    simp
  · rw [if_neg hKey]
    symm
    apply List.filter_eq_self.mpr
    intro p hp
    have hFirst := (mem_paired.mp hp).1
    rw [decide_eq_true_iff]
    rintro rfl
    exact hKey hFirst.symm

/-- The entries from a key on. -/
def lowerBound (m : OrderedMap κ (List β)) (lower : κ) : List (κ × List β) := m.entries.dropWhile (fun e => e.1 < lower)

theorem flatMap_lowerBound (m : OrderedMap κ (List β)) (lower : κ) :
    (m.lowerBound lower).flatMap paired = m.pairs.filter (fun p => lower ≤ p.1) := by
  have hList : ∀ xs : List (κ × List β), xs.Pairwise (fun x y => x.1 < y.1) →
      (xs.dropWhile (fun e => e.1 < lower)).flatMap paired = (xs.flatMap paired).filter (fun p => lower ≤ p.1) := by
    intro xs hSorted
    induction xs with
    | nil => rfl
    | cons e xs ih =>
      obtain ⟨hHead, hTail⟩ := List.pairwise_cons.mp hSorted
      by_cases hLess : e.1 < lower
      · have hGone : (paired e).filter (fun p => lower ≤ p.1) = [] := by
          apply List.filter_eq_nil_iff.mpr
          intro p hp
          rw [(mem_paired.mp hp).1, decide_eq_true_iff]
          exact not_le_of_gt hLess
        rw [List.dropWhile_cons_of_pos (by simpa using hLess), ih hTail, List.flatMap_cons, List.filter_append, hGone,
          List.nil_append]
      · have hKept : ((e :: xs).flatMap paired).filter (fun p => lower ≤ p.1) = (e :: xs).flatMap paired := by
          apply List.filter_eq_self.mpr
          intro p hp
          obtain ⟨f, hf, hp⟩ := List.mem_flatMap.mp hp
          rw [(mem_paired.mp hp).1, decide_eq_true_iff]
          rcases List.mem_cons.mp hf with rfl | hf
          · exact le_of_not_gt hLess
          · exact le_trans (le_of_not_gt hLess) (le_of_lt (hHead f hf))
        rw [List.dropWhile_cons_of_neg (by simpa using hLess), hKept]
  exact hList m.entries m.sorted

end OrderedMap
