import TupleStone.Index.BPlusTree

/-! # Removing one entry

When a removal takes exactly the pair it names.
-/

set_option autoImplicit false

namespace TupleStone.BPlusTree

variable {index : BPlusTree}

/-- The pair and no other is removed; a pair that is not there is not found, and nothing changes. -/
def RemovesExactly (index : BPlusTree) (key : Bytes) (rid : RID) : Prop :=
  if (key, rid) ∈ index.entries.pairs then
    (index.remove key rid).1 = .ok ∧ (index.remove key rid).2.entries.pairs = index.entries.pairs.filter (fun p => p ≠ (key, rid))
  else (∃ message, (index.remove key rid).1 = .notFound message) ∧ (index.remove key rid).2 = index

theorem find?_eq_none_of_pairs (h : WellFormed index) {key : Bytes} (hNone : ∀ other, (key, other) ∉ index.entries.pairs) :
    index.entries.find? key = none := by
  cases hFind : index.entries.find? key with
  | none => rfl
  | some values =>
    obtain ⟨rid, hRid⟩ := List.exists_mem_of_ne_nil values (h.found hFind).filled
    apply absurd _ (hNone rid)
    rw [OrderedMap.mem_pairs, OrderedMap.bucket, hFind]
    exact hRid

theorem removesExactly_of_mem (h : WellFormed index) {key : Bytes} {rid : RID} (hValid : rid.valid = true)
    (hMem : (key, rid) ∈ index.entries.pairs) : RemovesExactly index key rid := by
  have hBucket := OrderedMap.mem_pairs.mp hMem
  rw [RemovesExactly, if_pos hMem]
  rcases index.remove_cases key rid with ⟨hNone, -⟩ | ⟨values, hFind, ⟨hWhole, hDone⟩ | ⟨-, -, -, hDone⟩⟩
  · rw [OrderedMap.bucket, hNone] at hBucket
    cases hBucket
  · have hValues : index.entries.bucket key = values := by rw [OrderedMap.bucket, hFind]; rfl
    have hOnly : ∀ other ∈ index.entries.bucket key, other = rid := by
      rw [hValues] at hBucket ⊢
      rcases hWhole with hUnique | hInvalid | hEmpty
      · obtain ⟨only, rfl⟩ := List.length_eq_one_iff.mp
          (Nat.le_antisymm ((h.found hFind).single hUnique) (List.length_pos_of_mem hBucket))
        intro other hOther
        rw [List.mem_singleton.mp hOther, List.mem_singleton.mp hBucket]
      · rw [hValid] at hInvalid
        cases hInvalid
      · intro other hOther
        have hGone := List.filter_eq_nil_iff.mp hEmpty other hOther
        rwa [decide_eq_true_iff, not_not] at hGone
    rw [hDone]
    constructor
    · rfl
    · apply (OrderedMap.pairs_erase_of_single hOnly).trans
      exact List.filter_congr fun _ _ => decide_eq_decide.mpr Iff.rfl
  · rw [hDone]
    constructor
    · rfl
    · apply (OrderedMap.pairs_insert_filter hFind rid).trans
      exact List.filter_congr fun _ _ => decide_eq_decide.mpr Iff.rfl

/-- On every reachable index: exactly when the pair is there, or nothing is under the key. -/
theorem removesExactly_iff (unique : Bool) (calls : List Call) (key : Bytes) (rid : RID) (hValid : rid.valid = true) :
    RemovesExactly (run unique calls).2 key rid ↔
      (key, rid) ∈ (run unique calls).2.entries.pairs ∨ ∀ other, (key, other) ∉ (run unique calls).2.entries.pairs := by
  have hForm := (run_invariant unique calls).2.1
  generalize (run unique calls).2 = index at hForm
  constructor
  · intro hExact
    by_cases hMem : (key, rid) ∈ index.entries.pairs
    · exact Or.inl hMem
    · right
      intro other hOther
      rw [RemovesExactly, if_neg hMem] at hExact
      obtain ⟨⟨message, hNotFound⟩, -⟩ := hExact
      rcases index.remove_cases key rid with ⟨hNone, -⟩ | ⟨values, -, ⟨-, hDone⟩ | ⟨-, -, -, hDone⟩⟩
      · rw [OrderedMap.mem_pairs, OrderedMap.bucket, hNone] at hOther
        cases hOther
      · rw [hDone] at hNotFound
        cases hNotFound
      · rw [hDone] at hNotFound
        cases hNotFound
  · rintro (hMem | hNone)
    · exact removesExactly_of_mem hForm hValid hMem
    · have hFind := find?_eq_none_of_pairs hForm hNone
      have hDone : index.remove key rid = (.notFound (ascii "index key not found"), index) := by
        rw [remove, hFind]
      rw [RemovesExactly, if_neg (hNone rid), hDone]
      exact ⟨⟨_, rfl⟩, rfl⟩

/-- One entry, under the key `a`. -/
def oneEntry (unique : Bool) : BPlusTree := (run unique [.insert (ascii "a") ⟨1, 0⟩]).2

theorem removesExactly_oneEntry :
    RemovesExactly (oneEntry true) (ascii "a") ⟨1, 0⟩ ∧ RemovesExactly (oneEntry false) (ascii "a") ⟨1, 0⟩ := by
  constructor
  · exact (removesExactly_iff true _ _ _ (by decide)).mpr (Or.inl (by decide))
  · exact (removesExactly_iff false _ _ _ (by decide)).mpr (Or.inl (by decide))

/-- Another address under the key: a unique index loses its entry, and the other kind reports success. -/
theorem removes_other_entry :
    ¬ RemovesExactly (oneEntry true) (ascii "a") ⟨1, 1⟩ ∧ ((oneEntry true).remove (ascii "a") ⟨1, 1⟩).2.entries.pairs = [] ∧
      ¬ RemovesExactly (oneEntry false) (ascii "a") ⟨1, 1⟩ ∧ ((oneEntry false).remove (ascii "a") ⟨1, 1⟩).1 = .ok := by
  have hNot : ∀ unique, ¬ RemovesExactly (oneEntry unique) (ascii "a") ⟨1, 1⟩ := by
    intro unique
    have hAbsent : (ascii "a", (⟨1, 1⟩ : RID)) ∉ (oneEntry unique).entries.pairs := by cases unique <;> decide
    have hOk : ((oneEntry unique).remove (ascii "a") ⟨1, 1⟩).1 = .ok := by cases unique <;> decide
    rw [RemovesExactly, if_neg hAbsent, hOk]
    rintro ⟨⟨message, hNotFound⟩, -⟩
    cases hNotFound
  refine ⟨hNot true, ?_, hNot false, ?_⟩
  · decide
  · decide

end TupleStone.BPlusTree
