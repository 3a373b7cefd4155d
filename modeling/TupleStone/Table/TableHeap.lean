import TupleStone.Common.Rid
import TupleStone.Common.Value
import TupleStone.Lib.KeyedLog

/-! # The table heap

Rows by address. The slot counter has 16 bits; its wrap to zero is what advances the page.
-/

set_option autoImplicit false

namespace TupleStone

open KeyedLog (Event keys content live)

structure Tuple where
  values : List Value := []
  deriving DecidableEq, Repr

def Tuple.size (tuple : Tuple) : Nat := tuple.values.length

structure TableHeap where
  tuples : OrderedMap RID Tuple := OrderedMap.empty
  nextPageId : UInt32 := 1
  nextSlotId : UInt16 := 0

namespace TableHeap

def insertTuple (heap : TableHeap) (tuple : Tuple) : Except Status RID × TableHeap :=
  if tuple.size = 0 then (.error (.invalidArgument (ascii "tuple has no columns")), heap)
  else
    let rid : RID := ⟨heap.nextPageId, heap.nextSlotId⟩
    let nextSlotId := heap.nextSlotId + 1
    let nextPageId := if nextSlotId = 0 then heap.nextPageId + 1 else heap.nextPageId
    (.ok rid, ⟨heap.tuples.emplace rid tuple, nextPageId, nextSlotId⟩)

def getTuple (heap : TableHeap) (rid : RID) : Except Status Tuple :=
  match heap.tuples.find? rid with
  | none => .error (.notFound (ascii "tuple not found"))
  | some tuple => .ok tuple

def updateTuple (heap : TableHeap) (rid : RID) (tuple : Tuple) : Status × TableHeap :=
  match heap.tuples.find? rid with
  | none => (.notFound (ascii "tuple not found"), heap)
  | some _ => (.ok, { heap with tuples := heap.tuples.insert rid tuple })

def markDelete (heap : TableHeap) (rid : RID) : Status × TableHeap :=
  match heap.tuples.find? rid with
  | none => (.notFound (ascii "tuple not found"), heap)
  | some _ => (.ok, { heap with tuples := heap.tuples.erase rid })

def scan (heap : TableHeap) : List (RID × Tuple) := heap.tuples.entries

/-! ## Runs -/

inductive Call where
  | insertTuple (tuple : Tuple)
  | updateTuple (rid : RID) (tuple : Tuple)
  | markDelete (rid : RID)

/-- A call, with its entry in the history: an insertion enters under the address that it returned. -/
def call (heap : TableHeap) : Call → List (Event RID Tuple) × TableHeap
  | .insertTuple tuple =>
    match heap.insertTuple tuple with
    | (.ok rid, heap') => ([.added rid tuple], heap')
    | (.error _, heap') => ([], heap')
  | .updateTuple rid tuple => ([.changed rid tuple], (heap.updateTuple rid tuple).2)
  | .markDelete rid => ([.removed rid], (heap.markDelete rid).2)

/-- The history of calls to a fresh heap, and the heap behind them. -/
def run (calls : List Call) : List (Event RID Tuple) × TableHeap :=
  calls.foldl (fun s c => (s.1 ++ (s.2.call c).1, (s.2.call c).2)) ([], {})

theorem run_snoc (calls : List Call) (c : Call) :
    run (calls ++ [c]) = ((run calls).1 ++ ((run calls).2.call c).1, ((run calls).2.call c).2) := by
  rw [run, List.foldl_append]
  rfl

/-- The addresses before the invalid page. -/
def capacity : Nat := (2 ^ 32 - 2) * 2 ^ 16

def next (heap : TableHeap) : RID := ⟨heap.nextPageId, heap.nextSlotId⟩

/-- The addresses returned ascend to the next one, which counts them. -/
structure Kept (log : List (Event RID Tuple)) (heap : TableHeap) : Prop where
  holds : KeyedLog.Holds heap.tuples log
  ascending : (keys log).Pairwise (· < ·)
  below : ∀ rid ∈ keys log, rid < heap.next
  counts : heap.next.rank = 2 ^ 16 + (keys log).length

theorem kept_fresh : Kept [] {} := by
  constructor
  · exact KeyedLog.holds_empty
  · exact List.Pairwise.nil
  · exact fun _ h => absurd h List.not_mem_nil
  · rfl

/-- The slot's wrap advances the page. -/
theorem rank_advance (page : UInt32) (slot : UInt16) (h : page.toNat + 1 < 2 ^ 32) :
    (RID.mk (if slot + 1 = 0 then page + 1 else page) (slot + 1)).rank = (RID.mk page slot).rank + 1 := by
  have hSlot := slot.toNat_lt
  have hNext : (slot + 1).toNat = (slot.toNat + 1) % 2 ^ 16 := UInt16.toNat_add slot 1
  have hPage : (page + 1).toNat = page.toNat + 1 := by
    rw [UInt32.toNat_add]
    exact Nat.mod_eq_of_lt h
  have hWrap : slot + 1 = 0 ↔ slot.toNat + 1 = 2 ^ 16 := by
    rw [← UInt16.toNat_inj, hNext]
    change (slot.toNat + 1) % 2 ^ 16 = 0 ↔ _
    omega
  simp only [RID.rank, hWrap]
  split
  · rw [hPage, hNext]
    omega
  · rw [hNext]
    omega

theorem Kept.insertTuple {log : List (Event RID Tuple)} {heap : TableHeap} (h : Kept log heap)
    (hFew : (keys log).length < capacity) {tuple : Tuple} (hSize : tuple.size ≠ 0) :
    (heap.insertTuple tuple).1 = .ok heap.next ∧ Kept (log ++ [.added heap.next tuple]) (heap.insertTuple tuple).2 := by
  have hCounts := h.counts
  have hSlot := heap.nextSlotId.toNat_lt
  have hPage : heap.nextPageId.toNat + 1 < 2 ^ 32 := by
    simp only [next, RID.rank] at hCounts
    simp only [capacity] at hFew
    omega
  have hRank : (heap.insertTuple tuple).2.next.rank = heap.next.rank + 1 := by
    rw [TableHeap.insertTuple, if_neg hSize]
    exact rank_advance heap.nextPageId heap.nextSlotId hPage
  have hNew : heap.next ∉ keys log := fun hMem => lt_irrefl _ (h.below _ hMem)
  constructor
  · rw [TableHeap.insertTuple, if_neg hSize]
    rfl
  constructor
  · rw [TableHeap.insertTuple, if_neg hSize]
    exact h.holds.add hNew tuple
  · rw [KeyedLog.keys_snoc, List.pairwise_append]
    constructor
    · exact h.ascending
    constructor
    · exact List.pairwise_singleton _ _
    · intro rid hRid other hOther
      obtain rfl := List.mem_singleton.mp hOther
      exact h.below rid hRid
  · intro rid hRid
    rw [KeyedLog.keys_snoc, List.mem_append] at hRid
    rw [RID.lt_iff, hRank]
    rcases hRid with hRid | hRid
    · have hLess := (RID.lt_iff _ _).mp (h.below rid hRid)
      omega
    · obtain rfl := List.mem_singleton.mp hRid
      omega
  · rw [hRank, hCounts, KeyedLog.keys_snoc, List.length_append]
    rfl

theorem Kept.updateTuple {log : List (Event RID Tuple)} {heap : TableHeap} (h : Kept log heap) (rid : RID) (tuple : Tuple) :
    Kept (log ++ [.changed rid tuple]) (heap.updateTuple rid tuple).2 := by
  have hKeys : keys (log ++ [.changed rid tuple]) = keys log := by rw [KeyedLog.keys_snoc]; exact List.append_nil _
  rw [TableHeap.updateTuple]
  split
  · rename_i hNone
    exact ⟨h.holds.change_absent hNone tuple, hKeys ▸ h.ascending, hKeys ▸ h.below, hKeys ▸ h.counts⟩
  · rename_i held hHeld
    exact ⟨h.holds.change hHeld tuple, hKeys ▸ h.ascending, hKeys ▸ h.below, hKeys ▸ h.counts⟩

theorem Kept.markDelete {log : List (Event RID Tuple)} {heap : TableHeap} (h : Kept log heap) (rid : RID) :
    Kept (log ++ [.removed rid]) (heap.markDelete rid).2 := by
  have hKeys : keys (log ++ [.removed rid]) = keys log := by rw [KeyedLog.keys_snoc]; exact List.append_nil _
  have hErased : (heap.markDelete rid).2 = { heap with tuples := heap.tuples.erase rid } := by
    rw [TableHeap.markDelete]
    split
    · rename_i hNone
      rw [OrderedMap.erase_of_none _ hNone]
    · rfl
  rw [hErased]
  exact ⟨h.holds.remove rid, hKeys ▸ h.ascending, hKeys ▸ h.below, hKeys ▸ h.counts⟩

theorem Kept.call {log : List (Event RID Tuple)} {heap : TableHeap} (h : Kept log heap) (c : Call)
    (hFew : (keys (log ++ (heap.call c).1)).length ≤ capacity) : Kept (log ++ (heap.call c).1) (heap.call c).2 := by
  cases c with
  | insertTuple tuple =>
    by_cases hSize : tuple.size = 0
    · have hCall : heap.call (.insertTuple tuple) = ([], heap) := by
        rw [TableHeap.call, TableHeap.insertTuple, if_pos hSize]
      rw [hCall, List.append_nil]
      exact h
    · have hCall : heap.call (.insertTuple tuple) = ([.added heap.next tuple], (heap.insertTuple tuple).2) := by
        rw [TableHeap.call, TableHeap.insertTuple, if_neg hSize]
        rfl
      rw [hCall] at hFew ⊢
      rw [KeyedLog.keys_snoc, List.length_append] at hFew
      have hRoom : (keys log).length < capacity := hFew
      exact (h.insertTuple hRoom hSize).2
  | updateTuple rid tuple => exact h.updateTuple rid tuple
  | markDelete rid => exact h.markDelete rid

theorem kept_run (calls : List Call) (hFew : (keys (run calls).1).length ≤ capacity) : Kept (run calls).1 (run calls).2 := by
  induction calls using List.reverseRecOn with
  | nil => exact kept_fresh
  | append_singleton calls c ih =>
    rw [run_snoc] at hFew ⊢
    have hBefore : (keys (run calls).1).length ≤ (keys ((run calls).1 ++ ((run calls).2.call c).1)).length := by
      rw [keys, keys, List.filterMap_append, List.length_append]
      exact Nat.le_add_right _ _
    exact (ih (hBefore.trans hFew)).call c hFew

theorem valid_next {log : List (Event RID Tuple)} {heap : TableHeap} (h : Kept log heap)
    (hFew : (keys log).length < capacity) : heap.next.valid = true := by
  have hCounts := h.counts
  rw [RID.valid, bne_iff_ne]
  intro hInvalid
  have hPage : heap.next.pageId.toNat = 2 ^ 32 - 1 := by rw [hInvalid]; rfl
  rw [RID.rank, hPage] at hCounts
  simp only [capacity] at hFew
  omega

/-- Addresses ascend and are never used again; what is read is what was last written; a scan lists the live rows. -/
theorem addresses_run (calls : List Call) (hFew : (keys (run calls).1).length < (2 ^ 32 - 2) * 2 ^ 16) :
    (∀ tuple : Tuple, tuple.size ≠ 0 → ∃ rid, ((run calls).2.insertTuple tuple).1 = .ok rid ∧ rid.valid = true ∧
        ∀ earlier ∈ keys (run calls).1, earlier < rid) ∧
      (keys (run calls).1).Pairwise (· < ·) ∧
      (∀ rid, (run calls).2.getTuple rid =
        match content (run calls).1 rid with
        | some tuple => .ok tuple
        | none => .error (.notFound (ascii "tuple not found"))) ∧
      (run calls).2.scan = live (run calls).1 := by
  have hKept := kept_run calls hFew.le
  constructor
  · intro tuple hSize
    exact ⟨(run calls).2.next, (hKept.insertTuple hFew hSize).1, valid_next hKept hFew, hKept.below⟩
  constructor
  · exact hKept.ascending
  constructor
  · intro rid
    rw [getTuple, hKept.holds rid]
    cases content (run calls).1 rid <;> rfl
  · exact hKept.holds.entries hKept.ascending

def sampleCalls : List Call :=
  [.insertTuple ⟨[.integer 1]⟩, .insertTuple ⟨[.integer 2]⟩, .markDelete ⟨1, 0⟩, .insertTuple ⟨[]⟩,
    .insertTuple ⟨[.integer 3]⟩, .updateTuple ⟨1, 1⟩ ⟨[.null]⟩]

theorem addresses_run_sample : (run sampleCalls).2.scan = [(⟨1, 1⟩, ⟨[.null]⟩), (⟨1, 2⟩, ⟨[.integer 3]⟩)] := by
  have hRun := addresses_run sampleCalls (by decide)
  rw [hRun.2.2.2]
  decide

end TableHeap

end TupleStone
