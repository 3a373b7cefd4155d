import TupleStone.Common.Rid
import TupleStone.Common.Status
import TupleStone.Lib.Buckets
import Mathlib.Data.List.Induction

/-! # The ordered index

A facade over a map from keys to row addresses, unique or not.
-/

set_option autoImplicit false

namespace TupleStone

open OrderedMap (paired)

structure BPlusTree where
  unique : Bool := true
  entries : OrderedMap Bytes (List RID) := OrderedMap.empty
  deriving DecidableEq

namespace BPlusTree

/-- The bucket is created before the checks that may refuse the entry. -/
def insert (index : BPlusTree) (key : Bytes) (rid : RID) : Status × BPlusTree :=
  if rid.valid = false then (.invalidArgument (ascii "index RID is invalid"), index)
  else
    let entries := index.entries.emplace key []
    let values := (entries.find? key).getD []
    if index.unique = true ∧ values ≠ [] then (.alreadyExists (ascii "duplicate index key"), { index with entries })
    else if rid ∈ values then (.alreadyExists (ascii "duplicate index entry"), { index with entries })
    else (.ok, { index with entries := entries.insert key (values ++ [rid]) })

/-- An invalid address, or a unique index, removes the whole bucket. -/
def remove (index : BPlusTree) (key : Bytes) (rid : RID) : Status × BPlusTree :=
  match index.entries.find? key with
  | none => (.notFound (ascii "index key not found"), index)
  | some values =>
    if index.unique = true ∨ rid.valid = false then (.ok, { index with entries := index.entries.erase key })
    else
      let values := values.filter (fun other => other ≠ rid)
      let entries := index.entries.insert key values
      if values = [] then (.ok, { index with entries := entries.erase key }) else (.ok, { index with entries })

def search (index : BPlusTree) (key : Bytes) : Except Status RID :=
  match index.entries.find? key with
  | none => .error (.notFound (ascii "index key not found"))
  | some [] => .error (.notFound (ascii "index key not found"))
  | some (rid :: _) => .ok rid

def searchAll (index : BPlusTree) (key : Bytes) : List RID :=
  match index.entries.find? key with
  | none => []
  | some values => values

def range (index : BPlusTree) (lower : Bytes) : List (Bytes × RID) :=
  (index.entries.lowerBound lower).flatMap (fun e => e.2.map (fun rid => (e.1, rid)))

def validateLoop (unique : Bool) : List (Bytes × List RID) → Status
  | [] => .ok
  | (key, values) :: rest =>
    if key = [] ∧ values = [] then .corruption (ascii "empty index entry")
    else if unique = true ∧ values.length > 1 then .corruption (ascii "unique index contains duplicate key")
    else validateLoop unique rest

def validate (index : BPlusTree) : Status := validateLoop index.unique index.entries.entries

def size (index : BPlusTree) : Nat := index.entries.entries.foldl (fun count e => count + e.2.length) 0

/-! ## Runs -/

inductive Call where
  | insert (key : Bytes) (rid : RID)
  | remove (key : Bytes) (rid : RID)

def call (index : BPlusTree) : Call → Status × BPlusTree
  | .insert key rid => index.insert key rid
  | .remove key rid => index.remove key rid

/-- The calls to a fresh index with their results, and the index behind them. -/
def run (unique : Bool) (calls : List Call) : List (Call × Status) × BPlusTree :=
  calls.foldl (fun s c => (s.1 ++ [(c, (s.2.call c).1)], (s.2.call c).2)) ([], { unique })

theorem run_snoc (unique : Bool) (calls : List Call) (c : Call) :
    run unique (calls ++ [c]) =
      ((run unique calls).1 ++ [(c, ((run unique calls).2.call c).1)], ((run unique calls).2.call c).2) := by
  rw [run, List.foldl_append]
  rfl

/-- The pairs inserted, each where it was inserted last. -/
def noteInsertion (order : List (Bytes × RID)) : Call × Status → List (Bytes × RID)
  | (.insert key rid, .ok) => order.filter (fun p => p ≠ (key, rid)) ++ [(key, rid)]
  | _ => order

def insertionOrder (log : List (Call × Status)) : List (Bytes × RID) := log.foldl noteInsertion []

theorem insertionOrder_snoc (log : List (Call × Status)) (entry : Call × Status) :
    insertionOrder (log ++ [entry]) = noteInsertion (insertionOrder log) entry := by
  rw [insertionOrder, List.foldl_append]
  rfl

/-! ## The invariant -/

structure Bucket (unique : Bool) (values : List RID) : Prop where
  filled : values ≠ []
  distinct : values.Nodup
  valid : ∀ rid ∈ values, rid.valid = true
  single : unique = true → values.length ≤ 1

def WellFormed (index : BPlusTree) : Prop := ∀ e ∈ index.entries.entries, Bucket index.unique e.2

theorem wellFormed_fresh (unique : Bool) : WellFormed { unique } := fun _ h => absurd h List.not_mem_nil

variable {index : BPlusTree}

theorem searchAll_eq (index : BPlusTree) (key : Bytes) : index.searchAll key = index.entries.bucket key := by
  rw [searchAll, OrderedMap.bucket]
  cases index.entries.find? key <;> rfl

theorem WellFormed.found (h : WellFormed index) {key : Bytes} {values : List RID}
    (hFind : index.entries.find? key = some values) : Bucket index.unique values :=
  h (key, values) ((index.entries.find?_eq_some_iff key values).mp hFind)

theorem WellFormed.erase (h : WellFormed index) (key : Bytes) :
    WellFormed { index with entries := index.entries.erase key } :=
  fun e he => h e (List.mem_of_mem_filter he)

theorem WellFormed.insert (h : WellFormed index) (key : Bytes) {values : List RID} (hBucket : Bucket index.unique values) :
    WellFormed { index with entries := index.entries.insert key values } := by
  intro e he
  rcases OrderedMap.mem_put he with rfl | he
  · exact hBucket
  · exact h e he

/-- What an insertion does: nothing when it is refused, else the address goes behind its bucket. -/
theorem WellFormed.insert_cases (h : WellFormed index) (key : Bytes) (rid : RID) :
    ((index.insert key rid).1 ≠ .ok ∧ (index.insert key rid).2 = index) ∨
      (rid.valid = true ∧ rid ∉ index.entries.bucket key ∧ (index.unique = true → index.entries.bucket key = []) ∧
        index.insert key rid =
          (.ok, { index with entries := index.entries.insert key (index.entries.bucket key ++ [rid]) })) := by
  rw [BPlusTree.insert]
  by_cases hValid : rid.valid = false
  · rw [if_pos hValid]
    exact Or.inl ⟨Status.noConfusion, rfl⟩
  rw [if_neg hValid]
  cases hFind : index.entries.find? key with
  | none =>
    have hCreated : index.entries.emplace key [] = index.entries.insert key [] := OrderedMap.emplace_of_none _ hFind []
    have hBucket : index.entries.bucket key = [] := by
      rw [OrderedMap.bucket, hFind]
      rfl
    have hTwice : (index.entries.insert key []).insert key [rid] = index.entries.insert key [rid] := by
      apply OrderedMap.ext_find?
      intro other
      rw [OrderedMap.find?_insert, OrderedMap.find?_insert, OrderedMap.find?_insert]
      split <;> rfl
    right
    rw [hCreated, hBucket]
    constructor
    · exact Bool.not_eq_false _ ▸ hValid
    constructor
    · exact List.not_mem_nil
    constructor
    · exact fun _ => rfl
    · simp [hTwice]
  | some values =>
    have hBucket : index.entries.bucket key = values := by
      rw [OrderedMap.bucket, hFind]
      rfl
    have hSame : index.entries.emplace key [] = index.entries := by
      rw [OrderedMap.emplace, hFind]
    simp only [hSame, hFind, hBucket, Option.getD_some]
    by_cases hUnique : index.unique = true ∧ values ≠ []
    · rw [if_pos hUnique]
      exact Or.inl ⟨Status.noConfusion, rfl⟩
    rw [if_neg hUnique]
    by_cases hMem : rid ∈ values
    · rw [if_pos hMem]
      exact Or.inl ⟨Status.noConfusion, rfl⟩
    rw [if_neg hMem]
    right
    constructor
    · exact Bool.not_eq_false _ ▸ hValid
    constructor
    · exact hMem
    constructor
    · exact fun h => not_not.mp fun hNe => hUnique ⟨h, hNe⟩
    · rfl

/-- What a removal does. -/
theorem remove_cases (index : BPlusTree) (key : Bytes) (rid : RID) :
    (index.entries.find? key = none ∧ index.remove key rid = (.notFound (ascii "index key not found"), index)) ∨
      (∃ values, index.entries.find? key = some values ∧
        (((index.unique = true ∨ rid.valid = false ∨ values.filter (fun other => other ≠ rid) = []) ∧
            index.remove key rid = (.ok, { index with entries := index.entries.erase key })) ∨
          (index.unique = false ∧ rid.valid = true ∧ values.filter (fun other => other ≠ rid) ≠ [] ∧
            index.remove key rid =
              (.ok, { index with entries := index.entries.insert key (values.filter (fun other => other ≠ rid)) })))) := by
  rw [remove]
  cases hFind : index.entries.find? key with
  | none => exact Or.inl ⟨rfl, rfl⟩
  | some values =>
    right
    refine ⟨values, rfl, ?_⟩
    by_cases hWhole : index.unique = true ∨ rid.valid = false
    · left
      simp only [if_pos hWhole, and_true]
      rcases hWhole with h | h
      · exact Or.inl h
      · exact Or.inr (Or.inl h)
    · obtain ⟨hUnique, hValid⟩ := not_or.mp hWhole
      simp only [if_neg hWhole]
      by_cases hEmpty : values.filter (fun other => other ≠ rid) = []
      · left
        have hErased : (index.entries.insert key []).erase key = index.entries.erase key := by
          apply OrderedMap.ext_find?
          intro other
          rw [OrderedMap.find?_erase, OrderedMap.find?_erase, OrderedMap.find?_insert]
          split <;> rfl
        simp only [hEmpty, if_true, hErased, or_true, and_self]
      · right
        rw [if_neg hEmpty]
        exact ⟨Bool.not_eq_true _ ▸ hUnique, Bool.not_eq_false _ ▸ hValid, hEmpty, rfl⟩

theorem wellFormed_insert (h : WellFormed index) (key : Bytes) (rid : RID) : WellFormed (index.insert key rid).2 := by
  rcases h.insert_cases key rid with ⟨-, hSame⟩ | ⟨hValid, hNew, hUnique, hDone⟩
  · rw [hSame]
    exact h
  · rw [hDone]
    apply h.insert
    have hOld : index.entries.bucket key = [] ∨ Bucket index.unique (index.entries.bucket key) := by
      cases hFind : index.entries.find? key with
      | none => exact Or.inl (by rw [OrderedMap.bucket, hFind]; rfl)
      | some values => exact Or.inr (by rw [OrderedMap.bucket, hFind]; exact h.found hFind)
    constructor
    · simp
    · apply List.nodup_append.mpr
      refine ⟨?_, List.pairwise_singleton _ rid, ?_⟩
      · rcases hOld with hEmpty | hOld
        · rw [hEmpty]
          exact List.nodup_nil
        · exact hOld.distinct
      · intro other hOther last hLast hEq
        rw [List.mem_singleton.mp hLast] at hEq
        exact hNew (hEq ▸ hOther)
    · intro other hOther
      rcases List.mem_append.mp hOther with hOther | hOther
      · rcases hOld with hEmpty | hOld
        · rw [hEmpty] at hOther
          cases hOther
        · exact hOld.valid other hOther
      · rw [List.mem_singleton.mp hOther]
        exact hValid
    · intro h
      rw [hUnique h]
      exact Nat.le_refl 1

theorem wellFormed_remove (h : WellFormed index) (key : Bytes) (rid : RID) : WellFormed (index.remove key rid).2 := by
  rcases index.remove_cases key rid with ⟨-, hDone⟩ | ⟨values, hFind, ⟨-, hDone⟩ | ⟨-, -, hLeft, hDone⟩⟩
  · rw [hDone]
    exact h
  · rw [hDone]
    exact h.erase key
  · rw [hDone]
    have hOld := h.found hFind
    apply h.insert
    constructor
    · exact hLeft
    · exact hOld.distinct.filter _
    · exact fun other hOther => hOld.valid other (List.mem_of_mem_filter hOther)
    · exact fun hUnique => (List.length_filter_le _ _).trans (hOld.single hUnique)

theorem unique_call (index : BPlusTree) (c : Call) : (index.call c).2.unique = index.unique := by
  cases c with
  | insert key rid =>
    rw [call, insert]
    split
    · rfl
    · dsimp only
      split
      · rfl
      · split <;> rfl
  | remove key rid =>
    rcases index.remove_cases key rid with ⟨-, hDone⟩ | ⟨values, -, ⟨-, hDone⟩ | ⟨-, -, -, hDone⟩⟩ <;>
      rw [call, hDone]

/-! ## The order of insertion -/

/-- Within a key the addresses stand as they were inserted. -/
def Ordered (order : List (Bytes × RID)) (index : BPlusTree) : Prop :=
  ∀ key, (paired (key, index.entries.bucket key)).Sublist order

theorem Ordered.shrink {order : List (Bytes × RID)} {entries : OrderedMap Bytes (List RID)} (h : Ordered order index)
    (hBuckets : ∀ key, (entries.bucket key).Sublist (index.entries.bucket key)) :
    Ordered order { index with entries } :=
  fun key => ((hBuckets key).map _).trans (h key)

theorem bucket_erase_sublist (m : OrderedMap Bytes (List RID)) (key other : Bytes) :
    ((m.erase key).bucket other).Sublist (m.bucket other) := by
  rw [OrderedMap.bucket, OrderedMap.find?_erase]
  split
  · exact List.nil_sublist _
  · exact List.Sublist.refl _

theorem Ordered.insert {order : List (Bytes × RID)} (h : Ordered order index) {key : Bytes} {rid : RID}
    (hNew : rid ∉ index.entries.bucket key) :
    Ordered (order.filter (fun p => p ≠ (key, rid)) ++ [(key, rid)])
      { index with entries := index.entries.insert key (index.entries.bucket key ++ [rid]) } := by
  -- The pair is in no bucket yet, so every bucket stays a part of the order without it.
  have hKept : ∀ other, (paired (other, index.entries.bucket other)).Sublist (order.filter (fun p => p ≠ (key, rid))) := by
    intro other
    have hFilter := (h other).filter (fun p => decide (p ≠ (key, rid)))
    rwa [List.filter_eq_self.mpr] at hFilter
    rintro p hp
    rw [decide_eq_true_iff]
    rintro rfl
    obtain ⟨hKey, hMem⟩ := OrderedMap.mem_paired.mp hp
    change key = other at hKey
    exact hNew (hKey ▸ hMem)
  intro other
  rw [OrderedMap.bucket, OrderedMap.find?_insert]
  split
  · rename_i hSame
    have hSplit : paired (other, index.entries.bucket key ++ [rid]) =
        paired (key, index.entries.bucket key) ++ [(key, rid)] := by
      rw [hSame, paired, paired, List.map_append]
      rfl
    rw [Option.getD_some, hSplit]
    exact (hKept key).append (List.Sublist.refl _)
  · exact (hKept other).trans (List.sublist_append_left _ _)

theorem Ordered.call {order : List (Bytes × RID)} (h : Ordered order index) (hForm : WellFormed index) (c : Call) :
    Ordered (noteInsertion order (c, (index.call c).1)) (index.call c).2 := by
  cases c with
  | insert key rid =>
    rcases hForm.insert_cases key rid with ⟨hRefused, hSame⟩ | ⟨-, hNew, -, hDone⟩
    · have hNote : noteInsertion order (.insert key rid, (index.insert key rid).1) = order := by
        cases hStatus : (index.insert key rid).1 with
        | ok => exact absurd hStatus hRefused
        | error code message => rfl
      rw [BPlusTree.call, hNote, hSame]
      exact h
    · rw [BPlusTree.call, hDone]
      exact h.insert hNew
  | remove key rid =>
    rw [BPlusTree.call]
    change Ordered order _
    rcases index.remove_cases key rid with ⟨-, hDone⟩ | ⟨values, hFind, ⟨-, hDone⟩ | ⟨-, -, -, hDone⟩⟩
    · rw [hDone]
      exact h
    · rw [hDone]
      exact h.shrink (bucket_erase_sublist index.entries key)
    · rw [hDone]
      apply h.shrink
      intro other
      rw [OrderedMap.bucket, OrderedMap.find?_insert]
      split
      · rename_i hSame
        rw [hSame, OrderedMap.bucket, hFind]
        exact List.filter_sublist
      · exact List.Sublist.refl _

theorem run_invariant (unique : Bool) (calls : List Call) :
    (run unique calls).2.unique = unique ∧ WellFormed (run unique calls).2 ∧
      Ordered (insertionOrder (run unique calls).1) (run unique calls).2 := by
  induction calls using List.reverseRecOn with
  | nil =>
    refine ⟨rfl, wellFormed_fresh unique, ?_⟩
    exact fun key => List.nil_sublist _
  | append_singleton calls c ih =>
    obtain ⟨hUnique, hForm, hOrdered⟩ := ih
    rw [run_snoc]
    refine ⟨?_, ?_, ?_⟩
    · rw [unique_call, hUnique]
    · cases c with
      | insert key rid => exact wellFormed_insert hForm key rid
      | remove key rid => exact wellFormed_remove hForm key rid
    · rw [insertionOrder_snoc]
      exact hOrdered.call hForm c

/-! ## What the observers show -/

/-- The observers of an index with the calls that led to it. -/
structure Observed (unique : Bool) (log : List (Call × Status)) (index : BPlusTree) : Prop where
  buckets : ∀ e ∈ index.entries.entries, Bucket unique e.2
  validates : index.validate = .ok
  searched : ∀ key, index.search key =
    match index.searchAll key with
    | [] => .error (.notFound (ascii "index key not found"))
    | rid :: _ => .ok rid
  ascending : ∀ lower, (index.range lower).Pairwise (fun p q => p.1 ≤ q.1)
  listed : ∀ lower key, (index.range lower).filter (fun p => p.1 = key) =
    if lower ≤ key then (index.searchAll key).map (fun rid => (key, rid)) else []
  inserted : ∀ key, ((index.searchAll key).map (fun rid => (key, rid))).Sublist (insertionOrder log)
  counted : index.size = (index.range []).length

theorem validateLoop_ok {unique : Bool} {entries : List (Bytes × List RID)} (h : ∀ e ∈ entries, Bucket unique e.2) :
    validateLoop unique entries = .ok := by
  induction entries with
  | nil => rfl
  | cons e entries ih =>
    obtain ⟨hBucket, hRest⟩ := List.forall_mem_cons.mp h
    have hFilled : ¬ (e.1 = [] ∧ e.2 = []) := fun hEmpty => hBucket.filled hEmpty.2
    have hSingle : ¬ (unique = true ∧ e.2.length > 1) := fun hTwo => absurd (hBucket.single hTwo.1) (Nat.not_le_of_gt hTwo.2)
    rw [validateLoop, if_neg hFilled, if_neg hSingle, ih hRest]

theorem range_eq (index : BPlusTree) (lower : Bytes) :
    index.range lower = index.entries.pairs.filter (fun p => lower ≤ p.1) := OrderedMap.flatMap_lowerBound index.entries lower

theorem range_nil (index : BPlusTree) : index.range [] = index.entries.pairs := by
  rw [range_eq]
  apply List.filter_eq_self.mpr
  exact fun p _ => decide_eq_true (le_of_not_gt (List.not_lt_nil p.1))

/-- On every run from a fresh index the buckets are well formed and the observers agree. -/
theorem observed_run (unique : Bool) (calls : List Call) : Observed unique (run unique calls).1 (run unique calls).2 := by
  obtain ⟨hUnique, hForm, hOrdered⟩ := run_invariant unique calls
  generalize (run unique calls).2 = index at hUnique hForm hOrdered
  generalize (run unique calls).1 = log at hOrdered
  subst hUnique
  constructor
  · exact hForm
  · exact validateLoop_ok hForm
  · intro key
    rw [search, searchAll]
    cases index.entries.find? key with
    | none => rfl
    | some values => cases values <;> rfl
  · intro lower
    rw [range_eq]
    exact (OrderedMap.pairs_ascending index.entries).filter _
  · intro lower key
    rw [range_eq, List.filter_filter, searchAll_eq]
    by_cases hLower : lower ≤ key
    · rw [if_pos hLower]
      apply Eq.trans _ (OrderedMap.filter_pairs index.entries key)
      apply List.filter_congr
      intro p _
      by_cases hKey : p.1 = key <;> simp [hKey, hLower]
    · rw [if_neg hLower, List.filter_eq_nil_iff]
      intro p _
      by_cases hKey : p.1 = key <;> simp [hKey, hLower]
  · intro key
    rw [searchAll_eq]
    exact hOrdered key
  · rw [range_nil, OrderedMap.length_pairs]
    rfl

end BPlusTree

end TupleStone
