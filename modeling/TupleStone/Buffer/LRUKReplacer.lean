import TupleStone.Lib.OrderedMap
import Mathlib.Algebra.Group.Nat.Defs
import Mathlib.Data.List.DropRight
import Mathlib.Data.List.Induction

/-! # LRU-K replacement

The entries of the replacer keep the last accesses of their frames; beside it stands a ledger of every access since
a frame was last forgotten.
-/

set_option autoImplicit false

namespace TupleStone

namespace LRUKReplacer

structure Entry where
  accesses : List Nat := []
  evictable : Bool := false
  deriving DecidableEq, Repr

end LRUKReplacer

/-- The map's own order of iteration is not part of it. The clock is 64 bits wide and counts accesses. -/
structure LRUKReplacer where
  capacity : Nat
  k : Nat
  clock : Nat := 0
  entries : OrderedMap Nat LRUKReplacer.Entry := OrderedMap.empty

namespace LRUKReplacer

def create (capacity k : Nat) : LRUKReplacer := { capacity, k := if k = 0 then 1 else k }

def recordAccess (replacer : LRUKReplacer) (frame : Nat) : LRUKReplacer :=
  if replacer.entries.size ≥ replacer.capacity ∧ replacer.entries.find? frame = none then replacer
  else
    let entry := (replacer.entries.find? frame).getD {}
    let accesses := entry.accesses ++ [replacer.clock + 1]
    let accesses := if accesses.length > replacer.k then accesses.drop 1 else accesses
    { replacer with clock := replacer.clock + 1, entries := replacer.entries.insert frame { entry with accesses } }

def setEvictable (replacer : LRUKReplacer) (frame : Nat) (evictable : Bool) : LRUKReplacer :=
  let entry := (replacer.entries.find? frame).getD {}
  if entry.accesses = [] then
    { replacer with
      clock := replacer.clock + 1
      entries := replacer.entries.insert frame { accesses := [replacer.clock + 1], evictable } }
  else { replacer with entries := replacer.entries.insert frame { entry with evictable } }

/-- The variables of the scan. -/
structure Scan where
  victim : Nat := 0
  oldest : Nat := 2 ^ 64 - 1
  oldestHasK : Bool := false
  found : Bool := false

def scanStep (k : Nat) (s : Scan) (e : Nat × Entry) : Scan :=
  if e.2.evictable = false then s
  else
    let hasKAccesses := decide (e.2.accesses.length ≥ k)
    let kthRecent := e.2.accesses.headD 0
    if s.found = false ∨ (hasKAccesses = false ∧ s.oldestHasK = true) ∨ (hasKAccesses = s.oldestHasK ∧ kthRecent < s.oldest) then
      { victim := e.1, oldest := kthRecent, oldestHasK := hasKAccesses, found := true }
    else s

/-- An order in which a hash map may be iterated. -/
structure Iteration where
  arrange : List (Nat × Entry) → List (Nat × Entry)
  perm : ∀ entries, (arrange entries).Perm entries

def evict (replacer : LRUKReplacer) (order : Iteration) : Option Nat × LRUKReplacer :=
  let s := (order.arrange replacer.entries.entries).foldl (scanStep replacer.k) {}
  if s.found = false then (none, replacer)
  else (some s.victim, { replacer with entries := replacer.entries.erase s.victim })

def remove (replacer : LRUKReplacer) (frame : Nat) : LRUKReplacer :=
  { replacer with entries := replacer.entries.erase frame }

/-! ## The ledger -/

structure Tracked where
  history : List Nat
  evictable : Bool

/-- Every access of every frame since it was last forgotten, by a clock of accesses. -/
structure Ledger where
  now : Nat := 0
  frames : OrderedMap Nat Tracked := OrderedMap.empty

/-- Dropped when the frame is new and there is no room. -/
def Ledger.record (ledger : Ledger) (capacity frame : Nat) : Ledger :=
  match ledger.frames.find? frame with
  | some t => ⟨ledger.now + 1, ledger.frames.insert frame { t with history := t.history ++ [ledger.now + 1] }⟩
  | none =>
    if ledger.frames.size ≥ capacity then ledger
    else ⟨ledger.now + 1, ledger.frames.insert frame ⟨[ledger.now + 1], false⟩⟩

/-- The first access, when the frame is new. -/
def Ledger.flag (ledger : Ledger) (frame : Nat) (evictable : Bool) : Ledger :=
  match ledger.frames.find? frame with
  | some t => ⟨ledger.now, ledger.frames.insert frame { t with evictable }⟩
  | none => ⟨ledger.now + 1, ledger.frames.insert frame ⟨[ledger.now + 1], evictable⟩⟩

def Ledger.forget (ledger : Ledger) (frame : Nat) : Ledger := { ledger with frames := ledger.frames.erase frame }

inductive Call where
  | recordAccess (frame : Nat)
  | setEvictable (frame : Nat) (evictable : Bool)
  | remove (frame : Nat)
  | evict (order : Iteration)

/-- A call on the replacer, noted in the ledger; what an eviction returns is forgotten. -/
def call (s : Ledger × LRUKReplacer) : Call → Ledger × LRUKReplacer
  | .recordAccess frame => (s.1.record s.2.capacity frame, s.2.recordAccess frame)
  | .setEvictable frame evictable => (s.1.flag frame evictable, s.2.setEvictable frame evictable)
  | .remove frame => (s.1.forget frame, s.2.remove frame)
  | .evict order =>
    match s.2.evict order with
    | (some frame, replacer) => (s.1.forget frame, replacer)
    | (none, replacer) => (s.1, replacer)

def run (capacity k : Nat) (calls : List Call) : Ledger × LRUKReplacer := calls.foldl call ({}, create capacity k)

/-! ## The entries are the ends of the histories -/

def shrink (k : Nat) (t : Tracked) : Entry := ⟨t.history.rtake k, t.evictable⟩

structure Follows (ledger : Ledger) (replacer : LRUKReplacer) : Prop where
  positive : 1 ≤ replacer.k
  clock : replacer.clock = ledger.now
  entries : replacer.entries = ledger.frames.mapValues (shrink replacer.k)

theorem follows_create (capacity k : Nat) : Follows {} (create capacity k) := by
  constructor
  · rw [create]
    dsimp only
    split <;> omega
  · rfl
  · rfl

variable {ledger : Ledger} {replacer : LRUKReplacer}

theorem Follows.find? (h : Follows ledger replacer) (frame : Nat) :
    replacer.entries.find? frame = (ledger.frames.find? frame).map (shrink replacer.k) := by
  rw [h.entries, OrderedMap.find?_mapValues]

theorem rtake_of_length_le {k : Nat} {history : List Nat} (h : history.length ≤ k) : history.rtake k = history := by
  rw [List.rtake, Nat.sub_eq_zero_of_le h, List.drop_zero]

theorem rtake_push {k : Nat} (hk : 1 ≤ k) (history : List Nat) (time : Nat) :
    (if (history.rtake k ++ [time]).length > k then (history.rtake k ++ [time]).drop 1 else history.rtake k ++ [time]) =
      (history ++ [time]).rtake k := by
  by_cases hLong : k ≤ history.length
  · have hLength : (history.rtake k).length = k := by
      rw [List.rtake, List.length_drop]
      omega
    rw [if_pos (by rw [List.length_append, hLength]; exact Nat.lt_succ_self k),
      List.drop_append_of_le_length (by omega), List.rtake, List.rtake, List.drop_drop, List.length_append,
      List.drop_append_of_le_length (by change history.length + 1 - k ≤ _; omega)]
    congr 2
    change history.length - k + 1 = history.length + 1 - k
    omega
  · have hShort : history.rtake k = history := rtake_of_length_le (by omega)
    rw [hShort, if_neg (by rw [List.length_append]; change ¬ history.length + 1 > k; omega), List.rtake, List.length_append]
    have hNone : history.length + [time].length - k = 0 := by
      change history.length + 1 - k = 0
      omega
    rw [hNone, List.drop_zero]

theorem Follows.recordAccess (h : Follows ledger replacer) (frame : Nat) :
    Follows (ledger.record replacer.capacity frame) (replacer.recordAccess frame) := by
  have hSize : replacer.entries.size = ledger.frames.size := by rw [h.entries, OrderedMap.size_mapValues]
  rw [Ledger.record, LRUKReplacer.recordAccess, h.find? frame, hSize]
  cases hFind : ledger.frames.find? frame with
  | none =>
    simp only [Option.map_none, and_true]
    by_cases hFull : ledger.frames.size ≥ replacer.capacity
    · rw [if_pos hFull, if_pos hFull]
      exact h
    · rw [if_neg hFull, if_neg hFull]
      have hPush := rtake_push h.positive [] (replacer.clock + 1)
      rw [List.rtake_nil] at hPush
      constructor
      · exact h.positive
      · exact congrArg (· + 1) h.clock
      · dsimp only [Option.getD_none]
        rw [h.entries, ← h.clock, ← OrderedMap.insert_mapValues]
        exact congrArg (fun accesses => (ledger.frames.mapValues (shrink replacer.k)).insert frame (Entry.mk accesses false))
          hPush
  | some t =>
    simp only [Option.map_some, Option.getD_some, reduceCtorEq, and_false, if_false]
    constructor
    · exact h.positive
    · exact congrArg (· + 1) h.clock
    · rw [h.entries, ← h.clock, ← OrderedMap.insert_mapValues]
      exact congrArg
        (fun accesses => (ledger.frames.mapValues (shrink replacer.k)).insert frame (Entry.mk accesses t.evictable))
        (rtake_push h.positive t.history (replacer.clock + 1))

theorem Follows.setEvictable (h : Follows ledger replacer) (frame : Nat) (evictable : Bool)
    (hFilled : ∀ t, ledger.frames.find? frame = some t → t.history ≠ []) :
    Follows (ledger.flag frame evictable) (replacer.setEvictable frame evictable) := by
  rw [Ledger.flag, LRUKReplacer.setEvictable, h.find? frame]
  cases hFind : ledger.frames.find? frame with
  | none =>
    simp only [Option.map_none, Option.getD_none, if_true]
    constructor
    · exact h.positive
    · exact congrArg (· + 1) h.clock
    · rw [h.entries, ← h.clock, ← OrderedMap.insert_mapValues, shrink, rtake_of_length_le h.positive]
  | some t =>
    have hLeft : (shrink replacer.k t).accesses ≠ [] := by
      have hPositive := h.positive
      have hLength := List.length_pos_iff.mpr (hFilled t hFind)
      apply List.ne_nil_of_length_pos
      rw [shrink, List.rtake, List.length_drop]
      omega
    simp only [Option.map_some, Option.getD_some, if_neg hLeft]
    constructor
    · exact h.positive
    · exact h.clock
    · rw [h.entries, ← OrderedMap.insert_mapValues]
      rfl

theorem Follows.erase (h : Follows ledger replacer) (frame : Nat) :
    Follows (ledger.forget frame) { replacer with entries := replacer.entries.erase frame } := by
  constructor
  · exact h.positive
  · exact h.clock
  · dsimp only [Ledger.forget]
    rw [h.entries, OrderedMap.erase_mapValues]

/-! ## No two accesses at one time -/

structure Ledger.Timed (ledger : Ledger) : Prop where
  filled : ∀ frame t, ledger.frames.find? frame = some t → t.history ≠ []
  ascending : ∀ frame t, ledger.frames.find? frame = some t → t.history.Pairwise (· < ·)
  past : ∀ frame t, ledger.frames.find? frame = some t → ∀ time ∈ t.history, time ≤ ledger.now
  apart : ∀ frame other t u, ledger.frames.find? frame = some t → ledger.frames.find? other = some u → frame ≠ other →
    ∀ time ∈ t.history, time ∉ u.history

theorem timed_fresh : Ledger.Timed {} := by
  constructor
  · exact fun _ _ h => nomatch h
  · exact fun _ _ h => nomatch h
  · exact fun _ _ h => nomatch h
  · exact fun _ _ _ _ h => nomatch h

/-- The history that an access continues. -/
def Ledger.history (ledger : Ledger) (frame : Nat) : List Nat := ((ledger.frames.find? frame).map Tracked.history).getD []

theorem Ledger.Timed.access (h : ledger.Timed) (frame : Nat) (evictable : Bool) :
    Ledger.Timed ⟨ledger.now + 1, ledger.frames.insert frame ⟨ledger.history frame ++ [ledger.now + 1], evictable⟩⟩ := by
  have hPast : ∀ time ∈ ledger.history frame, time ≤ ledger.now := by
    intro time hTime
    cases hFind : ledger.frames.find? frame with
    | none => simp [Ledger.history, hFind] at hTime
    | some t => exact h.past frame t hFind time (by simpa [Ledger.history, hFind] using hTime)
  have hAscending : (ledger.history frame).Pairwise (· < ·) := by
    cases hFind : ledger.frames.find? frame with
    | none => simp [Ledger.history, hFind]
    | some t => simpa [Ledger.history, hFind] using h.ascending frame t hFind
  -- The new time is behind every other, so only the old times can meet.
  have hApart : ∀ other u, ledger.frames.find? other = some u → other ≠ frame →
      ∀ time ∈ ledger.history frame ++ [ledger.now + 1], time ∉ u.history := by
    intro other u hOther hNe time hTime hMem
    rcases List.mem_append.mp hTime with hOld | hNew
    · cases hFind : ledger.frames.find? frame with
      | none => simp [Ledger.history, hFind] at hOld
      | some t =>
        exact h.apart frame other t u hFind hOther (Ne.symm hNe) time (by simpa [Ledger.history, hFind] using hOld) hMem
    · have hLate := h.past other u hOther time hMem
      rw [List.mem_singleton.mp hNew] at hLate
      omega
  constructor
  · intro other t hFind
    rw [OrderedMap.find?_insert] at hFind
    split at hFind
    · cases hFind
      simp
    · exact h.filled other t hFind
  · intro other t hFind
    rw [OrderedMap.find?_insert] at hFind
    split at hFind
    · cases hFind
      rw [List.pairwise_append]
      refine ⟨hAscending, List.pairwise_singleton _ _, ?_⟩
      intro time hTime last hLast
      rw [List.mem_singleton.mp hLast]
      exact Nat.lt_succ_of_le (hPast time hTime)
    · exact h.ascending other t hFind
  · intro other t hFind time hTime
    rw [OrderedMap.find?_insert] at hFind
    split at hFind
    · cases hFind
      rcases List.mem_append.mp hTime with hOld | hNew
      · exact Nat.le_succ_of_le (hPast time hOld)
      · rw [List.mem_singleton.mp hNew]
    · exact Nat.le_succ_of_le (h.past other t hFind time hTime)
  · intro f g t u hF hG hNe time hTime
    rw [OrderedMap.find?_insert] at hF hG
    split at hF
    · rename_i hSame
      cases hF
      rw [if_neg (fun hOther => hNe (hSame.trans hOther.symm))] at hG
      exact hApart g u hG (fun hOther => hNe (hSame.trans hOther.symm)) time hTime
    · rename_i hOther
      split at hG
      · cases hG
        exact fun hMem => hApart f t hF hOther time hMem hTime
      · exact h.apart f g t u hF hG hNe time hTime

theorem Ledger.Timed.reflag (h : ledger.Timed) {frame : Nat} {t : Tracked} (hFind : ledger.frames.find? frame = some t)
    (evictable : Bool) : Ledger.Timed ⟨ledger.now, ledger.frames.insert frame { t with evictable }⟩ := by
  have hBack : ∀ other u, (ledger.frames.insert frame { t with evictable }).find? other = some u →
      ∃ v, ledger.frames.find? other = some v ∧ v.history = u.history := by
    intro other u hOther
    rw [OrderedMap.find?_insert] at hOther
    split at hOther
    · rename_i hSame
      cases hOther
      exact ⟨t, hSame ▸ hFind, rfl⟩
    · exact ⟨u, hOther, rfl⟩
  constructor
  · intro other u hOther
    obtain ⟨v, hv, hSame⟩ := hBack other u hOther
    exact hSame ▸ h.filled other v hv
  · intro other u hOther
    obtain ⟨v, hv, hSame⟩ := hBack other u hOther
    exact hSame ▸ h.ascending other v hv
  · intro other u hOther
    obtain ⟨v, hv, hSame⟩ := hBack other u hOther
    exact hSame ▸ h.past other v hv
  · intro f g u w hF hG hNe
    obtain ⟨v, hv, hSame⟩ := hBack f u hF
    obtain ⟨x, hx, hSame'⟩ := hBack g w hG
    exact hSame ▸ hSame' ▸ h.apart f g v x hv hx hNe

theorem Ledger.Timed.forget (h : ledger.Timed) (frame : Nat) : (ledger.forget frame).Timed := by
  have hBack : ∀ other u, (ledger.frames.erase frame).find? other = some u → ledger.frames.find? other = some u := by
    intro other u hOther
    rw [OrderedMap.find?_erase] at hOther
    split at hOther
    · cases hOther
    · exact hOther
  constructor
  · exact fun other u hOther => h.filled other u (hBack other u hOther)
  · exact fun other u hOther => h.ascending other u (hBack other u hOther)
  · exact fun other u hOther => h.past other u (hBack other u hOther)
  · exact fun f g u w hF hG => h.apart f g u w (hBack f u hF) (hBack g w hG)

theorem Ledger.Timed.record (h : ledger.Timed) (capacity frame : Nat) : (ledger.record capacity frame).Timed := by
  rw [Ledger.record]
  cases hFind : ledger.frames.find? frame with
  | none =>
    dsimp only
    split
    · exact h
    · have hAccess := h.access frame false
      rwa [Ledger.history, hFind] at hAccess
  | some t =>
    have hAccess := h.access frame t.evictable
    rwa [Ledger.history, hFind] at hAccess

theorem Ledger.Timed.flag (h : ledger.Timed) (frame : Nat) (evictable : Bool) : (ledger.flag frame evictable).Timed := by
  rw [Ledger.flag]
  cases hFind : ledger.frames.find? frame with
  | none =>
    have hAccess := h.access frame evictable
    rwa [Ledger.history, hFind] at hAccess
  | some t => exact h.reflag hFind evictable

theorem call_keeps {s : Ledger × LRUKReplacer} (hTimed : s.1.Timed) (hFollows : Follows s.1 s.2) (c : Call) :
    (call s c).1.Timed ∧ Follows (call s c).1 (call s c).2 := by
  cases c with
  | recordAccess frame => exact ⟨hTimed.record _ frame, hFollows.recordAccess frame⟩
  | setEvictable frame evictable =>
    exact ⟨hTimed.flag frame evictable, hFollows.setEvictable frame evictable fun t => hTimed.filled frame t⟩
  | remove frame => exact ⟨hTimed.forget frame, hFollows.erase frame⟩
  | evict order =>
    simp only [call, evict]
    split
    · rename_i hEvict
      split at hEvict
      · cases hEvict
      · cases hEvict
        exact ⟨hTimed.forget _, hFollows.erase _⟩
    · rename_i hEvict
      split at hEvict
      · cases hEvict
        exact ⟨hTimed, hFollows⟩
      · cases hEvict

theorem run_keeps (capacity k : Nat) (calls : List Call) :
    (run capacity k calls).1.Timed ∧ Follows (run capacity k calls).1 (run capacity k calls).2 := by
  induction calls using List.reverseRecOn with
  | nil => exact ⟨timed_fresh, follows_create capacity k⟩
  | append_singleton calls c ih =>
    rw [run, List.foldl_append]
    exact call_keeps ih.1 ih.2 c

end LRUKReplacer

end TupleStone
