import Mathlib.Data.List.Dedup
import Mathlib.Data.List.Induction
import Mathlib.Data.List.Perm.Subperm
import TupleStone.Buffer.PageCounter
import TupleStone.Buffer.PoolHistory

/-! # Eviction

A victim is looked for among the pages that are cached and not pinned, and only then among the empty frames: a page is
evicted although a frame is empty. Which page it is follows the last fetches as long as the ages do not wrap.
-/

set_option autoImplicit false

namespace TupleStone

namespace BufferPool

variable {pool : BufferPool} {i j : Nat}

/-- The frame holds a page that is not pinned. -/
def Candidate (pool : BufferPool) (i : Nat) : Prop :=
  (pool.frame i).pinCount = 0 ∧ (pool.frame i).page.id ≠ kInvalidPageId

/-- No frame is empty. -/
def Full (pool : BufferPool) : Prop := ∀ i < pool.frames.length, (pool.frame i).page.id ≠ kInvalidPageId

def maxAge : UInt64 := 0xFFFFFFFFFFFFFFFF

/-- Of the candidates, the one whose age is the least, and the first of these; where no age is below the largest one, the
first frame that is not pinned. -/
def Chosen (pool : BufferPool) (i : Nat) : Prop :=
  pool.Candidate i ∧
    ((pool.frame i).age < maxAge ∧ (∀ j, pool.Candidate j →
        (pool.frame i).age < (pool.frame j).age ∨ (pool.frame i).age = (pool.frame j).age ∧ i ≤ j) ∨
      (∀ j, pool.Candidate j → ¬ (pool.frame j).age < maxAge) ∧ ∀ j < i, (pool.frame j).pinCount ≠ 0)

/-- The page of the frame need not be written back, or can be. -/
def CanWrite (pool : BufferPool) (i : Nat) : Prop :=
  (pool.frame i).dirty = true → pool.disk.isOpen = true ∧ (pool.frame i).page.id < pool.disk.pageCount

/-- Fetching the page takes the other one out of the pool. -/
def Evicts (pool : BufferPool) (id : UInt32) (writable : Bool) (victim : UInt32) : Prop :=
  pool.pageTable victim ≠ none ∧ (pool.fetchPage id writable).2.pageTable victim = none

/-! ## The scan -/

/-- An entry that the scan looks at. -/
def Listed (entry : Frame × Nat) : Prop := entry.1.pinCount = 0 ∧ entry.1.page.id ≠ kInvalidPageId

/-- What the scan has found after the entries. -/
def Oldest (entries : List (Frame × Nat)) : Option Nat × UInt64 → Prop
  | (none, age) => age = maxAge ∧ ∀ entry ∈ entries, Listed entry → ¬ entry.1.age < maxAge
  | (some i, age) => age < maxAge ∧ (∃ entry ∈ entries, Listed entry ∧ entry.2 = i ∧ entry.1.age = age) ∧
      ∀ entry ∈ entries, Listed entry → age < entry.1.age ∨ age = entry.1.age ∧ i ≤ entry.2

theorem oldest_snoc {entries : List (Frame × Nat)} {found : Option Nat × UInt64} (h : Oldest entries found)
    {entry : Frame × Nat} (hLater : ∀ earlier ∈ entries, earlier.2 ≤ entry.2) :
    Oldest (entries ++ [entry]) (olderFrame found entry) := by
  rw [olderFrame]
  split_ifs with hTake
  · obtain ⟨hPins, hValid, hYounger⟩ := hTake
    have hBelow : found.2 ≤ maxAge := by
      obtain ⟨_ | i, age⟩ := found
      · exact UInt64.le_of_eq h.1
      · exact UInt64.le_of_lt h.1
    refine ⟨UInt64.lt_of_lt_of_le hYounger hBelow, ⟨entry, by simp, ⟨hPins, hValid⟩, rfl, rfl⟩, fun other hOther hListed => ?_⟩
    obtain hEarlier | hSame := List.mem_append.mp hOther
    · left
      obtain ⟨_ | i, age⟩ := found
      · have hNot := h.2 other hEarlier hListed
        obtain ⟨rfl, -⟩ := h
        exact UInt64.lt_of_lt_of_le hYounger (UInt64.not_lt.mp hNot)
      · obtain hLt | ⟨hEq, -⟩ := h.2.2 other hEarlier hListed
        · exact UInt64.lt_trans hYounger hLt
        · exact hEq ▸ hYounger
    · rw [List.mem_singleton.mp hSame]
      exact .inr ⟨rfl, Nat.le_refl _⟩
  · have hNot (hListed : Listed entry) : found.2 ≤ entry.1.age :=
      UInt64.not_lt.mp fun hLt => hTake ⟨hListed.1, hListed.2, hLt⟩
    obtain ⟨_ | i, age⟩ := found
    · refine ⟨h.1, fun other hOther hListed => ?_⟩
      obtain hEarlier | hSame := List.mem_append.mp hOther
      · exact h.2 other hEarlier hListed
      · obtain rfl := List.mem_singleton.mp hSame
        have hAge := hNot hListed
        obtain ⟨rfl, -⟩ := h
        exact UInt64.not_lt.mpr hAge
    · obtain ⟨hBelow, ⟨earlier, hMem, hEarlierListed, hIndex, hAge⟩, hLeast⟩ := h
      refine ⟨hBelow, ⟨earlier, List.mem_append_left _ hMem, hEarlierListed, hIndex, hAge⟩, fun other hOther hListed => ?_⟩
      obtain hEarlier | hSame := List.mem_append.mp hOther
      · exact hLeast other hEarlier hListed
      · obtain rfl := List.mem_singleton.mp hSame
        obtain hLt | hEq := UInt64.lt_or_eq_of_le (hNot hListed)
        · exact .inl hLt
        · exact .inr ⟨hEq, hIndex ▸ hLater earlier hMem⟩

theorem oldest_frames (frames : List Frame) : Oldest frames.zipIdx (frames.zipIdx.foldl olderFrame (none, maxAge)) := by
  induction frames using List.reverseRecOn with
  | nil => exact ⟨rfl, nofun⟩
  | append_singleton frames f ih =>
    rw [List.zipIdx_append, List.foldl_append]
    refine oldest_snoc ih fun earlier hEarlier => ?_
    have hGet := List.mem_zipIdx_iff_getElem?.mp hEarlier
    have hLt := (List.getElem?_eq_some_iff.mp hGet).1
    exact Nat.le_of_lt (by simpa using hLt)

theorem candidate_iff_listed : pool.Candidate i ↔ ∃ entry ∈ pool.frames.zipIdx, Listed entry ∧ entry.2 = i ∧ entry.1 = pool.frame i := by
  constructor
  · intro h
    have hGet := List.getElem?_eq_getElem (lt_length_of_id h.2)
    exact ⟨(pool.frame i, i), List.mem_zipIdx_iff_getElem?.mpr (frame_eq_of_getElem? hGet ▸ hGet), h, rfl, rfl⟩
  · rintro ⟨entry, -, hListed, -, hFrame⟩
    exact ⟨hFrame ▸ hListed.1, hFrame ▸ hListed.2⟩

theorem frame_of_entry {entry : Frame × Nat} (h : entry ∈ pool.frames.zipIdx) : entry.1 = pool.frame entry.2 :=
  (frame_eq_of_getElem? (List.mem_zipIdx_iff_getElem?.mp h)).symm

theorem oldestFrame_spec (pool : BufferPool) : ∃ age, Oldest pool.frames.zipIdx (pool.oldestFrame, age) :=
  ⟨_, oldest_frames pool.frames⟩

theorem victim_of_oldest (h : pool.oldestFrame = some i) : pool.victimLocked = some i := by
  rw [victimLocked, h]

theorem victim_of_none (h : pool.oldestFrame = none) :
    pool.victimLocked = pool.frames.findIdx? (fun frame => frame.pinCount = 0) := by
  rw [victimLocked, h]

/-- What the scan compares, in terms of the frames of the pool. -/
theorem oldest_some {age : UInt64} (h : Oldest pool.frames.zipIdx (some i, age)) :
    pool.Candidate i ∧ (pool.frame i).age = age ∧ age < maxAge ∧
      ∀ j, pool.Candidate j → age < (pool.frame j).age ∨ age = (pool.frame j).age ∧ i ≤ j := by
  obtain ⟨hBelow, ⟨entry, hMem, hListed, rfl, hAge⟩, hLeast⟩ := h
  have hFrame := frame_of_entry hMem
  refine ⟨⟨hFrame ▸ hListed.1, hFrame ▸ hListed.2⟩, hFrame ▸ hAge, hBelow, fun j hj => ?_⟩
  obtain ⟨other, hOther, hOtherListed, rfl, hOtherFrame⟩ := candidate_iff_listed.mp hj
  exact hOtherFrame ▸ hLeast other hOther hOtherListed

theorem oldest_none {age : UInt64} (h : Oldest pool.frames.zipIdx (none, age)) (j : Nat) (hj : pool.Candidate j) :
    ¬ (pool.frame j).age < maxAge := by
  obtain ⟨other, hOther, hOtherListed, rfl, hOtherFrame⟩ := candidate_iff_listed.mp hj
  exact hOtherFrame ▸ h.2 other hOther hOtherListed

/-- The victim, if it holds a page, is the frame chosen. -/
theorem victim_chosen (h : pool.victimLocked = some i) (hValid : (pool.frame i).page.id ≠ kInvalidPageId) : pool.Chosen i := by
  obtain ⟨age, hOldest⟩ := oldestFrame_spec pool
  refine ⟨⟨(victim_unpinned h).2, hValid⟩, ?_⟩
  cases hFound : pool.oldestFrame with
  | some k =>
    obtain rfl : k = i := Option.some.inj ((victim_of_oldest hFound).symm.trans h)
    rw [hFound] at hOldest
    obtain ⟨-, rfl, hBelow, hLeast⟩ := oldest_some hOldest
    exact .inl ⟨hBelow, hLeast⟩
  | none =>
    rw [hFound] at hOldest
    refine .inr ⟨oldest_none hOldest, fun j hLess hPins => ?_⟩
    obtain ⟨hLt, -, hFirst⟩ := List.findIdx?_eq_some_iff_getElem.mp ((victim_of_none hFound).symm.trans h)
    have hGet := frame_eq_of_getElem? (List.getElem?_eq_getElem (Nat.lt_trans hLess hLt))
    exact hFirst j hLess (decide_eq_true (hGet ▸ hPins))

theorem chosen_victim (h : pool.Chosen i) : pool.victimLocked = some i := by
  obtain ⟨age, hOldest⟩ := oldestFrame_spec pool
  obtain ⟨hCandidate, hChosen⟩ := h
  cases hFound : pool.oldestFrame with
  | some k =>
    rw [hFound] at hOldest
    obtain ⟨hOther, rfl, hBelow, hLeast⟩ := oldest_some hOldest
    rw [victim_of_oldest hFound]
    obtain ⟨-, hLeastHere⟩ | ⟨hNone, -⟩ := hChosen
    · obtain hLt | ⟨hSame, hFirst⟩ := hLeast i hCandidate
      · obtain hLt' | ⟨hSame, -⟩ := hLeastHere k hOther
        · exact absurd (UInt64.lt_trans hLt hLt') (UInt64.lt_irrefl _)
        · exact absurd (hSame ▸ hLt) (UInt64.lt_irrefl _)
      · obtain hLt' | ⟨-, hFirst'⟩ := hLeastHere k hOther
        · exact absurd (hSame ▸ hLt') (UInt64.lt_irrefl _)
        · rw [Nat.le_antisymm hFirst hFirst']
    · exact absurd hBelow (hNone k hOther)
  | none =>
    rw [hFound] at hOldest
    rw [victim_of_none hFound]
    obtain ⟨hBelow, -⟩ | ⟨-, hFirst⟩ := hChosen
    · exact absurd hBelow (oldest_none hOldest i hCandidate)
    · have hLt := lt_length_of_id hCandidate.2
      have hFrame (j : Nat) (hj : j < pool.frames.length) : pool.frames[j] = pool.frame j :=
        (frame_eq_of_getElem? (List.getElem?_eq_getElem hj)).symm
      refine List.findIdx?_eq_some_iff_getElem.mpr ⟨hLt, ?_, fun j hLess => ?_⟩
      · rw [hFrame i hLt]
        exact decide_eq_true hCandidate.1
      · rw [hFrame j (Nat.lt_trans hLess hLt)]
        exact fun hPins => hFirst j hLess (of_decide_eq_true hPins)

/-! ## What leaves the pool -/

theorem writePage_ok_iff (disk : Disk) {id : UInt32} (hId : id ≠ kInvalidPageId) (page : Page) :
    (disk.writePage id page).1 = .ok ↔ disk.isOpen = true ∧ id < disk.pageCount := by
  rw [Disk.writePage, Disk.writePageLocked, Disk.ensurePageLocked]
  by_cases hRange : disk.pageCount ≤ id
  · rw [if_pos (.inr hRange)]
    exact iff_of_false Status.noConfusion fun h => absurd h.2 (UInt32.not_lt.mpr hRange)
  · rw [if_neg (not_or.mpr ⟨hId, hRange⟩)]
    by_cases hOpen : disk.isOpen = true
    · simp only [Disk.write, if_pos hOpen]
      exact iff_of_true trivial ⟨hOpen, UInt32.not_le.mp hRange⟩
    · simp only [Disk.write, if_neg hOpen]
      exact iff_of_false Status.noConfusion fun h => hOpen h.1

/-- The victim loses its page if it has one that it need not or can write, and no other page leaves the table. -/
theorem evict_victim (hValid : (pool.frame i).page.id ≠ kInvalidPageId) :
    (pool.CanWrite i ∧ (pool.evict i).1 = .ok ∧
      (pool.evict i).2.pageTable = Function.update pool.pageTable (pool.frame i).page.id none) ∨
    ¬ pool.CanWrite i ∧ (pool.evict i).1 ≠ .ok ∧ (pool.evict i).2.pageTable = pool.pageTable := by
  have hWrite := writePage_ok_iff pool.disk hValid (pool.frame i).page
  cases hDirty : (pool.frame i).dirty with
  | false =>
    rw [BufferPool.evict, if_pos hValid, hDirty]
    exact .inl ⟨fun h => absurd (hDirty.symm.trans h) Bool.false_ne_true, rfl, rfl⟩
  | true =>
    cases hWritten : pool.disk.writePage (pool.frame i).page.id (pool.frame i).page with
    | mk status disk =>
      rw [hWritten] at hWrite
      by_cases hOk : status = .ok
      · subst hOk
        rw [BufferPool.evict, if_pos hValid, hDirty, if_pos rfl, hWritten]
        exact .inl ⟨fun _ => hWrite.mp rfl, rfl, rfl⟩
      · have hEvict : pool.evict i = (status, { pool with disk := disk }) := by
          simp only [BufferPool.evict, if_pos hValid, hDirty, if_true, hWritten]
        rw [hEvict]
        exact .inr ⟨fun h => hOk (hWrite.mpr (h hDirty)), hOk, rfl⟩

theorem evict_empty (h : (pool.frame i).page.id = kInvalidPageId) : (pool.evict i).2.pageTable = pool.pageTable := by
  rw [BufferPool.evict, if_neg (not_not.mpr h)]
  rfl

theorem load_table {id other : UInt32} (hNe : other ≠ id) (writable : Bool) :
    (pool.load i id writable).2.pageTable other = pool.pageTable other := by
  rw [BufferPool.load]
  split
  · exact Function.update_of_ne hNe ..
  · rfl

/-- For the other pages, a fetch is the eviction of the victim. -/
theorem fetchPage_table {id other : UInt32} (hNone : pool.pageTable id = none) (hNe : other ≠ id)
    (hVictim : pool.victimLocked = some i) (writable : Bool) :
    (pool.fetchPage id writable).2.pageTable other = (pool.evict i).2.pageTable other := by
  obtain ⟨hNobody, -⟩ | ⟨k, status, evicted, hFound, hEvict, hLoaded⟩ :=
    PoolHistory.Consistent.fetchPage_uncached hNone writable
  · exact absurd (hVictim.symm.trans hNobody) (Option.some_ne_none _)
  · obtain rfl : k = i := Option.some.inj (hFound.symm.trans hVictim)
    rw [hEvict]
    obtain ⟨-, hFetch⟩ | ⟨-, hFetch⟩ := hLoaded
    · rw [hFetch]
      exact load_table hNe writable
    · rw [hFetch]

end BufferPool

namespace PoolHistory

open BufferPool

variable {poolSize : Nat} {s : PoolHistory} {id : UInt32}

/-- Of the pages that are cached and not pinned, the one in the frame was last fetched the longest ago. -/
def LeastRecent (s : PoolHistory) (i : Nat) : Prop :=
  s.pool.Candidate i ∧
    ∀ j, s.pool.Candidate j → lastFetch s.fetches (s.pool.frame i).page.id ≤ lastFetch s.fetches (s.pool.frame j).page.id

/-- A page leaves the pool only if no frame is empty, and then it is the one fetched the longest ago; as long as no more
pages than frames were ever fetched, none leaves it. -/
def EvictsRightly (s : PoolHistory) (id : UInt32) (writable : Bool) : Prop :=
  (∀ victim, s.pool.Evicts id writable victim →
    s.pool.Full ∧ ∃ i, s.pool.pageTable victim = some i ∧ s.LeastRecent i) ∧
  ((id :: s.fetches).dedup.length ≤ s.pool.frames.length → ∀ victim, ¬ s.pool.Evicts id writable victim)

/-- The pages that leave the pool are those of the frame chosen, unless they cannot be written back. -/
theorem evicts_iff (h : Consistent poolSize s) (hNone : s.pool.pageTable id = none) (writable : Bool) (victim : UInt32) :
    s.pool.Evicts id writable victim ↔
      ∃ i, s.pool.Chosen i ∧ s.pool.CanWrite i ∧ s.pool.pageTable victim = some i := by
  constructor
  · rintro ⟨hSome, hGone⟩
    have hNe : victim ≠ id := by
      rintro rfl
      exact hSome hNone
    cases hVictim : s.pool.victimLocked with
    | none =>
      obtain ⟨-, hFetch⟩ | ⟨i, _, _, hFound, -⟩ := Consistent.fetchPage_uncached hNone writable
      · rw [hFetch] at hGone
        exact absurd hGone hSome
      · exact absurd (hFound.symm.trans hVictim) (Option.some_ne_none i)
    | some i =>
      rw [fetchPage_table hNone hNe hVictim] at hGone
      have hValid : (s.pool.frame i).page.id ≠ kInvalidPageId := by
        intro hEmpty
        rw [evict_empty hEmpty] at hGone
        exact hSome hGone
      obtain ⟨hWrite, -, hTable⟩ | ⟨-, -, hTable⟩ := evict_victim hValid
      · have hSame : victim = (s.pool.frame i).page.id := by
          by_contra hOther
          rw [hTable, Function.update_of_ne hOther] at hGone
          exact hSome hGone
        exact ⟨i, victim_chosen hVictim hValid, hWrite, (h.table victim i).mpr ⟨hSame ▸ hValid, hSame.symm⟩⟩
      · rw [hTable] at hGone
        exact absurd hGone hSome
  · rintro ⟨i, hChosen, hWrite, hTable⟩
    have hSame := ((h.table victim i).mp hTable).2
    refine ⟨hTable ▸ Option.some_ne_none i, ?_⟩
    have hNe : victim ≠ id := by
      rintro rfl
      exact Option.some_ne_none _ (hTable.symm.trans hNone)
    rw [fetchPage_table hNone hNe (chosen_victim hChosen)]
    obtain ⟨-, -, hUpdate⟩ | ⟨hNot, -⟩ := evict_victim hChosen.1.2
    · rw [hUpdate, hSame, Function.update_self]
    · exact absurd hWrite hNot

/-- A full pool holds as many pages as it has frames, and all of them were fetched. -/
theorem fetched_of_full (h : Consistent poolSize s) (hNone : s.pool.pageTable id = none) (hFull : s.pool.Full) :
    s.pool.frames.length < (id :: s.fetches).dedup.length := by
  let held := (List.range s.pool.frames.length).map (fun i => (s.pool.frame i).page.id)
  have hNodup : held.Nodup := by
    refine List.Nodup.map_on (fun i hi j hj hSame => ?_) List.nodup_range
    have hThere := (h.table _ j).mpr ⟨hSame ▸ hFull i (List.mem_range.mp hi), hSame.symm⟩
    have hHere := (h.table _ i).mpr ⟨hFull i (List.mem_range.mp hi), rfl⟩
    exact Option.some.inj (hHere.symm.trans hThere)
  have hNew : id ∉ held := by
    intro hMem
    obtain ⟨i, hi, hSame⟩ := List.mem_map.mp hMem
    have hHere := (h.table id i).mpr ⟨hSame ▸ hFull i (List.mem_range.mp hi), hSame⟩
    exact Option.some_ne_none _ (hHere.symm.trans hNone)
  have hSubset : id :: held ⊆ (id :: s.fetches).dedup := by
    intro page hPage
    rw [List.mem_dedup]
    obtain rfl | hMem := List.mem_cons.mp hPage
    · exact List.mem_cons_self
    · obtain ⟨i, hi, rfl⟩ := List.mem_map.mp hMem
      exact List.mem_cons_of_mem _ (h.fetched i (hFull i (List.mem_range.mp hi)))
  have hLength := (List.Nodup.subperm (List.nodup_cons.mpr ⟨hNew, hNodup⟩) hSubset).length_le
  rw [List.length_cons, List.length_map, List.length_range] at hLength
  exact hLength

theorem chosen_unique {i j : Nat} (hi : s.pool.Chosen i) (hj : s.pool.Chosen j) : i = j :=
  Option.some.inj ((chosen_victim hi).symm.trans (chosen_victim hj))

theorem evictsRightly_iff (h : Consistent poolSize s) (hNone : s.pool.pageTable id = none) (writable : Bool) :
    s.EvictsRightly id writable ↔ ∀ i, s.pool.Chosen i → s.pool.CanWrite i → s.pool.Full ∧ s.LeastRecent i := by
  have hEvicts := evicts_iff h hNone writable
  constructor
  · rintro ⟨hLaw, -⟩ i hChosen hWrite
    have hTable := (h.table _ i).mpr ⟨hChosen.1.2, rfl⟩
    obtain ⟨hFull, k, hFound, hLeast⟩ := hLaw _ ((hEvicts _).mpr ⟨i, hChosen, hWrite, hTable⟩)
    obtain rfl : k = i := Option.some.inj (hFound.symm.trans hTable)
    exact ⟨hFull, hLeast⟩
  · intro hChosen
    constructor
    · intro victim hEvicted
      obtain ⟨i, hi, hWrite, hTable⟩ := (hEvicts victim).mp hEvicted
      obtain ⟨hFull, hLeast⟩ := hChosen i hi hWrite
      exact ⟨hFull, i, hTable, hLeast⟩
    · intro hFew victim hEvicted
      obtain ⟨i, hi, hWrite, -⟩ := (hEvicts victim).mp hEvicted
      exact absurd hFew (Nat.not_le.mpr (fetched_of_full h hNone (hChosen i hi hWrite).1))

/-- Before the ages wrap, the frame chosen is the one fetched the longest ago. -/
theorem chosen_iff_leastRecent (h : Consistent poolSize s) (hFetches : s.fetches.length < 2 ^ 64 - 1) (i : Nat) :
    s.pool.Chosen i ↔ s.LeastRecent i := by
  have hAge (j : Nat) (hj : s.pool.Candidate j) :
      (s.pool.frame j).age.toNat = lastFetch s.fetches (s.pool.frame j).page.id := by
    have hLe := lastFetch_le s.fetches (s.pool.frame j).page.id
    rw [h.age j hj.2]
    exact UInt64.toNat_ofNat_of_lt' (Nat.lt_of_le_of_lt hLe (Nat.lt_of_lt_of_le hFetches (Nat.sub_le _ _)))
  have hBelow (j : Nat) (hj : s.pool.Candidate j) : (s.pool.frame j).age < maxAge := by
    rw [UInt64.lt_iff_toNat_lt, hAge j hj]
    exact Nat.lt_of_le_of_lt (lastFetch_le _ _) hFetches
  constructor
  · rintro ⟨hCandidate, ⟨-, hLeast⟩ | ⟨hNone, -⟩⟩
    · refine ⟨hCandidate, fun j hj => ?_⟩
      rw [← hAge i hCandidate, ← hAge j hj]
      obtain hLt | ⟨hSame, -⟩ := hLeast j hj
      · exact Nat.le_of_lt (UInt64.lt_iff_toNat_lt.mp hLt)
      · exact Nat.le_of_eq (congrArg UInt64.toNat hSame)
    · exact absurd (hBelow i hCandidate) (hNone i hCandidate)
  · rintro ⟨hCandidate, hLeast⟩
    refine ⟨hCandidate, .inl ⟨hBelow i hCandidate, fun j hj => ?_⟩⟩
    obtain hLt | hSame := Nat.lt_or_eq_of_le (hLeast j hj)
    · left
      rw [UInt64.lt_iff_toNat_lt, hAge i hCandidate, hAge j hj]
      exact hLt
    · right
      have hPage := lastFetch_injective (h.fetched i hCandidate.2) (h.fetched j hj.2) hSame
      have hHere := (h.table _ i).mpr ⟨hCandidate.2, rfl⟩
      have hThere := (h.table _ j).mpr ⟨hj.2, rfl⟩
      rw [hPage] at hHere
      obtain rfl := Option.some.inj (hHere.symm.trans hThere)
      exact ⟨rfl, Nat.le_refl _⟩

/-- A fetch of a page that is not cached does what is expected exactly if the frame chosen cannot be written back, or no
frame is empty and the ages name the page fetched the longest ago, as they do before they wrap. -/
theorem eviction_when_full_iff (h : Reached poolSize s) (hNone : s.pool.pageTable id = none) (writable : Bool) :
    (s.EvictsRightly id writable ↔ ∀ i, s.pool.Chosen i → s.pool.CanWrite i → s.pool.Full ∧ s.LeastRecent i) ∧
      (s.fetches.length < 2 ^ 64 - 1 →
        (∀ i, s.pool.Chosen i ↔ s.LeastRecent i) ∧
          (s.EvictsRightly id writable ↔ s.pool.Full ∨ ∀ i, s.LeastRecent i → ¬ s.pool.CanWrite i)) := by
  have hConsistent := h.consistent
  have hExact := evictsRightly_iff hConsistent hNone writable
  refine ⟨hExact, fun hFetches => ?_⟩
  have hChosen := chosen_iff_leastRecent hConsistent hFetches
  refine ⟨hChosen, hExact.trans ?_⟩
  constructor
  · intro hAll
    by_cases hFull : s.pool.Full
    · exact .inl hFull
    · exact .inr fun i hLeast hWrite => hFull (hAll i ((hChosen i).mpr hLeast) hWrite).1
  · rintro (hFull | hNot) i hi hWrite
    · exact ⟨hFull, (hChosen i).mp hi⟩
    · exact absurd hWrite (hNot i ((hChosen i).mp hi))

/-! ## A pool of two frames that holds one page -/

/-- Page 1 of two was fetched and released. -/
def crowded : PoolHistory :=
  (PoolHistory.step ⟨.ofSize 2 (filledDisk 2), []⟩ (.fetchPage 1 false)).step (.release 1 false)

theorem reached_crowded : Reached 2 crowded := ((Reached.start (filledDisk 2)).step _).step _

theorem fetched_released {disk : Disk} {found : Page} (hRead : disk.readPage 1 (some .reset) = (.ok, some found)) :
    (step ⟨.ofSize 2 disk, []⟩ (.fetchPage 1 false)).step (.release 1 false) =
      ⟨⟨disk, [⟨⟨1, found.data, found.size⟩, 0, false, 1⟩, {}], Function.update (fun _ => none) 1 (some 0), 1⟩, [1]⟩ := by
  have hFetch := PoolUse.fetchPage_ofSize 1 false hRead
  rw [step, hFetch]
  rfl

theorem crowded_eq : ∃ found : Page, crowded =
    ⟨⟨filledDisk 2, [⟨⟨1, found.data, found.size⟩, 0, false, 1⟩, {}], Function.update (fun _ => none) 1 (some 0), 1⟩, [1]⟩ := by
  have hStores : (filledDisk 2).Stores filledStore := filledDisk_stores (by decide)
  obtain ⟨found, hRead, -⟩ := hStores.readPage (by decide : (0 : UInt32) < 1) (by decide) Page.reset
  exact ⟨found, fetched_released hRead⟩

theorem crowded_uncached : crowded.pool.pageTable 2 = none := by
  obtain ⟨found, hCrowded⟩ := crowded_eq
  rw [hCrowded]
  rfl

theorem crowded_chosen : crowded.pool.Chosen 0 ∧ crowded.pool.CanWrite 0 ∧ (crowded.pool.frame 1).page.id = kInvalidPageId := by
  obtain ⟨found, hCrowded⟩ := crowded_eq
  rw [hCrowded]
  have hAge : (1 : UInt64) < maxAge := by decide
  refine ⟨⟨⟨rfl, nofun⟩, .inl ⟨hAge, fun j hj => ?_⟩⟩, nofun, rfl⟩
  match j with
  | 0 => exact .inr ⟨rfl, Nat.le_refl 0⟩
  | 1 => exact absurd rfl hj.2
  | j + 2 => exact absurd rfl hj.2

theorem crowded_eviction :
    (crowded.EvictsRightly 2 false ↔
        ∀ i, crowded.pool.Chosen i → crowded.pool.CanWrite i → crowded.pool.Full ∧ crowded.LeastRecent i) ∧
      (crowded.fetches.length < 2 ^ 64 - 1 →
        (∀ i, crowded.pool.Chosen i ↔ crowded.LeastRecent i) ∧
          (crowded.EvictsRightly 2 false ↔ crowded.pool.Full ∨ ∀ i, crowded.LeastRecent i → ¬ crowded.pool.CanWrite i)) :=
  eviction_when_full_iff reached_crowded crowded_uncached false

/-- To fetch page 2, page 1 is evicted, and the other frame stays empty. -/
theorem crowded_evicts : Reached 2 crowded ∧ crowded.pool.pageTable 2 = none ∧ crowded.pool.Evicts 2 false 1 ∧
    (crowded.pool.frame 1).page.id = kInvalidPageId ∧ ¬ crowded.EvictsRightly 2 false := by
  obtain ⟨hChosen, hWrite, hEmpty⟩ := crowded_chosen
  have hTable : crowded.pool.pageTable 1 = some 0 := by
    obtain ⟨found, hCrowded⟩ := crowded_eq
    rw [hCrowded]
    rfl
  have hSize : crowded.pool.frames.length = 2 := reached_crowded.consistent.size
  refine ⟨reached_crowded, crowded_uncached, ?_, hEmpty, fun hRightly => ?_⟩
  · exact (evicts_iff reached_crowded.consistent crowded_uncached false 1).mpr ⟨0, hChosen, hWrite, hTable⟩
  · have hFull := ((evictsRightly_iff reached_crowded.consistent crowded_uncached false).mp hRightly 0 hChosen hWrite).1
    exact hFull 1 (by rw [hSize]; decide) hEmpty

end PoolHistory

end TupleStone
