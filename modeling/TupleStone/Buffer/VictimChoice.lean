import TupleStone.Buffer.LRUKReplacer
import Mathlib.Data.List.MinMax
import Mathlib.Data.Prod.Lex

/-! # The victim

The scan finds the least entry by two keys, and no two entries agree in both: the order of the map does not matter.
-/

set_option autoImplicit false

namespace TupleStone.LRUKReplacer

def firstAccess (t : Tracked) : Nat := t.history.headD 0

def kthRecent (k : Nat) (t : Tracked) : Nat := t.history.reverse.getD (k - 1) 0

/-- An evictable frame of fewer than `k` accesses whose first is earliest; when every evictable frame has `k`, the one
whose `k`-th most recent is oldest. -/
def Victim (k : Nat) (ledger : Ledger) (frame : Nat) : Prop :=
  ∃ t, ledger.frames.find? frame = some t ∧ t.evictable = true ∧
    ((t.history.length < k ∧ ∀ other u, ledger.frames.find? other = some u → u.evictable = true → other ≠ frame →
        u.history.length < k → firstAccess t < firstAccess u) ∨
      (∀ other u, ledger.frames.find? other = some u → u.evictable = true →
        k ≤ u.history.length ∧ (other ≠ frame → kthRecent k t < kthRecent k u)))

/-! ## The scan -/

def rank (k : Nat) (e : Nat × Entry) : Bool ×ₗ Nat := toLex (decide (e.2.accesses.length ≥ k), e.2.accesses.headD 0)

/-- The variables when an entry is the best so far. -/
def held (k : Nat) : Option (Nat × Entry) → Scan
  | none => {}
  | some e => { victim := e.1, oldest := e.2.accesses.headD 0, oldestHasK := decide (e.2.accesses.length ≥ k), found := true }

theorem scanStep_none (k : Nat) {e : Nat × Entry} (h : e.2.evictable = true) : scanStep k (held k none) e = held k (some e) := by
  simp [scanStep, held, h]

theorem scanStep_some (k : Nat) (best : Nat × Entry) {e : Nat × Entry} (h : e.2.evictable = true) :
    scanStep k (held k (some best)) e = if rank k e < rank k best then held k (some e) else held k (some best) := by
  have hLess : rank k e < rank k best ↔
      (decide (e.2.accesses.length ≥ k) = false ∧ decide (best.2.accesses.length ≥ k) = true) ∨
        (decide (e.2.accesses.length ≥ k) = decide (best.2.accesses.length ≥ k) ∧
          e.2.accesses.headD 0 < best.2.accesses.headD 0) := by
    rw [Prod.Lex.lt_iff]
    apply or_congr _ Iff.rfl
    exact Bool.lt_iff
  rw [scanStep, h, if_neg (by decide)]
  simp only [hLess]
  apply if_congr _ rfl rfl
  simp [held]

/-- The scan keeps the least evictable entry. -/
theorem foldl_scanStep (k : Nat) (entries : List (Nat × Entry)) :
    entries.foldl (scanStep k) {} = held k ((entries.filter (fun e => e.2.evictable)).argmin (rank k)) := by
  induction entries using List.reverseRecOn with
  | nil => rfl
  | append_singleton entries e ih =>
    rw [List.foldl_append, ih, List.filter_append]
    cases hEvictable : e.2.evictable with
    | false =>
      rw [List.filter_cons_of_neg (by simp [hEvictable]), List.filter_nil, List.append_nil]
      simp [scanStep, hEvictable]
    | true =>
      rw [List.filter_cons_of_pos (by simp [hEvictable]), List.filter_nil, List.argmin_concat, List.foldl_cons, List.foldl_nil]
      cases (entries.filter (fun e => e.2.evictable)).argmin (rank k) with
      | none => exact scanStep_none k hEvictable
      | some best =>
        rw [scanStep_some k best hEvictable]
        exact (apply_ite (held k) _ _ _).symm

variable {ledger : Ledger} {replacer : LRUKReplacer}

/-- Nothing is evicted when nothing may be. -/
theorem evict_eq_none (replacer : LRUKReplacer) (order : Iteration) :
    (replacer.evict order).1 = none ↔ ∀ e ∈ replacer.entries.entries, e.2.evictable = false := by
  have hFilter : (order.arrange replacer.entries.entries).filter (fun e => e.2.evictable) = [] ↔
      ∀ e ∈ replacer.entries.entries, e.2.evictable = false := by
    rw [List.filter_eq_nil_iff]
    simp only [(order.perm replacer.entries.entries).mem_iff, Bool.not_eq_true]
  rw [← hFilter, ← List.argmin_eq_none (f := rank replacer.k), evict, foldl_scanStep]
  cases ((order.arrange replacer.entries.entries).filter (fun e => e.2.evictable)).argmin (rank replacer.k) with
  | none => simp [held]
  | some best => simp [held]

/-- The least evictable entry is evicted, in whatever order the map is iterated. -/
theorem evict_eq_some (replacer : LRUKReplacer) (order : Iteration)
    (hApart : ∀ e ∈ replacer.entries.entries, ∀ e' ∈ replacer.entries.entries, rank replacer.k e = rank replacer.k e' → e = e')
    (frame : Nat) :
    (replacer.evict order).1 = some frame ↔
      ∃ entry, (frame, entry) ∈ replacer.entries.entries ∧ entry.evictable = true ∧
        ∀ e ∈ replacer.entries.entries, e.2.evictable = true → rank replacer.k (frame, entry) ≤ rank replacer.k e := by
  have hMem : ∀ e, e ∈ (order.arrange replacer.entries.entries).filter (fun e => e.2.evictable) ↔
      e ∈ replacer.entries.entries ∧ e.2.evictable = true := by
    intro e
    rw [List.mem_filter, (order.perm replacer.entries.entries).mem_iff]
  rw [evict, foldl_scanStep]
  cases hBest : ((order.arrange replacer.entries.entries).filter (fun e => e.2.evictable)).argmin (rank replacer.k) with
  | none =>
    have hNone := List.argmin_eq_none.mp hBest
    constructor
    · intro h
      cases h
    · rintro ⟨entry, hEntry, hEvictable, -⟩
      have hIn := (hMem (frame, entry)).mpr ⟨hEntry, hEvictable⟩
      rw [hNone] at hIn
      cases hIn
  | some best =>
    obtain ⟨hBestMem, hBestEvictable⟩ := (hMem best).mp (List.argmin_mem hBest)
    have hLeast : ∀ e ∈ replacer.entries.entries, e.2.evictable = true → rank replacer.k best ≤ rank replacer.k e :=
      fun e he hEvictable => List.le_of_mem_argmin ((hMem e).mpr ⟨he, hEvictable⟩) hBest
    simp only [held, Bool.true_eq_false, if_false, Option.some.injEq]
    constructor
    · rintro rfl
      exact ⟨best.2, hBestMem, hBestEvictable, hLeast⟩
    · rintro ⟨entry, hEntry, hEvictable, hLess⟩
      have hSame := le_antisymm (hLeast _ hEntry hEvictable) (hLess best hBestMem hBestEvictable)
      exact congrArg Prod.fst (hApart best hBestMem _ hEntry hSame)

/-! ## By the histories -/

/-- The first access, or the `k`-th most recent. -/
def front (k : Nat) (t : Tracked) : Nat := if t.history.length < k then firstAccess t else kthRecent k t

theorem headD_shrink {k : Nat} (hk : 1 ≤ k) (t : Tracked) : (shrink k t).accesses.headD 0 = front k t := by
  rw [front]
  split
  · rename_i hShort
    rw [shrink, rtake_of_length_le (Nat.le_of_lt hShort), firstAccess]
  · rename_i hLong
    rw [shrink, List.rtake, kthRecent, List.headD_eq_head?_getD, List.head?_drop, List.getD_eq_getElem?_getD,
      List.getElem?_reverse (by omega)]
    congr 2
    omega

theorem length_shrink (k : Nat) (t : Tracked) : (shrink k t).accesses.length ≥ k ↔ k ≤ t.history.length := by
  rw [shrink, List.rtake, List.length_drop]
  omega

theorem rank_shrink {k : Nat} (hk : 1 ≤ k) (frame : Nat) (t : Tracked) :
    rank k (frame, shrink k t) = toLex (decide (k ≤ t.history.length), front k t) := by
  rw [rank, headD_shrink hk]
  simp only [length_shrink]

/-- The front is one of the frame's own accesses. -/
theorem front_mem {k : Nat} (hk : 1 ≤ k) {t : Tracked} (hFilled : t.history ≠ []) : front k t ∈ t.history := by
  have hLength := List.length_pos_iff.mpr hFilled
  rw [front]
  split
  · rw [firstAccess]
    cases hHistory : t.history with
    | nil => exact absurd hHistory hFilled
    | cons first rest => exact List.mem_cons_self
  · rw [kthRecent, List.getD_eq_getElem?_getD, List.getElem?_eq_getElem (by rw [List.length_reverse]; omega), Option.getD_some]
    exact List.mem_reverse.mp (List.getElem_mem _)

theorem Ledger.Timed.front_ne (h : ledger.Timed) {k : Nat} (hk : 1 ≤ k) {frame other : Nat} {t u : Tracked}
    (hFrame : ledger.frames.find? frame = some t) (hOther : ledger.frames.find? other = some u) (hNe : frame ≠ other) :
    front k t ≠ front k u := by
  intro hSame
  have hMem := front_mem hk (h.filled frame t hFrame)
  rw [hSame] at hMem
  exact h.apart frame other t u hFrame hOther hNe _ hMem (front_mem hk (h.filled other u hOther))

theorem Follows.mem_entries (h : Follows ledger replacer) (frame : Nat) (entry : Entry) :
    (frame, entry) ∈ replacer.entries.entries ↔ ∃ t, ledger.frames.find? frame = some t ∧ shrink replacer.k t = entry := by
  rw [← OrderedMap.find?_eq_some_iff, h.find? frame, Option.map_eq_some_iff]

theorem Follows.apart (h : Follows ledger replacer) (hTimed : ledger.Timed) :
    ∀ e ∈ replacer.entries.entries, ∀ e' ∈ replacer.entries.entries, rank replacer.k e = rank replacer.k e' → e = e' := by
  rintro ⟨frame, entry⟩ hEntry ⟨other, entry'⟩ hEntry' hRank
  obtain ⟨t, hFind, rfl⟩ := (h.mem_entries frame entry).mp hEntry
  obtain ⟨u, hFind', rfl⟩ := (h.mem_entries other entry').mp hEntry'
  rw [rank_shrink h.positive, rank_shrink h.positive] at hRank
  have hFront : front replacer.k t = front replacer.k u := congrArg (fun r => (ofLex r).2) hRank
  by_cases hSame : frame = other
  · subst hSame
    rw [hFind] at hFind'
    cases hFind'
    rfl
  · exact absurd hFront (hTimed.front_ne h.positive hFind hFind' hSame)

theorem rank_le_iff (k : Nat) (t u : Tracked) :
    toLex (decide (k ≤ t.history.length), front k t) ≤ toLex (decide (k ≤ u.history.length), front k u) ↔
      (t.history.length < k ∧ k ≤ u.history.length) ∨
        ((k ≤ t.history.length ↔ k ≤ u.history.length) ∧ front k t ≤ front k u) := by
  rw [Prod.Lex.le_iff]
  apply or_congr
  · change decide _ < decide _ ↔ _
    rw [Bool.lt_iff, decide_eq_false_iff_not, decide_eq_true_iff, Nat.not_le]
  · apply and_congr_left'
    change decide _ = decide _ ↔ _
    rw [decide_eq_decide]

theorem victim_iff (hTimed : ledger.Timed) {k : Nat} (hk : 1 ≤ k) (frame : Nat) :
    Victim k ledger frame ↔
      ∃ t, ledger.frames.find? frame = some t ∧ t.evictable = true ∧
        ∀ other u, ledger.frames.find? other = some u → u.evictable = true →
          toLex (decide (k ≤ t.history.length), front k t) ≤ toLex (decide (k ≤ u.history.length), front k u) := by
  apply exists_congr
  intro t
  apply and_congr_right
  intro hFind
  apply and_congr_right
  intro hEvictable
  constructor
  · rintro (⟨hShort, hFirst⟩ | hLong) other u hOther hOtherEvictable
    · rw [rank_le_iff]
      by_cases hOtherShort : u.history.length < k
      · right
        refine ⟨by omega, ?_⟩
        by_cases hSame : other = frame
        · subst hSame
          rw [hFind] at hOther
          cases hOther
          exact Nat.le_refl _
        · rw [front, front, if_pos hShort, if_pos hOtherShort]
          exact Nat.le_of_lt (hFirst other u hOther hOtherEvictable hSame hOtherShort)
      · exact Or.inl ⟨hShort, by omega⟩
    · have hOwn := (hLong frame t hFind hEvictable).1
      obtain ⟨hOtherLong, hOldest⟩ := hLong other u hOther hOtherEvictable
      rw [rank_le_iff]
      right
      refine ⟨by omega, ?_⟩
      by_cases hSame : other = frame
      · subst hSame
        rw [hFind] at hOther
        cases hOther
        exact Nat.le_refl _
      · rw [front, front, if_neg (by omega), if_neg (by omega)]
        exact Nat.le_of_lt (hOldest hSame)
  · intro hLeast
    by_cases hShort : t.history.length < k
    · left
      refine ⟨hShort, ?_⟩
      intro other u hOther hOtherEvictable hNe hOtherShort
      have hFront := hTimed.front_ne hk hFind hOther (Ne.symm hNe)
      have hLess := (rank_le_iff k t u).mp (hLeast other u hOther hOtherEvictable)
      rw [front, front, if_pos hShort, if_pos hOtherShort] at hFront hLess
      omega
    · right
      intro other u hOther hOtherEvictable
      have hLess := (rank_le_iff k t u).mp (hLeast other u hOther hOtherEvictable)
      have hOtherLong : k ≤ u.history.length := by omega
      refine ⟨hOtherLong, ?_⟩
      intro hNe
      have hFront := hTimed.front_ne hk hFind hOther (Ne.symm hNe)
      rw [front, front, if_neg hShort, if_neg (by omega)] at hFront hLess
      omega

theorem Follows.evict_iff (h : Follows ledger replacer) (hTimed : ledger.Timed) (order : Iteration) (frame : Nat) :
    (replacer.evict order).1 = some frame ↔ Victim replacer.k ledger frame := by
  rw [evict_eq_some replacer order (h.apart hTimed), victim_iff hTimed h.positive]
  constructor
  · rintro ⟨entry, hEntry, hEvictable, hLeast⟩
    obtain ⟨t, hFind, rfl⟩ := (h.mem_entries frame entry).mp hEntry
    refine ⟨t, hFind, hEvictable, ?_⟩
    intro other u hOther hOtherEvictable
    rw [← rank_shrink h.positive frame, ← rank_shrink h.positive other]
    exact hLeast _ ((h.mem_entries other _).mpr ⟨u, hOther, rfl⟩) hOtherEvictable
  · rintro ⟨t, hFind, hEvictable, hLeast⟩
    refine ⟨shrink replacer.k t, (h.mem_entries frame _).mpr ⟨t, hFind, rfl⟩, hEvictable, ?_⟩
    rintro ⟨other, entry⟩ hEntry hOtherEvictable
    obtain ⟨u, hOther, rfl⟩ := (h.mem_entries other entry).mp hEntry
    rw [rank_shrink h.positive, rank_shrink h.positive]
    exact hLeast other u hOther hOtherEvictable

theorem evict_snd (replacer : LRUKReplacer) (order : Iteration) :
    (replacer.evict order).2 =
      match (replacer.evict order).1 with
      | some frame => { replacer with entries := replacer.entries.erase frame }
      | none => replacer := by
  rw [evict]
  split
  · rfl
  · rfl

theorem run_k (capacity : Nat) {k : Nat} (hk : 1 ≤ k) (calls : List Call) : (run capacity k calls).2.k = k := by
  induction calls using List.reverseRecOn with
  | nil =>
    change (if k = 0 then 1 else k) = k
    rw [if_neg (by omega)]
  | append_singleton calls c ih =>
    rw [run, List.foldl_append]
    change (call (run capacity k calls) c).2.k = k
    cases c with
    | recordAccess frame =>
      rw [call, recordAccess]
      split
      · exact ih
      · exact ih
    | setEvictable frame evictable =>
      rw [call, setEvictable]
      dsimp only
      split
      · exact ih
      · exact ih
    | remove frame => exact ih
    | evict order =>
      have hSame : ((run capacity k calls).2.evict order).2.k = (run capacity k calls).2.k := by
        rw [evict_snd]
        split <;> rfl
      rw [call]
      split
      · rename_i hEvict
        rw [hEvict] at hSame
        rw [← ih, ← hSame]
      · rename_i hEvict
        rw [hEvict] at hSame
        rw [← ih, ← hSame]

/-- Frame 7 has two accesses, frame 3 one: it goes first, iterated forwards or backwards. -/
def sampleCalls : List Call :=
  [.recordAccess 7, .recordAccess 7, .recordAccess 3, .setEvictable 7 true, .setEvictable 3 true]

def backwards : Iteration := ⟨List.reverse, List.reverse_perm⟩

end TupleStone.LRUKReplacer
