import Mathlib.Data.List.Basic
import Mathlib.Tactic.Common

/-! # Logs of self-delimiting frames

A scanner recognises one frame at the front of a string and says how much of it the frame takes. Reading a log
stops where no frame is found. When scanning is lawful every string is a sequence of frames and a tail without
one, and a log cut anywhere reads as an initial part of its records.
-/

set_option autoImplicit false

namespace FrameLog

variable {σ R : Type}

def readAll (next : List σ → Option (R × Nat)) : Nat → List σ → List R
  | 0, _ => []
  | fuel + 1, bytes =>
    match next bytes with
    | none => []
    | some (r, n) => r :: readAll next fuel (bytes.drop n)

def records (next : List σ → Option (R × Nat)) (bytes : List σ) : List R := readAll next (bytes.length + 1) bytes

/-- In front of every string, `used` is one frame that holds `r`. -/
structure IsFrame (next : List σ → Option (R × Nat)) (used : List σ) (r : R) : Prop where
  nonempty : used ≠ []
  scanned : ∀ more, next (used ++ more) = some (r, used.length)

/-- What is scanned is a frame wherever it stands. -/
def Lawful (next : List σ → Option (R × Nat)) : Prop :=
  ∀ bytes r n, next bytes = some (r, n) → n ≤ bytes.length ∧ IsFrame next (bytes.take n) r

inductive Frames (next : List σ → Option (R × Nat)) : List σ → List R → Prop where
  | nil : Frames next [] []
  | cons {used rest : List σ} {r : R} {rs : List R} (hFrame : IsFrame next used r) (hRest : Frames next rest rs) :
      Frames next (used ++ rest) (r :: rs)

variable {next : List σ → Option (R × Nat)}

theorem Frames.append {b b' : List σ} {rs rs' : List R} (h : Frames next b rs) (h' : Frames next b' rs') :
    Frames next (b ++ b') (rs ++ rs') := by
  induction h with
  | nil => exact h'
  | cons hFrame _ ih =>
    rw [List.append_assoc]
    exact .cons hFrame ih

theorem readAll_none {bytes : List σ} (h : next bytes = none) (fuel : Nat) : readAll next fuel bytes = [] := by
  cases fuel with
  | zero => rfl
  | succ fuel => rw [readAll, h]

/-- Frames are read in order, whatever follows and whatever bound exceeds their number. -/
theorem Frames.readAll_append {b : List σ} {rs : List R} (h : Frames next b rs) (tail : List σ) {fuel : Nat}
    (hFuel : rs.length ≤ fuel) : readAll next fuel (b ++ tail) = rs ++ readAll next (fuel - rs.length) tail := by
  induction h generalizing fuel with
  | nil => simp
  | cons hFrame _ ih =>
    cases fuel with
    | zero => simp at hFuel
    | succ fuel =>
      rw [List.length_cons] at hFuel
      rw [List.append_assoc, readAll, hFrame.scanned]
      simp only [List.drop_left]
      rw [ih (by omega), List.length_cons, List.cons_append]
      congr 3
      omega

theorem Frames.length_le {b : List σ} {rs : List R} (h : Frames next b rs) : rs.length ≤ b.length := by
  induction h with
  | nil => exact Nat.le_refl _
  | cons hFrame _ ih =>
    have hPos := List.length_pos_iff.mpr hFrame.nonempty
    rw [List.length_cons, List.length_append]
    omega

theorem Frames.records_append {b tail : List σ} {rs : List R} (h : Frames next b rs) (hTail : next tail = none) :
    records next (b ++ tail) = rs := by
  have hLength := h.length_le
  rw [records, h.readAll_append tail (by rw [List.length_append]; omega), readAll_none hTail, List.append_nil]

theorem next_nil (h : Lawful next) : next [] = none := by
  cases hNext : next [] with
  | none => rfl
  | some found =>
    obtain ⟨-, hFrame⟩ := h [] found.1 found.2 hNext
    exact absurd List.take_nil hFrame.nonempty

theorem Frames.records_eq (hLaw : Lawful next) {b : List σ} {rs : List R} (h : Frames next b rs) :
    records next b = rs := by
  have hRecords := h.records_append (next_nil hLaw)
  rwa [List.append_nil] at hRecords

/-- Every string is a sequence of frames and a tail at which reading stops. -/
theorem exists_frames (hLaw : Lawful next) (bytes : List σ) :
    ∃ b tail, bytes = b ++ tail ∧ next tail = none ∧ Frames next b (records next bytes) := by
  have hSplit : ∃ b tail rs, bytes = b ++ tail ∧ next tail = none ∧ Frames next b rs := by
    induction bytes using (measure List.length).wf.induction with
    | h bytes ih =>
      cases hNext : next bytes with
      | none => exact ⟨[], bytes, [], rfl, hNext, .nil⟩
      | some found =>
        obtain ⟨r, n⟩ := found
        obtain ⟨hLength, hFrame⟩ := hLaw bytes r n hNext
        have hPos : 0 < n := by
          cases n with
          | zero => exact absurd List.take_zero hFrame.nonempty
          | succ n => exact Nat.succ_pos n
        have hShorter : (bytes.drop n).length < bytes.length := by
          rw [List.length_drop]
          omega
        obtain ⟨b, tail, rs, hRest, hTail, hFrames⟩ := ih (bytes.drop n) hShorter
        refine ⟨bytes.take n ++ b, tail, r :: rs, ?_, hTail, .cons hFrame hFrames⟩
        rw [List.append_assoc, ← hRest, List.take_append_drop]
  obtain ⟨b, tail, rs, rfl, hTail, hFrames⟩ := hSplit
  exact ⟨b, tail, rfl, hTail, by rwa [hFrames.records_append hTail]⟩

/-- A frame that is cut short is no frame. -/
theorem IsFrame.next_cut (hLaw : Lawful next) {used p rest : List σ} {r : R} (h : IsFrame next used r)
    (hSplit : used = p ++ rest) (hCut : rest ≠ []) : next p = none := by
  cases hNext : next p with
  | none => rfl
  | some found =>
    obtain ⟨r', n⟩ := found
    obtain ⟨hLength, hFrame⟩ := hLaw p r' n hNext
    have hHere := hFrame.scanned (p.drop n ++ rest)
    have hWhole := h.scanned []
    rw [← List.append_assoc, List.take_append_drop, ← hSplit] at hHere
    rw [List.append_nil, hHere] at hWhole
    have hSame : (p.take n).length = used.length := congrArg Prod.snd (Option.some.inj hWhole)
    have hRest := List.length_pos_iff.mpr hCut
    rw [List.length_take_of_le hLength, hSplit, List.length_append] at hSame
    omega

/-- A log cut anywhere reads as its first records. -/
theorem Frames.records_cut (hLaw : Lawful next) {b p : List σ} {rs : List R} (h : Frames next b rs) (hp : p <+: b) :
    ∃ k, ∃ whole tail, p = whole ++ tail ∧ Frames next whole (rs.take k) ∧ next tail = none := by
  induction h generalizing p with
  | nil =>
    rw [List.prefix_nil] at hp
    exact ⟨0, [], [], hp, .nil, next_nil hLaw⟩
  | @cons used rest r rs hFrame hRest ih =>
    obtain hShort | hLong := Nat.lt_or_ge p.length used.length
    · obtain ⟨cut, hCut⟩ := List.prefix_of_prefix_length_le hp (List.prefix_append used rest) (Nat.le_of_lt hShort)
      refine ⟨0, [], p, rfl, .nil, hFrame.next_cut hLaw hCut.symm ?_⟩
      rintro rfl
      rw [List.append_nil] at hCut
      rw [hCut] at hShort
      exact absurd hShort (Nat.lt_irrefl _)
    · obtain ⟨p', rfl⟩ := List.prefix_of_prefix_length_le (List.prefix_append used rest) hp hLong
      obtain ⟨k, whole, tail, rfl, hWhole, hTail⟩ := ih ((List.prefix_append_right_inj used).mp hp)
      exact ⟨k + 1, used ++ whole, tail, (List.append_assoc _ _ _).symm, .cons hFrame hWhole, hTail⟩

end FrameLog
