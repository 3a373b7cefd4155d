import Mathlib.Data.List.Forall2
import Mathlib.Data.List.Nodup

/-! # Sorting by a strict weak order

Inserting one element after another behind everything it is not less than is a stable sort: for a strict weak order it
gives what `List.mergeSort` gives, whose result does not change when ties are broken by position.
-/

set_option autoImplicit false

namespace StableSort

variable {α β : Type}

/-- A strict weak order on the elements that satisfy `S`. -/
structure StrictWeakOn (less : α → α → Bool) (S : α → Prop) : Prop where
  irrefl : ∀ a, S a → less a a = false
  trans : ∀ a b c, S a → S b → S c → less a b = true → less b c = true → less a c = true
  tie_trans : ∀ a b c, S a → S b → S c → less a b = false → less b a = false → less b c = false → less c b = false →
    less a c = false ∧ less c a = false

section Order

variable {less : α → α → Bool} {S : α → Prop} {a b c : α}

theorem StrictWeakOn.asymm (h : StrictWeakOn less S) (ha : S a) (hb : S b) (hab : less a b = true) : less b a = false := by
  by_contra hba
  have hSelf := h.trans a b a ha hb ha hab (eq_true_of_ne_false hba)
  rw [h.irrefl a ha] at hSelf
  cases hSelf

/-- Not being less is transitive. -/
theorem StrictWeakOn.not_less_trans (h : StrictWeakOn less S) (ha : S a) (hb : S b) (hc : S c) (hab : less a b = false)
    (hbc : less b c = false) : less a c = false := by
  by_contra hac
  have hac := eq_true_of_ne_false hac
  have hba : less b a = false := by
    by_contra hba
    have hLess := h.trans b a c hb ha hc (eq_true_of_ne_false hba) hac
    rw [hbc] at hLess
    cases hLess
  have hcb : less c b = false := by
    by_contra hcb
    have hLess := h.trans a c b ha hc hb hac (eq_true_of_ne_false hcb)
    rw [hab] at hLess
    cases hLess
  have hTie := (h.tie_trans a b c ha hb hc hab hba hbc hcb).1
  rw [hTie] at hac
  cases hac

theorem StrictWeakOn.less_of_less_of_not_less (h : StrictWeakOn less S) (ha : S a) (hb : S b) (hc : S c)
    (hab : less a b = true) (hcb : less c b = false) : less a c = true := by
  by_contra hac
  have hab' := h.not_less_trans ha hc hb (eq_false_of_ne_true hac) hcb
  rw [hab'] at hab
  cases hab

theorem strictWeakOn_false : StrictWeakOn (fun _ _ => false) S :=
  ⟨fun _ _ => rfl, fun _ _ _ _ _ _ h => absurd h Bool.false_ne_true, fun _ _ _ _ _ _ _ _ _ _ => ⟨rfl, rfl⟩⟩

theorem StrictWeakOn.congr {less' : α → α → Bool} (h : StrictWeakOn less S) (hSame : ∀ a b, S a → S b → less' a b = less a b) :
    StrictWeakOn less' S := by
  constructor
  case irrefl =>
    intro a ha
    rw [hSame a a ha ha]
    exact h.irrefl a ha
  case trans =>
    intro a b c ha hb hc
    rw [hSame a b ha hb, hSame b c hb hc, hSame a c ha hc]
    exact h.trans a b c ha hb hc
  case tie_trans =>
    intro a b c ha hb hc
    rw [hSame a b ha hb, hSame b a hb ha, hSame b c hb hc, hSame c b hc hb, hSame a c ha hc, hSame c a hc ha]
    exact h.tie_trans a b c ha hb hc

/-- Ties of one order are broken by a relation that is an order on every set of ties. -/
theorem StrictWeakOn.lex {next : α → α → Bool} (h : StrictWeakOn less S)
    (hNext : ∀ a, S a → StrictWeakOn next (fun b => S b ∧ less a b = false ∧ less b a = false)) :
    StrictWeakOn (fun a b => less a b || (!less b a && next a b)) S := by
  have hSelf : ∀ a, S a → S a ∧ less a a = false ∧ less a a = false := fun a ha => ⟨ha, h.irrefl a ha, h.irrefl a ha⟩
  constructor
  case irrefl =>
    intro a ha
    simp [h.irrefl a ha, (hNext a ha).irrefl a (hSelf a ha)]
  case trans =>
    intro a b c ha hb hc hab hbc
    simp only [Bool.or_eq_true, Bool.and_eq_true, Bool.not_eq_true'] at hab hbc ⊢
    obtain hab | ⟨hba, hab⟩ := hab
    · obtain hbc | ⟨hcb, -⟩ := hbc
      · exact Or.inl (h.trans a b c ha hb hc hab hbc)
      · exact Or.inl (h.less_of_less_of_not_less ha hb hc hab hcb)
    · by_cases hLess : less a b = true
      · obtain hbc | ⟨hcb, -⟩ := hbc
        · exact Or.inl (h.trans a b c ha hb hc hLess hbc)
        · exact Or.inl (h.less_of_less_of_not_less ha hb hc hLess hcb)
      have hTie : S b ∧ less a b = false ∧ less b a = false := ⟨hb, eq_false_of_ne_true hLess, hba⟩
      by_cases hLess' : less b c = true
      · left
        by_contra hac
        have hbc' := h.not_less_trans hb ha hc hba (eq_false_of_ne_true hac)
        rw [hLess'] at hbc'
        cases hbc'
      obtain hbc | ⟨hcb, hbc⟩ := hbc
      · exact absurd hbc hLess'
      have hTies := h.tie_trans a b c ha hb hc hTie.2.1 hba (eq_false_of_ne_true hLess') hcb
      exact Or.inr ⟨hTies.2, (hNext a ha).trans a b c (hSelf a ha) hTie ⟨hc, hTies⟩ hab hbc⟩
  case tie_trans =>
    intro a b c ha hb hc hab hba hbc hcb
    simp only [Bool.or_eq_false_iff, Bool.and_eq_false_iff, Bool.not_eq_false'] at hab hba hbc hcb ⊢
    have hTies := h.tie_trans a b c ha hb hc hab.1 hba.1 hbc.1 hcb.1
    have hNextab := hab.2.resolve_left (by simp [hba.1])
    have hNextba := hba.2.resolve_left (by simp [hab.1])
    have hNextbc := hbc.2.resolve_left (by simp [hcb.1])
    have hNextcb := hcb.2.resolve_left (by simp [hbc.1])
    have hNextTies := (hNext a ha).tie_trans a b c (hSelf a ha) ⟨hb, hab.1, hba.1⟩ ⟨hc, hTies⟩ hNextab hNextba hNextbc hNextcb
    exact ⟨⟨hTies.1, Or.inr hNextTies.1⟩, hTies.2, Or.inr hNextTies.2⟩

end Order

def insert (less : α → α → Bool) (a : α) : List α → List α
  | [] => [a]
  | b :: rest => if less a b then a :: b :: rest else b :: insert less a rest

def sort (less : α → α → Bool) (rows : List α) : List α := rows.foldl (fun sorted a => insert less a sorted) []

section Insert

variable {less : α → α → Bool}

theorem perm_insert (a : α) (sorted : List α) : (insert less a sorted).Perm (a :: sorted) := by
  induction sorted with
  | nil => exact .refl _
  | cons b rest ih =>
    rw [insert]
    split
    · exact .refl _
    · exact (ih.cons b).trans (.swap a b rest)

theorem mem_insert {a b : α} {sorted : List α} : b ∈ insert less a sorted ↔ b = a ∨ b ∈ sorted := by
  rw [(perm_insert a sorted).mem_iff, List.mem_cons]

theorem foldl_insert_perm (rows sorted : List α) :
    (rows.foldl (fun sorted a => insert less a sorted) sorted).Perm (sorted ++ rows) := by
  induction rows generalizing sorted with
  | nil => simp
  | cons a rows ih =>
    refine (ih _).trans (((perm_insert a sorted).append_right rows).trans ?_)
    exact List.perm_middle.symm

theorem perm_sort (rows : List α) : (sort less rows).Perm rows := foldl_insert_perm rows []

theorem map_insert {f : α → β} {less' : β → β → Bool} {a : α} {sorted : List α}
    (h : ∀ b ∈ sorted, less a b = less' (f a) (f b)) : (insert less a sorted).map f = insert less' (f a) (sorted.map f) := by
  induction sorted with
  | nil => rfl
  | cons b rest ih =>
    rw [insert, List.map_cons, insert, h b List.mem_cons_self]
    split
    · rfl
    · rw [List.map_cons, ih (fun c hc => h c (List.mem_cons_of_mem _ hc))]

theorem map_sort {f : α → β} {less' : β → β → Bool} {rows : List α}
    (h : ∀ a ∈ rows, ∀ b ∈ rows, less a b = less' (f a) (f b)) : (sort less rows).map f = sort less' (rows.map f) := by
  have hFold : ∀ (rest sorted : List α), (∀ a ∈ rest, a ∈ rows) → (∀ b ∈ sorted, b ∈ rows) →
      (rest.foldl (fun sorted a => insert less a sorted) sorted).map f =
        (rest.map f).foldl (fun sorted a => insert less' a sorted) (sorted.map f) := by
    intro rest
    induction rest with
    | nil => exact fun _ _ _ => rfl
    | cons a rest ih =>
      intro sorted hRest hSorted
      have ha := hRest a List.mem_cons_self
      rw [List.foldl_cons, List.map_cons, List.foldl_cons, ← map_insert (fun b hb => h a ha b (hSorted b hb))]
      refine ih _ (fun b hb => hRest b (List.mem_cons_of_mem _ hb)) (fun b hb => ?_)
      obtain rfl | hOld := mem_insert.mp hb
      · exact ha
      · exact hSorted b hOld
  exact hFold rows [] (fun _ h => h) (fun _ h => by cases h)

/-- With no order every element is put behind the others. -/
theorem sort_false (rows : List α) : sort (fun _ _ => false) rows = rows := by
  have hInsert : ∀ (a : α) sorted, insert (fun _ _ => false) a sorted = sorted ++ [a] := by
    intro a sorted
    induction sorted with
    | nil => rfl
    | cons b rest ih => rw [insert, if_neg Bool.false_ne_true, ih, List.cons_append]
  have hFold : ∀ (rest sorted : List α), rest.foldl (fun sorted a => insert (fun _ _ => false) a sorted) sorted = sorted ++ rest := by
    intro rest
    induction rest with
    | nil => simp
    | cons a rest ih =>
      intro sorted
      rw [List.foldl_cons, hInsert, ih, List.append_assoc, List.singleton_append]
  exact hFold rows []

/-! ## The result is sorted -/

variable {S : α → Prop}

/-- No element is less than one in front of it. -/
def Sorted (less : α → α → Bool) (rows : List α) : Prop := rows.Pairwise (fun a b => less b a = false)

theorem sorted_insert (hOrder : StrictWeakOn less S) {a : α} {sorted : List α} (ha : S a) (hMem : ∀ b ∈ sorted, S b)
    (h : Sorted less sorted) : Sorted less (insert less a sorted) := by
  induction sorted with
  | nil => exact List.pairwise_singleton _ _
  | cons b rest ih =>
    have hb := hMem b List.mem_cons_self
    have hRest := fun c hc => hMem c (List.mem_cons_of_mem _ hc)
    obtain ⟨hHead, hTail⟩ := List.pairwise_cons.mp h
    rw [insert]
    split
    · next hLess =>
      refine List.pairwise_cons.mpr ⟨fun c hc => ?_, h⟩
      obtain rfl | hc := List.mem_cons.mp hc
      · exact hOrder.asymm ha hb hLess
      · exact hOrder.asymm ha (hRest c hc) (hOrder.less_of_less_of_not_less ha hb (hRest c hc) hLess (hHead c hc))
    · next hLess =>
      refine List.pairwise_cons.mpr ⟨fun c hc => ?_, ih hRest hTail⟩
      obtain rfl | hc := mem_insert.mp hc
      · exact eq_false_of_ne_true hLess
      · exact hHead c hc

theorem sorted_sort (hOrder : StrictWeakOn less S) {rows : List α} (hRows : ∀ a ∈ rows, S a) : Sorted less (sort less rows) := by
  have hFold : ∀ (rest sorted : List α), (∀ a ∈ rest, S a) → (∀ b ∈ sorted, S b) → Sorted less sorted →
      Sorted less (rest.foldl (fun sorted a => insert less a sorted) sorted) := by
    intro rest
    induction rest with
    | nil => exact fun _ _ _ h => h
    | cons a rest ih =>
      intro sorted hRest hMem h
      have ha := hRest a List.mem_cons_self
      refine ih _ (fun b hb => hRest b (List.mem_cons_of_mem _ hb)) (fun b hb => ?_) (sorted_insert hOrder ha hMem h)
      obtain rfl | hOld := mem_insert.mp hb
      · exact ha
      · exact hMem b hOld
  exact hFold rows [] hRows (fun _ h => by cases h) .nil

/-! ## It is the stable sort -/

def atMost (less : α → α → Bool) (a b : α) : Bool := !less b a

def numbered (less : α → α → Bool) (a b : α × Nat) : Bool := less a.1 b.1

/-- Inserted elements with a greater number than the others keep ties in the order of the numbers. -/
theorem numbered_insert (hOrder : StrictWeakOn less (fun _ => True)) {a : α} {n : Nat} {sorted : List (α × Nat)}
    (hNumber : ∀ b ∈ sorted, b.2 < n) (h : sorted.Pairwise (fun a b => List.zipIdxLE (atMost less) a b)) :
    (insert (numbered less) (a, n) sorted).Pairwise (fun a b => List.zipIdxLE (atMost less) a b) := by
  have hBehind : ∀ {b : α × Nat}, less a b.1 = false → b.2 < n → List.zipIdxLE (atMost less) b (a, n) = true := by
    intro b hLess hNumber
    have hLe := Nat.le_of_lt hNumber
    simp [List.zipIdxLE, atMost, hLess, hLe]
  have hBefore : ∀ {b : α × Nat}, less a b.1 = true → List.zipIdxLE (atMost less) (a, n) b = true := by
    intro b hLess
    simp [List.zipIdxLE, atMost, hLess, hOrder.asymm trivial trivial hLess]
  induction sorted with
  | nil => exact List.pairwise_singleton _ _
  | cons b rest ih =>
    have hRest := fun c hc => hNumber c (List.mem_cons_of_mem _ hc)
    obtain ⟨hHead, hTail⟩ := List.pairwise_cons.mp h
    rw [insert]
    split
    · next hLess =>
      refine List.pairwise_cons.mpr ⟨fun c hc => ?_, h⟩
      obtain rfl | hc := List.mem_cons.mp hc
      · exact hBefore hLess
      · have hNotLess : less c.1 b.1 = false := by
          by_contra hcb
          have hLe := hHead c hc
          simp [List.zipIdxLE, atMost, eq_true_of_ne_false hcb] at hLe
        exact hBefore (hOrder.less_of_less_of_not_less trivial trivial trivial hLess hNotLess)
    · next hLess =>
      refine List.pairwise_cons.mpr ⟨fun c hc => ?_, ih hRest hTail⟩
      obtain rfl | hc := mem_insert.mp hc
      · exact hBehind (eq_false_of_ne_true hLess) (hNumber b List.mem_cons_self)
      · exact hHead c hc

theorem numbered_foldl (hOrder : StrictWeakOn less (fun _ => True)) (rows : List α) {n : Nat} {sorted : List (α × Nat)}
    (hNumber : ∀ b ∈ sorted, b.2 < n) (h : sorted.Pairwise (fun a b => List.zipIdxLE (atMost less) a b)) :
    ((rows.zipIdx n).foldl (fun sorted a => insert (numbered less) a sorted) sorted).Pairwise
      (fun a b => List.zipIdxLE (atMost less) a b) := by
  induction rows generalizing n sorted with
  | nil => exact h
  | cons a rows ih =>
    rw [List.zipIdx_cons, List.foldl_cons]
    refine ih (n := n + 1) (fun b hb => ?_) (numbered_insert hOrder hNumber h)
    obtain rfl | hOld := mem_insert.mp hb
    · exact Nat.lt_succ_self n
    · exact Nat.lt_succ_of_lt (hNumber b hOld)

theorem sort_eq_mergeSort (hOrder : StrictWeakOn less (fun _ => True)) (rows : List α) :
    sort less rows = rows.mergeSort (atMost less) := by
  have hTrans : ∀ a b c, atMost less a b = true → atMost less b c = true → atMost less a c = true := by
    intro a b c hab hbc
    simp only [atMost, Bool.not_eq_true'] at hab hbc ⊢
    exact hOrder.not_less_trans trivial trivial trivial hbc hab
  have hTotal : ∀ a b, (atMost less a b || atMost less b a) = true := by
    intro a b
    cases hab : less b a with
    | false => simp [atMost, hab]
    | true => simp [atMost, hOrder.asymm trivial trivial hab]
  -- with ties broken by position both are sorted permutations of the same list
  have hNumbered : sort (numbered less) rows.zipIdx = rows.zipIdx.mergeSort (List.zipIdxLE (atMost less)) := by
    refine List.Perm.eq_of_pairwise ?_ (numbered_foldl hOrder rows (fun _ h => by cases h) .nil)
      (List.pairwise_mergeSort (List.zipIdxLE_trans hTrans) (List.zipIdxLE_total hTotal) _)
      ((perm_sort _).trans (List.mergeSort_perm _ _).symm)
    intro a b ha hb hab hba
    have hSame : a.2 = b.2 := by
      simp only [List.zipIdxLE, Bool.if_false_right, Bool.if_true_right, Bool.and_eq_true, Bool.or_eq_true,
        decide_eq_true_eq, Bool.not_eq_true'] at hab hba
      have hab' := hab.2.resolve_left (by simp [hba.1])
      have hba' := hba.2.resolve_left (by simp [hab.1])
      omega
    have ha' := (perm_sort _).mem_iff.mp ha
    have hb' := (List.mergeSort_perm _ _).mem_iff.mp hb
    obtain ⟨x, i⟩ := a
    obtain ⟨y, j⟩ := b
    obtain rfl : i = j := hSame
    rw [List.mem_zipIdx_iff_getElem?] at ha' hb'
    have hValue := ha'.symm.trans hb'
    cases hValue
    rfl
  have hMap : (sort (numbered less) rows.zipIdx).map Prod.fst = sort less rows := by
    have h : (sort (numbered less) rows.zipIdx).map Prod.fst = sort less (rows.zipIdx.map Prod.fst) := map_sort fun _ _ _ _ => rfl
    rwa [List.zipIdx_map_fst] at h
  rw [← hMap, hNumbered]
  exact List.mergeSort_zipIdx

/-- On the elements of the list it is enough that these are ordered. -/
theorem sort_eq_mergeSort_of_mem {rows : List α} (hOrder : StrictWeakOn less (fun a => a ∈ rows)) :
    sort less rows = rows.mergeSort (atMost less) := by
  let lessIn : {a // a ∈ rows} → {a // a ∈ rows} → Bool := fun a b => less a.1 b.1
  have hOrderIn : StrictWeakOn lessIn (fun _ => True) :=
    ⟨fun a _ => hOrder.irrefl a.1 a.2, fun a b c _ _ _ => hOrder.trans a.1 b.1 c.1 a.2 b.2 c.2,
     fun a b c _ _ _ => hOrder.tie_trans a.1 b.1 c.1 a.2 b.2 c.2⟩
  have hSort : (sort lessIn rows.attach).map Subtype.val = sort less rows := by
    have h : (sort lessIn rows.attach).map Subtype.val = sort less (rows.attach.map Subtype.val) := map_sort fun _ _ _ _ => rfl
    rwa [List.attach_map_subtype_val] at h
  have hMerge : (rows.attach.mergeSort (atMost lessIn)).map Subtype.val = rows.mergeSort (atMost less) := by
    have h : (rows.attach.mergeSort (atMost lessIn)).map Subtype.val = (rows.attach.map Subtype.val).mergeSort (atMost less) :=
      List.map_mergeSort fun _ _ _ _ => rfl
    rwa [List.attach_map_subtype_val] at h
  rw [← hSort, ← hMerge, sort_eq_mergeSort hOrderIn]

end Insert

end StableSort
