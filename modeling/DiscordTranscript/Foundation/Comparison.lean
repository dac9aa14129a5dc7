import Mathlib.Algebra.Order.Field.Rat
import Mathlib.Data.List.Pairwise
import Mathlib.Data.List.TakeWhile
import Mathlib.Tactic.Linarith

/-! # Comparison functions

A function that compares two values by the sign of a number, as `Array.prototype.sort` takes one.
Comparisons are combined: the next one decides where the first is zero. A sorted list is searched
by halving.
-/

namespace Comparison

variable {α β : Type*}

/-- The signs are those of a total preorder. -/
structure Lawful (compare : α → α → ℚ) : Prop where
  flip : ∀ a b, compare a b ≤ 0 ↔ 0 ≤ compare b a
  trans : ∀ a b c, compare a b ≤ 0 → compare b c ≤ 0 → compare a c ≤ 0

/-- `||` of two numbers. -/
def orElse (first second : ℚ) : ℚ := if first = 0 then second else first

theorem lawful_sub (value : α → ℚ) : Lawful fun a b => value a - value b where
  flip := by
    intro a b
    rw [sub_nonpos, sub_nonneg]
  trans := by
    intro a b c hab hbc
    rw [sub_nonpos] at hab hbc ⊢
    exact hab.trans hbc

theorem Lawful.comap {compare : β → β → ℚ} (hcompare : Lawful compare) (value : α → β) :
    Lawful fun a b => compare (value a) (value b) where
  flip := fun a b => hcompare.flip (value a) (value b)
  trans := fun a b c => hcompare.trans (value a) (value b) (value c)

section

variable {compare compare' : α → α → ℚ}

theorem Lawful.self (hcompare : Lawful compare) (a : α) : compare a a = 0 := by
  have hflip := hcompare.flip a a
  rcases le_total (compare a a) 0 with hle | hle
  · exact le_antisymm hle (hflip.mp hle)
  · exact le_antisymm (hflip.mpr hle) hle

theorem Lawful.zero_symm (hcompare : Lawful compare) {a b : α} (hzero : compare a b = 0) :
    compare b a = 0 :=
  le_antisymm ((hcompare.flip b a).mpr hzero.ge) ((hcompare.flip a b).mp hzero.le)

theorem Lawful.neg_iff (hcompare : Lawful compare) {a b : α} :
    compare a b < 0 ↔ 0 < compare b a := by
  rw [← not_le, ← not_le, hcompare.flip b a]

theorem Lawful.neg_trans (hcompare : Lawful compare) {a b c : α} (hab : compare a b < 0)
    (hbc : compare b c ≤ 0) : compare a c < 0 := by
  rw [← not_le]
  intro hac
  have hca := (hcompare.flip c a).mpr hac
  have hba := hcompare.trans b c a hbc hca
  have hpositive := hcompare.neg_iff.mp hab
  linarith

theorem Lawful.trans_neg (hcompare : Lawful compare) {a b c : α} (hab : compare a b ≤ 0)
    (hbc : compare b c < 0) : compare a c < 0 := by
  rw [← not_le]
  intro hac
  have hca := (hcompare.flip c a).mpr hac
  have hcb := hcompare.trans c a b hca hab
  have hpositive := hcompare.neg_iff.mp hbc
  linarith

theorem Lawful.orElse (hcompare : Lawful compare) (hnext : Lawful compare') :
    Lawful fun a b => Comparison.orElse (compare a b) (compare' a b) where
  flip := by
    intro a b
    unfold Comparison.orElse
    by_cases hzero : compare a b = 0
    · rw [if_pos hzero, if_pos (hcompare.zero_symm hzero)]
      exact hnext.flip a b
    · rw [if_neg hzero, if_neg fun hback => hzero (hcompare.zero_symm hback)]
      exact hcompare.flip a b
  trans := by
    intro a b c hab hbc
    have hfirst : ∀ x y, Comparison.orElse (compare x y) (compare' x y) ≤ 0 → compare x y ≤ 0 := by
      intro x y hle
      unfold Comparison.orElse at hle
      split at hle
      next hzero => exact hzero.le
      next => exact hle
    have hac := hcompare.trans a b c (hfirst a b hab) (hfirst b c hbc)
    unfold Comparison.orElse
    split
    next hzero =>
      -- All three are equal for the first comparison, so the second one decides.
      have hca := (hcompare.zero_symm hzero).le
      have hab' : compare a b = 0 :=
        le_antisymm (hfirst a b hab)
          ((hcompare.flip b a).mp (hcompare.trans b c a (hfirst b c hbc) hca))
      have hbc' : compare b c = 0 :=
        le_antisymm (hfirst b c hbc)
          ((hcompare.flip c b).mp (hcompare.trans c a b hca (hfirst a b hab)))
      unfold Comparison.orElse at hab hbc
      rw [if_pos hab'] at hab
      rw [if_pos hbc'] at hbc
      exact hnext.trans a b c hab hbc
    next => exact hac

theorem orElse_eq_zero {first second : ℚ} :
    Comparison.orElse first second = 0 ↔ first = 0 ∧ second = 0 := by
  unfold Comparison.orElse
  split
  next hzero => simp [hzero]
  next hne => simp [hne]

/-! ## Sorted lists -/

/-- Each value is less than those behind it. -/
def Sorted (compare : α → α → ℚ) (values : List α) : Prop :=
  values.Pairwise fun a b => compare a b < 0

/-- Two sorted lists of the same values are equal. -/
theorem Sorted.eq_of_perm (hcompare : Lawful compare) {left right : List α}
    (hleft : Sorted compare left) (hright : Sorted compare right) (hperm : left.Perm right) :
    left = right := by
  apply hperm.eq_of_pairwise _ hleft hright
  intro a b _ _ hab hba
  have hpositive := hcompare.neg_iff.mp hab
  linarith

/-- A stable sort sorts values that differ. -/
theorem sorted_mergeSort (hcompare : Lawful compare) {values : List α}
    (hdiffer : values.Pairwise fun a b => compare a b ≠ 0) :
    Sorted compare (values.mergeSort fun a b => compare a b ≤ 0) := by
  have hsorted : (values.mergeSort fun a b => compare a b ≤ 0).Pairwise
      fun a b => decide (compare a b ≤ 0) = true := by
    apply List.pairwise_mergeSort
    · intro a b c hab hbc
      simp only [decide_eq_true_eq] at hab hbc ⊢
      exact hcompare.trans a b c hab hbc
    · intro a b
      simp only [Bool.or_eq_true, decide_eq_true_eq]
      rcases le_total (compare a b) 0 with hle | hle
      · exact .inl hle
      · exact .inr ((hcompare.flip b a).mpr hle)
  have hdiffer : (values.mergeSort fun a b => compare a b ≤ 0).Pairwise
      fun a b => compare a b ≠ 0 := by
    apply (List.mergeSort_perm values _).symm.pairwise hdiffer
    intro a b hab hba
    exact hab (hcompare.zero_symm hba)
  apply (hsorted.and hdiffer).imp
  rintro a b ⟨hle, hne⟩
  exact lt_of_le_of_ne (of_decide_eq_true hle) hne

/-- Where a value belongs in a sorted list. -/
theorem Sorted.split (hcompare : Lawful compare) {values : List α} (hsorted : Sorted compare values)
    (target : α) : ∃ front back, values = front ++ back ∧
      (∀ value ∈ front, compare value target < 0) ∧ ∀ value ∈ back, 0 ≤ compare value target := by
  induction values with
  | nil => exact ⟨[], [], rfl, by simp, by simp⟩
  | cons value values ih =>
      obtain ⟨hfirst, hrest⟩ := List.pairwise_cons.mp hsorted
      by_cases hbefore : compare value target < 0
      · obtain ⟨front, back, rfl, hfront, hback⟩ := ih hrest
        refine ⟨value :: front, back, rfl, ?_, hback⟩
        intro other hother
        rcases List.mem_cons.mp hother with rfl | hother
        · exact hbefore
        · exact hfront other hother
      · refine ⟨[], value :: values, rfl, by simp, ?_⟩
        rw [not_lt] at hbefore
        intro other hother
        rcases List.mem_cons.mp hother with rfl | hother
        · exact hbefore
        · rw [← not_lt]
          intro hless
          exact absurd (hcompare.neg_trans (hfirst other hother) hless.le) (not_lt.mpr hbefore)

theorem Sorted.insert {front back : List α} {target : α} (hcompare : Lawful compare)
    (hsorted : Sorted compare (front ++ back))
    (hfront : ∀ value ∈ front, compare value target < 0)
    (hback : ∀ value ∈ back, 0 < compare value target) :
    Sorted compare (front ++ target :: back) := by
  unfold Sorted at hsorted ⊢
  rw [List.pairwise_append] at hsorted ⊢
  obtain ⟨hleft, hright, hboth⟩ := hsorted
  refine ⟨hleft, List.pairwise_cons.mpr ⟨?_, hright⟩, ?_⟩
  · intro value hvalue
    exact hcompare.neg_iff.mpr (hback value hvalue)
  · intro value hvalue other hother
    rcases List.mem_cons.mp hother with rfl | hother
    · exact hfront value hvalue
    · exact hboth value hvalue other hother

theorem Sorted.erase {front back : List α} {value : α}
    (hsorted : Sorted compare (front ++ value :: back)) : Sorted compare (front ++ back) :=
  hsorted.sublist (List.Sublist.append_left (List.sublist_cons_self value back) front)

end

/-! ## Search by halving -/

/-- The loop of a binary search between two positions. -/
def searchFrom (before : α → Bool) (values : List α) (low high : ℕ) : ℕ :=
  if low < high then
    let middle := low + (high - low) / 2
    if values[middle]?.any before then searchFrom before values (middle + 1) high
    else searchFrom before values low middle
  else low
termination_by high - low

/-- The search ends where the values that come before end. -/
theorem searchFrom_eq {before : α → Bool} {front back : List α}
    (hfront : ∀ value ∈ front, before value = true)
    (hback : ∀ value ∈ back, before value = false) (low high : ℕ) (hlow : low ≤ front.length)
    (hhigh : front.length ≤ high) :
    searchFrom before (front ++ back) low high = front.length := by
  fun_induction searchFrom before (front ++ back) low high with
  | case1 low high hless middle hbefore ih =>
      apply ih _ hhigh
      by_contra hbeyond
      have hnone : (front ++ back)[middle]?.any before = false := by
        rw [List.getElem?_append_right (by omega), Option.any_eq_false]
        intro value hvalue
        exact hback value (List.mem_of_getElem? hvalue)
      rw [hnone] at hbefore
      cases hbefore
  | case2 low high hless middle hafter ih =>
      apply ih hlow
      by_contra hwithin
      apply hafter
      rw [List.getElem?_append_left (by omega), List.getElem?_eq_getElem (by omega),
        Option.any_some]
      exact hfront _ (List.getElem_mem _)
  | case3 low high hdone => omega

end Comparison
