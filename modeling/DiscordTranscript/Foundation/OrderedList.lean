import Mathlib.Data.List.Sort

/-! # Sorted lists and extremes

A stable sort by a key, and the least and greatest values of a list that is
extended, permuted or already in order.
-/

namespace List

variable {α β : Type*}

theorem pairwise_insertionSort_key [LinearOrder β] (key : α → β)
    [DecidableRel fun left right : α => key left ≤ key right] (values : List α) :
    (values.insertionSort fun left right => key left ≤ key right).Pairwise
      fun left right => key left ≤ key right := by
  have htotal : Std.Total fun left right : α => key left ≤ key right :=
    ⟨fun left right => le_total (key left) (key right)⟩
  have htrans : IsTrans α fun left right => key left ≤ key right := ⟨fun _ _ _ => le_trans⟩
  exact List.pairwise_insertionSort _ _

theorem filter_orderedInsert_key [LinearOrder β] (key : α → β)
    [DecidableRel fun left right : α => key left ≤ key right] (value : α) (values : List α)
    (k : β) :
    (values.orderedInsert (fun left right => key left ≤ key right) value).filter (key · = k) =
      (value :: values).filter (key · = k) := by
  induction values with
  | nil => rfl
  | cons first rest ih =>
      by_cases hle : key value ≤ key first
      · rw [List.orderedInsert_cons_of_le _ rest hle]
      · rw [List.orderedInsert_of_not_le _ rest hle]
        by_cases hfirst : key first = k
        · have hvalue : ¬ key value = k := fun heq => hle (heq.trans hfirst.symm).le
          simp only [List.filter_cons, hfirst, hvalue, decide_true, decide_false, if_true] at ih ⊢
          simp [ih]
        · simp only [List.filter_cons, hfirst, decide_false] at ih ⊢
          simpa using ih

/-- The sort is stable: values of one key keep their order. -/
theorem filter_insertionSort_key [LinearOrder β] (key : α → β)
    [DecidableRel fun left right : α => key left ≤ key right] (values : List α) (k : β) :
    (values.insertionSort fun left right => key left ≤ key right).filter (key · = k) =
      values.filter (key · = k) := by
  induction values with
  | nil => rfl
  | cons value rest ih =>
      rw [List.insertionSort_cons, filter_orderedInsert_key, List.filter_cons, ih,
        List.filter_cons]

theorem filter_orderedInsert [LinearOrder β] (key : α → β)
    [DecidableRel fun left right : α => key left ≤ key right] (keep : α → Bool) (value : α)
    {values : List α} (hsorted : values.Pairwise fun left right => key left ≤ key right) :
    (values.orderedInsert (fun left right => key left ≤ key right) value).filter keep =
      if keep value then
        (values.filter keep).orderedInsert (fun left right => key left ≤ key right) value
      else values.filter keep := by
  induction values with
  | nil => cases hvalue : keep value <;> simp [hvalue]
  | cons first rest ih =>
      rw [List.pairwise_cons] at hsorted
      by_cases hle : key value ≤ key first
      · -- Whatever is left of the list comes after the new value too.
        have hafter : ((first :: rest).filter keep).orderedInsert
            (fun left right => key left ≤ key right) value =
              value :: (first :: rest).filter keep := by
          cases hkept : (first :: rest).filter keep with
          | nil => rfl
          | cons next others =>
              apply List.orderedInsert_cons_of_le
              have hnext : next ∈ (first :: rest).filter keep := by
                rw [hkept]
                exact List.mem_cons_self
              rcases List.mem_cons.mp (List.mem_of_mem_filter hnext) with rfl | hrest
              · exact hle
              · exact hle.trans (hsorted.1 next hrest)
        rw [List.orderedInsert_cons_of_le _ rest hle, List.filter_cons, hafter]
      · rw [List.orderedInsert_of_not_le _ rest hle, List.filter_cons, ih hsorted.2,
          List.filter_cons]
        cases hfirst : keep first <;> cases hvalue : keep value <;>
          simp [hle]

/-- Sorting and leaving out commute. -/
theorem filter_insertionSort [LinearOrder β] (key : α → β)
    [DecidableRel fun left right : α => key left ≤ key right] (keep : α → Bool)
    (values : List α) :
    (values.insertionSort fun left right => key left ≤ key right).filter keep =
      (values.filter keep).insertionSort fun left right => key left ≤ key right := by
  induction values with
  | nil => rfl
  | cons value rest ih =>
      rw [List.insertionSort_cons,
        filter_orderedInsert key keep value (pairwise_insertionSort_key key rest), ih,
        List.filter_cons]
      cases keep value <;> simp

/-- In key order the least key is the first. -/
theorem min?_map_of_pairwise {values : List α} (key : α → ℕ)
    (hsorted : values.Pairwise fun left right => key left ≤ key right) :
    (values.map key).min? = values.head?.map key := by
  rw [List.min?_eq_head?, List.head?_map]
  rw [List.pairwise_map]
  exact hsorted.imp fun hle => Nat.min_eq_left hle

theorem min?_concat (values : List ℕ) (value : ℕ) :
    (values ++ [value]).min? = some (values.min?.elim value (min · value)) := by
  cases values with
  | nil => rfl
  | cons first rest => simp only [List.cons_append, List.min?_cons', List.foldl_append]; rfl

theorem max?_concat (values : List ℕ) (value : ℕ) :
    (values ++ [value]).max? = some (values.max?.elim value (max · value)) := by
  cases values with
  | nil => rfl
  | cons first rest => simp only [List.cons_append, List.max?_cons', List.foldl_append]; rfl

theorem min?_perm {left right : List ℕ} (hperm : left.Perm right) : left.min? = right.min? := by
  cases hmin : right.min? with
  | none =>
      rw [List.min?_eq_none_iff] at hmin ⊢
      subst hmin
      exact hperm.eq_nil
  | some least =>
      rw [List.min?_eq_some_iff] at hmin ⊢
      exact ⟨hperm.mem_iff.mpr hmin.1, fun value hvalue => hmin.2 value (hperm.mem_iff.mp hvalue)⟩

/-- The greatest value, or zero when there is none. -/
theorem max?_getD_le_iff {values : List ℕ} {bound : ℕ} :
    values.max?.getD 0 ≤ bound ↔ ∀ value ∈ values, value ≤ bound := by
  cases hmax : values.max? with
  | none => simp [List.max?_eq_none_iff.mp hmax]
  | some top => exact List.max?_le_iff hmax

end List
