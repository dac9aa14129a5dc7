import Mathlib.Data.List.Basic

/-! # Slots

A list of parties of which one at a time goes on: the one at an index is replaced
by what is left of it, or leaves the list.
-/

namespace Slots

variable {α β : Type*}

/-- The one at the index is replaced by what is left of it. -/
def advanceAt (items : List α) (index : ℕ) (next : Option α) : List α :=
  items.take index ++ next.toList ++ items.drop (index + 1)

variable {items : List α} {index : ℕ} {item next : α}

theorem perm_cons_advanceAt (hitem : items[index]? = some item) :
    items.Perm (item :: advanceAt items index none) := by
  have hlt : index < items.length := (List.getElem?_eq_some_iff.mp hitem).1
  have hsplit : items = items.take index ++ item :: items.drop (index + 1) := by
    rw [← (List.getElem?_eq_some_iff.mp hitem).2, List.getElem_cons_drop, List.take_append_drop]
  rw [advanceAt, Option.toList_none, List.append_nil]
  nth_rewrite 1 [hsplit]
  exact List.perm_middle

theorem advanceAt_some_perm (items : List α) (index : ℕ) (next : α) :
    (advanceAt items index (some next)).Perm (next :: advanceAt items index none) := by
  rw [advanceAt, advanceAt, Option.toList_some, Option.toList_none, List.append_nil,
    List.append_assoc]
  exact List.perm_middle

/-- Whoever is there afterwards is what is left of the one at the index, or was at
another index before. -/
theorem getElem?_of_mem_advanceAt {other : α} {next : Option α}
    (hother : other ∈ advanceAt items index next) :
    (∃ place, place ≠ index ∧ items[place]? = some other) ∨ next = some other := by
  simp only [advanceAt, List.mem_append, Option.mem_toList] at hother
  rcases hother with (hother | hother) | hother
  · obtain ⟨place, hplace, hlt⟩ := List.mem_take_iff_getElem.mp hother
    refine .inl ⟨place, by omega, ?_⟩
    rw [List.getElem?_eq_some_iff]
    exact ⟨by omega, hlt⟩
  · exact .inr hother
  · obtain ⟨place, hplace⟩ := List.mem_iff_getElem?.mp hother
    rw [List.getElem?_drop] at hplace
    exact .inl ⟨index + 1 + place, by omega, hplace⟩

theorem mem_advanceAt {other : α} {next : Option α}
    (hother : other ∈ advanceAt items index next) : other ∈ items ∨ next = some other := by
  rcases getElem?_of_mem_advanceAt hother with ⟨place, -, hplace⟩ | hnext
  · exact .inl (List.mem_of_getElem? hplace)
  · exact .inr hnext

theorem advanceAt_none_sublist (items : List α) (index : ℕ) :
    (advanceAt items index none).Sublist items := by
  rw [advanceAt, Option.toList_none, List.append_nil]
  conv_rhs => rw [← List.take_append_drop index items]
  exact List.Sublist.append_left (List.drop_sublist_drop_left items (Nat.le_succ index)) _

/-- The others stay. -/
theorem mem_advanceAt_of_ne {other : α} {place : ℕ} (hne : place ≠ index)
    (hplace : items[place]? = some other) (next : Option α) :
    other ∈ advanceAt items index next := by
  obtain ⟨hlt, hget⟩ := List.getElem?_eq_some_iff.mp hplace
  simp only [advanceAt, List.mem_append]
  rcases Nat.lt_or_gt_of_ne hne with hbefore | hafter
  · refine .inl (.inl ?_)
    rw [List.mem_take_iff_getElem]
    exact ⟨place, by omega, hget⟩
  · refine .inr (List.mem_iff_getElem?.mpr ⟨place - (index + 1), ?_⟩)
    rw [List.getElem?_drop, show index + 1 + (place - (index + 1)) = place by omega]
    exact hplace

/-- What the one at the index leaves behind, then the others. -/
theorem forall_advanceAt {P : α → Prop} {next : Option α} (hitems : ∀ other ∈ items, P other)
    (hnext : ∀ other, next = some other → P other) : ∀ other ∈ advanceAt items index next, P other := by
  intro other hother
  rcases mem_advanceAt hother with hother | hother
  · exact hitems other hother
  · exact hnext other hother

end Slots
