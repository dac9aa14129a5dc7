import Mathlib.Data.List.Nodup

/-! # Lists whose elements are known by a key

A list with pairwise different keys, searched, changed and shortened by key: the
element found splits the list, and a change by key touches only that element.
-/

namespace List

variable {α κ : Type*} [DecidableEq κ] {key : α → κ}

/-- A search finds the only one that is wanted. -/
theorem find?_eq_some_of_unique {values : List α} {wanted : α → Bool} {value : α}
    (hmem : value ∈ values) (hwanted : wanted value = true)
    (hunique : ∀ other ∈ values, wanted other = true → other = value) :
    values.find? wanted = some value := by
  obtain ⟨found, hfind⟩ := Option.isSome_iff_exists.mp
    (List.find?_isSome.mpr ⟨value, hmem, hwanted⟩ : (values.find? wanted).isSome)
  rw [hfind, hunique found (List.mem_of_find?_eq_some hfind) (List.find?_some hfind)]

/-- The element found by its key, between the others. -/
theorem find?_key_split {values : List α} (hnodup : (values.map key).Nodup) {wanted : κ}
    {value : α} (hfind : values.find? (fun value => key value = wanted) = some value) :
    key value = wanted ∧ ∃ front back, values = front ++ value :: back ∧
      ∀ other ∈ front ++ back, key other ≠ wanted := by
  obtain ⟨hkey, front, back, rfl, hfront⟩ := List.find?_eq_some_iff_append.mp hfind
  simp only [decide_eq_true_eq] at hkey
  refine ⟨hkey, front, back, rfl, fun other hother => ?_⟩
  rcases List.mem_append.mp hother with hother | hother
  · simpa using hfront other hother
  · intro heq
    have hnodup := (List.nodup_append.mp (List.map_append ▸ hnodup)).2.1
    rw [List.map_cons, List.nodup_cons] at hnodup
    exact hnodup.1 (List.mem_map.mpr ⟨other, hother, heq.trans hkey.symm⟩)

/-- A change by key of the element found. -/
theorem map_key_split (key : α → κ) {front back : List α} {value : α} {wanted : κ}
    (hkey : key value = wanted) (hother : ∀ other ∈ front ++ back, key other ≠ wanted)
    (change : α → α) :
    (front ++ value :: back).map (fun value => if key value = wanted then change value else value) =
      front ++ change value :: back := by
  have hsame : ∀ values : List α, (∀ other ∈ values, key other ≠ wanted) →
      values.map (fun value => if key value = wanted then change value else value) = values := by
    intro values hvalues
    conv_rhs => rw [← List.map_id values]
    refine List.map_congr_left fun other hmem => ?_
    rw [if_neg (hvalues other hmem), id_eq]
  rw [List.map_append, List.map_cons, if_pos hkey,
    hsame front fun other hmem => hother other (List.mem_append_left _ hmem),
    hsame back fun other hmem => hother other (List.mem_append_right _ hmem)]

/-- Removal by key of the element found. -/
theorem filter_key_split (key : α → κ) {front back : List α} {value : α} {wanted : κ}
    (hkey : key value = wanted) (hother : ∀ other ∈ front ++ back, key other ≠ wanted) :
    (front ++ value :: back).filter (fun value => key value ≠ wanted) = front ++ back := by
  have hsame : ∀ values : List α, (∀ other ∈ values, key other ≠ wanted) →
      values.filter (fun value => key value ≠ wanted) = values := by
    intro values hvalues
    refine List.filter_eq_self.mpr fun other hmem => ?_
    exact decide_eq_true (hvalues other hmem)
  rw [List.filter_append, List.filter_cons_of_neg (by simpa using hkey),
    hsame front fun other hmem => hother other (List.mem_append_left _ hmem),
    hsame back fun other hmem => hother other (List.mem_append_right _ hmem)]

end List
