import Mathlib.Data.List.Forall2

/-! # Lists that change pointwise

`List.Forall₂ related before after` says that a list was changed position by
position. What follows for single elements, and for two changes in a row.
-/

namespace List.Forall₂

variable {α β γ : Type*}

theorem exists_of_mem_right {related : α → β → Prop} {before : List α} {after : List β}
    (hforall : List.Forall₂ related before after) {next : β} (hnext : next ∈ after) :
    ∃ value ∈ before, related value next := by
  induction hforall with
  | nil => cases hnext
  | cons hhead _ ih =>
      rcases List.mem_cons.mp hnext with rfl | hnext
      · exact ⟨_, List.mem_cons_self, hhead⟩
      · obtain ⟨value, hvalue, hrelated⟩ := ih hnext
        exact ⟨value, List.mem_cons_of_mem _ hvalue, hrelated⟩

theorem exists_of_mem_left {related : α → β → Prop} {before : List α} {after : List β}
    (hforall : List.Forall₂ related before after) {value : α} (hvalue : value ∈ before) :
    ∃ next ∈ after, related value next :=
  hforall.flip.exists_of_mem_right hvalue

theorem of_getElem? {related : α → β → Prop} {before : List α} {after : List β}
    (hforall : List.Forall₂ related before after) {i : ℕ} {value : α} {next : β}
    (hvalue : before[i]? = some value) (hnext : after[i]? = some next) : related value next := by
  induction hforall generalizing i with
  | nil => cases hvalue
  | cons hhead _ ih =>
      cases i with
      | zero =>
          cases hvalue
          cases hnext
          exact hhead
      | succ i => exact ih hvalue hnext

/-- What two lists in a row become. -/
theorem exists_of_append {related : α → β → Prop} {front back : List α} {after : List β}
    (hforall : List.Forall₂ related (front ++ back) after) :
    ∃ front' back', after = front' ++ back' ∧ List.Forall₂ related front front' ∧
      List.Forall₂ related back back' := by
  induction front generalizing after with
  | nil => exact ⟨[], after, rfl, .nil, hforall⟩
  | cons value front ih =>
      obtain ⟨next, rest, hnext, hrest, rfl⟩ := List.forall₂_cons_left_iff.mp hforall
      obtain ⟨front', back', rfl, hfront, hback⟩ := ih hrest
      exact ⟨next :: front', back', rfl, .cons hnext hfront, hback⟩

/-- What no change alters is the same all along the list. -/
theorem map_eq_of {related : α → α → Prop} (read : α → β) {before after : List α}
    (hkeeps : ∀ value next, related value next → read next = read value)
    (hforall : List.Forall₂ related before after) : after.map read = before.map read := by
  induction hforall with
  | nil => rfl
  | cons hhead _ ih => rw [List.map_cons, List.map_cons, hkeeps _ _ hhead, ih]

/-- Two changes in a row are one, for relations that compose. -/
theorem comp_of {first : α → β → Prop} {second : β → γ → Prop} {both : α → γ → Prop}
    {before : List α} {between : List β} {after : List γ}
    (hfirst : List.Forall₂ first before between)
    (hcompose : ∀ a b c, first a b → second b c → both a c)
    (hsecond : List.Forall₂ second between after) : List.Forall₂ both before after := by
  induction hfirst generalizing after with
  | nil =>
      rw [List.forall₂_nil_left_iff.mp hsecond]
      exact .nil
  | cons hhead _ ih =>
      obtain ⟨value, rest, hnext, htail, rfl⟩ := List.forall₂_cons_left_iff.mp hsecond
      exact .cons (hcompose _ _ _ hhead hnext) (ih htail)

end List.Forall₂
