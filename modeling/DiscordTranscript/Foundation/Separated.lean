import Mathlib.Data.List.Infix
import Mathlib.Tactic.Common

/-! # Separated words

Words that do not contain a separator can be told apart again in a sequence that
joins them by it: a sequence of words, each ended by the separator, is a prefix of
another only where the words are.
-/

namespace Separated

variable {α : Type*} {separator : α}

/-- Every word, followed by the separator. -/
def terminated (separator : α) (words : List (List α)) : List α :=
  words.flatMap (· ++ [separator])

/-- The first separator ends the first word. -/
theorem append_cons_inj {word other rest tail : List α} (hword : separator ∉ word)
    (hother : separator ∉ other) (heq : word ++ separator :: rest = other ++ separator :: tail) :
    word = other ∧ rest = tail := by
  induction word generalizing other with
  | nil =>
      cases other with
      | nil => exact ⟨rfl, (List.cons.inj heq).2⟩
      | cons symbol other =>
          have hsymbol := (List.cons.inj heq).1
          exact absurd (hsymbol ▸ List.mem_cons_self) hother
  | cons symbol word ih =>
      cases other with
      | nil =>
          have hsymbol := (List.cons.inj heq).1
          exact absurd (hsymbol ▸ List.mem_cons_self) hword
      | cons first other =>
          obtain ⟨rfl, htails⟩ := List.cons.inj heq
          obtain ⟨rfl, hrest⟩ := ih (fun hmem => hword (List.mem_cons_of_mem _ hmem))
            (fun hmem => hother (List.mem_cons_of_mem _ hmem)) htails
          exact ⟨rfl, hrest⟩

/-- A beginning that is not longer begins the other one. -/
theorem exists_back_of_append_eq {front rest raw text : List α}
    (heq : front ++ rest = raw ++ text) (hle : raw.length ≤ front.length) :
    ∃ back, front = raw ++ back ∧ text = back ++ rest := by
  obtain ⟨back, rfl⟩ := List.prefix_of_prefix_length_le (List.prefix_append raw text)
    (heq ▸ List.prefix_append front rest) hle
  rw [List.append_assoc] at heq
  exact ⟨back, rfl, (List.append_cancel_left heq).symm⟩

/-- A symbol that the first part does not have stands in the second. -/
theorem append_cons_eq_append_of_notMem {front back before after : List α} {c : α}
    (heq : front ++ c :: back = before ++ after) (hc : c ∉ before) :
    ∃ front', front = before ++ front' ∧ after = front' ++ c :: back := by
  rcases List.append_eq_append_iff.mp heq with ⟨middle, rfl, hback⟩ | ⟨middle, rfl, hafter⟩
  · cases middle with
    | nil => exact ⟨[], by simp, by simpa using hback.symm⟩
    | cons d middle =>
        obtain ⟨rfl, -⟩ := List.cons.inj hback
        exact absurd (List.mem_append_right _ List.mem_cons_self) hc
  · exact ⟨middle, rfl, hafter⟩

theorem append_cons_eq_append_of_notMem_right {front back before after : List α} {c : α}
    (heq : front ++ c :: back = before ++ after) (hc : c ∉ after) :
    ∃ back', back = back' ++ after ∧ before = front ++ c :: back' := by
  rcases List.append_eq_append_iff.mp heq with ⟨middle, rfl, hback⟩ | ⟨middle, rfl, hafter⟩
  · cases middle with
    | nil =>
        rw [List.nil_append] at hback
        exact absurd (hback ▸ List.mem_cons_self) hc
    | cons d middle =>
        obtain ⟨rfl, rfl⟩ := List.cons.inj hback
        exact ⟨middle, rfl, rfl⟩
  · exact absurd (hafter ▸ List.mem_append_right _ List.mem_cons_self) hc

/-- A part without the symbol lies on one side of it. -/
theorem one_side_of_notMem {left right front part back : List α} {c : α}
    (heq : left ++ c :: right = front ++ (part ++ back)) (hc : c ∉ part) :
    (∃ back', back = back' ++ c :: right ∧ left = front ++ (part ++ back')) ∨
      ∃ front', front = left ++ c :: front' ∧ right = front' ++ (part ++ back) := by
  rcases List.append_eq_append_iff.mp heq with ⟨middle, rfl, hright⟩ | ⟨middle, rfl, hback⟩
  · cases middle with
    | nil =>
        obtain ⟨back', hnil, rfl⟩ :=
          append_cons_eq_append_of_notMem (show [] ++ c :: right = part ++ back from hright) hc
        obtain ⟨rfl, rfl⟩ := List.append_eq_nil_iff.mp hnil.symm
        exact .inl ⟨[], rfl, by simp⟩
    | cons d middle =>
        obtain ⟨rfl, hbehind⟩ := List.cons.inj hright
        exact .inr ⟨middle, rfl, hbehind⟩
  · obtain ⟨back', rfl, rfl⟩ := append_cons_eq_append_of_notMem hback.symm hc
    exact .inl ⟨back', rfl, rfl⟩

theorem prefix_of_terminated_prefix {words others : List (List α)}
    (hwords : ∀ word ∈ words, separator ∉ word) (hothers : ∀ word ∈ others, separator ∉ word)
    (hstart : terminated separator words <+: terminated separator others) : words <+: others := by
  induction words generalizing others with
  | nil => exact List.nil_prefix
  | cons word words ih =>
      obtain ⟨rest, hrest⟩ := hstart
      cases others with
      | nil => simp [terminated] at hrest
      | cons other others =>
          have heq : word ++ separator :: (terminated separator words ++ rest) =
              other ++ separator :: terminated separator others := by
            simpa [terminated] using hrest
          obtain ⟨rfl, htail⟩ := append_cons_inj (hwords word List.mem_cons_self)
            (hothers other List.mem_cons_self) heq
          refine List.cons_prefix_cons.mpr ⟨rfl, ih ?_ ?_ ⟨rest, htail⟩⟩
          · exact fun word hword => hwords word (List.mem_cons_of_mem _ hword)
          · exact fun word hword => hothers word (List.mem_cons_of_mem _ hword)

/-- Joined words are terminated but for the last separator. -/
theorem intercalate_append {words : List (List α)} (hwords : words ≠ []) :
    [separator].intercalate words ++ [separator] = terminated separator words := by
  induction words with
  | nil => exact absurd rfl hwords
  | cons word words ih =>
      cases words with
      | nil => simp [terminated]
      | cons next words =>
          rw [List.intercalate_cons_cons, List.append_assoc, ih (List.cons_ne_nil _ _)]
          simp [terminated]

/-- Joined words that begin with others and one more separator begin with these words. -/
theorem prefix_of_intercalate_prefix {words others : List (List α)}
    (hwords : ∀ word ∈ words, separator ∉ word) (hothers : ∀ word ∈ others, separator ∉ word)
    (hnonempty : words ≠ [])
    (hstart : [separator].intercalate words ++ [separator] <+: [separator].intercalate others) :
    words <+: others := by
  cases others with
  | nil =>
      rw [List.intercalate_nil, List.prefix_nil] at hstart
      simp at hstart
  | cons other others =>
      rw [intercalate_append hnonempty] at hstart
      refine prefix_of_terminated_prefix hwords hothers (hstart.trans ?_)
      rw [← intercalate_append (List.cons_ne_nil other others)]
      exact List.prefix_append _ _

/-- Words that are not empty can be read off from what joins them. -/
theorem intercalate_injective {words others : List (List α)}
    (hwords : ∀ word ∈ words, separator ∉ word ∧ word ≠ [])
    (hothers : ∀ word ∈ others, separator ∉ word ∧ word ≠ [])
    (heq : [separator].intercalate words = [separator].intercalate others) : words = others := by
  have hnil : ∀ words : List (List α), (∀ word ∈ words, separator ∉ word ∧ word ≠ []) →
      [separator].intercalate words = [] → words = [] := by
    intro words hwords hempty
    cases words with
    | nil => rfl
    | cons word rest =>
        have hword := (hwords word List.mem_cons_self).2
        cases rest with
        | nil => simp [hword] at hempty
        | cons next rest => simp [hword] at hempty
  by_cases hempty : words = []
  · rw [hempty, List.intercalate_nil] at heq
    rw [hempty, hnil others hothers heq.symm]
  · have hothersNe : others ≠ [] := by
      intro hnone
      rw [hnone, List.intercalate_nil] at heq
      exact hempty (hnil words hwords heq)
    have hterminated : terminated separator words = terminated separator others := by
      rw [← intercalate_append hempty, heq, intercalate_append hothersNe]
    have hforth : words <+: others := prefix_of_terminated_prefix
      (fun word hword => (hwords word hword).1) (fun word hword => (hothers word hword).1)
      (hterminated ▸ List.prefix_rfl)
    have hback : others <+: words := prefix_of_terminated_prefix
      (fun word hword => (hothers word hword).1) (fun word hword => (hwords word hword).1)
      (hterminated ▸ List.prefix_rfl)
    exact hforth.eq_of_length (Nat.le_antisymm hforth.length_le hback.length_le)

end Separated
