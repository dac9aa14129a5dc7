import DiscordTranscript.Foundation.Separated

/-! # Searching words in joined words

A text search for a run of joined words inside other joined words respects the words
between the first and the last of the run, and no more: the first word of the run may end
a longer word, and the last one may begin a longer word.
-/

namespace Separated

variable {α : Type*} {separator : α}

/-- The run occurs in the words, but its first word may end a longer word and its last
one may begin a longer word. -/
def Glued (run words : List (List α)) : Prop :=
  ∃ front lead first middle last tail back, run = first :: (middle ++ [last]) ∧
    words = front ++ (lead ++ first) :: (middle ++ (last ++ tail) :: back)

/-- Whole consecutive words are glued to nothing. -/
theorem Glued.of_whole {run words : List (List α)} (hlength : 2 ≤ run.length)
    (hwithin : run <:+: words) : Glued run words := by
  obtain ⟨front, back, rfl⟩ := hwithin
  cases run with
  | nil => simp at hlength
  | cons first rest =>
      rcases List.eq_nil_or_concat rest with rfl | ⟨middle, last, rfl⟩
      · simp at hlength
      · exact ⟨front, [], first, middle, last, [], back, by simp, by simp⟩

theorem intercalate_cons {word : List α} {words : List (List α)} (hwords : words ≠ []) :
    [separator].intercalate (word :: words) =
      word ++ separator :: [separator].intercalate words := by
  cases words with
  | nil => exact absurd rfl hwords
  | cons next words => simp

/-- A run that begins some joined words is made of the first of them, and its last word
may begin a longer one. -/
theorem exists_back_of_intercalate_append {middle words : List (List α)} {last after : List α}
    (hmiddle : ∀ word ∈ middle, separator ∉ word) (hlast : separator ∉ last)
    (hwords : ∀ word ∈ words, separator ∉ word) (hnonempty : words ≠ [])
    (heq : [separator].intercalate (middle ++ [last]) ++ after = [separator].intercalate words) :
    ∃ tail back, words = middle ++ (last ++ tail) :: back := by
  induction middle generalizing words with
  | nil =>
      cases words with
      | nil => exact absurd rfl hnonempty
      | cons word words =>
          by_cases hrest : words = []
          · subst hrest
            exact ⟨after, [], by simpa using heq.symm⟩
          · rw [intercalate_cons hrest] at heq
            obtain ⟨tail, rfl, -⟩ :=
              append_cons_eq_append_of_notMem (by simpa using heq.symm) hlast
            exact ⟨tail, words, rfl⟩
  | cons first middle ih =>
      have hfirst := hmiddle first List.mem_cons_self
      rw [List.cons_append, intercalate_cons (by simp), List.append_assoc, List.cons_append]
        at heq
      cases words with
      | nil => exact absurd rfl hnonempty
      | cons word words =>
          have hword := hwords word List.mem_cons_self
          by_cases hrest : words = []
          · subst hrest
            rw [List.intercalate_singleton] at heq
            exact absurd (heq ▸ List.mem_append_right _ List.mem_cons_self) hword
          · rw [intercalate_cons hrest] at heq
            obtain ⟨rfl, htail⟩ := append_cons_inj hfirst hword heq
            obtain ⟨tail, back, rfl⟩ := ih (fun w hw => hmiddle w (List.mem_cons_of_mem _ hw))
              (fun w hw => hwords w (List.mem_cons_of_mem _ hw)) hrest htail
            exact ⟨tail, back, rfl⟩

theorem intercalate_prefix_of_back (middle back : List (List α)) (last tail : List α) :
    [separator].intercalate (middle ++ [last]) <+:
      [separator].intercalate (middle ++ (last ++ tail) :: back) := by
  induction middle with
  | nil =>
      cases back with
      | nil => simp
      | cons next back =>
          exact ⟨tail ++ separator :: [separator].intercalate (next :: back), by simp⟩
  | cons first middle ih =>
      rw [List.cons_append, List.cons_append, intercalate_cons (by simp),
        intercalate_cons (by simp)]
      obtain ⟨rest, hrest⟩ := ih
      exact ⟨rest, by rw [← hrest]; simp⟩

/-- What a search for joined words in joined words finds. -/
theorem intercalate_infix_iff {run words : List (List α)}
    (hrun : ∀ word ∈ run, separator ∉ word) (hwords : ∀ word ∈ words, separator ∉ word)
    (hlength : 2 ≤ run.length) :
    [separator].intercalate run <:+: [separator].intercalate words ↔ Glued run words := by
  constructor
  · rintro ⟨before, after, heq⟩
    cases run with
    | nil => simp at hlength
    | cons first rest =>
        rcases List.eq_nil_or_concat rest with rfl | ⟨middle, last, rfl⟩
        · simp at hlength
        · rw [List.concat_eq_append] at *
          rw [intercalate_cons (by simp), List.append_assoc, List.append_assoc, List.cons_append]
            at heq
          have hfirst := hrun first List.mem_cons_self
          have hmiddle : ∀ word ∈ middle, separator ∉ word := fun word hword =>
            hrun word (by simp [hword])
          have hlast : separator ∉ last := hrun last (by simp)
          -- Skip the words that end before the run begins.
          induction words generalizing before with
          | nil => simp at heq
          | cons word words ih =>
              have hword := hwords word List.mem_cons_self
              by_cases hnone : words = []
              · subst hnone
                rw [List.intercalate_singleton] at heq
                exact absurd (heq ▸ by simp) hword
              · rw [intercalate_cons hnone] at heq
                by_cases hbefore : separator ∈ before
                · obtain ⟨skipped, rest, rfl, hskipped⟩ := List.eq_append_cons_of_mem hbefore
                  rw [List.append_assoc, List.cons_append] at heq
                  obtain ⟨rfl, htail⟩ := append_cons_inj hskipped hword heq
                  obtain ⟨front, lead, first, middle, last, tail, back, hrun', rfl⟩ :=
                    ih (fun w hw => hwords w (List.mem_cons_of_mem _ hw)) rest htail
                  exact ⟨skipped :: front, lead, first, middle, last, tail, back, hrun', rfl⟩
                · have hglued : separator ∉ before ++ first := by simp [hbefore, hfirst]
                  rw [← List.append_assoc] at heq
                  obtain ⟨rfl, htail⟩ := append_cons_inj hglued hword heq
                  obtain ⟨tail, back, rfl⟩ := exists_back_of_intercalate_append hmiddle hlast
                    (fun w hw => hwords w (List.mem_cons_of_mem _ hw)) hnone htail
                  exact ⟨[], before, first, middle, last, tail, back, rfl, rfl⟩
  · rintro ⟨front, lead, first, middle, last, tail, back, rfl, rfl⟩
    induction front with
    | nil =>
        obtain ⟨rest, hrest⟩ :=
          @intercalate_prefix_of_back _ separator middle back last tail
        rw [List.nil_append, intercalate_cons (by simp), intercalate_cons (by simp), ← hrest]
        exact ⟨lead, rest, by simp⟩
    | cons word front ih =>
        have hrest := ih (fun w hw => hwords w (List.mem_cons_of_mem _ hw))
        rw [List.cons_append,
          intercalate_cons (List.append_ne_nil_of_right_ne_nil front (List.cons_ne_nil _ _))]
        exact hrest.trans (List.suffix_append_of_suffix (List.suffix_cons _ _)).isInfix

/-- A glued run is not longer than the words around it. -/
theorem Glued.length_flatten_le {run words : List (List α)} (hglued : Glued run words) :
    run.flatten.length ≤ words.flatten.length := by
  obtain ⟨front, lead, first, middle, last, tail, back, rfl, rfl⟩ := hglued
  simp only [List.flatten_cons, List.flatten_append, List.flatten_nil, List.append_nil,
    List.length_append]
  omega

end Separated
