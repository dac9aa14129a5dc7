import DiscordTranscript.Application.TranscriptCorrection

/-! # The prompt of a request

The text before the transcript mentions the markers and does not contain them, so that the
transcript is found in the prompt that was built for it and in the prompt of every request.
-/

namespace DiscordTranscript.Application

open Text

/-! ## The text before the transcript -/

/-- Nowhere in the text does a line end as the marker does. -/
structure Unmarked (text : List Char) : Prop where
  inside : ¬ ['T', '\n'] <:+: text
  last : text.getLast? ≠ some 'T'

theorem Unmarked.append {front back : List Char} (hfront : Unmarked front)
    (hback : Unmarked back) : Unmarked (front ++ back) := by
  constructor
  · intro hpair
    rcases List.infix_append_iff_ne_nil.mp hpair with
      hpair | hpair | ⟨left, right, hleft, hright, hpair, ⟨rest, hrest⟩, -⟩
    · exact hfront.inside hpair
    · exact hback.inside hpair
    · -- The pair lies on the seam.
      rcases left with _ | ⟨c, _ | ⟨d, left⟩⟩
      · exact hleft rfl
      · obtain ⟨rfl, -⟩ := List.cons.inj hpair
        apply hfront.last
        rw [← hrest, List.getLast?_concat]
      · have hlength := congrArg List.length hpair
        simp only [List.length_cons, List.length_append, List.length_nil] at hlength
        exact hright (List.length_eq_zero_iff.mp (by omega))
  · intro hlast
    rw [List.getLast?_append] at hlast
    cases hend : back.getLast? with
    | none =>
        rw [hend] at hlast
        exact hfront.last hlast
    | some c =>
        rw [hend] at hlast
        cases hlast
        exact hback.last hend

theorem unmarked_nil : Unmarked [] := ⟨by decide, by decide⟩

theorem unmarked_join {separator : List Char} (hseparator : Unmarked separator)
    {words : List (List Char)} (hwords : ∀ word ∈ words, Unmarked word) :
    Unmarked (join separator words) := by
  induction words with
  | nil => exact unmarked_nil
  | cons word words ih =>
      have hword := hwords word List.mem_cons_self
      cases words with
      | nil => simpa [join] using hword
      | cons next rest =>
          have hrest := ih fun other hother => hwords other (List.mem_cons_of_mem _ hother)
          simp only [join] at hrest ⊢
          rw [List.intercalate_cons_cons]
          exact (hword.append hseparator).append hrest

theorem unmarked_promptIntroduction : Unmarked promptIntroduction := by
  unfold promptIntroduction
  repeat rw [String.toList_ofList]
  exact ⟨by decide +kernel, by decide +kernel⟩

theorem unmarked_promptTask : Unmarked promptTask := by
  unfold promptTask
  repeat rw [String.toList_ofList]
  exact ⟨by decide +kernel, by decide +kernel⟩

theorem unmarked_promptRules : Unmarked promptRules := by
  unfold promptRules
  repeat rw [String.toList_ofList]
  exact ⟨by decide +kernel, by decide +kernel⟩

theorem unmarked_languageRules (language : Option String) : Unmarked (languageRules language) := by
  unfold languageRules
  split
  · repeat rw [String.toList_ofList]
    exact ⟨by decide +kernel, by decide +kernel⟩
  · repeat rw [String.toList_ofList]
    exact ⟨by decide +kernel, by decide +kernel⟩

theorem unmarked_includedContext (context : SummaryContextManifest) :
    ∀ word ∈ includedContext context, Unmarked word := by
  have hoptional : ∀ (path : String) (text : List Char), Unmarked text →
      ∀ word ∈ (if path = "" then [] else [text]), Unmarked word := by
    intro path text htext word hword
    split at hword
    · cases hword
    · rw [List.mem_singleton.mp hword]
      exact htext
  intro word hword
  rcases List.mem_append.mp hword with hword | hword
  · rcases List.mem_append.mp hword with hword | hword
    · rcases List.mem_append.mp hword with hword | hword
      · simp only [List.mem_cons, List.not_mem_nil, or_false] at hword
        rcases hword with rfl | rfl
        · exact ⟨by decide +kernel, by decide +kernel⟩
        · exact ⟨by decide +kernel, by decide +kernel⟩
      · exact hoptional _ _ ⟨by decide +kernel, by decide +kernel⟩ word hword
    · exact hoptional _ _ ⟨by decide +kernel, by decide +kernel⟩ word hword
  · exact hoptional _ _ ⟨by decide +kernel, by decide +kernel⟩ word hword

theorem unmarked_contextInstructions (context : SummaryContextManifest) :
    Unmarked (correctionContextPriorityInstructions context) := by
  unfold correctionContextPriorityInstructions
  apply Unmarked.append
  · apply Unmarked.append ⟨by decide +kernel, by decide +kernel⟩
    exact unmarked_join ⟨by decide, by decide⟩ (unmarked_includedContext context)
  · repeat rw [String.toList_ofList]
    exact ⟨by decide +kernel, by decide +kernel⟩

theorem unmarked_promptHead (language : Option String) (context : Option SummaryContextManifest) :
    Unmarked (promptHead language context) := by
  apply Unmarked.append
  · apply unmarked_promptIntroduction.append
    cases context with
    | none => exact unmarked_nil
    | some context => exact unmarked_contextInstructions context
  · exact (unmarked_promptTask.append (unmarked_languageRules language)).append
      unmarked_promptRules

theorem splitOnce_startMarker {head : List Char} (hhead : Unmarked head) (rest : List Char) :
    splitOnce startMarker (head ++ (startMarker ++ rest)) = some (head, rest) := by
  have hmarker : startMarker = "BEGIN_UNTRUSTED_TRANSCRIP".toList ++ ['T', '\n'] := by
    decide +kernel
  rw [hmarker]
  exact splitOnce_of_not_infix (by decide +kernel) hhead.inside rest

/-! ## The text behind the transcript -/

theorem endMarker_eq : endMarker = '\n' :: 'E' :: "ND_UNTRUSTED_TRANSCRIPT".toList := by
  decide +kernel

/-- Line endings before the marker are not part of it. -/
theorem splitOnce_endMarker_endings {endings : List Char}
    (hendings : ∀ c ∈ endings, isLineEnding c = true) :
    splitOnce endMarker (endings ++ endMarker) = some (endings, []) := by
  rw [endMarker_eq]
  generalize "ND_UNTRUSTED_TRANSCRIPT".toList = marker
  induction endings with
  | nil =>
      have hself := splitOnce_self '\n' ('E' :: marker) []
      simpa using hself
  | cons c endings ih =>
      have hrest := ih fun d hd => hendings d (List.mem_cons_of_mem _ hd)
      have hnot : ('\n' :: 'E' :: marker).isPrefixOf
          (c :: (endings ++ '\n' :: 'E' :: marker)) = false := by
        cases endings with
        | nil => simp [List.isPrefixOf]
        | cons d endings =>
            have hd : 'E' ≠ d := by
              rintro rfl
              have hending := hendings 'E' (by simp)
              cases hending
            simp [List.isPrefixOf, hd]
      rw [List.cons_append, splitOnce, hnot, hrest]
      rfl

/-- A request for the transcript that the prompt was built for. -/
theorem replacePromptTranscript_built {text endings : List Char} (htext : Unterminated text)
    (hendings : ∀ c ∈ endings, isLineEnding c = true) {head : List Char} (hhead : Unmarked head)
    (replacement : List Char) :
    replacePromptTranscript (head ++ (startMarker ++ (text ++ endings ++ endMarker)))
        (text ++ endings) replacement =
      .ok (head ++ (startMarker ++ (replacement ++ endMarker))) := by
  have htrim := trimLineEndings_append htext hendings
  have hbytes : splitAtByte (utf8Len text) (text ++ endings ++ endMarker) =
      some (text, endings ++ endMarker) := by
    rw [List.append_assoc]
    exact splitAtByte_append text _
  unfold replacePromptTranscript
  rw [contains_append, splitOnce_startMarker hhead, htrim]
  simp only [Bool.not_true, Bool.false_and, Bool.false_eq_true, if_false, hbytes,
    splitOnce_endMarker_endings hendings, htrim, List.append_nil]
  have hall : endings.all isLineEnding = true := List.all_eq_true.mpr hendings
  simp [hall]

end DiscordTranscript.Application
