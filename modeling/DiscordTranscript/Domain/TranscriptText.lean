import DiscordTranscript.Domain.Transcript

/-! # Cleaned text

What `clean_text` guarantees: the only white space left is single spaces between other
characters. Cleaning again changes nothing, and two cleaned texts joined by a space are
clean.
-/

namespace DiscordTranscript.Domain

open Text

/-- Neither end of the text is white space. -/
structure Trimmed (text : List Char) : Prop where
  head : ∀ c, text.head? = some c → isWhitespace c = false
  last : ∀ c, text.getLast? = some c → isWhitespace c = false

theorem trim_of_trimmed {text : List Char} (htrimmed : Trimmed text) : trim text = text := by
  unfold trim
  have hfront : text.dropWhile isWhitespace = text := by
    cases text with
    | nil => rfl
    | cons c rest =>
        apply List.dropWhile_cons_of_neg
        simpa using htrimmed.head c rfl
  rw [hfront, List.rdropWhile_eq_self_iff]
  intro hne hspace
  have hlast := htrimmed.last (text.getLast hne) (List.getLast?_eq_getLast_of_ne_nil hne)
  rw [hspace] at hlast
  cases hlast

theorem trimmed_trim (text : List Char) : Trimmed (trim text) := by
  constructor
  · intro c hc
    unfold trim at hc
    obtain ⟨tail, htail⟩ := List.rdropWhile_prefix isWhitespace (text.dropWhile isWhitespace)
    have hhead : (text.dropWhile isWhitespace).head? = some c := by
      rw [← htail, List.head?_append, hc]
      rfl
    have hnot := List.head?_dropWhile_not isWhitespace text
    rw [hhead] at hnot
    simpa using hnot
  · intro c hc
    unfold trim at hc
    have hne : (text.dropWhile isWhitespace).rdropWhile isWhitespace ≠ [] := by
      intro hnil
      rw [hnil] at hc
      cases hc
    have hlast := List.rdropWhile_last_not isWhitespace _ hne
    rw [List.getLast?_eq_getLast_of_ne_nil hne, Option.some.injEq] at hc
    rw [hc] at hlast
    simpa using hlast

/-! ## Collapsing white space -/

theorem isWhitespace_space : isWhitespace ' ' = true := by decide

theorem collapseWhitespace_idem (previousWasSpace : Bool) (text : List Char) :
    collapseWhitespace previousWasSpace (collapseWhitespace previousWasSpace text) =
      collapseWhitespace previousWasSpace text := by
  induction text generalizing previousWasSpace with
  | nil => rfl
  | cons c rest ih =>
      by_cases hspace : isWhitespace c = true
      · cases previousWasSpace with
        | true => simpa [collapseWhitespace, hspace] using ih true
        | false => simp [collapseWhitespace, hspace, isWhitespace_space, ih]
      · simp [collapseWhitespace, hspace, ih]

/-- Whether the text leaves the scan after white space. -/
def endsInSpace (previousWasSpace : Bool) (text : List Char) : Bool :=
  text.getLast?.elim previousWasSpace isWhitespace

theorem collapseWhitespace_append (previousWasSpace : Bool) (front back : List Char) :
    collapseWhitespace previousWasSpace (front ++ back) =
      collapseWhitespace previousWasSpace front ++
        collapseWhitespace (endsInSpace previousWasSpace front) back := by
  induction front generalizing previousWasSpace with
  | nil => rfl
  | cons c rest ih =>
      have hends : endsInSpace previousWasSpace (c :: rest) =
          endsInSpace (isWhitespace c) rest := by
        cases rest with
        | nil => rfl
        | cons d rest => rfl
      by_cases hspace : isWhitespace c = true
      · rw [hspace] at hends
        cases previousWasSpace with
        | true => simp [collapseWhitespace, hspace, ih, hends]
        | false => simp [collapseWhitespace, hspace, ih, hends]
      · rw [Bool.not_eq_true] at hspace
        rw [hspace] at hends
        simp [collapseWhitespace, hspace, ih, hends]

theorem head?_collapseWhitespace (previousWasSpace : Bool) {text : List Char}
    (hhead : ∀ c, text.head? = some c → isWhitespace c = false) :
    (collapseWhitespace previousWasSpace text).head? = text.head? := by
  cases text with
  | nil => rfl
  | cons c rest => simp [collapseWhitespace, hhead c rfl]

theorem getLast?_collapseWhitespace {previousWasSpace : Bool} {text : List Char}
    (hlast : ∀ c, text.getLast? = some c → isWhitespace c = false) :
    (collapseWhitespace previousWasSpace text).getLast? = text.getLast? := by
  rcases List.eq_nil_or_concat text with rfl | ⟨front, c, rfl⟩
  · rfl
  · have hc := hlast c (by simp)
    rw [List.concat_eq_append, collapseWhitespace_append]
    simp [collapseWhitespace, hc]

/-- After a character that is not white space it does not matter what came before. -/
theorem collapseWhitespace_of_head {text : List Char} (previousWasSpace : Bool)
    (hhead : ∀ c, text.head? = some c → isWhitespace c = false) :
    collapseWhitespace previousWasSpace text = collapseWhitespace false text := by
  cases text with
  | nil => rfl
  | cons c rest => simp [collapseWhitespace, hhead c rfl]

theorem eq_space_of_mem_collapseWhitespace {previousWasSpace : Bool} {text : List Char} {c : Char}
    (hc : c ∈ collapseWhitespace previousWasSpace text) (hspace : isWhitespace c = true) :
    c = ' ' := by
  induction text generalizing previousWasSpace with
  | nil => cases hc
  | cons d rest ih =>
      by_cases hd : isWhitespace d = true
      · cases previousWasSpace with
        | true =>
            simp only [collapseWhitespace, hd, if_true] at hc
            exact ih hc
        | false =>
            simp only [collapseWhitespace, hd, if_true, Bool.false_eq_true, if_false] at hc
            rcases List.mem_cons.mp hc with hc | hc
            · exact hc
            · exact ih hc
      · simp only [collapseWhitespace, hd, if_false, Bool.false_eq_true] at hc
        rcases List.mem_cons.mp hc with rfl | hc
        · exact absurd hspace hd
        · exact ih hc

/-! ## Cleaned text -/

theorem trimmed_cleanText (text : List Char) : Trimmed (cleanText text) := by
  have htrim := trimmed_trim text
  constructor
  · intro c hc
    unfold cleanText at hc
    rw [head?_collapseWhitespace false htrim.head] at hc
    exact htrim.head c hc
  · intro c hc
    unfold cleanText at hc
    rw [getLast?_collapseWhitespace htrim.last] at hc
    exact htrim.last c hc

theorem eq_space_of_mem_cleanText {text : List Char} {c : Char} (hc : c ∈ cleanText text)
    (hspace : isWhitespace c = true) : c = ' ' :=
  eq_space_of_mem_collapseWhitespace hc hspace

theorem cleanText_idem (text : List Char) : cleanText (cleanText text) = cleanText text := by
  have htrim := trim_of_trimmed (trimmed_cleanText text)
  rw [cleanText, htrim, cleanText]
  exact collapseWhitespace_idem false (trim text)

theorem cleanText_of_visible {word : List Char}
    (hword : ∀ c ∈ word, isWhitespace c = false) : cleanText word = word := by
  have htrimmed : Trimmed word :=
    ⟨fun c hc => hword c (List.mem_of_mem_head? hc),
      fun c hc => hword c (List.mem_of_getLast? hc)⟩
  have hcollapsed : ∀ (text : List Char), (∀ c ∈ text, isWhitespace c = false) →
      collapseWhitespace false text = text := by
    intro text htext
    induction text with
    | nil => rfl
    | cons c rest ih =>
        have hrest := ih fun d hd => htext d (List.mem_cons_of_mem _ hd)
        simp [collapseWhitespace, htext c List.mem_cons_self, hrest]
  rw [cleanText, trim_of_trimmed htrimmed, hcollapsed word hword]

/-- Two cleaned texts with a space between them are clean. -/
theorem cleanText_append {front back : List Char} (hfront : cleanText front = front)
    (hback : cleanText back = back) (hfrontNe : front ≠ []) (hbackNe : back ≠ []) :
    cleanText (front ++ ' ' :: back) = front ++ ' ' :: back := by
  have hfrontTrimmed : Trimmed front := hfront ▸ trimmed_cleanText front
  have hbackTrimmed : Trimmed back := hback ▸ trimmed_cleanText back
  have hboth : Trimmed (front ++ ' ' :: back) := by
    constructor
    · intro c hc
      apply hfrontTrimmed.head c
      rwa [List.head?_append_of_ne_nil _ hfrontNe] at hc
    · intro c hc
      apply hbackTrimmed.last c
      rw [List.getLast?_append_of_ne_nil _ (by simp)] at hc
      rwa [List.getLast?_cons_of_ne_nil hbackNe] at hc
  have hfrontCollapsed : collapseWhitespace false front = front := by
    rw [cleanText, trim_of_trimmed hfrontTrimmed] at hfront
    exact hfront
  have hbackCollapsed : collapseWhitespace true back = back := by
    rw [collapseWhitespace_of_head true hbackTrimmed.head]
    rw [cleanText, trim_of_trimmed hbackTrimmed] at hback
    exact hback
  have hends : endsInSpace false front = false := by
    unfold endsInSpace
    rw [List.getLast?_eq_getLast_of_ne_nil hfrontNe]
    exact hfrontTrimmed.last _ (List.getLast?_eq_getLast_of_ne_nil hfrontNe)
  rw [cleanText, trim_of_trimmed hboth, collapseWhitespace_append, hfrontCollapsed, hends]
  simp [collapseWhitespace, isWhitespace_space, hbackCollapsed]

end DiscordTranscript.Domain
