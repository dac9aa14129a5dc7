import DiscordTranscript.Domain.TranscriptText
import DiscordTranscript.Foundation.TextSearch
import Mathlib.Data.List.Chain

/-! # Titles of meetings

The title that `application/worker.rs` takes from a summary and the heading it puts before a summary
that is posted. A heading is normalized when the title is derived from it, and the title is
normalized again when the post is built.
-/

namespace DiscordTranscript.Application

open Domain Text

def meetingTitleMaxChars : ℕ := 80

/-! ## Normalization -/

/-- The characters that emphasize or quote a title. -/
def isTitleMark (c : Char) : Bool := c = '*' || c = '_' || c = '`' || c = '"' || c = '\''

/-- `str::trim_matches`. -/
def trimMatches (accepts : Char → Bool) (text : List Char) : List Char :=
  (text.dropWhile accepts).rdropWhile accepts

/-- `char::is_control`. -/
def isControl (c : Char) : Bool := c.toNat < 0x20 || (0x7F ≤ c.toNat && c.toNat < 0xA0)

def collapsed (value : List Char) : List Char := join [' '] (splitWhitespace value)

def sanitizeMeetingTitle (value : Option (List Char)) : Option (List Char) := do
  let normalized := trim (trimMatches isTitleMark (collapsed (← value)))
  if normalized.isEmpty || normalized.any isControl ||
      normalized.length > meetingTitleMaxChars then none
  else some normalized

/-! ## The heading of a summary -/

def stripAtxClosingSequence (heading : List Char) : List Char :=
  let trimmed := heading.rdropWhile isWhitespace
  if !trimmed.isEmpty && trimmed.all (· = '#') then []
  else
    let content := trimmed.rdropWhile (· = '#')
    if content.length = trimmed.length then trimmed
    else if content.getLast? = some ' ' || content.getLast? = some '\t' then
      content.rdropWhile isWhitespace
    else trimmed

/-- `str::strip_prefix` of a character. -/
def stripFirst (c : Char) : List Char → Option (List Char)
  | d :: rest => if d = c then some rest else none
  | [] => none

def isBlank (line : List Char) : Bool := (trim line).isEmpty

def leadingH1Content (markdown : List Char) : Option (List Char) := do
  let line ← (lines markdown).find? fun line => !isBlank line
  let indentation := (line.takeWhile (· = ' ')).length
  if indentation > 3 then none
  else
    let afterMarker ← stripFirst '#' (line.drop indentation)
    let heading ← (stripFirst ' ' afterMarker).or (stripFirst '\t' afterMarker)
    let heading := trim (stripAtxClosingSequence heading)
    if heading.isEmpty then none else some heading

def normalizedLeadingH1 (markdown : List Char) : Option (List Char) :=
  sanitizeMeetingTitle (leadingH1Content markdown)

def matchesBuiltinSummaryHeading (title : List Char) : Bool :=
  ["summary", "decisions", "todo", "open questions"].any (·.toList = title.map Char.toLower) ||
    ["概要", "決定事項", "TODO", "未解決事項", "課題"].any (·.toList = title)

def extractTitleFromSummaryMarkdown (markdown : List Char) : Option (List Char) :=
  (normalizedLeadingH1 markdown).filter fun title => !matchesBuiltinSummaryHeading title

/-! ## The title and the post -/

def fallbackMeetingTitle (voiceChannelName : Option (List Char))
    (voiceChannelId meetingId : List Char) : List Char :=
  let channel := (sanitizeMeetingTitle voiceChannelName).getD ("VC ".toList ++ voiceChannelId)
  (sanitizeMeetingTitle (some (channel ++ " meeting".toList))).getD
    ("Meeting ".toList ++ meetingId)

def deriveMeetingTitle (existingTitle : Option (List Char)) (markdown : List Char)
    (voiceChannelName : Option (List Char)) (voiceChannelId meetingId : List Char)
    (allowGeneratedHeading : Bool) : List Char :=
  let generated :=
    if allowGeneratedHeading then extractTitleFromSummaryMarkdown markdown else none
  (generated.or (sanitizeMeetingTitle existingTitle)).getD
    (fallbackMeetingTitle voiceChannelName voiceChannelId meetingId)

/-- The length of the blank lines a text begins with. -/
def leadingBlankLength : List (List Char) → ℕ
  | [] => 0
  | line :: rest =>
      if isBlank (trimLineEndings line) then line.length + leadingBlankLength rest else 0

def trimLeadingBlankLines (markdown : List Char) : List Char :=
  markdown.drop (leadingBlankLength (splitInclusive '\n' markdown))

def markdownWithTitleForPost (title markdown : List Char) (preserveTemplateHeading : Bool) :
    List Char :=
  if preserveTemplateHeading && (leadingH1Content markdown).isSome then markdown
  else if (sanitizeMeetingTitle (some title)).any
      fun expected => normalizedLeadingH1 markdown = some expected then markdown
  else "# ".toList ++ title ++ "\n\n".toList ++ trimLeadingBlankLines markdown

/-! ## Collapsed text -/

/-- Single spaces between other characters are the only white space. -/
structure Spaced (text : List Char) : Prop where
  trimmed : Trimmed text
  spaces : ∀ c ∈ text, isWhitespace c = true → c = ' '
  single : text.IsChain fun c d => ¬(isWhitespace c = true ∧ isWhitespace d = true)

/-- A word of `split_whitespace`. -/
structure PlainWord (word : List Char) : Prop where
  nonempty : word ≠ []
  plain : ∀ c ∈ word, isWhitespace c = false

theorem plainWord_of_mem_splitWhitespace {text word : List Char}
    (hword : word ∈ splitWhitespace text) : PlainWord word := by
  unfold splitWhitespace at hword
  obtain ⟨hpiece, hne⟩ := List.mem_filter.mp hword
  constructor
  · simpa using hne
  · clear hword hne
    induction text generalizing word with
    | nil =>
        rw [List.splitOnP_nil, List.mem_singleton] at hpiece
        subst hpiece
        simp
    | cons c rest ih =>
        rw [List.splitOnP_cons_eq_if_modifyHead] at hpiece
        split at hpiece
        next =>
          rcases List.mem_cons.mp hpiece with rfl | hlater
          · simp
          · exact ih hlater
        next hc =>
          rw [Bool.not_eq_true] at hc
          obtain ⟨first, others, hpieces⟩ :=
            List.exists_cons_of_ne_nil (List.splitOnP_ne_nil isWhitespace rest)
          rw [hpieces] at hpiece ih
          rcases List.mem_cons.mp hpiece with rfl | hlater
          · intro d hd
            rcases List.mem_cons.mp hd with rfl | hd
            · exact hc
            · exact ih List.mem_cons_self d hd
          · exact ih (List.mem_cons_of_mem _ hlater)

theorem spaced_of_plainWord {word : List Char} (hword : PlainWord word) : Spaced word where
  trimmed := {
    head := fun c hc => hword.plain c (List.mem_of_mem_head? hc)
    last := fun c hc => hword.plain c (List.mem_of_mem_getLast? hc) }
  spaces := by
    intro c hc hspace
    rw [hword.plain c hc] at hspace
    cases hspace
  single := by
    rw [List.isChain_iff_forall_rel_of_append_cons_cons]
    rintro c d front back rfl ⟨hc, -⟩
    rw [hword.plain c (by simp)] at hc
    cases hc

theorem spaced_join {words : List (List Char)} (hwords : ∀ word ∈ words, PlainWord word) :
    Spaced (join [' '] words) := by
  induction words with
  | nil => exact ⟨⟨by simp [join], by simp [join]⟩, by simp [join], by simp [join]⟩
  | cons word words ih =>
      have hword := hwords word List.mem_cons_self
      have hplain := spaced_of_plainWord hword
      cases words with
      | nil => simpa [join] using hplain
      | cons next words =>
          have hrest := ih fun other hother => hwords other (List.mem_cons_of_mem _ hother)
          have hnext := (hwords next (by simp)).nonempty
          have hne : join [' '] (next :: words) ≠ [] := by
            cases words <;> simp [join, hnext]
          have hjoin : join [' '] (word :: next :: words) =
              word ++ ' ' :: join [' '] (next :: words) := by
            simp [join]
          rw [hjoin]
          refine ⟨⟨?_, ?_⟩, ?_, ?_⟩
          · intro c hc
            rw [List.head?_append_of_ne_nil _ hword.nonempty] at hc
            exact hplain.trimmed.head c hc
          · intro c hc
            rw [List.getLast?_append_of_ne_nil _ (by simp), List.getLast?_cons_of_ne_nil hne] at hc
            exact hrest.trimmed.last c hc
          · intro c hc hspace
            rcases List.mem_append.mp hc with hc | hc
            · exact hplain.spaces c hc hspace
            · rcases List.mem_cons.mp hc with rfl | hc
              · rfl
              · exact hrest.spaces c hc hspace
          · apply hplain.single.append
            · apply hrest.single.cons
              rintro c hc ⟨-, hspace⟩
              rw [hrest.trimmed.head c hc] at hspace
              cases hspace
            · rintro c hc d hd ⟨hspace, -⟩
              rw [hplain.trimmed.last c hc] at hspace
              cases hspace

theorem spaced_collapsed (value : List Char) : Spaced (collapsed value) := by
  apply spaced_join
  intro word hword
  exact plainWord_of_mem_splitWhitespace hword

theorem splitOnP_congr {accepts accepts' : Char → Bool} {text : List Char}
    (hsame : ∀ c ∈ text, accepts c = accepts' c) :
    text.splitOnP accepts = text.splitOnP accepts' := by
  induction text with
  | nil => simp
  | cons c rest ih =>
      rw [List.splitOnP_cons_eq_if_modifyHead, List.splitOnP_cons_eq_if_modifyHead,
        hsame c List.mem_cons_self, ih fun d hd => hsame d (List.mem_cons_of_mem _ hd)]

/-- A piece between two single spaces has a character. -/
theorem pieces_nonempty {text : List Char} (hne : text ≠ [])
    (hsingle : text.IsChain fun c d => ¬(isWhitespace c = true ∧ isWhitespace d = true))
    (hlast : ∀ c, text.getLast? = some c → isWhitespace c = false) :
    ∃ first others, text.splitOnP isWhitespace = first :: others ∧
      (∀ piece ∈ others, piece ≠ []) ∧
      (first = [] → ∃ c, text.head? = some c ∧ isWhitespace c = true) := by
  induction text with
  | nil => exact absurd rfl hne
  | cons c rest ih =>
      cases rest with
      | nil =>
          have hc := hlast c rfl
          exact ⟨[c], [], by simp [List.splitOnP_cons_eq_if_modifyHead, hc], by simp, by simp⟩
      | cons d rest =>
          obtain ⟨hpair, hchain⟩ := List.isChain_cons_cons.mp hsingle
          obtain ⟨first, others, hpieces, hothers, hfirst⟩ := ih (List.cons_ne_nil d rest) hchain
            (by simpa using hlast)
          rw [List.splitOnP_cons_eq_if_modifyHead, hpieces]
          by_cases hc : isWhitespace c = true
          · refine ⟨[], first :: others, by rw [if_pos hc], ?_, fun _ => ⟨c, rfl, hc⟩⟩
            intro piece hpiece hempty
            rcases List.mem_cons.mp hpiece with rfl | hpiece
            · obtain ⟨e, he, hspace⟩ := hfirst hempty
              cases he
              exact hpair ⟨hc, hspace⟩
            · exact hothers piece hpiece hempty
          · exact ⟨c :: first, others, by rw [if_neg hc]; rfl, hothers, by simp⟩

theorem collapsed_of_spaced {text : List Char} (hspaced : Spaced text) : collapsed text = text := by
  by_cases hne : text = []
  · subst hne
    rfl
  · obtain ⟨first, others, hpieces, hothers, hfirst⟩ :=
      pieces_nonempty hne hspaced.single hspaced.trimmed.last
    have hwords : splitWhitespace text = text.splitOnP isWhitespace := by
      unfold splitWhitespace
      rw [List.filter_eq_self, hpieces]
      intro piece hpiece
      have hpiece : piece ≠ [] := by
        rcases List.mem_cons.mp hpiece with rfl | hpiece
        · intro hempty
          obtain ⟨c, hc, hspace⟩ := hfirst hempty
          rw [hspaced.trimmed.head c hc] at hspace
          cases hspace
        · exact hothers piece hpiece
      simpa using hpiece
    have hsame : text.splitOnP isWhitespace = text.splitOn ' ' := by
      apply splitOnP_congr
      intro c hc
      rw [Bool.eq_iff_iff, beq_iff_eq]
      constructor
      · exact hspaced.spaces c hc
      · rintro rfl
        exact isWhitespace_space
    rw [collapsed, join, hwords, hsame]
    exact List.intercalate_splitOn ' '

/-! ## What trimming leaves -/

theorem rdropWhile_cons {accepts : Char → Bool} {c : Char} {rest : List Char} :
    (c :: rest).rdropWhile accepts =
      if (rest.rdropWhile accepts).isEmpty then (if accepts c then [] else [c])
      else c :: rest.rdropWhile accepts := by
  unfold List.rdropWhile
  rw [List.reverse_cons, List.dropWhile_append, List.isEmpty_reverse]
  split
  next => cases hc : accepts c <;> simp [List.dropWhile, hc]
  next => simp

theorem rdropWhile_dropWhile (accepts : Char → Bool) (text : List Char) :
    (text.rdropWhile accepts).dropWhile accepts = trimMatches accepts text := by
  unfold trimMatches
  induction text with
  | nil => rfl
  | cons c rest ih =>
      by_cases hc : accepts c = true
      · rw [List.dropWhile_cons_of_pos hc, ← ih, rdropWhile_cons, if_pos hc]
        split
        next hempty =>
          rw [List.isEmpty_iff.mp hempty]
        next => rw [List.dropWhile_cons_of_pos hc]
      · rw [List.dropWhile_cons_of_neg hc, rdropWhile_cons, if_neg hc]
        split
        next => exact List.dropWhile_cons_of_neg hc
        next => exact List.dropWhile_cons_of_neg hc

theorem trimMatches_reverse (accepts : Char → Bool) (text : List Char) :
    trimMatches accepts text.reverse = (trimMatches accepts text).reverse := by
  rw [← rdropWhile_dropWhile accepts text, trimMatches]
  simp [List.rdropWhile]

theorem trimMatches_infix (accepts : Char → Bool) (text : List Char) :
    ∃ front back, text = front ++ (trimMatches accepts text ++ back) := by
  obtain ⟨front, hfront⟩ := List.dropWhile_suffix (l := text) accepts
  obtain ⟨back, hback⟩ := List.rdropWhile_prefix accepts (text.dropWhile accepts)
  refine ⟨front, back, ?_⟩
  rw [trimMatches, hback, hfront]

theorem head?_rdropWhile {accepts : Char → Bool} {text : List Char}
    (hne : text.rdropWhile accepts ≠ []) : (text.rdropWhile accepts).head? = text.head? := by
  obtain ⟨back, hback⟩ := List.rdropWhile_prefix accepts text
  conv_rhs => rw [← hback]
  rw [List.head?_append_of_ne_nil _ hne]

theorem Spaced.reverse {text : List Char} (hspaced : Spaced text) : Spaced text.reverse where
  trimmed := {
    head := fun c hc => hspaced.trimmed.last c (by rwa [List.head?_reverse] at hc)
    last := fun c hc => hspaced.trimmed.head c (by rwa [List.getLast?_reverse] at hc) }
  spaces := fun c hc => hspaced.spaces c (List.mem_reverse.mp hc)
  single := by
    rw [List.isChain_reverse]
    exact hspaced.single.imp fun c d hpair hswapped => hpair hswapped.symm

/-- A trimmed part of a collapsed text is collapsed. -/
theorem spaced_of_within {front text back : List Char} (hspaced : Spaced (front ++ (text ++ back)))
    (htrimmed : Trimmed text) : Spaced text where
  trimmed := htrimmed
  spaces := fun c hc => hspaced.spaces c (by simp [hc])
  single := hspaced.single.right_of_append.left_of_append

/-- The title of a heading, before it is checked. -/
def titleOf (value : List Char) : List Char := trim (trimMatches isTitleMark (collapsed value))

theorem spaced_titleOf (value : List Char) : Spaced (titleOf value) := by
  obtain ⟨front, back, hmarks⟩ := trimMatches_infix isTitleMark (collapsed value)
  obtain ⟨front', back', hspaces⟩ :=
    trimMatches_infix isWhitespace (trimMatches isTitleMark (collapsed value))
  have hspaced := spaced_collapsed value
  rw [hmarks, hspaces] at hspaced
  apply @spaced_of_within (front ++ front') _ (back' ++ back)
  · simpa [titleOf, trim, trimMatches] using hspaced
  · exact trimmed_trim _

/-! ## When a title is normalized to itself -/

/-- Marks at the start of the text hide a further one behind a space. -/
def hidesMark (text : List Char) : Bool :=
  match text.dropWhile isTitleMark with
  | ' ' :: c :: _ => isTitleMark c
  | _ => false

theorem head?_trim_trimMatches {text : List Char} (hspaced : Spaced text)
    (hne : trim (trimMatches isTitleMark text) ≠ []) :
    (trim (trimMatches isTitleMark text)).head?.any isTitleMark = hidesMark text := by
  obtain ⟨front, hfront⟩ := List.dropWhile_suffix (l := text) isTitleMark
  have hnot := List.head?_dropWhile_not isTitleMark text
  unfold hidesMark
  unfold trimMatches at hne ⊢
  cases hdropped : text.dropWhile isTitleMark with
  | nil =>
      rw [hdropped] at hne
      exact absurd rfl hne
  | cons d rest =>
      rw [hdropped] at hne hfront hnot
      have hd : isTitleMark d = false := by simpa using hnot
      obtain ⟨back, hback⟩ := List.rdropWhile_prefix isTitleMark (d :: rest)
      cases hcore : (d :: rest).rdropWhile isTitleMark with
      | nil =>
          rw [hcore] at hne
          exact absurd rfl hne
      | cons e more =>
          rw [hcore] at hne hback
          obtain ⟨rfl, rfl⟩ := List.cons.inj hback
          by_cases hspace : isWhitespace e = true
          · obtain rfl := hspaced.spaces e (by simp [← hfront]) hspace
            cases more with
            | nil => exact absurd rfl hne
            | cons c more =>
                have hpair := hspaced.single
                rw [← hfront] at hpair
                have hc : isWhitespace c = false := by
                  have hpair := (List.isChain_cons_cons.mp hpair.right_of_append).1
                  simpa [hspace] using hpair
                have hdrop : (' ' :: c :: more).dropWhile isWhitespace = c :: more := by
                  rw [List.dropWhile_cons_of_pos hspace, List.dropWhile_cons_of_neg (by simp [hc])]
                rw [trim, hdrop] at hne ⊢
                rw [head?_rdropWhile hne]
                rfl
          · have hdrop : (e :: more).dropWhile isWhitespace = e :: more :=
              List.dropWhile_cons_of_neg hspace
            rw [trim, hdrop] at hne ⊢
            rw [head?_rdropWhile hne]
            split
            next hshape =>
              obtain ⟨rfl, -⟩ := List.cons.inj hshape
              exact absurd isWhitespace_space hspace
            next => simpa using hd

theorem dropWhile_eq_self {accepts : Char → Bool} {text : List Char}
    (hhead : text.head?.any accepts = false) : text.dropWhile accepts = text := by
  cases text with
  | nil => rfl
  | cons c rest =>
      apply List.dropWhile_cons_of_neg
      simpa using hhead

theorem head?_of_trimMatches_eq_self {accepts : Char → Bool} {text : List Char}
    (hsame : trimMatches accepts text = text) : text.head?.any accepts = false := by
  have hnot := List.head?_dropWhile_not accepts text
  obtain ⟨back, hback⟩ := List.rdropWhile_prefix accepts (text.dropWhile accepts)
  have hdropped : text.dropWhile accepts = text := by
    apply (List.dropWhile_suffix accepts).eq_of_length_le
    conv_lhs => rw [← hsame]
    exact (List.rdropWhile_prefix accepts _).length_le
  rw [hdropped] at hnot
  cases text with
  | nil => rfl
  | cons c rest => simpa using hnot

theorem trim_trimMatches_eq_self_iff {accepts : Char → Bool} {text : List Char}
    (htrimmed : Trimmed text) :
    trim (trimMatches accepts text) = text ↔
      text.head?.any accepts = false ∧ text.reverse.head?.any accepts = false := by
  constructor
  · intro hsame
    have hmatches : trimMatches accepts text = text := by
      obtain ⟨front, back, hmarks⟩ := trimMatches_infix accepts text
      obtain ⟨front', back', hspaces⟩ := trimMatches_infix isWhitespace (trimMatches accepts text)
      have hsame : trimMatches isWhitespace (trimMatches accepts text) = text := hsame
      have houter := congrArg List.length hmarks
      have hinner := congrArg List.length hspaces
      rw [hsame] at hinner
      simp only [List.length_append] at houter hinner
      obtain rfl := List.eq_nil_of_length_eq_zero (show front.length = 0 by omega)
      obtain rfl := List.eq_nil_of_length_eq_zero (show back.length = 0 by omega)
      simpa using hmarks.symm
    refine ⟨head?_of_trimMatches_eq_self hmatches, ?_⟩
    apply head?_of_trimMatches_eq_self
    rw [trimMatches_reverse, hmatches]
  · rintro ⟨hhead, hlast⟩
    have hmatches : trimMatches accepts text = text := by
      rw [trimMatches, dropWhile_eq_self hhead, List.rdropWhile, dropWhile_eq_self hlast,
        List.reverse_reverse]
    rw [hmatches, trim_of_trimmed htrimmed]

theorem sanitizeMeetingTitle_eq_some {value title : List Char} :
    sanitizeMeetingTitle (some value) = some title ↔
      titleOf value = title ∧ title ≠ [] ∧ title.any isControl = false ∧
        title.length ≤ meetingTitleMaxChars := by
  have hunfold : sanitizeMeetingTitle (some value) =
      if (titleOf value).isEmpty || (titleOf value).any isControl ||
        (titleOf value).length > meetingTitleMaxChars then none else some (titleOf value) := rfl
  rw [hunfold]
  constructor
  · intro hsome
    split at hsome
    next => cases hsome
    next hchecks =>
      cases hsome
      simpa [and_assoc] using hchecks
  · rintro ⟨rfl, hne, hcontrol, hlength⟩
    rw [if_neg]
    simp [hne, hlength, hcontrol]

/-- Normalizing again changes nothing when no mark is left at the ends. -/
theorem sanitizeMeetingTitle_again_iff {value title : List Char}
    (htitle : sanitizeMeetingTitle (some value) = some title) :
    sanitizeMeetingTitle (some title) = some title ↔
      hidesMark (collapsed value) = false ∧ hidesMark (collapsed value).reverse = false := by
  obtain ⟨rfl, hne, hcontrol, hlength⟩ := sanitizeMeetingTitle_eq_some.mp htitle
  have hspaced := spaced_titleOf value
  have hagain : sanitizeMeetingTitle (some (titleOf value)) = some (titleOf value) ↔
      trim (trimMatches isTitleMark (titleOf value)) = titleOf value := by
    rw [sanitizeMeetingTitle_eq_some, titleOf, collapsed_of_spaced hspaced]
    exact ⟨fun hchecked => hchecked.1, fun hsame => ⟨hsame, hne, hcontrol, hlength⟩⟩
  have hreverse : (titleOf value).reverse =
      trim (trimMatches isTitleMark (collapsed value).reverse) := by
    rw [trimMatches_reverse]
    exact (trimMatches_reverse isWhitespace _).symm
  have hneReverse : trim (trimMatches isTitleMark (collapsed value).reverse) ≠ [] := by
    rw [← hreverse]
    simpa using hne
  rw [hagain, trim_trimMatches_eq_self_iff hspaced.trimmed, hreverse, titleOf,
    head?_trim_trimMatches (spaced_collapsed value) hne,
    head?_trim_trimMatches (spaced_collapsed value).reverse hneReverse]

/-! ## The post of a summary with a title of its own -/

theorem trimLeadingBlankLines_of_head {rest : List Char} {c : Char}
    (hspace : isWhitespace c = false) :
    trimLeadingBlankLines (c :: rest) = c :: rest := by
  have hfeed : c ≠ '\n' := by
    rintro rfl
    exact absurd hspace (by decide)
  have hending : isLineEnding c = false := by
    unfold isLineEnding
    rw [Bool.or_eq_false_iff, decide_eq_false_iff_not, decide_eq_false_iff_not]
    refine ⟨?_, hfeed⟩
    rintro rfl
    exact absurd hspace (by decide)
  have hvisible : ∀ line, isBlank (trimLineEndings (c :: line)) = false := by
    intro line
    have hkept : trimLineEndings (c :: line) ≠ [] := by
      intro hempty
      rw [trimLineEndings, List.rdropWhile_eq_nil_iff] at hempty
      rw [hempty c List.mem_cons_self] at hending
      cases hending
    have hhead : (trimLineEndings (c :: line)).head? = some c := head?_rdropWhile hkept
    obtain ⟨more, hmore⟩ := List.head?_eq_some_iff.mp hhead
    rw [hmore, isBlank, trim, List.dropWhile_cons_of_neg (by simp [hspace]),
      List.isEmpty_eq_false_iff, Ne, List.rdropWhile_eq_nil_iff]
    intro hall
    rw [hall c List.mem_cons_self] at hspace
    cases hspace
  have hzero : leadingBlankLength (splitInclusive '\n' (c :: rest)) = 0 := by
    rw [splitInclusive, if_neg hfeed]
    split
    next => simp [leadingBlankLength, hvisible]
    next => simp [leadingBlankLength, hvisible]
  rw [trimLeadingBlankLines, hzero, List.drop_zero]

/-- A heading put before a text changes it. -/
theorem heading_ne (title markdown : List Char) :
    "# ".toList ++ title ++ "\n\n".toList ++ trimLeadingBlankLines markdown ≠ markdown := by
  intro hsame
  have hmarkdown : markdown = '#' :: ' ' :: (title ++ "\n\n".toList ++
      trimLeadingBlankLines markdown) := hsame.symm.trans (by simp)
  have hkept : trimLeadingBlankLines markdown = markdown := by
    rw [hmarkdown]
    exact trimLeadingBlankLines_of_head (by decide)
  have hlength := congrArg List.length hsame
  rw [hkept] at hlength
  simp only [List.length_append] at hlength
  have hmarker : "# ".toList.length = 2 := rfl
  omega

/-- A summary whose own heading gave the title is posted as it is if and only if neither end of the
heading, its white space collapsed, is a run of marks, a space and one more mark. -/
theorem posted_unchanged_iff (existingTitle : Option (List Char)) (markdown : List Char)
    (voiceChannelName : Option (List Char)) (voiceChannelId meetingId : List Char)
    (hextracted : (extractTitleFromSummaryMarkdown markdown).isSome = true) :
    markdownWithTitleForPost (deriveMeetingTitle existingTitle markdown voiceChannelName
        voiceChannelId meetingId true) markdown false = markdown ↔
      ∀ heading, leadingH1Content markdown = some heading →
        hidesMark (collapsed heading) = false ∧ hidesMark (collapsed heading).reverse = false := by
  obtain ⟨title, htitle⟩ := Option.isSome_iff_exists.mp hextracted
  have hderived : deriveMeetingTitle existingTitle markdown voiceChannelName voiceChannelId
      meetingId true = title := by
    simp [deriveMeetingTitle, htitle]
  have hnormalized : normalizedLeadingH1 markdown = some title :=
    (Option.filter_eq_some_iff.mp htitle).1
  obtain ⟨heading, hheading⟩ : ∃ heading, leadingH1Content markdown = some heading := by
    cases hlead : leadingH1Content markdown with
    | none =>
        rw [normalizedLeadingH1, hlead] at hnormalized
        cases hnormalized
    | some heading => exact ⟨heading, rfl⟩
  have hvalue : sanitizeMeetingTitle (some heading) = some title := by
    rw [← hheading]
    exact hnormalized
  have hposted : markdownWithTitleForPost title markdown false = markdown ↔
      sanitizeMeetingTitle (some title) = some title := by
    unfold markdownWithTitleForPost
    rw [hnormalized]
    cases hagain : sanitizeMeetingTitle (some title) with
    | none => simpa using heading_ne title markdown
    | some again =>
        by_cases hsame : title = again
        · simp [hsame]
        · have hne := heading_ne title markdown
          simpa [hsame, Ne.symm hsame] using hne
  rw [hderived, hposted, sanitizeMeetingTitle_again_iff hvalue, hheading]
  exact ⟨fun hends other hother => Option.some.inj hother ▸ hends, fun hends => hends heading rfl⟩

/-- The first normalization leaves `*x`, the second one `x`: the heading is posted twice. -/
theorem emphasized_heading_posted_twice :
    ¬∀ (existingTitle : Option (List Char)) (markdown : List Char)
      (voiceChannelName : Option (List Char)) (voiceChannelId meetingId : List Char),
      (extractTitleFromSummaryMarkdown markdown).isSome = true →
      markdownWithTitleForPost (deriveMeetingTitle existingTitle markdown voiceChannelName
        voiceChannelId meetingId true) markdown false = markdown := by
  intro hclaim
  have hposted := hclaim none "# * *x".toList none [] [] (by decide +kernel)
  revert hposted
  decide +kernel

theorem release_planning_posted_unchanged :
    (extractTitleFromSummaryMarkdown "# **Release planning** ##\n\nDone".toList).isSome = true ∧
      (markdownWithTitleForPost (deriveMeetingTitle none
          "# **Release planning** ##\n\nDone".toList none [] [] true)
        "# **Release planning** ##\n\nDone".toList false =
          "# **Release planning** ##\n\nDone".toList ↔
        ∀ heading,
          leadingH1Content "# **Release planning** ##\n\nDone".toList = some heading →
          hidesMark (collapsed heading) = false ∧
            hidesMark (collapsed heading).reverse = false) :=
  ⟨by decide +kernel, posted_unchanged_iff none _ none [] [] (by decide +kernel)⟩

end DiscordTranscript.Application
