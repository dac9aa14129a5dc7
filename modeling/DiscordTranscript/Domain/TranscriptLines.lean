import DiscordTranscript.Domain.TranscriptText
import DiscordTranscript.Foundation.Separated

/-! # Rendered lines

A line of the rendered transcript is made of the fields of one segment. The sanitizers leave
no line break anywhere and no bracket or colon in names, so that the fields of every line, and
the lines of the text, can be told apart again.
-/

namespace DiscordTranscript.Domain

open Text

/-- What a line shows of its segment. -/
structure LineFields where
  startMs : ℕ
  endMs : ℕ
  label : List Char
  speakerId : List Char
  source : TranscriptSource
  isNoisy : Bool
  text : List Char
  deriving DecidableEq

def lineFields (speakers : Option (List (String × SpeakerProfile))) (segment : TranscriptSegment) :
    LineFields where
  startMs := segment.startMs
  endMs := segment.endMs
  label := sanitizeTranscriptField (displayLabelForId speakers segment.speakerId).toList
  speakerId := sanitizeTranscriptField segment.speakerId.toList
  source := segment.source
  isNoisy := segment.isNoisy
  text := cleanText segment.text

namespace LineFields

def stamp (fields : LineFields) : List Char :=
  '[' :: decimal fields.startMs ++ '-' :: decimal fields.endMs ++ "] ".toList

/-- The id follows the label where it says something else. -/
def speaker (fields : LineFields) : List Char :=
  if fields.label = fields.speakerId then fields.label
  else fields.label ++ " (id:".toList ++ fields.speakerId ++ [')']

def tags (fields : LineFields) : List Char :=
  (if fields.source = .vcText then " [VC_TEXT]".toList else []) ++
    (if fields.isNoisy then " [NOISY]".toList else [])

def render (fields : LineFields) : List Char :=
  fields.stamp ++ fields.speaker ++ fields.tags ++ ": ".toList ++ fields.text

end LineFields

theorem renderLine_eq (speakers : Option (List (String × SpeakerProfile)))
    (segment : TranscriptSegment) :
    renderLine speakers segment = (lineFields speakers segment).render := by
  unfold renderLine LineFields.render LineFields.speaker LineFields.tags LineFields.stamp lineFields
  dsimp only
  split <;> simp only [List.append_assoc]

/-! ## Clean fields -/

/-- A name as the sanitizer leaves it. -/
structure PlainField (value : List Char) : Prop where
  colon : ':' ∉ value
  opening : '[' ∉ value
  closing : ']' ∉ value
  space : ∀ c ∈ value, isWhitespace c = true → c = ' '
  trimmed : Trimmed value

def sanitizeChar : Char → Char
  | ':' => ';'
  | '[' => '('
  | ']' => ')'
  | ch => ch

theorem sanitizeTranscriptField_eq (value : List Char) :
    sanitizeTranscriptField value = (cleanText value).map sanitizeChar := rfl

theorem sanitizeChar_cases (c : Char) :
    sanitizeChar c = c ∧ c ≠ ':' ∧ c ≠ '[' ∧ c ≠ ']' ∨
      sanitizeChar c = ';' ∨ sanitizeChar c = '(' ∨ sanitizeChar c = ')' := by
  unfold sanitizeChar
  split
  · exact .inr (.inl rfl)
  · exact .inr (.inr (.inl rfl))
  · exact .inr (.inr (.inr rfl))
  · rename_i hcolon hopening hclosing
    exact .inl ⟨rfl, hcolon, hopening, hclosing⟩

/-- The characters put in are not white space. -/
theorem isWhitespace_sanitizeChar (c : Char) : isWhitespace (sanitizeChar c) = isWhitespace c := by
  unfold sanitizeChar
  split <;> rfl

theorem plainField_sanitizeTranscriptField (value : List Char) :
    PlainField (sanitizeTranscriptField value) := by
  rw [sanitizeTranscriptField_eq]
  have hnot : ∀ special ∈ [':', '[', ']'], special ∉ (cleanText value).map sanitizeChar := by
    intro special hspecial hmem
    obtain ⟨c, -, hc⟩ := List.mem_map.mp hmem
    rcases sanitizeChar_cases c with ⟨hsame, hcolon, hopening, hclosing⟩ | hput | hput | hput
    · simp only [List.mem_cons, List.not_mem_nil, or_false] at hspecial
      rw [hsame] at hc
      subst hc
      rcases hspecial with hspecial | hspecial | hspecial
      · exact hcolon hspecial
      · exact hopening hspecial
      · exact hclosing hspecial
    · rw [hput] at hc
      subst hc
      simp at hspecial
    · rw [hput] at hc
      subst hc
      simp at hspecial
    · rw [hput] at hc
      subst hc
      simp at hspecial
  have htrimmed := trimmed_cleanText value
  refine ⟨hnot ':' (by simp), hnot '[' (by simp), hnot ']' (by simp), ?_, ?_, ?_⟩
  · intro c hmem hspace
    obtain ⟨raw, hraw, rfl⟩ := List.mem_map.mp hmem
    rw [isWhitespace_sanitizeChar] at hspace
    rw [eq_space_of_mem_cleanText hraw hspace]
    rfl
  · intro c hhead
    rw [List.head?_map, Option.map_eq_some_iff] at hhead
    obtain ⟨raw, hraw, rfl⟩ := hhead
    rw [isWhitespace_sanitizeChar]
    exact htrimmed.head raw hraw
  · intro c hlast
    rw [List.getLast?_map, Option.map_eq_some_iff] at hlast
    obtain ⟨raw, hraw, rfl⟩ := hlast
    rw [isWhitespace_sanitizeChar]
    exact htrimmed.last raw hraw

/-- Fields as the sanitizers leave them. -/
structure LineFields.Clean (fields : LineFields) : Prop where
  label : PlainField fields.label
  speakerId : PlainField fields.speakerId
  text : cleanText fields.text = fields.text

theorem clean_lineFields (speakers : Option (List (String × SpeakerProfile)))
    (segment : TranscriptSegment) : (lineFields speakers segment).Clean where
  label := plainField_sanitizeTranscriptField _
  speakerId := plainField_sanitizeTranscriptField _
  text := cleanText_idem segment.text

/-! ## Time stamps -/

theorem isDigit_of_mem_decimal {value : ℕ} {c : Char} (hc : c ∈ decimal value) :
    c.isDigit = true := by
  have hdigits : c ∈ Nat.toDigits 10 value := by simpa [decimal] using hc
  exact Nat.isDigit_of_mem_toDigits (by decide) (by decide) hdigits

theorem decimal_ne_nil (value : ℕ) : decimal value ≠ [] := by
  simp [decimal]

theorem decimal_injective {left right : ℕ} (heq : decimal left = decimal right) : left = right := by
  have hdigits : Nat.toDigits 10 left = Nat.toDigits 10 right := by simpa [decimal] using heq
  rw [← Nat.ofDigitChars_ten_toDigits (n := left), hdigits, Nat.ofDigitChars_ten_toDigits]

/-- A character that is no digit is not in a number. -/
theorem notMem_decimal {c : Char} (hc : c.isDigit = false) (value : ℕ) : c ∉ decimal value := by
  intro hmem
  rw [isDigit_of_mem_decimal hmem] at hc
  cases hc

namespace LineFields

variable {left right : LineFields}

theorem stamp_inj {leftRest rightRest : List Char}
    (heq : left.stamp ++ leftRest = right.stamp ++ rightRest) :
    left.startMs = right.startMs ∧ left.endMs = right.endMs ∧ leftRest = rightRest := by
  have hcons : decimal left.startMs ++ '-' :: (decimal left.endMs ++ ']' :: ' ' :: leftRest) =
      decimal right.startMs ++ '-' :: (decimal right.endMs ++ ']' :: ' ' :: rightRest) := by
    simpa [stamp] using heq
  obtain ⟨hstart, hafter⟩ := Separated.append_cons_inj (notMem_decimal (by decide) _)
    (notMem_decimal (by decide) _) hcons
  obtain ⟨hend, hrest⟩ := Separated.append_cons_inj (notMem_decimal (by decide) _)
    (notMem_decimal (by decide) _) hafter
  exact ⟨decimal_injective hstart, decimal_injective hend, by simpa using hrest⟩

/-! ## Tags -/

theorem tags_eq_nil_or (fields : LineFields) :
    fields.tags = [] ∨ ∃ rest, fields.tags = ' ' :: '[' :: rest := by
  unfold tags
  cases fields.source <;> cases fields.isNoisy <;> simp

theorem tags_injective (heq : left.tags = right.tags) :
    left.source = right.source ∧ left.isNoisy = right.isNoisy := by
  unfold tags at heq
  cases hleft : left.source <;> cases hright : right.source <;>
    cases hleftNoisy : left.isNoisy <;> cases hrightNoisy : right.isNoisy <;>
    simp_all

/-- The first opening bracket after a name begins its tags. -/
theorem tags_inj {leftName rightName : List Char} (hleft : '[' ∉ leftName)
    (hright : '[' ∉ rightName) (heq : leftName ++ left.tags = rightName ++ right.tags) :
    leftName = rightName ∧ left.source = right.source ∧ left.isNoisy = right.isNoisy := by
  rcases left.tags_eq_nil_or with hnone | ⟨rest, hrest⟩
  · rcases right.tags_eq_nil_or with hnone' | ⟨rest', hrest'⟩
    · refine ⟨?_, tags_injective (hnone.trans hnone'.symm)⟩
      simpa [hnone, hnone'] using heq
    · rw [hnone, List.append_nil, hrest'] at heq
      simp [heq] at hleft
  · rcases right.tags_eq_nil_or with hnone' | ⟨rest', hrest'⟩
    · rw [hnone', List.append_nil, hrest] at heq
      simp [← heq] at hright
    · have hcons : (leftName ++ [' ']) ++ '[' :: rest = (rightName ++ [' ']) ++ '[' :: rest' := by
        simpa [hrest, hrest'] using heq
      obtain ⟨hname, htail⟩ := Separated.append_cons_inj (by simpa using hleft)
        (by simpa using hright) hcons
      refine ⟨List.append_cancel_right hname, tags_injective ?_⟩
      rw [hrest, hrest', htail]

theorem colon_notMem_tags (fields : LineFields) : ':' ∉ fields.tags := by
  unfold tags
  cases fields.source <;> cases fields.isNoisy <;> simp

/-! ## The line -/

/-- A line without id: the first colon ends the names. -/
theorem render_eq_of_same {fields : LineFields} (hsame : fields.label = fields.speakerId) :
    fields.render =
      fields.stamp ++ ((fields.label ++ fields.tags) ++ ':' :: ' ' :: fields.text) := by
  simp [render, speaker, hsame]

/-- A line with an id: the first colon stands before the id, the second ends the names. -/
theorem render_eq_of_ne {fields : LineFields} (hne : fields.label ≠ fields.speakerId) :
    fields.render =
      fields.stamp ++ ((fields.label ++ " (id".toList) ++ ':' ::
        (((fields.speakerId ++ [')']) ++ fields.tags) ++ ':' :: ' ' :: fields.text)) := by
  simp [render, speaker, hne]

/-- No id begins with a space. -/
theorem Clean.not_space_after_colon {fields : LineFields} (hclean : fields.Clean)
    (rest text : List Char) : ' ' :: text ≠ ((fields.speakerId ++ [')']) ++ fields.tags) ++ rest := by
  intro heq
  cases hid : fields.speakerId with
  | nil => simp [hid] at heq
  | cons c id =>
      have hspace := hclean.speakerId.trimmed.head c (by simp [hid])
      simp only [hid, List.cons_append, List.cons.injEq] at heq
      rw [← heq.1] at hspace
      cases hspace

theorem render_injective (hleft : left.Clean) (hright : right.Clean)
    (heq : left.render = right.render) : left = right := by
  have hnames : ∀ fields : LineFields, fields.Clean → ':' ∉ fields.label ++ fields.tags ∧
      ':' ∉ fields.label ++ " (id".toList ∧
      ':' ∉ (fields.speakerId ++ [')']) ++ fields.tags := by
    intro fields hclean
    have htags := fields.colon_notMem_tags
    have hlabel := hclean.label.colon
    have hid := hclean.speakerId.colon
    simp [hlabel, hid, htags]
  by_cases hsame : left.label = left.speakerId
  · rw [render_eq_of_same hsame] at heq
    by_cases hsame' : right.label = right.speakerId
    · rw [render_eq_of_same hsame'] at heq
      obtain ⟨hstart, hend, hrest⟩ := stamp_inj heq
      obtain ⟨hname, htext⟩ := Separated.append_cons_inj (hnames left hleft).1
        (hnames right hright).1 hrest
      obtain ⟨hlabel, hsource, hnoisy⟩ := tags_inj hleft.label.opening hright.label.opening hname
      have hid := (hsame.symm.trans hlabel).trans hsame'
      cases left
      cases right
      simp_all
    · rw [render_eq_of_ne hsame'] at heq
      obtain ⟨-, -, hrest⟩ := stamp_inj heq
      obtain ⟨-, htext⟩ := Separated.append_cons_inj (hnames left hleft).1
        (hnames right hright).2.1 hrest
      exact absurd htext (hright.not_space_after_colon _ _)
  · rw [render_eq_of_ne hsame] at heq
    by_cases hsame' : right.label = right.speakerId
    · rw [render_eq_of_same hsame'] at heq
      obtain ⟨-, -, hrest⟩ := stamp_inj heq
      obtain ⟨-, htext⟩ := Separated.append_cons_inj (hnames left hleft).2.1
        (hnames right hright).1 hrest
      exact absurd htext.symm (hleft.not_space_after_colon _ _)
    · rw [render_eq_of_ne hsame'] at heq
      obtain ⟨hstart, hend, hrest⟩ := stamp_inj heq
      obtain ⟨hname, hrest⟩ := Separated.append_cons_inj (hnames left hleft).2.1
        (hnames right hright).2.1 hrest
      obtain ⟨hid, htext⟩ := Separated.append_cons_inj (hnames left hleft).2.2
        (hnames right hright).2.2 hrest
      have hlabel := List.append_cancel_right hname
      obtain ⟨hclosed, hsource, hnoisy⟩ := tags_inj (by simpa using hleft.speakerId.opening)
        (by simpa using hright.speakerId.opening) hid
      have hspeakerId := List.append_cancel_right hclosed
      cases left
      cases right
      simp_all

end LineFields

/-! ## The text -/

theorem newline_notMem_of_space {value : List Char}
    (hspace : ∀ c ∈ value, isWhitespace c = true → c = ' ') : '\n' ∉ value := by
  intro hmem
  have hnewline := hspace '\n' hmem (by decide)
  cases hnewline

theorem LineFields.Clean.newline_notMem_text {fields : LineFields} (hclean : fields.Clean) :
    '\n' ∉ fields.text := by
  apply newline_notMem_of_space
  intro c hc hspace
  rw [← hclean.text] at hc
  exact eq_space_of_mem_cleanText hc hspace

theorem LineFields.Clean.newline_notMem {fields : LineFields} (hclean : fields.Clean) :
    '\n' ∉ fields.render := by
  have hlabel := newline_notMem_of_space hclean.label.space
  have hid := newline_notMem_of_space hclean.speakerId.space
  have htext := hclean.newline_notMem_text
  have htags : '\n' ∉ fields.tags := by
    unfold LineFields.tags
    cases fields.source <;> cases fields.isNoisy <;> simp
  have hstamp : '\n' ∉ fields.stamp := by
    have hstart := notMem_decimal (c := '\n') (by decide) fields.startMs
    have hend := notMem_decimal (c := '\n') (by decide) fields.endMs
    simp [LineFields.stamp, hstart, hend]
  have hspeaker : '\n' ∉ fields.speaker := by
    unfold LineFields.speaker
    split <;> simp [hlabel, hid]
  simp [LineFields.render, hstamp, hspeaker, htags, htext]

/-- The lines of the rendered transcript, in timeline order. -/
def transcriptFields (speakers : Option (List (String × SpeakerProfile)))
    (segments : List TranscriptSegment) : List LineFields :=
  (sortTranscriptSegments segments).map (lineFields speakers)

theorem renderForSummary_eq (segments : List TranscriptSegment)
    (speakers : Option (List (String × SpeakerProfile))) :
    renderForSummary segments speakers =
      join ['\n'] ((transcriptFields speakers segments).map (·.render)) := by
  unfold renderForSummary transcriptFields
  rw [List.map_map]
  congr 1
  apply List.map_congr_left
  intro segment _
  exact renderLine_eq speakers segment

theorem clean_of_mem_transcriptFields {speakers : Option (List (String × SpeakerProfile))}
    {segments : List TranscriptSegment} {fields : LineFields}
    (hfields : fields ∈ transcriptFields speakers segments) : fields.Clean := by
  obtain ⟨segment, -, rfl⟩ := List.mem_map.mp hfields
  exact clean_lineFields speakers segment

theorem eq_of_map_render_eq {left right : List LineFields} (hleft : ∀ fields ∈ left, fields.Clean)
    (hright : ∀ fields ∈ right, fields.Clean)
    (heq : left.map (·.render) = right.map (·.render)) : left = right := by
  induction left generalizing right with
  | nil => exact (List.map_eq_nil_iff.mp heq.symm).symm
  | cons fields rest ih =>
      cases right with
      | nil => cases heq
      | cons other others =>
          simp only [List.map_cons, List.cons.injEq] at heq
          have hfields := LineFields.render_injective (hleft fields List.mem_cons_self)
            (hright other List.mem_cons_self) heq.1
          have hrest := ih (fun line hline => hleft line (List.mem_cons_of_mem _ hline))
            (fun line hline => hright line (List.mem_cons_of_mem _ hline)) heq.2
          rw [hfields, hrest]

/-- The rendered text determines, line by line, the fields of the segments in timeline order. -/
theorem render_for_summary_unambiguous {segments others : List TranscriptSegment}
    {speakers profiles : Option (List (String × SpeakerProfile))}
    (heq : renderForSummary segments speakers = renderForSummary others profiles) :
    transcriptFields speakers segments = transcriptFields profiles others := by
  rw [renderForSummary_eq, renderForSummary_eq] at heq
  have hline : ∀ {fields : List LineFields}, (∀ line ∈ fields, line.Clean) →
      ∀ line ∈ fields.map (·.render), '\n' ∉ line ∧ line ≠ [] := by
    intro fields hclean line hmem
    obtain ⟨shown, hshown, rfl⟩ := List.mem_map.mp hmem
    exact ⟨(hclean shown hshown).newline_notMem, by simp [LineFields.render, LineFields.stamp]⟩
  have hlines := Separated.intercalate_injective
    (hline fun _ => clean_of_mem_transcriptFields) (hline fun _ => clean_of_mem_transcriptFields) heq
  exact eq_of_map_render_eq (fun _ => clean_of_mem_transcriptFields)
    (fun _ => clean_of_mem_transcriptFields) hlines

/-- The same words with other white space, from a speaker whose name tries to be a line. -/
def spacedWords (text : String) : List TranscriptSegment :=
  [{ speakerId := "1", startMs := 0, endMs := 7, text := text.toList }]

def forgedNames : List (String × SpeakerProfile) :=
  [("1", { speakerId := "1", nickname := some "a: b\n[1-2] c (id:2)" })]

theorem spaced_words_unambiguous :
    renderForSummary (spacedWords "so: [be it]") (some forgedNames) =
        "[0-7] a; b (1-2) c (id;2) (id:1): so: [be it]".toList ∧
      transcriptFields (some forgedNames) (spacedWords "so: [be it]") =
        transcriptFields (some forgedNames) (spacedWords " so:\n[be\tit] ") :=
  ⟨by decide +kernel, render_for_summary_unambiguous (by decide +kernel)⟩

end DiscordTranscript.Domain
