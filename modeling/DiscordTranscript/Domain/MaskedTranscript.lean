import DiscordTranscript.Domain.MaskingStructure

/-! # The masked transcript

The lines of the transcript that is sent to a model: each is the line of one segment with its
label, its id and its text masked and everything else as it was.
-/

namespace DiscordTranscript.Domain

open Text

/-- The line of a segment with other names and another text in it. -/
def LineFields.withNames (fields : LineFields) (label speakerId text : List Char) : List Char :=
  fields.stamp ++
    ((if fields.label = fields.speakerId then label
      else label ++ " (id:".toList ++ speakerId ++ [')']) ++ fields.tags) ++
    (": ".toList ++ text)

/-- The line of a segment after masking. -/
structure MaskedLine (fields : LineFields) (line : List Char) : Prop where
  shown : ∃ label speakerId text, MaskedField fields.label label ∧
    MaskedField fields.speakerId speakerId ∧ MaskedField fields.text text ∧
    line = fields.withNames label speakerId text
  unbroken : '\n' ∉ line

/-! ## Blocks of a line -/

/-- A line as fixed parts and fields in turn. -/
def lineBlocks (margin : List Char) (fields : LineFields) : List (List Char × List Char) :=
  if fields.label = fields.speakerId then
    [(margin ++ fields.stamp, fields.label), (fields.tags ++ ": ".toList, fields.text)]
  else
    [(margin ++ fields.stamp, fields.label), (" (id:".toList, fields.speakerId),
      (')' :: (fields.tags ++ ": ".toList), fields.text)]

def transcriptBlocks : List LineFields → List (List Char × List Char)
  | [] => []
  | fields :: rest => lineBlocks [] fields ++ rest.flatMap (lineBlocks ['\n'])

theorem blocksText_append (front back : List (List Char × List Char)) :
    blocksText (front ++ back) = blocksText front ++ blocksText back := by
  simp [blocksText]

theorem blocksText_lineBlocks (margin : List Char) (fields : LineFields) :
    blocksText (lineBlocks margin fields) = margin ++ fields.render := by
  unfold lineBlocks LineFields.render LineFields.speaker
  split <;> simp [blocksText]

/-- The first line, and every other one behind a line break. -/
theorem join_newline_cons (line : List Char) (lines : List (List Char)) :
    join ['\n'] (line :: lines) = line ++ lines.flatMap ('\n' :: ·) := by
  induction lines generalizing line with
  | nil => simp [join]
  | cons next rest ih =>
      have hnext := ih next
      simp only [join] at hnext ⊢
      rw [List.intercalate_cons_cons, hnext]
      simp

theorem blocksText_transcriptBlocks (lines : List LineFields) :
    blocksText (transcriptBlocks lines) = join ['\n'] (lines.map (·.render)) := by
  cases lines with
  | nil => rfl
  | cons fields rest =>
      have hrest : blocksText (rest.flatMap (lineBlocks ['\n'])) =
          (rest.map (·.render)).flatMap ('\n' :: ·) := by
        induction rest with
        | nil => rfl
        | cons next rest ih =>
            rw [List.flatMap_cons, blocksText_append, ih, blocksText_lineBlocks]
            rfl
      rw [transcriptBlocks, blocksText_append, blocksText_lineBlocks, hrest, List.map_cons,
        join_newline_cons]
      rfl

theorem newline_notMem_stamp (fields : LineFields) : '\n' ∉ fields.stamp := by
  have hstart := notMem_decimal (c := '\n') (by decide) fields.startMs
  have hend := notMem_decimal (c := '\n') (by decide) fields.endMs
  simp [LineFields.stamp, hstart, hend]

theorem framed_lineBlocks {margin : List Char} {fields : LineFields} (hclean : fields.Clean)
    (hstamp : FixedPart (margin ++ fields.stamp)) : Framed (lineBlocks margin fields) := by
  have hlabel := newline_notMem_of_space hclean.label.space
  have hid := newline_notMem_of_space hclean.speakerId.space
  have htext := hclean.newline_notMem_text
  unfold lineBlocks
  split
  · constructor
    · intro block hblock
      simp only [List.mem_cons, List.not_mem_nil, or_false] at hblock
      rcases hblock with rfl | rfl
      · exact hstamp
      · exact .afterLabel fields
    · simp [hlabel, htext]
  · constructor
    · intro block hblock
      simp only [List.mem_cons, List.not_mem_nil, or_false] at hblock
      rcases hblock with rfl | rfl | rfl
      · exact hstamp
      · exact .beforeId
      · exact .afterId fields
    · simp [hlabel, hid, htext]

theorem Framed.append {front back : List (List Char × List Char)} (hfront : Framed front)
    (hback : Framed back) : Framed (front ++ back) := by
  constructor
  · intro block hblock
    rcases List.mem_append.mp hblock with hblock | hblock
    · exact hfront.fixed block hblock
    · exact hback.fixed block hblock
  · intro block hblock
    rcases List.mem_append.mp hblock with hblock | hblock
    · exact hfront.line block hblock
    · exact hback.line block hblock

theorem framed_transcriptBlocks {lines : List LineFields}
    (hclean : ∀ fields ∈ lines, fields.Clean) : Framed (transcriptBlocks lines) := by
  cases lines with
  | nil => exact ⟨by simp [transcriptBlocks], by simp [transcriptBlocks]⟩
  | cons fields rest =>
      have hrest : Framed (rest.flatMap (lineBlocks ['\n'])) := by
        have hclean' := fun other hother => hclean other (List.mem_cons_of_mem _ hother)
        clear hclean
        induction rest with
        | nil => exact ⟨by simp, by simp⟩
        | cons next rest ih =>
            rw [List.flatMap_cons]
            apply (framed_lineBlocks (hclean' next List.mem_cons_self) (.nextStamp next)).append
            exact ih fun other hother => hclean' other (List.mem_cons_of_mem _ hother)
      exact (framed_lineBlocks (hclean fields List.mem_cons_self) (.stamp fields)).append hrest

/-! ## Lines from blocks -/

theorem Masks.refl (label text : List Char) : Masks label text text := by
  have hkeep := (Masks.nil : Masks label [] []).keep_append text
  simpa using hkeep

theorem MaskedField.refl (field : List Char) : MaskedField field field :=
  ⟨field, field, field, .refl _ _, .refl _ _, .refl _ _, .refl _ _⟩

/-- A character that no placeholder has does not come into a field. -/
theorem MaskedField.notMem {field masked : List Char} {c : Char}
    (hmasked : MaskedField field masked) (hdigit : c.isDigit = false)
    (hlabel : c ∉ "[_]EMAILUSERPHONE".toList) (hc : c ∉ field) : c ∉ masked := by
  obtain ⟨first, second, third, hfirst, hsecond, hthird, hlast⟩ := hmasked
  have hmask : ∀ {label text out}, Masks label text out →
      '[' :: '_' :: ']' :: label ⊆ "[_]EMAILUSERPHONE".toList → c ∉ text → c ∉ out := by
    intro label text out hmasks hsubset
    exact hmasks.notMem (notMem_placeholder hdigit fun hmem => hlabel (hsubset hmem))
  have hfirst' := hmask hfirst (by decide) hc
  have hsecond' := hmask hsecond (by decide) hfirst'
  have hthird' := hmask hthird (by decide) hsecond'
  exact hmask hlast (by decide) hthird'

theorem Masks.head_ne {label text out : List Char} {c : Char} (hmasks : Masks label text out)
    (hc : c ≠ '[') (htext : text.head? ≠ some c) : out.head? ≠ some c := by
  cases hmasks with
  | nil => exact htext
  | keep => exact htext
  | mask =>
      intro hhead
      simp only [placeholder, List.cons_append, List.head?_cons, Option.some.injEq] at hhead
      exact hc hhead.symm

theorem MaskedField.head_ne {field masked : List Char} {c : Char}
    (hmasked : MaskedField field masked) (hc : c ≠ '[') (hfield : field.head? ≠ some c) :
    masked.head? ≠ some c := by
  obtain ⟨first, second, third, hfirst, hsecond, hthird, hlast⟩ := hmasked
  have hfirst' := hfirst.head_ne hc hfield
  have hsecond' := hsecond.head_ne hc hfirst'
  have hthird' := hthird.head_ne hc hsecond'
  exact hlast.head_ne hc hthird'

theorem LineFields.Clean.maskedLine {fields : LineFields} (hclean : fields.Clean)
    {label speakerId text : List Char} (hlabel : MaskedField fields.label label)
    (hid : MaskedField fields.speakerId speakerId) (htext : MaskedField fields.text text) :
    MaskedLine fields (fields.withNames label speakerId text) := by
  refine ⟨⟨label, speakerId, text, hlabel, hid, htext, rfl⟩, ?_⟩
  have hlabel' := hlabel.notMem (by decide) (by decide)
    (newline_notMem_of_space hclean.label.space)
  have hid' := hid.notMem (by decide) (by decide)
    (newline_notMem_of_space hclean.speakerId.space)
  have htext' := htext.notMem (by decide) (by decide) hclean.newline_notMem_text
  have hstamp := newline_notMem_stamp fields
  have htags : '\n' ∉ fields.tags := by
    rcases tags_cases fields with htags | htags | htags | htags <;> rw [htags] <;> decide
  unfold LineFields.withNames
  split <;> simp [hlabel', hid', htext', hstamp, htags]

theorem maskedLine_of_blocks {margin : List Char} {fields : LineFields} (hclean : fields.Clean)
    {blocks : List (List Char × List Char)}
    (hblocks : List.Forall₂ BlockMasked (lineBlocks margin fields) blocks) :
    ∃ line, blocksText blocks = margin ++ line ∧ MaskedLine fields line := by
  unfold lineBlocks at hblocks
  split at hblocks
  next hsame =>
    obtain _ | ⟨hlabel, _ | ⟨htext, _ | _⟩⟩ := hblocks
    refine ⟨_, ?_, hclean.maskedLine hlabel.2 (.refl _) htext.2⟩
    simp [blocksText, LineFields.withNames, hsame, hlabel.1, htext.1]
  next hsame =>
    obtain _ | ⟨hlabel, _ | ⟨hid, _ | ⟨htext, _ | _⟩⟩⟩ := hblocks
    refine ⟨_, ?_, hclean.maskedLine hlabel.2 hid.2 htext.2⟩
    simp [blocksText, LineFields.withNames, hsame, hlabel.1, hid.1, htext.1]

theorem maskedLines_of_blocks {rest : List LineFields} (hclean : ∀ fields ∈ rest, fields.Clean)
    {blocks : List (List Char × List Char)}
    (hblocks : List.Forall₂ BlockMasked (rest.flatMap (lineBlocks ['\n'])) blocks) :
    ∃ lines, blocksText blocks = lines.flatMap ('\n' :: ·) ∧
      List.Forall₂ MaskedLine rest lines := by
  induction rest generalizing blocks with
  | nil =>
      cases hblocks
      exact ⟨[], rfl, .nil⟩
  | cons fields rest ih =>
      rw [List.flatMap_cons] at hblocks
      obtain ⟨front, back, rfl, hfront, hback⟩ := hblocks.exists_of_append
      obtain ⟨line, hline, hmasked⟩ := maskedLine_of_blocks (hclean fields List.mem_cons_self) hfront
      obtain ⟨lines, hlines, hall⟩ :=
        ih (fun other hother => hclean other (List.mem_cons_of_mem _ hother)) hback
      refine ⟨line :: lines, ?_, .cons hmasked hall⟩
      rw [blocksText_append, hline, hlines]
      rfl

theorem maskedTranscript_of_blocks {fields : List LineFields}
    (hclean : ∀ line ∈ fields, line.Clean) {blocks : List (List Char × List Char)}
    (hblocks : List.Forall₂ BlockMasked (transcriptBlocks fields) blocks) :
    ∃ lines, blocksText blocks = join ['\n'] lines ∧ List.Forall₂ MaskedLine fields lines := by
  cases fields with
  | nil =>
      cases hblocks
      exact ⟨[], rfl, .nil⟩
  | cons first rest =>
      obtain ⟨front, back, rfl, hfront, hback⟩ := hblocks.exists_of_append
      obtain ⟨line, hline, hmasked⟩ := maskedLine_of_blocks (hclean first List.mem_cons_self) hfront
      obtain ⟨lines, hlines, hall⟩ := maskedLines_of_blocks
        (fun other hother => hclean other (List.mem_cons_of_mem _ hother)) hback
      refine ⟨line :: lines, ?_, .cons hmasked hall⟩
      rw [join_newline_cons, blocksText_append, hline, hlines]
      rfl

/-- The masked transcript has the lines of the rendered one with only labels, ids and texts
masked, and no match of the four searches spans two of their parts or two lines. -/
theorem mask_pii_keeps_lines (unicode : UnicodeClasses) {patterns : PiiPatterns}
    (hdocumented : patterns.Documented unicode) (segments : List TranscriptSegment)
    (speakers : Option (List (String × SpeakerProfile))) :
    (∃ lines, (maskPii patterns (renderForSummary segments speakers)).text = join ['\n'] lines ∧
      List.Forall₂ MaskedLine (transcriptFields speakers segments) lines) ∧
    ∀ search ∈ maskSearches patterns (renderForSummary segments speakers),
      SearchedApart (transcriptBlocks (transcriptFields speakers segments)) search := by
  have hclean : ∀ fields ∈ transcriptFields speakers segments, fields.Clean :=
    fun _ => clean_of_mem_transcriptFields
  obtain ⟨⟨masked, htext, hblocks⟩, hsearches⟩ :=
    maskPii_blocks hdocumented (framed_transcriptBlocks hclean)
  rw [blocksText_transcriptBlocks, ← renderForSummary_eq] at htext hsearches
  obtain ⟨lines, hlines, hmasked⟩ := maskedTranscript_of_blocks hclean hblocks
  exact ⟨⟨lines, htext.trans hlines, hmasked⟩, hsearches⟩

/-- The classes on ASCII. -/
def asciiClasses : UnicodeClasses where
  digit := Char.isDigit
  word c := c.isAlphanum || c = '_'
  digit_ascii _ _ := rfl

def asciiPatterns : PiiPatterns where
  email := asciiClasses.regex emailPattern
  discordMention := asciiClasses.regex (discordMentionPattern asciiClasses)
  atUsername := asciiClasses.regex atUsernamePattern
  phone := asciiClasses.regex (phonePattern asciiClasses)

/-- Numbers at the ends of a text and in the time stamp of the next line. -/
def dialledWords : List TranscriptSegment :=
  [{ speakerId := "2", startMs := 1234567890, endMs := 1234567891,
     text := "@me 090 1234 5678".toList },
    { speakerId := "2", startMs := 1234567891, endMs := 1234567892, text := "1 a@b.io".toList,
      isNoisy := true }]

theorem dialled_words_keep_lines :
    (maskPii asciiPatterns (renderForSummary dialledWords none)).text =
        ("[1234567890-1234567891] 2: [USER_1] [PHONE_1]\n" ++
          "[1234567891-1234567892] 2 [NOISY]: 1 [EMAIL_1]").toList ∧
      ∃ lines, (maskPii asciiPatterns (renderForSummary dialledWords none)).text =
          join ['\n'] lines ∧
        List.Forall₂ MaskedLine (transcriptFields none dialledWords) lines :=
  ⟨by decide +kernel,
    (mask_pii_keeps_lines asciiClasses ⟨rfl, rfl, rfl, rfl⟩ dialledWords none).1⟩

end DiscordTranscript.Domain
