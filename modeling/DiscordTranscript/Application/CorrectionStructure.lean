import DiscordTranscript.Application.CorrectionChunks
import DiscordTranscript.Domain.MaskedTranscript

/-! # Correction keeps the lines

Whatever the engine answers, a correction that is accepted has the lines of the transcript: the
checks of an answer are about the lines of its request, and the answers are put together in the
order in which the lines were cut.
-/

namespace DiscordTranscript.Application

open Domain Text

/-! ## Checked answers -/

/-- What a checked line keeps of the original one. -/
structure KeptLine (line line' : List Char) : Prop where
  head : ∃ linePrefix text text', splitOnce ": ".toList line = some (linePrefix, text) ∧
    splitOnce ": ".toList line' = some (linePrefix, text')
  vcText : ∀ linePrefix text, splitOnce ": ".toList line = some (linePrefix, text) →
    contains vcTextTag linePrefix = true → line' = line
  unbroken : '\n' ∉ line'

theorem exists_of_transcriptLinePrefix {line linePrefix : List Char}
    (hlead : transcriptLinePrefix line = some linePrefix) :
    ∃ text, splitOnce ": ".toList line = some (linePrefix, text) := by
  unfold transcriptLinePrefix at hlead
  split at hlead
  next => cases hlead
  next head text hsplit =>
    split at hlead
    next =>
      cases hlead
      exact ⟨text, hsplit⟩
    next => cases hlead

theorem keptLine_of_validate {number : ℕ} {line line' : List Char} (hunbroken : '\n' ∉ line')
    (hvalid : validateCorrectionLine number line line' = .ok ()) : KeptLine line line' := by
  unfold validateCorrectionLine at hvalid
  split at hvalid
  next => cases hvalid
  next originalPrefix horiginal =>
    split at hvalid
    next => cases hvalid
    next correctedPrefix hcorrected =>
      obtain ⟨hsame, hvalid⟩ := Except.ok_of_guard hvalid
      obtain ⟨-, hvalid⟩ := Except.ok_of_guard hvalid
      obtain ⟨hvcText, -⟩ := Except.ok_of_guard hvalid
      rw [ne_eq, not_not] at hsame
      subst hsame
      obtain ⟨text, hsplit⟩ := exists_of_transcriptLinePrefix horiginal
      obtain ⟨text', hsplit'⟩ := exists_of_transcriptLinePrefix hcorrected
      refine ⟨⟨originalPrefix, text, text', hsplit, hsplit'⟩, ?_, hunbroken⟩
      intro linePrefix other hother htag
      rw [hsplit] at hother
      cases hother
      rw [not_and, ne_eq, not_not] at hvcText
      exact (hvcText htag).symm

theorem forall₂_of_validate {number : ℕ} {rows rows' : List (List Char)}
    (hlength : rows.length = rows'.length) (hunbroken : ∀ row ∈ rows', '\n' ∉ row)
    (hvalid : validateCorrectionLines number (rows.zip rows') = .ok ()) :
    List.Forall₂ KeptLine rows rows' := by
  induction rows generalizing number rows' with
  | nil =>
      cases rows' with
      | nil => exact .nil
      | cons row rows' => cases hlength
  | cons row rows ih =>
      cases rows' with
      | nil => cases hlength
      | cons row' rows' =>
          obtain ⟨_, hfirst, hrest⟩ := Except.bind_eq_ok.mp hvalid
          refine .cons (keptLine_of_validate (hunbroken row' List.mem_cons_self) hfirst) ?_
          exact ih (Nat.succ.inj hlength)
            (fun other hother => hunbroken other (List.mem_cons_of_mem _ hother)) hrest

theorem keptLines_of_validateCorrectionOutput {original corrected : List Char}
    (hvalid : validateCorrectionOutput original corrected = .ok ()) :
    List.Forall₂ KeptLine (lines original) (lines (trimLineEndings corrected)) := by
  obtain ⟨hlength, hlines⟩ := Except.ok_of_guard hvalid
  rw [ne_eq, not_not] at hlength
  exact forall₂_of_validate hlength (fun _ => newline_notMem_of_mem_lines) hlines

/-! ## Runs over requests -/

/-- A line without line endings. -/
structure PlainRow (row : List Char) : Prop where
  feed : '\n' ∉ row
  carriage : '\r' ∉ row
  nonempty : row ≠ []

theorem lines_join_plain {rows : List (List Char)} (hrows : ∀ row ∈ rows, PlainRow row) :
    lines (join ['\n'] rows) = rows := by
  rw [lines_join fun row hrow => ⟨(hrows row hrow).feed, (hrows row hrow).nonempty⟩]
  exact settled_eq_self fun row hrow => (hrows row hrow).carriage

theorem unterminated_join_plain {rows : List (List Char)} (hrows : ∀ row ∈ rows, PlainRow row) :
    Unterminated (join ['\n'] rows) := by
  apply unterminated_join fun row hrow => (hrows row hrow).nonempty
  intro row hlast
  have hplain := hrows row (List.mem_of_getLast? hlast)
  exact unterminated_of_notMem hplain.carriage hplain.feed

/-- The last line has no line ending at its end. -/
def Closed (rows : List (List Char)) : Prop :=
  ∀ row, rows.getLast? = some row → Unterminated row

theorem Closed.append {rows others : List (List Char)} (hrows : Closed rows)
    (hothers : Closed others) : Closed (rows ++ others) := by
  intro row hlast
  rw [List.getLast?_append] at hlast
  cases hother : others.getLast? with
  | none =>
      rw [hother] at hlast
      exact hrows row hlast
  | some other =>
      rw [hother] at hlast
      cases hlast
      exact hothers row hother

theorem closed_lines {text : List Char} (htext : Unterminated text) : Closed (lines text) := by
  intro row hlast
  cases hend : text.getLast? with
  | none =>
      rw [List.getLast?_eq_none_iff.mp hend] at hlast
      cases hlast
  | some c =>
      have hc := htext c hend
      obtain ⟨last, hrows, hlast'⟩ := getLast?_lines hend (by rintro rfl; cases hc)
      rw [hrows] at hlast
      cases hlast
      intro d hd
      rw [hlast'] at hd
      cases hd
      exact hc

section

variable {engine : SummaryEngine} {transcript prompt : List Char}
  {workdir reportChannelId : Option String} {state next : CorrectionState}

/-- What is accepted has passed the checks. -/
theorem accepted_of_correctChunk {chunk : CorrectionChunk}
    (hok : correctChunk engine transcript prompt workdir reportChannelId state chunk = .ok next) :
    ∃ requests corrected,
      List.Forall₂ KeptLine (lines chunk.input) (lines (trimLineEndings corrected)) ∧
      { state with requests }.accept chunk corrected = .ok next := by
  obtain ⟨chunkPrompt, -, hok⟩ := Except.bind_eq_ok.mp hok
  obtain ⟨corrected, -, hok⟩ := Except.bind_eq_ok.mp hok
  obtain ⟨_, hvalid, hok⟩ := Except.bind_eq_ok.mp hok
  exact ⟨_, corrected, keptLines_of_validateCorrectionOutput hvalid, hok⟩

theorem correctChunk_whole {rows : List (List Char)} (hrows : ∀ row ∈ rows, PlainRow row)
    (hok : correctChunk engine transcript prompt workdir reportChannelId state
      ⟨join ['\n'] rows, none⟩ = .ok next) :
    ∃ new, next.correctedLines = state.correctedLines ++ new ∧ List.Forall₂ KeptLine rows new ∧
      Closed new := by
  obtain ⟨requests, corrected, hkept, haccept⟩ := accepted_of_correctChunk hok
  rw [lines_join_plain hrows] at hkept
  cases haccept
  exact ⟨_, rfl, hkept, closed_lines (unterminated_trimLineEndings corrected)⟩

/-- A fragment is answered under the same prefix. -/
theorem correctChunk_continued {linePrefix fragment separatorAfter : List Char}
    {startsLine endsLine : Bool} (hfeed : '\n' ∉ linePrefix ++ (": ".toList ++ fragment))
    (hsplit : splitOnce ": ".toList (linePrefix ++ (": ".toList ++ fragment)) =
      some (linePrefix, fragment))
    (hok : correctChunk engine transcript prompt workdir reportChannelId state
      ⟨linePrefix ++ (": ".toList ++ fragment),
        some ⟨linePrefix, startsLine, endsLine, separatorAfter⟩⟩ = .ok next) :
    ∃ body, '\n' ∉ body ∧ Unterminated body ∧
      (contains vcTextTag linePrefix = true → body = fragment) ∧
      (endsLine = true → next.correctedLines = state.correctedLines ++
        [(if startsLine then linePrefix ++ ": ".toList else state.continuedLine) ++
          (body ++ separatorAfter)]) ∧
      (endsLine = false → next.correctedLines = state.correctedLines ∧ next.continuedLine =
        (if startsLine then linePrefix ++ ": ".toList else state.continuedLine) ++
          (body ++ separatorAfter)) := by
  obtain ⟨requests, corrected, hkept, haccept⟩ := accepted_of_correctChunk hok
  have hinput : lines (linePrefix ++ (": ".toList ++ fragment)) =
      [linePrefix ++ (": ".toList ++ fragment)] := lines_line hfeed (by simp)
  rw [hinput] at hkept
  obtain ⟨line, hline, hsingle⟩ : ∃ line, KeptLine (linePrefix ++ (": ".toList ++ fragment)) line ∧
      lines (trimLineEndings corrected) = [line] := by
    generalize lines (trimLineEndings corrected) = rows at hkept
    obtain _ | ⟨hline, _ | _⟩ := hkept
    exact ⟨_, hline, rfl⟩
  obtain ⟨htrimmed, hunbroken⟩ :=
    eq_of_lines_eq_singleton (unterminated_trimLineEndings corrected) hsingle
  unfold CorrectionState.accept at haccept
  dsimp only at haccept
  split at haccept
  next => cases haccept
  next body hbody =>
    obtain ⟨front, hfront, hsame⟩ := List.dropPrefix?_eq_some_iff.mp hbody
    rw [beq_iff_eq] at hsame
    subst hsame
    rw [List.append_assoc] at hfront
    refine ⟨body, ?_, ?_, ?_, ?_⟩
    · intro hmem
      apply hunbroken
      rw [hfront]
      simp [hmem]
    · intro c hc
      apply unterminated_trimLineEndings corrected c
      rw [hfront, List.getLast?_append, List.getLast?_append, hc]
      rfl
    · intro htag
      have hsameLine := hline.vcText linePrefix fragment hsplit htag
      rw [hfront] at htrimmed
      rw [hsameLine] at htrimmed
      exact List.append_cancel_left (List.append_cancel_left htrimmed)
    · split at haccept
      next hends =>
        cases haccept
        exact ⟨fun _ => rfl, fun hnot => by rw [hends] at hnot; cases hnot⟩
      next hends =>
        cases haccept
        exact ⟨fun hnot => absurd hnot hends, fun _ => ⟨rfl, rfl⟩⟩

/-- The request for one fragment of a line. -/
def fragmentChunk (linePrefix : List Char) (lastIndex : ℕ)
    (piece : (List Char × List Char) × ℕ) : CorrectionChunk :=
  { input := linePrefix ++ (": ".toList ++ piece.1.1)
    continuation := some
      { linePrefix
        startsLine := piece.2 = 0
        endsLine := piece.2 = lastIndex
        separatorAfter := piece.1.2 } }

theorem continuationChunks_eq (linePrefix : List Char)
    (fragments : List (List Char × List Char)) :
    continuationChunks linePrefix fragments =
      fragments.zipIdx.map (fragmentChunk linePrefix (fragments.length - 1)) := rfl

/-- The fragments of a line, from some fragment on, are put together behind what there is. -/
theorem correctChunks_fragments {linePrefix : List Char}
    {fragments : List (List Char × List Char)} {first lastIndex : ℕ} {final : CorrectionState}
    (hne : fragments ≠ []) (hlast : lastIndex = first + fragments.length - 1)
    (hfeed : '\n' ∉ linePrefix)
    (hpieces : ∀ piece ∈ fragments, '\n' ∉ piece.1 ∧ '\n' ∉ piece.2 ∧ '\r' ∉ piece.2)
    (hsplit : ∀ text, splitOnce ": ".toList (linePrefix ++ (": ".toList ++ text)) =
      some (linePrefix, text))
    (hrun : ((fragments.zipIdx first).map (fragmentChunk linePrefix lastIndex)).foldlM
      (correctChunk engine transcript prompt workdir reportChannelId) state = .ok final) :
    ∃ bodies, '\n' ∉ bodies ∧ Unterminated bodies ∧
      (contains vcTextTag linePrefix = true → bodies = joinedFragments fragments) ∧
      final.correctedLines = state.correctedLines ++
        [(if first = 0 then linePrefix ++ ": ".toList else state.continuedLine) ++ bodies] := by
  induction fragments generalizing first state with
  | nil => exact absurd rfl hne
  | cons piece fragments ih =>
      obtain ⟨fragment, separatorAfter⟩ := piece
      obtain ⟨hfragment, hseparator, hreturn⟩ := hpieces (fragment, separatorAfter)
        List.mem_cons_self
      obtain ⟨next, hnext, hrest⟩ := Except.bind_eq_ok.mp hrun
      obtain ⟨body, hbody, hopen, hvcText, hended, hcontinued⟩ := correctChunk_continued
        (by simp [hfeed, hfragment]) (hsplit fragment) hnext
      have hopen' : Unterminated (body ++ separatorAfter) :=
        hopen.append (unterminated_of_notMem hreturn hseparator)
      cases fragments with
      | nil =>
          cases hrest
          refine ⟨body ++ separatorAfter, by simp [hbody, hseparator], hopen', ?_, ?_⟩
          · intro htag
            simp [joinedFragments, hvcText htag]
          · simpa using hended (by simp [hlast])
      | cons later fragments =>
          simp only [List.length_cons] at hlast
          obtain ⟨hlines, hline⟩ := hcontinued (decide_eq_false (by omega))
          obtain ⟨bodies, hbodies, hopenBodies, hvcBodies, hfinal⟩ := ih (List.cons_ne_nil _ _)
            (by rw [hlast, List.length_cons]; omega) (fun piece hpiece => hpieces piece (List.mem_cons_of_mem _ hpiece)) hrest
          refine ⟨(body ++ separatorAfter) ++ bodies, by simp [hbody, hseparator, hbodies],
            hopen'.append hopenBodies, ?_, ?_⟩
          · intro htag
            rw [hvcText htag, hvcBodies htag]
            simp [joinedFragments]
          · rw [hfinal, hlines, if_neg (Nat.succ_ne_zero first), hline]
            simp

/-- An oversized line is put together from its fragments. -/
theorem correctChunks_cut {maxChars : ℕ} {line linePrefix body : List Char}
    {fragments : List (List Char × List Char)} {final : CorrectionState} (hplain : PlainRow line)
    (hoversized : oversized maxChars line = some (linePrefix, body))
    (hroom : linePrefix.length + 2 < maxChars)
    (hfragments : splitTranscriptBody body (maxChars - linePrefix.length - 2) = some fragments)
    (hrun : (continuationChunks linePrefix fragments).foldlM
      (correctChunk engine transcript prompt workdir reportChannelId) state = .ok final) :
    ∃ line', final.correctedLines = state.correctedLines ++ [line'] ∧ KeptLine line line' ∧
      Unterminated line' := by
  obtain ⟨hlong, hsplit⟩ := oversized_eq_some hoversized
  have hline := eq_append_of_splitOnce hsplit
  have hjoined := (fragments_of_splitTranscriptBody hfragments).joined
  have hbody : body ≠ [] := by
    rintro rfl
    rw [hline] at hlong
    simp at hlong
    omega
  have hchars : ∀ c ∈ linePrefix ++ body, c ∈ line := by
    intro c hc
    rw [hline]
    rcases List.mem_append.mp hc with hc | hc
    · exact List.mem_append_left _ hc
    · exact List.mem_append_right _ (List.mem_append_right _ hc)
  have hfeed : '\n' ∉ linePrefix := fun hmem =>
    hplain.feed (hchars _ (List.mem_append_left _ hmem))
  have hreturn : '\r' ∉ linePrefix := fun hmem =>
    hplain.carriage (hchars _ (List.mem_append_left _ hmem))
  have hpieces : ∀ piece ∈ fragments, '\n' ∉ piece.1 ∧ '\n' ∉ piece.2 ∧ '\r' ∉ piece.2 := by
    intro piece hpiece
    obtain ⟨hfirst, hsecond⟩ := mem_joinedFragments hpiece
    rw [hjoined] at hfirst hsecond
    exact ⟨fun hmem => hplain.feed (hchars _ (List.mem_append_right _ (hfirst hmem))),
      fun hmem => hplain.feed (hchars _ (List.mem_append_right _ (hsecond hmem))),
      fun hmem => hplain.carriage (hchars _ (List.mem_append_right _ (hsecond hmem)))⟩
  rw [continuationChunks_eq] at hrun
  obtain ⟨bodies, hbodies, hopen, hvcText, hfinal⟩ := correctChunks_fragments
    ((fragments_of_splitTranscriptBody hfragments).ne_nil hbody) (by rw [Nat.zero_add]) hfeed
    hpieces (splitOnce_retarget hsplit) hrun
  rw [if_pos rfl, List.append_assoc] at hfinal
  refine ⟨_, hfinal, ⟨⟨linePrefix, body, bodies, hsplit, splitOnce_retarget hsplit bodies⟩, ?_, ?_⟩,
    ?_⟩
  · intro other text hother htag
    rw [hsplit] at hother
    cases hother
    rw [hvcText htag, hjoined, ← hline]
  · simp [hfeed, hbodies]
  · apply (unterminated_of_notMem hreturn hfeed).append
    exact (unterminated_of_notMem (by decide) (by decide)).append hopen

/-- The requests of some lines are answered with lines that keep them. -/
theorem correctChunks_kept {maxChars : ℕ} {chunks : List CorrectionChunk}
    {rows : List (List Char)} {final : CorrectionState} (hchunks : Chunked maxChars chunks rows)
    (hrows : ∀ row ∈ rows, PlainRow row)
    (hrun : chunks.foldlM (correctChunk engine transcript prompt workdir reportChannelId) state =
      .ok final) :
    ∃ new, final.correctedLines = state.correctedLines ++ new ∧ List.Forall₂ KeptLine rows new ∧
      Closed new := by
  induction hchunks generalizing state with
  | nil =>
      cases hrun
      exact ⟨[], by simp, .nil, by simp [Closed]⟩
  | whole _ _ _ _ ih =>
      obtain ⟨next, hnext, hrest⟩ := Except.bind_eq_ok.mp hrun
      obtain ⟨new, hnew, hkept, hclosed⟩ := correctChunk_whole
        (fun row hrow => hrows row (List.mem_append_left _ hrow)) hnext
      obtain ⟨later, hlater, hkept', hclosed'⟩ := ih
        (fun row hrow => hrows row (List.mem_append_right _ hrow)) hrest
      refine ⟨new ++ later, ?_, List.rel_append hkept hkept', hclosed.append hclosed'⟩
      rw [hlater, hnew, List.append_assoc]
  | cut hline hroom hsplit _ ih =>
      rw [List.foldlM_append] at hrun
      obtain ⟨next, hnext, hrest⟩ := Except.bind_eq_ok.mp hrun
      obtain ⟨line', hnew, hkept, hopen⟩ := correctChunks_cut (hrows _ List.mem_cons_self) hline
        hroom hsplit hnext
      obtain ⟨later, hlater, hkept', hclosed'⟩ := ih
        (fun row hrow => hrows row (List.mem_cons_of_mem _ hrow)) hrest
      have hclosed : Closed [line'] := by
        intro row hlast
        cases hlast
        exact hopen
      refine ⟨[line'] ++ later, ?_, .cons hkept hkept', hclosed.append hclosed'⟩
      rw [hlater, hnew, List.append_assoc]

end

/-! ## The lines of the result -/

/-- A carriage return at the end of a line belongs to its text. -/
theorem KeptLine.strip {line line' : List Char} (hkept : KeptLine line line')
    (hline : '\r' ∉ line) : KeptLine line (stripSuffix '\r' line') := by
  unfold stripSuffix
  split
  next hlast =>
    obtain ⟨linePrefix, text, text', hsplit, hsplit'⟩ := hkept.head
    have hline' := eq_append_of_splitOnce hsplit'
    have htext' : text' ≠ [] := by
      rintro rfl
      rw [hline'] at hlast
      simp at hlast
    refine ⟨⟨linePrefix, text, text'.dropLast, hsplit, ?_⟩, ?_, ?_⟩
    · rw [hline', List.dropLast_append_of_ne_nil (by simp), List.dropLast_append_of_ne_nil htext']
      exact splitOnce_retarget hsplit' _
    · intro other rest hother htag
      have hsame := hkept.vcText other rest hother htag
      rw [hsame] at hlast
      exact absurd (List.mem_of_getLast? hlast) hline
    · exact fun hmem => hkept.unbroken (List.mem_of_mem_dropLast hmem)
  next => exact hkept

theorem forall₂_settled {rows new : List (List Char)} (hrows : ∀ row ∈ rows, PlainRow row)
    (hkept : List.Forall₂ KeptLine rows new) : List.Forall₂ KeptLine rows (settled new) := by
  induction hkept with
  | nil => exact .nil
  | @cons row line' rows new hline hlater ih =>
      have hrest := ih fun row hrow => hrows row (List.mem_cons_of_mem _ hrow)
      cases hlater with
      | nil => exact .cons hline .nil
      | cons => exact .cons (hline.strip (hrows row List.mem_cons_self).carriage) hrest

theorem KeptLine.ne_nil {line line' : List Char} (hkept : KeptLine line line') : line' ≠ [] := by
  obtain ⟨linePrefix, text, text', -, hsplit'⟩ := hkept.head
  rw [eq_append_of_splitOnce hsplit']
  simp

theorem trailingLineEndings_eq_nil {text : List Char} (htext : Unterminated text) :
    trailingLineEndings text = [] := by
  rw [trailingLineEndings, trimLineEndings_eq_self htext, List.drop_length]

/-- An accepted correction of joined lines. -/
theorem keptLines_of_correct {engine : SummaryEngine} {prompt : List Char}
    {workdir reportChannelId : Option String} {patterns : PiiPatterns} {tables : CaseTables}
    {bodies : List MaterializedLeakCheckBody} {rows : List (List Char)} {corrected : Corrected}
    (hrows : ∀ row ∈ rows, PlainRow row)
    (hok : correctTranscriptWithDiscordContext engine (join ['\n'] rows) prompt workdir
      reportChannelId patterns tables bodies = .ok corrected) :
    Unterminated corrected.text ∧
      (corrected.text = join ['\n'] rows ∨
        List.Forall₂ KeptLine rows (lines corrected.text)) := by
  have hopen := unterminated_join_plain hrows
  unfold correctTranscriptWithDiscordContext at hok
  split at hok
  next =>
    cases hok
    exact ⟨hopen, .inl rfl⟩
  next =>
    obtain ⟨-, hok⟩ := Except.ok_of_guard hok
    obtain ⟨chunks, hchunks, hok⟩ := Except.bind_eq_ok.mp hok
    obtain ⟨final, hfinal, hok⟩ := Except.bind_eq_ok.mp hok
    rw [trimLineEndings_eq_self hopen] at hchunks
    have hlines := lines_join_plain hrows
    have hchunked := chunked_correctionTranscriptChunks
      (by rw [hlines]; exact fun row hrow => (hrows row hrow).nonempty) hchunks
    rw [hlines] at hchunked
    have hrun : chunks.foldlM (correctChunk engine (join ['\n'] rows) prompt workdir
        reportChannelId) {} = .ok final := by
      generalize chunks.foldlM (correctChunk engine (join ['\n'] rows) prompt workdir
        reportChannelId) {} = attempt at hfinal
      cases attempt with
      | error err => cases hfinal
      | ok state => exact congrArg Except.ok (Except.ok.inj hfinal)
    obtain ⟨new, hnew, hkept, hclosed⟩ := correctChunks_kept hchunked hrows hrun
    dsimp only at hok
    split at hok
    next => cases hok
    next =>
      obtain ⟨-, hok⟩ := Except.ok_of_guard hok
      cases hok
      have hnonempty : ∀ row ∈ new, '\n' ∉ row ∧ row ≠ [] := by
        intro row hrow
        obtain ⟨line, -, hline⟩ := hkept.exists_of_mem_right hrow
        exact ⟨hline.unbroken, hline.ne_nil⟩
      rw [trailingLineEndings_eq_nil hopen, List.append_nil, hnew, List.nil_append]
      refine ⟨unterminated_join (fun row hrow => (hnonempty row hrow).2) hclosed, .inr ?_⟩
      rw [lines_join hnonempty]
      exact forall₂_settled hrows hkept

/-! ## Lines of a masked transcript -/

/-- The names of a line after masking. -/
def LineFields.maskedNames (fields : LineFields) (label speakerId : List Char) : List Char :=
  if fields.label = fields.speakerId then label
  else label ++ " (id:".toList ++ speakerId ++ [')']

theorem colon_notMem_stamp (fields : LineFields) : ':' ∉ fields.stamp := by
  have hstart := notMem_decimal (c := ':') (by decide) fields.startMs
  have hend := notMem_decimal (c := ':') (by decide) fields.endMs
  simp [LineFields.stamp, hstart, hend]

/-- The first colon with a space behind it ends the names and the tags. -/
theorem splitOnce_withNames {fields : LineFields} (hclean : fields.Clean)
    {label speakerId : List Char} (text : List Char) (hlabel : MaskedField fields.label label)
    (hid : MaskedField fields.speakerId speakerId) :
    splitOnce ": ".toList (fields.withNames label speakerId text) =
      some (fields.stamp ++ (LineFields.maskedNames fields label speakerId ++ fields.tags),
        text) := by
  have hstamp := colon_notMem_stamp fields
  have htags := fields.colon_notMem_tags
  have hlabel' := hlabel.notMem (by decide) (by decide) hclean.label.colon
  have hid' := hid.notMem (by decide) (by decide) hclean.speakerId.colon
  have hneedle : ": ".toList = ':' :: [' '] := rfl
  unfold LineFields.withNames LineFields.maskedNames
  rw [hneedle]
  split
  next =>
    have hnames : ':' ∉ fields.stamp ++ (label ++ fields.tags) := by
      simp [hstamp, hlabel', htags]
    exact splitOnce_of_notMem hnames text
  next =>
    have hspace : speakerId.head? ≠ some ' ' := by
      apply hid.head_ne (by decide)
      intro hhead
      have hwhite := hclean.speakerId.trimmed.head ' ' hhead
      cases hwhite
    have hfirst : ':' ∉ fields.stamp ++ label ++ " (id".toList := by
      simp [hstamp, hlabel']
    have hsecond : ':' ∉ speakerId ++ (')' :: fields.tags) := by
      simp [hid', htags]
    have hline : fields.stamp ++ ((label ++ " (id:".toList ++ speakerId ++ [')']) ++ fields.tags) ++
        (':' :: [' '] ++ text) = (fields.stamp ++ label ++ " (id".toList) ++
          ':' :: ((speakerId ++ (')' :: fields.tags)) ++ (':' :: [' '] ++ text)) := by
      simp
    have hnot : (':' :: [' ']).isPrefixOf
        (':' :: ((speakerId ++ (')' :: fields.tags)) ++ (':' :: [' '] ++ text))) = false := by
      cases speakerId with
      | nil => rfl
      | cons c rest =>
          have hc : ' ' ≠ c := by
            rintro rfl
            exact hspace rfl
          simp [List.isPrefixOf, hc]
    rw [hline, splitOnce_append_of_notMem hfirst, splitOnce, hnot, splitOnce_of_notMem hsecond]
    simp

theorem plainRow_of_maskedLine {fields : LineFields} {line : List Char} (hclean : fields.Clean)
    (hmasked : MaskedLine fields line) : PlainRow line := by
  refine ⟨hmasked.unbroken, ?_, ?_⟩
  · obtain ⟨label, speakerId, text, hlabel, hid, htext, rfl⟩ := hmasked.shown
    have hreturn : ∀ {value : List Char}, (∀ c ∈ value, isWhitespace c = true → c = ' ') →
        '\r' ∉ value := by
      intro value hspace hmem
      have hsame := hspace '\r' hmem (by decide)
      cases hsame
    have hlabel' := hlabel.notMem (by decide) (by decide) (hreturn hclean.label.space)
    have hid' := hid.notMem (by decide) (by decide) (hreturn hclean.speakerId.space)
    have htext' : '\r' ∉ text := by
      apply htext.notMem (by decide) (by decide)
      apply hreturn
      intro c hc hspace
      rw [← hclean.text] at hc
      exact eq_space_of_mem_cleanText hc hspace
    have hstart := notMem_decimal (c := '\r') (by decide) fields.startMs
    have hend := notMem_decimal (c := '\r') (by decide) fields.endMs
    have htags : '\r' ∉ fields.tags := by
      rcases tags_cases fields with htags | htags | htags | htags <;> rw [htags] <;> decide
    unfold LineFields.withNames LineFields.stamp
    split <;> simp [hlabel', hid', htext', hstart, hend, htags]
  · obtain ⟨label, speakerId, text, -, -, -, rfl⟩ := hmasked.shown
    simp [LineFields.withNames, LineFields.stamp]

theorem contains_vcTextTag {fields : LineFields} (hsource : fields.source = .vcText)
    (names : List Char) : contains vcTextTag (fields.stamp ++ (names ++ fields.tags)) = true := by
  have htag : " [VC_TEXT]".toList = ' ' :: vcTextTag := by
    unfold vcTextTag
    rw [String.toList_ofList, String.toList_ofList]
  have htags : fields.tags = ' ' :: (vcTextTag ++
      (if fields.isNoisy then " [NOISY]".toList else [])) := by
    rw [LineFields.tags, if_pos hsource, htag]
    rfl
  have hsplit : fields.stamp ++ (names ++ fields.tags) = (fields.stamp ++ (names ++ [' '])) ++
      (vcTextTag ++ (if fields.isNoisy then " [NOISY]".toList else [])) := by
    rw [htags]
    simp only [List.append_assoc, List.cons_append, List.nil_append]
  rw [hsplit]
  exact contains_append _ _ _

/-- A line of the transcript before and after the correction: time stamp, names and tags are
the same, up to the first colon with a space behind it, and so is the text of a chat message. -/
structure CorrectedLine (fields : LineFields) (line line' : List Char) : Prop where
  shown : ∃ names text text',
    line = fields.stamp ++ (names ++ fields.tags) ++ (": ".toList ++ text) ∧
    line' = fields.stamp ++ (names ++ fields.tags) ++ (": ".toList ++ text') ∧
    splitOnce ": ".toList line = some (fields.stamp ++ (names ++ fields.tags), text) ∧
    splitOnce ": ".toList line' = some (fields.stamp ++ (names ++ fields.tags), text')
  vcText : fields.source = .vcText → line' = line

theorem correctedLine_of_kept {fields : LineFields} {line line' : List Char}
    (hclean : fields.Clean) (hmasked : MaskedLine fields line) (hkept : line' = line ∨ KeptLine line line') :
    CorrectedLine fields line line' := by
  obtain ⟨label, speakerId, text, hlabel, hid, -, hline⟩ := hmasked.shown
  have hsplit := splitOnce_withNames hclean text hlabel hid
  rw [← hline] at hsplit
  rcases hkept with rfl | hkept
  · have hshown := eq_append_of_splitOnce hsplit
    exact ⟨⟨_, text, text, hshown, hshown, hsplit, hsplit⟩, fun _ => rfl⟩
  · obtain ⟨linePrefix, _, text', hsplit', hcorrected⟩ := hkept.head
    rw [hsplit] at hsplit'
    cases hsplit'
    refine ⟨⟨_, text, text', eq_append_of_splitOnce hsplit, eq_append_of_splitOnce hcorrected,
      hsplit, hcorrected⟩, ?_⟩
    intro hsource
    exact hkept.vcText _ _ hsplit (contains_vcTextTag hsource _)

/-- Whatever the engine answers, an accepted correction of a masked transcript has its lines,
each with its time stamp, names and tags, chat messages unchanged and the same end. -/
theorem correction_keeps_structure (unicode : UnicodeClasses) {patterns : PiiPatterns}
    (hdocumented : patterns.Documented unicode) (tables : CaseTables) (engine : SummaryEngine)
    (segments : List TranscriptSegment) (speakers : Option (List (String × SpeakerProfile)))
    (prompt : List Char) (workdir reportChannelId : Option String)
    (bodies : List MaterializedLeakCheckBody) {transcript : List Char} {corrected : Corrected}
    (htranscript : transcript = (maskPii patterns (renderForSummary segments speakers)).text)
    (hok : correctTranscriptWithDiscordContext engine transcript prompt workdir reportChannelId
      patterns tables bodies = .ok corrected) :
    (lines transcript).length = (transcriptFields speakers segments).length ∧
      (lines corrected.text).length = (lines transcript).length ∧
      (∀ (i : ℕ) fields line line', (transcriptFields speakers segments)[i]? = some fields →
        (lines transcript)[i]? = some line → (lines corrected.text)[i]? = some line' →
        CorrectedLine fields line line') ∧
      trailingLineEndings corrected.text = trailingLineEndings transcript := by
  obtain ⟨⟨rows, hrows, hmasked⟩, -⟩ := mask_pii_keeps_lines unicode hdocumented segments speakers
  rw [← htranscript] at hrows
  subst hrows
  have hplain : ∀ row ∈ rows, PlainRow row := by
    intro row hrow
    obtain ⟨fields, hfields, hline⟩ := hmasked.exists_of_mem_right hrow
    exact plainRow_of_maskedLine (clean_of_mem_transcriptFields hfields) hline
  have hlines := lines_join_plain hplain
  obtain ⟨hopen, hkept⟩ := keptLines_of_correct hplain hok
  have hopen' : Unterminated (join ['\n'] rows) := unterminated_join_plain hplain
  have hboth : List.Forall₂ (fun line line' => line' = line ∨ KeptLine line line') rows
      (lines corrected.text) := by
    rcases hkept with hsame | hkept
    · rw [hsame, hlines]
      exact List.forall₂_same.mpr fun _ _ => .inl rfl
    · exact hkept.imp fun _ _ => .inr
  rw [hlines]
  refine ⟨hmasked.length_eq.symm, hboth.length_eq.symm, ?_, ?_⟩
  · intro i fields line line' hfields hline hline'
    exact correctedLine_of_kept (clean_of_mem_transcriptFields (List.mem_of_getElem? hfields))
      (hmasked.of_getElem? hfields hline) (hboth.of_getElem? hline hline')
  · rw [trailingLineEndings_eq_nil hopen, trailingLineEndings_eq_nil hopen']

/-- A word that is spoken and a word that is written. -/
def chattedWords : List TranscriptSegment :=
  [{ speakerId := "1", startMs := 0, endMs := 7, text := "a".toList },
    { speakerId := "1", startMs := 7, endMs := 9, text := "b".toList, source := .vcText }]

def chattedTranscript : List Char := "[0-7] 1: a\n[7-9] 1 [VC_TEXT]: b".toList

/-- An engine that answers with stray carriage returns and an empty line at the end. -/
def strayEngine : SummaryEngine where
  supportsTranscriptCorrection := true
  correctTranscript _ _ _ _ := .ok "[0-7] 1: A.\r\r\n[7-9] 1 [VC_TEXT]: b\r\n\n".toList

def asciiTables : CaseTables where
  isAlphanumeric := Char.isAlphanum
  toLowercase c := [c.toLower]
  lowercased text := text.map Char.toLower

def strayCorrected : Corrected where
  text := "[0-7] 1: A.\r\n[7-9] 1 [VC_TEXT]: b".toList
  requests := [startMarker ++ (chattedTranscript ++ endMarker)]

theorem strayEngine_corrects :
    correctTranscriptWithDiscordContext strayEngine chattedTranscript
      (startMarker ++ (chattedTranscript ++ endMarker)) none none asciiPatterns asciiTables [] =
        .ok strayCorrected :=
  Except.eq_ok_of_toOption (by decide +kernel)

theorem stray_answer_keeps_structure :
    (lines strayCorrected.text).length = (lines chattedTranscript).length ∧
      trailingLineEndings strayCorrected.text = trailingLineEndings chattedTranscript :=
  have hkept := correction_keeps_structure asciiClasses ⟨rfl, rfl, rfl, rfl⟩ asciiTables strayEngine
    chattedWords none _ none none [] (by decide +kernel) strayEngine_corrects
  ⟨hkept.2.1, hkept.2.2.2⟩

end DiscordTranscript.Application
