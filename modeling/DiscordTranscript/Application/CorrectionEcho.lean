import DiscordTranscript.Application.CorrectionFragments
import DiscordTranscript.Application.CorrectionPrompt
import DiscordTranscript.Application.CorrectionStructure
import DiscordTranscript.Domain.MaskingTwice

/-! # Nothing is lost between the requests

An engine that returns the transcript of every request unchanged gets the transcript back: the
cuts, the prompts and the checks neither drop nor double a character.
-/

namespace DiscordTranscript.Application

open Domain Text

/-! ## The engine -/

/-- The transcript of a request: what stands between its markers. -/
def requestTranscript (request : List Char) : List Char :=
  match splitOnce startMarker request with
  | none => []
  | some (_, rest) =>
      match splitOnce endMarker rest with
      | none => rest
      | some (shown, _) => shown

def echoEngine : SummaryEngine where
  supportsTranscriptCorrection := true
  correctTranscript _ request _ _ := .ok (requestTranscript request)

/-- The request for some text under the head of a prompt. -/
def requestFor (head text : List Char) : List Char := head ++ (startMarker ++ (text ++ endMarker))

/-- The marker behind the text is the first one. -/
def EndsAtMarker (text : List Char) : Prop :=
  splitOnce endMarker (text ++ endMarker) = some (text, [])

theorem requestTranscript_requestFor {head text : List Char} (hhead : Unmarked head)
    (htext : EndsAtMarker text) : requestTranscript (requestFor head text) = text := by
  unfold requestTranscript requestFor
  rw [splitOnce_startMarker hhead]
  dsimp only
  rw [htext]

theorem endsAtMarker_line {line : List Char} (hline : '\n' ∉ line) : EndsAtMarker line := by
  unfold EndsAtMarker
  rw [endMarker_eq]
  generalize "ND_UNTRUSTED_TRANSCRIPT".toList = marker
  have hfirst : splitOnce ('\n' :: 'E' :: marker) (line ++ ('\n' :: 'E' :: marker ++ [])) =
      some (line, []) := splitOnce_of_notMem hline []
  simpa using hfirst

/-- A line feed is followed by the bracket of the next line and not by the marker. -/
theorem endsAtMarker_join {rows : List (List Char)} (hrows : ∀ row ∈ rows, PlainRow row)
    (hheads : ∀ row ∈ rows, row.head? = some '[') : EndsAtMarker (join ['\n'] rows) := by
  induction rows with
  | nil => exact endsAtMarker_line (by simp [join])
  | cons row rows ih =>
      have hrow := hrows row List.mem_cons_self
      cases rows with
      | nil =>
          have hjoin : join ['\n'] [row] = row := by simp [join]
          rw [hjoin]
          exact endsAtMarker_line hrow.feed
      | cons next rest =>
          have hrest : EndsAtMarker (join ['\n'] (next :: rest)) :=
            ih (fun other hother => hrows other (List.mem_cons_of_mem _ hother))
              (fun other hother => hheads other (List.mem_cons_of_mem _ hother))
          have hjoin : join ['\n'] (row :: next :: rest) =
              row ++ '\n' :: join ['\n'] (next :: rest) := by
            simp only [join]
            rw [List.intercalate_cons_cons]
            simp
          have hopening : ∃ tail, join ['\n'] (next :: rest) = '[' :: tail := by
            obtain ⟨c, tail, hnext⟩ := List.exists_cons_of_ne_nil
              (hrows next (by simp)).nonempty
            have hc := hheads next (by simp)
            rw [hnext, List.head?_cons, Option.some.injEq] at hc
            cases rest with
            | nil => exact ⟨tail, by simp [join, hnext, hc]⟩
            | cons later rest =>
                refine ⟨tail ++ '\n' :: join ['\n'] (later :: rest), ?_⟩
                simp only [join]
                rw [List.intercalate_cons_cons, hnext, hc]
                simp
          obtain ⟨tail, htail⟩ := hopening
          unfold EndsAtMarker at hrest ⊢
          rw [hjoin, List.append_assoc, endMarker_eq, splitOnce_append_of_notMem hrow.feed,
            List.cons_append, splitOnce]
          rw [endMarker_eq] at hrest
          rw [hrest, htail]
          simp [List.isPrefixOf]

/-! ## Lines that pass the checks -/

/-- A line that the checks accept as it is. -/
structure ValidRow (row : List Char) : Prop where
  plain : PlainRow row
  opening : row.head? = some '['
  shown : ∃ linePrefix text, splitOnce ": ".toList row = some (linePrefix, text) ∧
    linePrefix.head? = some '[' ∧ ']' ∈ linePrefix

theorem ValidRow.transcriptLinePrefix {row linePrefix text : List Char} (hrow : ValidRow row)
    (hsplit : splitOnce ": ".toList row = some (linePrefix, text)) :
    transcriptLinePrefix row = some linePrefix := by
  obtain ⟨linePrefix', text', hsplit', hhead, hclosing⟩ := hrow.shown
  rw [hsplit] at hsplit'
  cases hsplit'
  unfold Application.transcriptLinePrefix
  rw [hsplit]
  simp [hhead, hclosing]

/-- The same prefix with another text. -/
theorem ValidRow.retarget {row linePrefix text : List Char} (hrow : ValidRow row)
    (hsplit : splitOnce ": ".toList row = some (linePrefix, text)) {other : List Char}
    (hother : other ⊆ row) : ValidRow (linePrefix ++ (": ".toList ++ other)) := by
  obtain ⟨linePrefix', text', hsplit', hhead, hclosing⟩ := hrow.shown
  rw [hsplit] at hsplit'
  cases hsplit'
  have hline := eq_append_of_splitOnce hsplit
  have hmem : ∀ c ∈ linePrefix ++ (": ".toList ++ other), c ∈ row := by
    intro c hc
    rcases List.mem_append.mp hc with hc | hc
    · rw [hline]
      exact List.mem_append_left _ hc
    · rcases List.mem_append.mp hc with hc | hc
      · rw [hline]
        exact List.mem_append_right _ (List.mem_append_left _ hc)
      · exact hother hc
  refine ⟨⟨fun hfeed => hrow.plain.feed (hmem _ hfeed),
    fun hreturn => hrow.plain.carriage (hmem _ hreturn), by simp⟩, ?_,
    linePrefix, other, splitOnce_retarget hsplit other, hhead, hclosing⟩
  rw [List.head?_append, hhead]
  rfl

theorem validateCorrectionLine_self {row : List Char} (hrow : ValidRow row) (number : ℕ) :
    validateCorrectionLine number row row = .ok () := by
  obtain ⟨linePrefix, text, hsplit, -⟩ := hrow.shown
  simp [validateCorrectionLine, hrow.transcriptLinePrefix hsplit]

theorem validateCorrectionLines_self {rows : List (List Char)} (hrows : ∀ row ∈ rows, ValidRow row)
    (number : ℕ) : validateCorrectionLines number (rows.zip rows) = .ok () := by
  induction rows generalizing number with
  | nil => rfl
  | cons row rows ih =>
      rw [List.zip_cons_cons, validateCorrectionLines,
        validateCorrectionLine_self (hrows row List.mem_cons_self)]
      exact ih (fun other hother => hrows other (List.mem_cons_of_mem _ hother)) (number + 1)

theorem validateCorrectionOutput_self {rows : List (List Char)}
    (hrows : ∀ row ∈ rows, ValidRow row) :
    validateCorrectionOutput (join ['\n'] rows) (join ['\n'] rows) = .ok () := by
  have hplain : ∀ row ∈ rows, PlainRow row := fun row hrow => (hrows row hrow).plain
  unfold validateCorrectionOutput
  rw [trimLineEndings_eq_self (unterminated_join_plain hplain), lines_join_plain hplain]
  simp [validateCorrectionLines_self hrows]

/-! ## The run -/

section

variable {text endings head : List Char} {workdir reportChannelId : Option String}
  {state : CorrectionState}

/-- The engine answers with the request's own text. -/
theorem correctChunk_echo (htext : Unterminated text)
    (hendings : ∀ c ∈ endings, isLineEnding c = true) (hhead : Unmarked head)
    {rows : List (List Char)} (hrows : ∀ row ∈ rows, ValidRow row)
    (continuation : Option CorrectionContinuation) :
    correctChunk echoEngine (text ++ endings) (requestFor head (text ++ endings)) workdir
        reportChannelId state ⟨join ['\n'] rows, continuation⟩ =
      { state with requests := state.requests ++ [requestFor head (join ['\n'] rows)] }.accept
        ⟨join ['\n'] rows, continuation⟩ (join ['\n'] rows) := by
  have hshown : EndsAtMarker (join ['\n'] rows) :=
    endsAtMarker_join (fun row hrow => (hrows row hrow).plain) fun row hrow => (hrows row hrow).opening
  have hrequest : replacePromptTranscript (requestFor head (text ++ endings)) (text ++ endings)
      (join ['\n'] rows) = .ok (requestFor head (join ['\n'] rows)) :=
    replacePromptTranscript_built htext hendings hhead _
  have hanswer : requestTranscript (requestFor head (join ['\n'] rows)) = join ['\n'] rows :=
    requestTranscript_requestFor hhead hshown
  unfold correctChunk echoEngine
  simp only [hrequest, Except.bind, hanswer, validateCorrectionOutput_self hrows]

theorem correctChunk_echo_whole (htext : Unterminated text)
    (hendings : ∀ c ∈ endings, isLineEnding c = true) (hhead : Unmarked head)
    {rows : List (List Char)} (hrows : ∀ row ∈ rows, ValidRow row) :
    correctChunk echoEngine (text ++ endings) (requestFor head (text ++ endings)) workdir
        reportChannelId state ⟨join ['\n'] rows, none⟩ =
      .ok ⟨state.requests ++ [requestFor head (join ['\n'] rows)], state.correctedLines ++ rows,
        state.continuedLine⟩ := by
  have hplain : ∀ row ∈ rows, PlainRow row := fun row hrow => (hrows row hrow).plain
  rw [correctChunk_echo htext hendings hhead hrows]
  simp only [CorrectionState.accept]
  rw [trimLineEndings_eq_self (unterminated_join_plain hplain), lines_join_plain hplain]

theorem correctChunk_echo_fragment (htext : Unterminated text)
    (hendings : ∀ c ∈ endings, isLineEnding c = true) (hhead : Unmarked head)
    {linePrefix fragment separatorAfter : List Char} (startsLine endsLine : Bool)
    (hrow : ValidRow (linePrefix ++ (": ".toList ++ fragment))) :
    correctChunk echoEngine (text ++ endings) (requestFor head (text ++ endings)) workdir
        reportChannelId state ⟨linePrefix ++ (": ".toList ++ fragment),
          some ⟨linePrefix, startsLine, endsLine, separatorAfter⟩⟩ =
      .ok (if endsLine then
        ⟨state.requests ++ [requestFor head (linePrefix ++ (": ".toList ++ fragment))],
          state.correctedLines ++
            [(if startsLine then linePrefix ++ ": ".toList else state.continuedLine) ++
              (fragment ++ separatorAfter)], []⟩
      else
        ⟨state.requests ++ [requestFor head (linePrefix ++ (": ".toList ++ fragment))],
          state.correctedLines,
          (if startsLine then linePrefix ++ ": ".toList else state.continuedLine) ++
            (fragment ++ separatorAfter)⟩) := by
  have hrows : ∀ row ∈ [linePrefix ++ (": ".toList ++ fragment)], ValidRow row := by
    intro row hmem
    rw [List.mem_singleton.mp hmem]
    exact hrow
  have hjoin : join ['\n'] [linePrefix ++ (": ".toList ++ fragment)] =
      linePrefix ++ (": ".toList ++ fragment) := by
    simp [join]
  have hecho := @correctChunk_echo text endings head workdir reportChannelId state htext hendings
    hhead _ hrows (some ⟨linePrefix, startsLine, endsLine, separatorAfter⟩)
  rw [hjoin] at hecho
  rw [hecho]
  have hopen := unterminated_of_notMem hrow.plain.carriage hrow.plain.feed
  have hbody : (linePrefix ++ (": ".toList ++ fragment)).dropPrefix? (linePrefix ++ ": ".toList) =
      some fragment := by
    rw [List.dropPrefix?_eq_some_iff]
    exact ⟨linePrefix ++ ": ".toList, by simp, by simp⟩
  simp only [CorrectionState.accept]
  rw [trimLineEndings_eq_self hopen, hbody]
  dsimp only
  split <;> rfl

/-- The fragments of a line come back one behind the other. -/
theorem correctChunks_echo_fragments (htext : Unterminated text)
    (hendings : ∀ c ∈ endings, isLineEnding c = true) (hhead : Unmarked head)
    {linePrefix : List Char} {fragments : List (List Char × List Char)} {first lastIndex : ℕ}
    (hne : fragments ≠ []) (hlast : lastIndex = first + fragments.length - 1)
    (hrows : ∀ piece ∈ fragments, ValidRow (linePrefix ++ (": ".toList ++ piece.1))) :
    ((fragments.zipIdx first).map (fragmentChunk linePrefix lastIndex)).foldlM
        (correctChunk echoEngine (text ++ endings) (requestFor head (text ++ endings)) workdir
          reportChannelId) state =
      .ok ⟨state.requests ++
          fragments.map (fun piece => requestFor head (linePrefix ++ (": ".toList ++ piece.1))),
        state.correctedLines ++
          [(if first = 0 then linePrefix ++ ": ".toList else state.continuedLine) ++
            joinedFragments fragments], []⟩ := by
  induction fragments generalizing first state with
  | nil => exact absurd rfl hne
  | cons piece fragments ih =>
      obtain ⟨fragment, separatorAfter⟩ := piece
      have hrow := hrows (fragment, separatorAfter) List.mem_cons_self
      rw [List.zipIdx_cons, List.map_cons, List.foldlM_cons, fragmentChunk,
        correctChunk_echo_fragment htext hendings hhead _ _ hrow]
      cases fragments with
      | nil =>
          have hends : first = lastIndex := by simpa using hlast.symm
          simp only [List.length_cons, List.length_nil] at hlast
          simp [hends, joinedFragments, bind, Except.bind, pure, Except.pure]
      | cons later fragments =>
          simp only [List.length_cons] at hlast
          have hends : first ≠ lastIndex := by omega
          have hrest := @ih ⟨state.requests ++
              [requestFor head (linePrefix ++ (": ".toList ++ fragment))], state.correctedLines,
              (if first = 0 then linePrefix ++ ": ".toList else state.continuedLine) ++
                (fragment ++ separatorAfter)⟩ (first + 1) (List.cons_ne_nil _ _)
            (by rw [hlast, List.length_cons]; omega)
            fun piece hpiece => hrows piece (List.mem_cons_of_mem _ hpiece)
          simp only [decide_eq_true_eq, hends, if_false]
          refine Eq.trans hrest ?_
          simp [joinedFragments]

/-- The requests of some lines come back as the lines. -/
theorem correctChunks_echo (htext : Unterminated text)
    (hendings : ∀ c ∈ endings, isLineEnding c = true) (hhead : Unmarked head) {maxChars : ℕ}
    {chunks : List CorrectionChunk} {rows : List (List Char)}
    (hchunks : Chunked maxChars chunks rows) (hrows : ∀ row ∈ rows, ValidRow row) :
    ∃ continued, chunks.foldlM
        (correctChunk echoEngine (text ++ endings) (requestFor head (text ++ endings)) workdir
          reportChannelId) state =
      .ok ⟨state.requests ++ chunks.map (fun chunk => requestFor head chunk.input),
        state.correctedLines ++ rows, continued⟩ := by
  induction hchunks generalizing state with
  | nil => exact ⟨state.continuedLine, by simp [pure, Except.pure]⟩
  | @whole group later chunks _ _ _ _ ih =>
      have hfirst := @correctChunk_echo_whole text endings head workdir reportChannelId state htext
        hendings hhead group fun row hrow => hrows row (List.mem_append_left _ hrow)
      obtain ⟨continued, hrest⟩ := @ih ⟨state.requests ++ [requestFor head (join ['\n'] group)],
        state.correctedLines ++ group, state.continuedLine⟩
        fun row hrow => hrows row (List.mem_append_right _ hrow)
      refine ⟨continued, ?_⟩
      rw [List.foldlM_cons, hfirst]
      refine Eq.trans hrest ?_
      simp
  | @cut line linePrefix body fragments later chunks hline hroom hsplit _ ih =>
      have hrow := hrows line List.mem_cons_self
      obtain ⟨hlong, hshown⟩ := oversized_eq_some hline
      have htokens := fragments_of_splitTranscriptBody hsplit
      have hbody := eq_append_of_splitOnce hshown
      have hne : body ≠ [] := by
        rintro rfl
        rw [hbody] at hlong
        simp at hlong
        omega
      have hpieces : ∀ piece ∈ fragments, ValidRow (linePrefix ++ (": ".toList ++ piece.1)) := by
        intro piece hpiece
        apply hrow.retarget hshown
        intro c hc
        have hmem := (mem_joinedFragments hpiece).1 hc
        rw [htokens.joined] at hmem
        rw [hbody]
        exact List.mem_append_right _ (List.mem_append_right _ hmem)
      have hfirst := @correctChunks_echo_fragments text endings head workdir reportChannelId state
        htext hendings hhead linePrefix fragments 0 (fragments.length - 1)
        (htokens.ne_nil hne) (by rw [Nat.zero_add]) hpieces
      obtain ⟨continued, hrest⟩ := @ih ⟨state.requests ++ fragments.map (fun piece =>
          requestFor head (linePrefix ++ (": ".toList ++ piece.1))),
        state.correctedLines ++ [line], []⟩
        fun row hrow => hrows row (List.mem_cons_of_mem _ hrow)
      refine ⟨continued, ?_⟩
      rw [List.foldlM_append, continuationChunks_eq, hfirst, if_pos rfl, htokens.joined,
        List.append_assoc, ← hbody]
      refine Eq.trans hrest ?_
      have hinputs : (fragments.zipIdx.map (fragmentChunk linePrefix (fragments.length - 1))).map
          (fun chunk => requestFor head chunk.input) =
          fragments.map fun piece => requestFor head (linePrefix ++ (": ".toList ++ piece.1)) := by
        have hcompose : (fun chunk => requestFor head chunk.input) ∘
            fragmentChunk linePrefix (fragments.length - 1) =
            (fun piece : List Char × List Char =>
              requestFor head (linePrefix ++ (": ".toList ++ piece.1))) ∘ Prod.fst := rfl
        rw [List.map_map, hcompose, ← List.map_map, List.zipIdx_map_fst]
      simp [hinputs]

end

/-! ## Cutting succeeds -/

/-- The prefix of the line leaves room for a character of any size. -/
def LeavesRoom (maxChars : ℕ) (row : List Char) : Prop :=
  ∀ linePrefix, transcriptLinePrefix row = some linePrefix → linePrefix.length + 2 + 4 ≤ maxChars

theorem chunkLine_ok {maxChars : ℕ} {row : List Char} (hrow : ValidRow row)
    (hroom : LeavesRoom maxChars row) (state : Chunking) :
    ∃ next, chunkLine maxChars state row = .ok next := by
  unfold chunkLine
  split
  next linePrefix body hoversized =>
    have hlong := hroom linePrefix (hrow.transcriptLinePrefix (oversized_eq_some hoversized).2)
    obtain ⟨fragments, hfragments⟩ := splitTranscriptBody_eq_some body
      (show 4 ≤ maxChars - linePrefix.length - 2 by omega)
    rw [if_neg (by omega), hfragments]
    exact ⟨_, rfl⟩
  next =>
    split
    · exact ⟨_, rfl⟩
    · exact ⟨_, rfl⟩

theorem chunkLines_ok {maxChars : ℕ} {rows : List (List Char)}
    (hrows : ∀ row ∈ rows, ValidRow row ∧ LeavesRoom maxChars row) (state : Chunking) :
    ∃ final, rows.foldlM (chunkLine maxChars) state = .ok final := by
  induction rows generalizing state with
  | nil => exact ⟨state, rfl⟩
  | cons row rows ih =>
      obtain ⟨hrow, hroom⟩ := hrows row List.mem_cons_self
      obtain ⟨next, hnext⟩ := chunkLine_ok hrow hroom state
      obtain ⟨final, hfinal⟩ :=
        ih (fun other hother => hrows other (List.mem_cons_of_mem _ hother)) next
      exact ⟨final, by rw [List.foldlM_cons, hnext]; exact hfinal⟩

/-- A line of a transcript: a time stamp, names, tags and a cleaned text. -/
structure TranscriptRow (row : List Char) : Prop where
  form : ∃ (fields : LineFields) (names : List Char),
    row = fields.stamp ++ (names ++ fields.tags) ++ (": ".toList ++ fields.text) ∧
      '\n' ∉ names ∧ '\r' ∉ names ∧ cleanText fields.text = fields.text
  room : LeavesRoom 4000 row

theorem TranscriptRow.valid {row : List Char} (hrow : TranscriptRow row) : ValidRow row := by
  obtain ⟨fields, names, rfl, hfeed, hreturn, hclean⟩ := hrow.form
  have hending : ∀ c, isWhitespace c = true → c ≠ ' ' → c ∉ fields.text := by
    intro c hspace hne hmem
    rw [← hclean] at hmem
    exact hne (eq_space_of_mem_cleanText hmem hspace)
  have hnumbers : ∀ c, c.isDigit = false → c ∉ '[' :: '-' :: ']' :: [' '] → c ∉ fields.stamp := by
    intro c hdigit hother
    have hstart := notMem_decimal hdigit fields.startMs
    have hend := notMem_decimal hdigit fields.endMs
    simp only [List.mem_cons, List.not_mem_nil, or_false, not_or] at hother
    simp [LineFields.stamp, hstart, hend, hother]
  have htags : '\n' ∉ fields.tags ∧ '\r' ∉ fields.tags := by
    rcases tags_cases fields with htags | htags | htags | htags <;> rw [htags] <;> decide
  refine ⟨⟨?_, ?_, ?_⟩, ?_, ?_⟩
  · simp [hnumbers '\n' (by decide) (by decide), hfeed, htags.1,
      hending '\n' (by decide) (by decide)]
  · simp [hnumbers '\r' (by decide) (by decide), hreturn, htags.2,
      hending '\r' (by decide) (by decide)]
  · simp [LineFields.stamp]
  · simp [LineFields.stamp]
  · -- The time stamp has no colon, so that the first one is behind it.
    have hcontains := contains_append (names ++ fields.tags) ": ".toList fields.text
    unfold contains at hcontains
    obtain ⟨⟨before, after⟩, hsplit⟩ := Option.isSome_iff_exists.mp hcontains
    have hneedle : ": ".toList = ':' :: [' '] := rfl
    refine ⟨fields.stamp ++ before, after, ?_, ?_, ?_⟩
    · rw [List.append_assoc]
      rw [hneedle] at hsplit ⊢
      rw [splitOnce_append_of_notMem (colon_notMem_stamp fields), hsplit]
      rfl
    · simp [LineFields.stamp]
    · simp [LineFields.stamp]

/-! ## Lossless -/

/-- No placeholder that is shorter than the budget is divided between two fragments. -/
def PlaceholdersUncut (budget : ℕ) (body : List Char)
    (fragments : List (List Char × List Char)) : Prop :=
  ∀ before token after, body = before ++ ('[' :: token ++ [']'] ++ after) →
    isPlaceholderToken token = true → utf8Len ('[' :: token ++ [']']) < budget →
    ∃ front piece back first last, fragments = front ++ piece :: back ∧
      before = joinedFragments front ++ first ∧ piece.1 = first ++ ('[' :: token ++ [']'] ++ last)

theorem plainToken_of_isPlaceholderToken {token : List Char}
    (htoken : isPlaceholderToken token = true) : PlainToken ('[' :: token ++ [']']) token := by
  have hchars : ∀ c ∈ token, c.isUpper = true ∨ c.isDigit = true ∨ c = '_' := by
    unfold isPlaceholderToken at htoken
    split at htoken
    next => cases htoken
    next label underscore sequence hlast =>
      obtain ⟨hsplit, hunderscore, -⟩ := splitLast_some hlast
      rw [decide_eq_true_eq] at hunderscore
      simp only [Bool.and_eq_true, List.all_eq_true, Bool.or_eq_true] at htoken
      obtain ⟨⟨⟨-, hlabel⟩, -⟩, hsequence⟩ := htoken
      intro c hc
      rw [hsplit] at hc
      rcases List.mem_append.mp hc with hc | hc
      · rcases hlabel c hc with hupper | hdigit
        · exact .inl hupper
        · exact .inr (.inl hdigit)
      · rcases List.mem_cons.mp hc with rfl | hc
        · exact .inr (.inr hunderscore)
        · exact .inr (.inl (hsequence c hc))
  have hnot : ∀ c, c.isUpper = false → c.isDigit = false → c ≠ '_' → c ∉ token := by
    intro c hupper hdigit hunderscore hmem
    rcases hchars c hmem with h | h | h
    · rw [hupper] at h
      cases h
    · rw [hdigit] at h
      cases h
    · exact hunderscore h
  refine ⟨rfl, hnot '[' (by decide) (by decide) (by decide),
    hnot ']' (by decide) (by decide) (by decide), ?_⟩
  intro c hc
  rcases hchars c hc with hupper | hdigit | rfl
  · have hbounds : c.val ≥ 'A'.val ∧ c.val ≤ 'Z'.val := of_decide_eq_true hupper
    have hleast : 65 ≤ c.toNat := hbounds.1
    have hmost : c.toNat ≤ 90 := hbounds.2
    exact isWhitespace_of_visible (by omega) (by omega)
  · simp only [Char.isDigit, Bool.and_eq_true, decide_eq_true_eq, ge_iff_le,
      UInt32.le_iff_toNat_le] at hdigit
    have hleast : 48 ≤ c.toNat := hdigit.1
    have hmost : c.toNat ≤ 57 := hdigit.2
    exact isWhitespace_of_visible (by omega) (by omega)
  · decide

/-- What an echoed correction sends. -/
structure LosslessRequests (rows requests : List (List Char)) : Prop where
  size : ∀ request ∈ requests, (requestTranscript request).length ≤ 4000 ∨
    '\n' ∉ requestTranscript request
  whole : ∀ row ∈ rows, oversized 4000 row = none →
    ∃ request ∈ requests, row ∈ lines (requestTranscript request)
  cut : ∀ row ∈ rows, ∀ linePrefix body, oversized 4000 row = some (linePrefix, body) →
    ∃ fragments, splitTranscriptBody body (4000 - linePrefix.length - 2) = some fragments ∧
      joinedFragments fragments = body ∧
      (∀ piece ∈ fragments, ∃ request ∈ requests,
        requestTranscript request = linePrefix ++ (": ".toList ++ piece.1)) ∧
      PlaceholdersUncut (4000 - linePrefix.length - 2) body fragments

theorem Chunked.size {maxChars : ℕ} {chunks : List CorrectionChunk} {rows : List (List Char)}
    (hchunks : Chunked maxChars chunks rows) (hrows : ∀ row ∈ rows, ValidRow row) :
    ∀ chunk ∈ chunks, chunk.input.length ≤ maxChars ∨ '\n' ∉ chunk.input := by
  induction hchunks with
  | nil => simp
  | @whole group later chunks _ hsize _ _ ih =>
      intro chunk hchunk
      rcases List.mem_cons.mp hchunk with rfl | hchunk
      · rcases hsize with hsize | hsingle
        · exact .inl hsize
        · right
          obtain ⟨row, rfl⟩ := List.length_eq_one_iff.mp hsingle
          have hjoin : join ['\n'] [row] = row := by simp [join]
          rw [hjoin]
          exact (hrows row (by simp)).plain.feed
      · exact ih (fun row hrow => hrows row (List.mem_append_right _ hrow)) chunk hchunk
  | @cut line linePrefix body fragments later chunks _ hroom hsplit _ ih =>
      intro chunk hchunk
      rcases List.mem_append.mp hchunk with hchunk | hchunk
      · left
        rw [continuationChunks_eq] at hchunk
        obtain ⟨⟨piece, index⟩, hpiece, rfl⟩ := List.mem_map.mp hchunk
        have hfits := (fragments_of_splitTranscriptBody hsplit).length_le piece
          (List.fst_mem_of_mem_zipIdx hpiece)
        have hseparator : ": ".toList.length = 2 := rfl
        simp only [fragmentChunk, List.length_append, hseparator]
        omega
      · exact ih (fun row hrow => hrows row (List.mem_cons_of_mem _ hrow)) chunk hchunk

/-- A line that is not too long is in a request as it is. -/
theorem Chunked.exists_whole {maxChars : ℕ} {chunks : List CorrectionChunk}
    {rows : List (List Char)} (hchunks : Chunked maxChars chunks rows)
    (hrows : ∀ row ∈ rows, ValidRow row) {row : List Char} (hrow : row ∈ rows)
    (hshort : oversized maxChars row = none) :
    ∃ chunk ∈ chunks, row ∈ lines chunk.input := by
  induction hchunks with
  | nil => cases hrow
  | @whole group later chunks _ _ _ _ ih =>
      rcases List.mem_append.mp hrow with hrow | hrow
      · refine ⟨_, List.mem_cons_self, ?_⟩
        rw [lines_join_plain fun other hother => (hrows other (List.mem_append_left _ hother)).plain]
        exact hrow
      · obtain ⟨chunk, hchunk, hmem⟩ :=
          ih (fun other hother => hrows other (List.mem_append_right _ hother)) hrow
        exact ⟨chunk, List.mem_cons_of_mem _ hchunk, hmem⟩
  | cut hline _ _ _ ih =>
      rcases List.mem_cons.mp hrow with rfl | hrow
      · rw [hshort] at hline
        cases hline
      · obtain ⟨chunk, hchunk, hmem⟩ :=
          ih (fun other hother => hrows other (List.mem_cons_of_mem _ hother)) hrow
        exact ⟨chunk, List.mem_append_right _ hchunk, hmem⟩

/-- Every fragment of a line that is too long is in a request. -/
theorem Chunked.exists_cut {maxChars : ℕ} {chunks : List CorrectionChunk}
    {rows : List (List Char)} (hchunks : Chunked maxChars chunks rows) {row linePrefix body : List Char}
    (hrow : row ∈ rows) (hlong : oversized maxChars row = some (linePrefix, body)) :
    ∃ fragments, splitTranscriptBody body (maxChars - linePrefix.length - 2) = some fragments ∧
      ∀ piece ∈ fragments, ∃ chunk ∈ chunks,
        chunk.input = linePrefix ++ (": ".toList ++ piece.1) := by
  induction hchunks with
  | nil => cases hrow
  | @whole group later chunks _ _ hshort _ ih =>
      rcases List.mem_append.mp hrow with hrow | hrow
      · rw [hshort row hrow] at hlong
        cases hlong
      · obtain ⟨fragments, hfragments, hchunk⟩ := ih hrow
        refine ⟨fragments, hfragments, fun piece hpiece => ?_⟩
        obtain ⟨chunk, hmem, hinput⟩ := hchunk piece hpiece
        exact ⟨chunk, List.mem_cons_of_mem _ hmem, hinput⟩
  | @cut line linePrefix' body' fragments later chunks hline _ hsplit _ ih =>
      rcases List.mem_cons.mp hrow with rfl | hrow
      · rw [hlong] at hline
        cases hline
        refine ⟨fragments, hsplit, fun piece hpiece => ?_⟩
        obtain ⟨index, hindex⟩ := List.mem_iff_getElem?.mp hpiece
        have hmem := List.mk_mem_zipIdx_iff_getElem?.mpr hindex
        exact ⟨_, List.mem_append_left _ (List.mem_map.mpr ⟨_, hmem, rfl⟩), rfl⟩
      · obtain ⟨fragments', hfragments, hchunk⟩ := ih hrow
        refine ⟨fragments', hfragments, fun piece hpiece => ?_⟩
        obtain ⟨chunk, hmem, hinput⟩ := hchunk piece hpiece
        exact ⟨chunk, List.mem_append_right _ hmem, hinput⟩

theorem Chunked.endsAtMarker {maxChars : ℕ} {chunks : List CorrectionChunk}
    {rows : List (List Char)} (hchunks : Chunked maxChars chunks rows)
    (hrows : ∀ row ∈ rows, ValidRow row) : ∀ chunk ∈ chunks, EndsAtMarker chunk.input := by
  induction hchunks with
  | nil => simp
  | whole _ _ _ _ ih =>
      intro chunk hchunk
      rcases List.mem_cons.mp hchunk with rfl | hchunk
      · apply endsAtMarker_join
        · exact fun row hrow => (hrows row (List.mem_append_left _ hrow)).plain
        · exact fun row hrow => (hrows row (List.mem_append_left _ hrow)).opening
      · exact ih (fun row hrow => hrows row (List.mem_append_right _ hrow)) chunk hchunk
  | @cut line linePrefix body fragments later chunks hline _ hsplit _ ih =>
      intro chunk hchunk
      rcases List.mem_append.mp hchunk with hchunk | hchunk
      · rw [continuationChunks_eq] at hchunk
        obtain ⟨⟨piece, index⟩, hpiece, rfl⟩ := List.mem_map.mp hchunk
        have hjoined := (fragments_of_splitTranscriptBody hsplit).joined
        have hshown := (oversized_eq_some hline).2
        have hsubset : piece.1 ⊆ line := by
          intro c hc
          have hmem := (mem_joinedFragments (List.fst_mem_of_mem_zipIdx hpiece)).1 hc
          rw [hjoined] at hmem
          rw [eq_append_of_splitOnce hshown]
          exact List.mem_append_right _ (List.mem_append_right _ hmem)
        have hvalid := (hrows line List.mem_cons_self).retarget hshown hsubset
        exact endsAtMarker_line hvalid.plain.feed
      · exact ih (fun row hrow => hrows row (List.mem_cons_of_mem _ hrow)) chunk hchunk

theorem losslessRequests_of_chunked {head : List Char} (hhead : Unmarked head)
    {chunks : List CorrectionChunk} {rows : List (List Char)} (hchunks : Chunked 4000 chunks rows)
    (hrows : ∀ row ∈ rows, ValidRow row) :
    LosslessRequests rows (chunks.map fun chunk => requestFor head chunk.input) := by
  have hshown : ∀ chunk ∈ chunks,
      requestTranscript (requestFor head chunk.input) = chunk.input := fun chunk hchunk =>
    requestTranscript_requestFor hhead (hchunks.endsAtMarker hrows chunk hchunk)
  constructor
  · intro request hrequest
    obtain ⟨chunk, hchunk, rfl⟩ := List.mem_map.mp hrequest
    rw [hshown chunk hchunk]
    exact hchunks.size hrows chunk hchunk
  · intro row hrow hshort
    obtain ⟨chunk, hchunk, hmem⟩ := hchunks.exists_whole hrows hrow hshort
    refine ⟨_, List.mem_map.mpr ⟨chunk, hchunk, rfl⟩, ?_⟩
    rw [hshown chunk hchunk]
    exact hmem
  · intro row hrow linePrefix body hlong
    obtain ⟨fragments, hfragments, hsent⟩ := hchunks.exists_cut hrow hlong
    have hrounds := fragments_of_splitTranscriptBody hfragments
    refine ⟨fragments, hfragments, hrounds.joined, ?_, ?_⟩
    · intro piece hpiece
      obtain ⟨chunk, hchunk, hinput⟩ := hsent piece hpiece
      refine ⟨_, List.mem_map.mpr ⟨chunk, hchunk, rfl⟩, ?_⟩
      rw [hshown chunk hchunk, hinput]
    · intro before token after hbody htoken hfits
      exact hrounds.uncut (plainToken_of_isPlaceholderToken htoken) hfits.le hbody

theorem isWhitespace_of_trim_isEmpty {text : List Char} (hblank : (trim text).isEmpty = true) :
    ∀ c ∈ text, isWhitespace c = true := by
  have hnil : (text.dropWhile isWhitespace).rdropWhile isWhitespace = [] :=
    List.isEmpty_iff.mp hblank
  have hrest : ∀ c ∈ text.dropWhile isWhitespace, isWhitespace c = true :=
    List.rdropWhile_eq_nil_iff.mp hnil
  intro c hc
  rw [← List.takeWhile_append_dropWhile (p := isWhitespace) (l := text)] at hc
  rcases List.mem_append.mp hc with hc | hc
  · exact List.mem_takeWhile_imp hc
  · exact hrest c hc

/-- A transcript without visible characters has no lines. -/
theorem eq_nil_of_blank {rows : List (List Char)} {endings : List Char}
    (hrows : ∀ row ∈ rows, ValidRow row)
    (hblank : (trim (join ['\n'] rows ++ endings)).isEmpty = true) : rows = [] := by
  cases rows with
  | nil => rfl
  | cons row rows =>
      have hopening := (hrows row List.mem_cons_self).opening
      have hmem : '[' ∈ join ['\n'] (row :: rows) := by
        have hrow := List.mem_of_mem_head? hopening
        cases rows with
        | nil => simpa [join] using hrow
        | cons next rest =>
            simp only [join]
            rw [List.intercalate_cons_cons]
            simp [hrow]
      have hspace := isWhitespace_of_trim_isEmpty hblank '[' (List.mem_append_left _ hmem)
      cases hspace

/-- An engine that echoes every request gives the transcript back, and what it was sent is the
transcript in lines and fragments. -/
theorem echoed_correction_lossless {transcript endings : List Char} {rows : List (List Char)}
    (htranscript : transcript = join ['\n'] rows ++ endings)
    (hendings : ∀ c ∈ endings, isLineEnding c = true) (hrows : ∀ row ∈ rows, TranscriptRow row)
    {patterns : PiiPatterns} (hmasked : (maskPii patterns transcript).text = transcript)
    (tables : CaseTables) (language : Option String) (context : Option SummaryContextManifest)
    (workdir reportChannelId : Option String) :
    ∃ requests, correctTranscriptWithDiscordContext echoEngine transcript
        (buildCorrectionPromptWithContext transcript language context) workdir reportChannelId
        patterns tables [] = .ok { text := transcript, requests } ∧
      LosslessRequests rows requests := by
  have hvalid : ∀ row ∈ rows, ValidRow row := fun row hrow => (hrows row hrow).valid
  have hplain : ∀ row ∈ rows, PlainRow row := fun row hrow => (hvalid row hrow).plain
  have hopen := unterminated_join_plain hplain
  have hlines := lines_join_plain hplain
  subst htranscript
  unfold correctTranscriptWithDiscordContext buildCorrectionPromptWithContext
  by_cases hblank : (trim (join ['\n'] rows ++ endings)).isEmpty = true
  · have hnone := eq_nil_of_blank hvalid hblank
    rw [if_pos hblank]
    refine ⟨[], rfl, ?_⟩
    subst hnone
    exact ⟨by simp, by simp, by simp⟩
  · rw [if_neg hblank, if_neg hblank]
    have htrim := trimLineEndings_append hopen hendings
    obtain ⟨final, hfinal⟩ := chunkLines_ok
      (fun row hrow => ⟨hvalid row hrow, (hrows row hrow).room⟩) ({} : Chunking)
    have hchunks : correctionTranscriptChunks (join ['\n'] rows) 4000 = .ok final.flush.chunks := by
      rw [correctionTranscriptChunks, hlines, hfinal]
      rfl
    have hchunked := chunked_correctionTranscriptChunks
      (by rw [hlines]; exact fun row hrow => (hplain row hrow).nonempty) hchunks
    rw [hlines] at hchunked
    have hhead := unmarked_promptHead language context
    obtain ⟨continued, hrun⟩ := @correctChunks_echo (join ['\n'] rows) endings
      (promptHead language context) workdir reportChannelId {} hopen hendings hhead _ _ _ hchunked
      hvalid
    refine ⟨_, ?_, losslessRequests_of_chunked hhead hchunked hvalid⟩
    have hprompt : promptHead language context ++
        (startMarker ++ (join ['\n'] rows ++ endings ++ endMarker)) =
          requestFor (promptHead language context) (join ['\n'] rows ++ endings) := rfl
    rw [hprompt, htrim, hchunks]
    simp only [echoEngine] at hrun ⊢
    simp only [Bool.not_true, Bool.false_eq_true, if_false, Except.bind, hrun, Except.mapError]
    have htrailing : trailingLineEndings (join ['\n'] rows ++ endings) = endings := by
      rw [trailingLineEndings, htrim, List.drop_left]
    simp [summaryOutputVerbatimLeakInBodies, htrailing, hmasked]

def chattedRows : List (List Char) := ["[0-7] 1: a".toList, "[7-9] 1 [VC_TEXT]: b".toList]

theorem transcriptRow_chattedRows : ∀ row ∈ chattedRows, TranscriptRow row := by
  have hroom : ∀ row linePrefix : List Char, transcriptLinePrefix row = some linePrefix →
      linePrefix.length ≤ 3994 → LeavesRoom 4000 row := by
    intro row linePrefix hshown hlength other hother
    rw [hshown] at hother
    cases hother
    omega
  intro row hrow
  simp only [chattedRows, List.mem_cons, List.not_mem_nil, or_false] at hrow
  rcases hrow with rfl | rfl
  · exact ⟨⟨⟨0, 7, [], [], .voice, false, "a".toList⟩, "1".toList, by decide +kernel, by decide,
      by decide, by decide⟩, hroom _ "[0-7] 1".toList (by decide +kernel) (by decide)⟩
  · exact ⟨⟨⟨7, 9, [], [], .vcText, false, "b".toList⟩, "1".toList, by decide +kernel, by decide,
      by decide, by decide⟩, hroom _ "[7-9] 1 [VC_TEXT]".toList (by decide +kernel) (by decide)⟩

/-- A line with a token behind a long word. -/
def droningRow (word : List Char) : List Char :=
  "[7-9] kim: ".toList ++ (word ++ ' ' :: "[USER_1] b".toList)

def droningRows (word : List Char) : List (List Char) := chattedRows ++ [droningRow word]

section

variable {word : List Char}

theorem splitOnce_droningRow : splitOnce ": ".toList (droningRow word) =
    some ("[7-9] kim".toList, word ++ ' ' :: "[USER_1] b".toList) := rfl

theorem transcriptLinePrefix_droningRow :
    transcriptLinePrefix (droningRow word) = some "[7-9] kim".toList := by
  rw [Application.transcriptLinePrefix, splitOnce_droningRow]
  exact if_pos (by decide)

theorem oversized_droningRow (hlong : 3979 ≤ word.length) : oversized 4000 (droningRow word) =
    some ("[7-9] kim".toList, word ++ ' ' :: "[USER_1] b".toList) := by
  have hlength : (droningRow word).length = word.length + 22 := by
    unfold droningRow
    simp only [List.length_append, List.length_cons]
    have hstamp : "[7-9] kim: ".toList.length = 11 := by simp
    have htoken : "[USER_1] b".toList.length = 10 := by simp
    omega
  have hlonger : (droningRow word).length > 4000 := by omega
  have hoversized : (decide ((droningRow word).length > 4000) &&
      (transcriptLinePrefix (droningRow word)).isSome) = true := by
    rw [transcriptLinePrefix_droningRow, decide_eq_true hlonger]
    rfl
  rw [oversized, if_pos hoversized, splitOnce_droningRow]

theorem transcriptRow_droningRow (hword : ∀ c ∈ word, isWhitespace c = false) (hne : word ≠ []) :
    TranscriptRow (droningRow word) where
  form := by
    refine ⟨⟨7, 9, [], [], .voice, false, word ++ ' ' :: "[USER_1] b".toList⟩, "kim".toList, ?_,
      by decide, by decide, ?_⟩
    · have hstart : decimal 7 = "7".toList := by decide +kernel
      have hend : decimal 9 = "9".toList := by decide +kernel
      unfold droningRow LineFields.stamp LineFields.tags
      simp only [hstart, hend]
      simp
    · exact cleanText_append (cleanText_of_visible hword) (by decide +kernel) hne (by simp)
  room := by
    intro linePrefix hshown
    rw [transcriptLinePrefix_droningRow] at hshown
    cases hshown
    decide

theorem maskPii_droningRows (hat : '@' ∉ word) (hdigits : countDigits word = 0) :
    (maskPii asciiPatterns (join ['\n'] (droningRows word) ++ ['\n'])).text =
      join ['\n'] (droningRows word) ++ ['\n'] := by
  have haround : ∀ front back : List Char, '@' ∉ front ++ back → countDigits (front ++ back) < 10 →
      (maskPii asciiPatterns (front ++ (word ++ back))).text = front ++ (word ++ back) := by
    intro front back hedges hfew
    apply @maskPii_of_plain asciiClasses asciiPatterns ⟨rfl, rfl, rfl, rfl⟩
    · simp only [List.mem_append, not_or] at hedges ⊢
      exact ⟨hedges.1, hat, hedges.2⟩
    · simp only [countDigits, List.countP_append] at hdigits hfew ⊢
      omega
  have hjoin : ∀ first second stamp token : List Char,
      join ['\n'] ([first, second] ++ [stamp ++ (word ++ ' ' :: token)]) ++ ['\n'] =
        (first ++ '\n' :: (second ++ '\n' :: stamp)) ++ (word ++ (' ' :: token ++ ['\n'])) := by
    intro first second stamp token
    simp [join, List.intercalate_cons_cons]
  unfold droningRows chattedRows droningRow
  rw [hjoin]
  exact haround _ _ (by decide +kernel) (by decide +kernel)

end

def droningWord : List Char := List.replicate 3986 'a'

/-- Two short lines go out in one request, and a line with a token where its first fragment would
end in two. -/
theorem chat_echoed_lossless :
    (∃ body, oversized 4000 (droningRow droningWord) = some ("[7-9] kim".toList, body)) ∧
    ∃ requests, correctTranscriptWithDiscordContext echoEngine
        (join ['\n'] (droningRows droningWord) ++ ['\n'])
        (buildCorrectionPromptWithContext (join ['\n'] (droningRows droningWord) ++ ['\n'])
          (some "ja") none) none none asciiPatterns asciiTables [] =
          .ok { text := join ['\n'] (droningRows droningWord) ++ ['\n'], requests } ∧
      LosslessRequests (droningRows droningWord) requests := by
  have hvowel : ∀ c ∈ droningWord, c = 'a' := fun c hc => List.eq_of_mem_replicate hc
  have hlength : droningWord.length = 3986 := List.length_replicate
  refine ⟨⟨_, oversized_droningRow (le_of_le_of_eq (by decide) hlength.symm)⟩, ?_⟩
  apply echoed_correction_lossless rfl (List.forall_mem_singleton.mpr (by decide))
  · intro row hrow
    rcases List.mem_append.mp hrow with hrow | hrow
    · exact transcriptRow_chattedRows row hrow
    · rw [List.mem_singleton.mp hrow]
      apply transcriptRow_droningRow
      · intro c hc
        rw [hvowel c hc]
        decide
      · exact List.ne_nil_of_length_pos (lt_of_lt_of_eq (by decide) hlength.symm)
  · apply maskPii_droningRows
    · intro hmem
      cases hvowel '@' hmem
    · apply List.countP_eq_zero.mpr
      intro c hc
      rw [hvowel c hc]
      decide

end DiscordTranscript.Application
