import DiscordTranscript.Application.TranscriptCorrection

/-! # How a transcript is cut

The fragments of a body and the white space between them are the body. The requests of a
transcript are its lines in order: each is a group of lines, or a fragment of one line under its
prefix.
-/

namespace DiscordTranscript.Application

open Domain Text

/-! ## Fragments -/

theorem beforeUnclosed_isPrefix (window : List Char) : beforeUnclosed window <+: window := by
  unfold beforeUnclosed
  split
  next before opening inside hlast =>
    split
    · exact List.prefix_rfl
    · rw [(splitLast_some hlast).1]
      exact List.prefix_append _ _
  next => exact List.prefix_rfl

theorem cutAtSpace_isPrefix {window body : List Char} (hwindow : window <+: body) :
    (cutAtSpace window body).1 ++ (cutAtSpace window body).2 <+: body := by
  unfold cutAtSpace
  split
  next before space after hlast =>
    split
    · simpa using hwindow
    · obtain ⟨tail, rfl⟩ := hwindow
      rw [(splitLast_some hlast).1, List.append_assoc, List.drop_left]
      exact List.prefix_append_right_inj before |>.mpr (List.takeWhile_prefix _)
  next => simpa using hwindow

/-- A round takes the whole window, or what stands before a space of it. -/
theorem splitFragment_cases (budget : ℕ) (body : List Char) :
    splitFragment budget body = (takeBytes budget body, []) ∧
        (takeBytes budget body = body ∨
          (cutAtSpace (beforeUnclosed (takeBytes budget body)) body).1 = []) ∨
      splitFragment budget body = cutAtSpace (beforeUnclosed (takeBytes budget body)) body ∧
        (cutAtSpace (beforeUnclosed (takeBytes budget body)) body).1 ≠ [] := by
  by_cases hshort : (takeBytes budget body).length < body.length
  · by_cases hempty : (cutAtSpace (beforeUnclosed (takeBytes budget body)) body).1 = []
    · exact .inl ⟨by simp [splitFragment, hshort, hempty], .inr hempty⟩
    · exact .inr ⟨by simp [splitFragment, hshort, hempty], hempty⟩
  · have hwindow := takeBytes_prefix budget body
    have hwhole := hwindow.eq_of_length (Nat.le_antisymm hwindow.length_le (by omega))
    refine .inl ⟨?_, .inl hwhole⟩
    unfold splitFragment
    dsimp only
    rw [if_neg hshort]
    split <;> rfl

theorem splitFragment_isPrefix (budget : ℕ) (body : List Char) :
    (splitFragment budget body).1 ++ (splitFragment budget body).2 <+: body := by
  have hwindow := takeBytes_prefix budget body
  rcases splitFragment_cases budget body with ⟨hcut, -⟩ | ⟨hcut, -⟩
  · simpa [hcut] using hwindow
  · rw [hcut]
    exact cutAtSpace_isPrefix ((beforeUnclosed_isPrefix _).trans hwindow)

/-- What a round takes and what it leaves. -/
theorem splitFragment_append (budget : ℕ) (body : List Char) :
    (splitFragment budget body).1 ++ ((splitFragment budget body).2 ++
      body.drop ((splitFragment budget body).1.length + (splitFragment budget body).2.length)) =
        body := by
  have hsplit := List.prefix_iff_eq_append.mp (splitFragment_isPrefix budget body)
  rw [List.length_append, List.append_assoc] at hsplit
  exact hsplit

def joinedFragments (fragments : List (List Char × List Char)) : List Char :=
  fragments.flatMap fun fragment => fragment.1 ++ fragment.2

/-- Fragments that a loop makes of a body, round by round. -/
inductive Fragments (budget : ℕ) : List Char → List (List Char × List Char) → Prop
  | done : Fragments budget [] []
  | round {body rest : List Char} {fragments : List (List Char × List Char)} (hbody : body ≠ [])
      (hrest : body =
        (splitFragment budget body).1 ++ ((splitFragment budget body).2 ++ rest))
      (hlater : Fragments budget rest fragments) :
      Fragments budget body (splitFragment budget body :: fragments)

theorem fragments_of_splitRounds {budget rounds : ℕ} {body : List Char}
    {fragments : List (List Char × List Char)}
    (hsplit : splitRounds budget rounds body = some fragments) :
    Fragments budget body fragments := by
  induction rounds generalizing body fragments with
  | zero =>
      cases body with
      | nil =>
          cases hsplit
          exact .done
      | cons c rest => cases hsplit
  | succ rounds ih =>
      cases body with
      | nil =>
          cases hsplit
          exact .done
      | cons c rest =>
          obtain ⟨later, hlater, rfl⟩ := Option.map_eq_some_iff.mp hsplit
          exact .round (List.cons_ne_nil c rest) (splitFragment_append budget _).symm (ih hlater)

theorem fragments_of_splitTranscriptBody {budget : ℕ} {body : List Char}
    {fragments : List (List Char × List Char)}
    (hsplit : splitTranscriptBody body budget = some fragments) :
    Fragments budget body fragments :=
  fragments_of_splitRounds hsplit

theorem Fragments.joined {budget : ℕ} {body : List Char} {fragments : List (List Char × List Char)}
    (hfragments : Fragments budget body fragments) : joinedFragments fragments = body := by
  induction hfragments with
  | done => rfl
  | round _ hrest _ ih =>
      rw [joinedFragments, List.flatMap_cons] at *
      rw [ih, List.append_assoc]
      exact hrest.symm

theorem Fragments.ne_nil {budget : ℕ} {body : List Char} {fragments : List (List Char × List Char)}
    (hfragments : Fragments budget body fragments) (hbody : body ≠ []) : fragments ≠ [] := by
  cases hfragments with
  | done => exact absurd rfl hbody
  | round => exact List.cons_ne_nil _ _

theorem mem_joinedFragments {fragments : List (List Char × List Char)}
    {piece : List Char × List Char} (hpiece : piece ∈ fragments) :
    piece.1 ⊆ joinedFragments fragments ∧ piece.2 ⊆ joinedFragments fragments := by
  constructor
  · intro c hc
    exact List.mem_flatMap.mpr ⟨piece, hpiece, List.mem_append_left _ hc⟩
  · intro c hc
    exact List.mem_flatMap.mpr ⟨piece, hpiece, List.mem_append_right _ hc⟩

/-! ## Groups of lines -/

theorem oversized_eq_some {maxChars : ℕ} {line linePrefix body : List Char}
    (hoversized : oversized maxChars line = some (linePrefix, body)) :
    maxChars < line.length ∧ splitOnce ": ".toList line = some (linePrefix, body) := by
  unfold oversized at hoversized
  split at hoversized
  next hlong =>
    simp only [Bool.and_eq_true, decide_eq_true_eq] at hlong
    exact ⟨hlong.1, hoversized⟩
  next => cases hoversized

/-- The requests for a list of lines. -/
inductive Chunked (maxChars : ℕ) : List CorrectionChunk → List (List Char) → Prop
  | nil : Chunked maxChars [] []
  | whole {rows later : List (List Char)} {chunks : List CorrectionChunk} (hrows : rows ≠ [])
      (hsize : (join ['\n'] rows).length ≤ maxChars ∨ rows.length = 1)
      (hshort : ∀ row ∈ rows, oversized maxChars row = none)
      (hlater : Chunked maxChars chunks later) :
      Chunked maxChars (⟨join ['\n'] rows, none⟩ :: chunks) (rows ++ later)
  | cut {line linePrefix body : List Char} {fragments : List (List Char × List Char)}
      {later : List (List Char)} {chunks : List CorrectionChunk}
      (hline : oversized maxChars line = some (linePrefix, body))
      (hroom : linePrefix.length + 2 < maxChars)
      (hsplit : splitTranscriptBody body (maxChars - linePrefix.length - 2) = some fragments)
      (hlater : Chunked maxChars chunks later) :
      Chunked maxChars (continuationChunks linePrefix fragments ++ chunks) (line :: later)

theorem Chunked.append {maxChars : ℕ} {chunks others : List CorrectionChunk}
    {rows later : List (List Char)} (hchunks : Chunked maxChars chunks rows)
    (hothers : Chunked maxChars others later) :
    Chunked maxChars (chunks ++ others) (rows ++ later) := by
  induction hchunks with
  | nil => exact hothers
  | whole hrows hsize hshort _ ih =>
      rw [List.append_assoc]
      exact .whole hrows hsize hshort ih
  | cut hline hroom hsplit _ ih =>
      rw [List.append_assoc]
      exact .cut hline hroom hsplit ih

/-- The state of the chunking after some lines: those that are in requests and those that
are still gathered. -/
structure Gathered (maxChars : ℕ) (state : Chunking) (finished rows : List (List Char)) : Prop where
  chunked : Chunked maxChars state.chunks finished
  current : state.current = join ['\n'] rows
  size : rows = [] ∨ (join ['\n'] rows).length ≤ maxChars ∨ rows.length = 1
  short : ∀ row ∈ rows, oversized maxChars row = none
  nonempty : ∀ row ∈ rows, row ≠ []

theorem join_eq_nil {rows : List (List Char)} (hnonempty : ∀ row ∈ rows, row ≠ [])
    (hjoin : join ['\n'] rows = []) : rows = [] := by
  cases rows with
  | nil => rfl
  | cons row rows =>
      have hrow := hnonempty row List.mem_cons_self
      cases rows with
      | nil => simp [join, hrow] at hjoin
      | cons next rest => simp [join, hrow] at hjoin

theorem join_concat {rows : List (List Char)} (hrows : rows ≠ []) (row : List Char) :
    join ['\n'] (rows ++ [row]) = join ['\n'] rows ++ '\n' :: row := by
  induction rows with
  | nil => exact absurd rfl hrows
  | cons first rows ih =>
      cases rows with
      | nil => simp [join]
      | cons next rest =>
          have hrest := ih (List.cons_ne_nil next rest)
          simp only [join, List.cons_append] at hrest ⊢
          rw [List.intercalate_cons_cons, List.intercalate_cons_cons, hrest]
          simp

theorem Gathered.flush {maxChars : ℕ} {state : Chunking} {finished rows : List (List Char)}
    (hgathered : Gathered maxChars state finished rows) :
    Gathered maxChars state.flush (finished ++ rows) [] := by
  unfold Chunking.flush
  split
  next hempty =>
    have hrows : rows = [] := by
      apply join_eq_nil hgathered.nonempty
      rw [← hgathered.current]
      exact List.isEmpty_iff.mp hempty
    subst hrows
    rw [List.append_nil]
    exact ⟨hgathered.chunked, hgathered.current, .inl rfl, by simp, by simp⟩
  next hnonempty =>
    have hrows : rows ≠ [] := by
      intro hnil
      rw [hgathered.current, hnil] at hnonempty
      exact hnonempty rfl
    refine ⟨?_, rfl, .inl rfl, by simp, by simp⟩
    have hlast := Chunked.whole hrows (hgathered.size.resolve_left hrows) hgathered.short .nil
    rw [List.append_nil] at hlast
    rw [hgathered.current]
    exact hgathered.chunked.append hlast

theorem Gathered.push {maxChars : ℕ} {state : Chunking} {finished rows : List (List Char)}
    (hgathered : Gathered maxChars state finished rows) {line : List Char} (hline : line ≠ [])
    (hshort : oversized maxChars line = none)
    (hfits : rows = [] ∨ state.current.length + line.length + 1 ≤ maxChars) :
    Gathered maxChars (state.push line) finished (rows ++ [line]) := by
  have hall : ∀ row ∈ rows ++ [line], oversized maxChars row = none := by
    intro row hrow
    rcases List.mem_append.mp hrow with hrow | hrow
    · exact hgathered.short row hrow
    · rw [List.mem_singleton.mp hrow]
      exact hshort
  have hnonempty : ∀ row ∈ rows ++ [line], row ≠ [] := by
    intro row hrow
    rcases List.mem_append.mp hrow with hrow | hrow
    · exact hgathered.nonempty row hrow
    · rw [List.mem_singleton.mp hrow]
      exact hline
  by_cases hrows : rows = []
  · subst hrows
    have hcurrent : state.current = [] := hgathered.current
    refine ⟨hgathered.chunked, ?_, .inr (.inr rfl), hall, hnonempty⟩
    simp [Chunking.push, hcurrent, join]
  · have hcurrent : state.current ≠ [] := by
      rw [hgathered.current]
      exact fun hnil => hrows (join_eq_nil hgathered.nonempty hnil)
    have hjoin := join_concat hrows line
    refine ⟨hgathered.chunked, ?_, .inr (.inl ?_), hall, hnonempty⟩
    · simp only [Chunking.push, List.isEmpty_iff, if_neg hcurrent]
      rw [hjoin, hgathered.current]
    · have hlength := hfits.resolve_left hrows
      rw [hgathered.current] at hlength
      rw [hjoin, List.length_append, List.length_cons]
      omega

theorem gathered_chunkLine {maxChars : ℕ} {state next : Chunking}
    {finished rows : List (List Char)} {line : List Char}
    (hgathered : Gathered maxChars state finished rows) (hline : line ≠ [])
    (hnext : chunkLine maxChars state line = .ok next) :
    ∃ finished' rows', finished' ++ rows' = finished ++ rows ++ [line] ∧
      Gathered maxChars next finished' rows' := by
  unfold chunkLine at hnext
  split at hnext
  next linePrefix body hoversized =>
    obtain ⟨hroom, hnext⟩ := Except.ok_of_guard hnext
    split at hnext
    next => cases hnext
    next fragments hsplit =>
      cases hnext
      have hflushed := hgathered.flush
      have hcut := Chunked.cut hoversized (by omega) hsplit .nil
      rw [List.append_nil] at hcut
      refine ⟨finished ++ rows ++ [line], [], by simp, ?_, rfl, .inl rfl, by simp, by simp⟩
      exact hflushed.chunked.append hcut
  next hshort =>
    split at hnext
    next =>
      cases hnext
      exact ⟨finished ++ rows, [line], rfl, hgathered.flush.push hline hshort (.inl rfl)⟩
    next hfits =>
      cases hnext
      refine ⟨finished, rows ++ [line], by simp, hgathered.push hline hshort ?_⟩
      by_cases hcurrent : state.current = []
      · left
        apply join_eq_nil hgathered.nonempty
        rw [← hgathered.current, hcurrent]
      · right
        simpa [hcurrent] using hfits

theorem gathered_foldlM {maxChars : ℕ} {state final : Chunking}
    {finished rows todo : List (List Char)} (hgathered : Gathered maxChars state finished rows)
    (htodo : ∀ row ∈ todo, row ≠ []) (hrun : todo.foldlM (chunkLine maxChars) state = .ok final) :
    ∃ finished' rows', finished' ++ rows' = finished ++ rows ++ todo ∧
      Gathered maxChars final finished' rows' := by
  induction todo generalizing state finished rows with
  | nil =>
      cases hrun
      exact ⟨finished, rows, by simp, hgathered⟩
  | cons line todo ih =>
      obtain ⟨next, hnext, hrest⟩ := Except.bind_eq_ok.mp hrun
      obtain ⟨finished', rows', hsame, hgathered'⟩ :=
        gathered_chunkLine hgathered (htodo line List.mem_cons_self) hnext
      obtain ⟨finished'', rows'', hsame', hgathered''⟩ := ih hgathered'
        (fun row hrow => htodo row (List.mem_cons_of_mem _ hrow)) hrest
      refine ⟨finished'', rows'', ?_, hgathered''⟩
      rw [hsame', hsame]
      simp

theorem chunked_correctionTranscriptChunks {transcript : List Char} {maxChars : ℕ}
    {chunks : List CorrectionChunk} (hlines : ∀ line ∈ lines transcript, line ≠ [])
    (hchunks : correctionTranscriptChunks transcript maxChars = .ok chunks) :
    Chunked maxChars chunks (lines transcript) := by
  unfold correctionTranscriptChunks at hchunks
  cases hrun : (lines transcript).foldlM (chunkLine maxChars) {} with
  | error failure =>
      rw [hrun] at hchunks
      cases hchunks
  | ok final =>
      rw [hrun] at hchunks
      cases hchunks
      have hstart : Gathered maxChars {} [] [] := ⟨.nil, rfl, .inl rfl, by simp, by simp⟩
      obtain ⟨finished, rows, hsame, hgathered⟩ := gathered_foldlM hstart hlines hrun
      have hflushed := hgathered.flush.chunked
      rw [hsame] at hflushed
      exact hflushed

end DiscordTranscript.Application
