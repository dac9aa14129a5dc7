import DiscordTranscript.Application.LivePlacement

/-! # Every staged chunk is transcribed once

A summary attempt reads live rows and completed chunks in one section, so that the rows of a
chunk are there exactly if final ASR skips it. Live rows and final rows never exist together,
and what the final rows were built from says of each staged chunk what ASR says of it.
-/

namespace DiscordTranscript.Application

open Audio Domain Text TranscriptionAttempt

/-- The text ASR hears in a chunk: its segments with non-blank text, in timeline order. -/
def MeetingAudio.chunkText (audio : MeetingAudio) (chunk : ProcessedAudioChunk) : List Char :=
  join [' '] (((sortTranscriptSegments (audio.asr chunk)).filter
    fun segment => segment.text.any fun c => !isWhitespace c).map
      fun segment => cleanText segment.text)

/-- Of each staged chunk, what the segments say is what ASR heard. -/
def Whole (audio : MeetingAudio)
    (builtFrom : List (ProcessedAudioChunk × TranscriptSegment)) : Prop :=
  ∀ chunk ∈ audio.staged, spokenText (segmentsOf chunk builtFrom) = audio.chunkText chunk

/-! ## What is said of a chunk -/

/-- Neither the speaker nor the counter of merged segments matters for what is said. -/
theorem spokenText_map_same {same : TranscriptSegment → TranscriptSegment}
    (segments : List TranscriptSegment)
    (hsame : ∀ segment, (same segment).orderKey = segment.orderKey ∧
      (same segment).kept = segment.kept ∧ (same segment).text = segment.text) :
    spokenText (segments.map same) = spokenText segments := by
  have hsort : sortTranscriptSegments (segments.map same) =
      (sortTranscriptSegments segments).map same := by
    symm
    apply List.map_insertionSort
    intro left _ right _
    rw [(hsame left).1, (hsame right).1]
  have hfilter : (fun segment => (same segment).kept) = fun segment => segment.kept := by
    funext segment
    exact (hsame segment).2.1
  unfold spokenText
  rw [hsort, List.filter_map, Function.comp_def, hfilter, List.map_map]
  congr 1
  apply List.map_congr_left
  intro segment _
  simp only [Function.comp_apply, (hsame segment).2.2]

theorem spokenText_voiced (audio : MeetingAudio) (chunk : ProcessedAudioChunk) :
    spokenText (audio.voiced chunk) = audio.chunkText chunk := by
  have hvoiced : spokenText (audio.voiced chunk) = spokenText (audio.asr chunk) := by
    apply spokenText_map_same
    intro segment
    exact ⟨rfl, rfl, rfl⟩
  rw [hvoiced]
  unfold spokenText MeetingAudio.chunkText
  congr 2
  apply List.filter_congr
  intro segment hsegment
  have hmem := (List.perm_insertionSort _ _).mem_iff.mp hsegment
  unfold TranscriptSegment.kept
  rw [decide_eq_true (audio.asr_valid chunk segment hmem), Bool.and_true]

theorem spokenText_chunkTranscript (audio : MeetingAudio) (chunk : ProcessedAudioChunk)
    {offset : ℕ} (hoffset : offset ≤ chunk.startMs) :
    spokenText ((audio.chunkTranscript chunk).map fun segment =>
      LiveRuntime.reloaded (segment.delay offset)) = audio.chunkText chunk := by
  have hreloaded : spokenText (((audio.chunkTranscript chunk).map (·.delay offset)).map
      LiveRuntime.reloaded) = spokenText ((audio.chunkTranscript chunk).map (·.delay offset)) :=
    spokenText_map_same _ fun segment => ⟨rfl, rfl, rfl⟩
  rw [List.map_map] at hreloaded
  refine hreloaded.trans ?_
  rw [spokenText_delay fun segment hsegment =>
    (audio.chunkTranscript_fits chunk segment hsegment).mono hoffset]
  unfold MeetingAudio.chunkTranscript
  rw [spokenText_normalizeSegments (audio.voiced_range chunk), spokenText_voiced]

theorem spokenText_placeSegments (audio : MeetingAudio) (chunk : ProcessedAudioChunk)
    (path : String) {offset : ℕ} (hoffset : offset ≤ chunk.startMs) :
    spokenText (placeSegments ⟨chunk.speakerId, path, offset⟩ (audio.asr chunk)) =
      audio.chunkText chunk := by
  rw [placeSegments_asr audio chunk path hoffset,
    spokenText_delay (audio.voiced_fitsAt chunk hoffset), spokenText_voiced]

/-! ## Final ASR -/

theorem segmentsOf_flatMap (chunk : ProcessedAudioChunk)
    (segments : AudioChunkManifestEntry → List TranscriptSegment)
    (entries : List AudioChunkManifestEntry) :
    segmentsOf chunk (entries.flatMap fun entry =>
        (segments entry).map (manifestChunk entry, ·)) =
      (entries.filter (manifestChunk · = chunk)).flatMap segments := by
  induction entries with
  | nil => rfl
  | cons entry rest ih =>
      rw [List.flatMap_cons, segmentsOf_append, ih]
      by_cases hchunk : manifestChunk entry = chunk
      · rw [List.filter_cons_of_pos (by simpa using hchunk), List.flatMap_cons, hchunk,
          segmentsOf_map_self]
      · rw [List.filter_cons_of_neg (by simpa using hchunk), segmentsOf_map_other hchunk,
          List.nil_append]

theorem filter_manifestChunk {entries : List AudioChunkManifestEntry}
    (hnodup : (entries.map manifestChunk).Nodup) {entry : AudioChunkManifestEntry}
    (hentry : entry ∈ entries) :
    entries.filter (manifestChunk · = manifestChunk entry) = [entry] := by
  induction entries with
  | nil => cases hentry
  | cons first rest ih =>
      rw [List.map_cons, List.nodup_cons] at hnodup
      by_cases hfirst : manifestChunk first = manifestChunk entry
      · have hrest : rest.filter (manifestChunk · = manifestChunk entry) = [] := by
          rw [List.filter_eq_nil_iff]
          intro other hother hsame
          rw [decide_eq_true_eq, ← hfirst] at hsame
          exact hnodup.1 (hsame ▸ List.mem_map_of_mem hother)
        have heq : entry = first := by
          rcases List.mem_cons.mp hentry with heq | hmem
          · exact heq
          · exact absurd (hfirst ▸ List.mem_map_of_mem hmem) hnodup.1
        rw [List.filter_cons_of_pos (by simpa using hfirst), hrest, heq]
      · have hmem : entry ∈ rest := by
          rcases List.mem_cons.mp hentry with heq | hmem
          · exact absurd (congrArg manifestChunk heq.symm) hfirst
          · exact hmem
        rw [List.filter_cons_of_neg (by simpa using hfirst), ih hnodup.2 hmem]

namespace LiveRuntime

variable {audio : MeetingAudio}

theorem segmentsOf_finalAsrSegments_of_mem {completed : List ProcessedAudioChunk}
    {chunk : ProcessedAudioChunk} (hcompleted : chunk ∈ completed) :
    segmentsOf chunk (finalAsrSegments audio completed) = [] := by
  unfold finalAsrSegments
  rw [segmentsOf_flatMap, List.filter_filter]
  have hnone : audio.manifest.filter (fun entry =>
      decide (manifestChunk entry = chunk) && decide (manifestChunk entry ∉ completed)) = [] := by
    rw [List.filter_eq_nil_iff]
    intro entry _ hboth
    simp only [Bool.and_eq_true, decide_eq_true_eq] at hboth
    exact hboth.2 (hboth.1 ▸ hcompleted)
  rw [hnone]
  rfl

/-- A staged chunk that is not completed is transcribed, once. -/
theorem segmentsOf_finalAsrSegments (hstaged : audio.staged.Nodup)
    {completed : List ProcessedAudioChunk} {entry : AudioChunkManifestEntry}
    (hentry : entry ∈ audio.manifest) (hopen : manifestChunk entry ∉ completed) :
    segmentsOf (manifestChunk entry) (finalAsrSegments audio completed) =
      placeSegments (entry.asrInput (manifestMeetingStartMs audio.manifest))
        (audio.asr (manifestChunk entry)) := by
  unfold finalAsrSegments
  rw [segmentsOf_flatMap, List.filter_filter]
  have hone : audio.manifest.filter (fun other =>
      decide (manifestChunk other = manifestChunk entry) &&
        decide (manifestChunk other ∉ completed)) = [entry] := by
    rw [← filter_manifestChunk hstaged hentry]
    apply List.filter_congr
    intro other _
    by_cases hsame : manifestChunk other = manifestChunk entry
    · simp [hsame, hopen]
    · simp [hsame]
  rw [hone]
  simp

/-! ## Attempts -/

/-- What an attempt holds is enough to build a whole transcript. -/
def AttemptSound (audio : MeetingAudio) : AttemptPhase → Prop
  | .starting => True
  | .recovered found => Whole audio found.builtFrom
  | .gathered live completed =>
      (∀ chunk ∈ completed, chunk ∈ audio.staged →
        spokenText (segmentsOf chunk live) = audio.chunkText chunk) ∧
        ∀ chunk ∉ completed, segmentsOf chunk live = []
  | .transcribed result => Whole audio result.builtFrom

theorem mem_loadCompleted {runtime : LiveRuntime} {chunk : ProcessedAudioChunk} :
    chunk ∈ runtime.loadCompletedLiveTranscriptionChunks ↔ Completed runtime.outbox chunk := by
  simp only [loadCompletedLiveTranscriptionChunks, Completed, List.mem_map, List.mem_filter,
    decide_eq_true_eq]
  constructor
  · rintro ⟨row, ⟨hrow, hdone⟩, hchunk⟩
    exact ⟨row, hrow, hchunk, hdone⟩
  · rintro ⟨row, hrow, hchunk, hdone⟩
    exact ⟨row, ⟨hrow, hdone⟩, hchunk⟩

theorem manifestMeetingStartMs_le_staged (hpositive : ∀ entry ∈ audio.manifest, 0 < entry.startMs)
    {chunk : ProcessedAudioChunk} (hchunk : chunk ∈ audio.staged) :
    manifestMeetingStartMs audio.manifest ≤ chunk.startMs := by
  obtain ⟨entry, hentry, rfl⟩ := List.mem_map.mp hchunk
  exact manifestMeetingStartMs_le hentry (hpositive entry hentry)

/-- Live rows and completed chunks of one section fit together. -/
theorem attemptSound_gatherLive {runtime : LiveRuntime}
    {assigned : List (ProcessedAudioChunk × ℕ)} (hrecorded : runtime.Recorded audio assigned)
    (hpositive : ∀ entry ∈ audio.manifest, 0 < entry.startMs) (liveFailed completedFailed : Bool) :
    AttemptSound audio (runtime.gatherLive audio liveFailed completedFailed) := by
  have hnothing : AttemptSound audio (.gathered [] []) := by
    refine ⟨?_, fun chunk _ => rfl⟩
    intro chunk hchunk
    cases hchunk
  cases liveFailed with
  | true => exact hnothing
  | false =>
      cases completedFailed with
      | true =>
          have hgather : runtime.gatherLive audio false true = .gathered [] [] := by
            simp [gatherLive]
          rw [hgather]
          exact hnothing
      | false =>
          simp only [gatherLive, Bool.false_eq_true, if_false, Bool.or_false]
          split
          next => exact hnothing
          next hloaded =>
            -- There is a live row, so there are no final rows.
            have hfinal : runtime.final = none := by
              by_contra hsome
              have hlive := hrecorded.final hsome
              simp [loadLiveTranscriptSegments, hlive] at hloaded
            constructor
            · intro chunk hcompleted hstaged
              rw [hrecorded.loaded_eq (mem_loadCompleted.mp hcompleted) hfinal
                (manifestMeetingStartMs_le_staged hpositive hstaged)]
              exact spokenText_chunkTranscript audio chunk (Nat.sub_le _ _)
            · intro chunk hopen
              have hnot : ¬Completed runtime.outbox chunk :=
                fun hdone => hopen (mem_loadCompleted.mpr hdone)
              rw [segmentsOf_loadLive, completedBase_eq_none hnot]
              simp [sortTranscriptSegments]

/-- A chunk is heard through its live rows or through final ASR, never both. -/
theorem whole_transcribeGathered (hstaged : audio.staged.Nodup)
    {live : List (ProcessedAudioChunk × TranscriptSegment)} {completed : List ProcessedAudioChunk}
    (hsound : AttemptSound audio (.gathered live completed)) (vcText : List TranscriptSegment) :
    Whole audio (transcribeGathered audio live completed vcText).builtFrom := by
  intro chunk hchunk
  obtain ⟨hheard, hunheard⟩ := hsound
  simp only [transcribeGathered, segmentsOf_append]
  by_cases hcompleted : chunk ∈ completed
  · rw [segmentsOf_finalAsrSegments_of_mem hcompleted, List.append_nil]
    exact hheard chunk hcompleted hchunk
  · obtain ⟨entry, hentry, rfl⟩ := List.mem_map.mp hchunk
    rw [hunheard _ hcompleted, segmentsOf_finalAsrSegments hstaged hentry hcompleted,
      List.nil_append]
    exact spokenText_placeSegments audio (manifestChunk entry) entry.path.display
      (Nat.sub_le _ _)

theorem attemptSound_transcribe (hstaged : audio.staged.Nodup) {phase : AttemptPhase}
    (hsound : AttemptSound audio phase) (vcText : List TranscriptSegment) :
    AttemptSound audio (transcribe audio phase vcText) := by
  cases phase with
  | starting => trivial
  | recovered found => exact hsound
  | gathered live completed => exact whole_transcribeGathered hstaged hsound vcText
  | transcribed result => exact hsound

/-! ## Runs -/

/-- The attempt can build a whole transcript, and the final rows are one. -/
structure Transcribes (audio : MeetingAudio) (runtime : LiveRuntime) : Prop where
  attempt : ∀ phase, runtime.attempt = some phase → AttemptSound audio phase
  final : ∀ found, runtime.final = some found → Whole audio found.builtFrom

theorem transcribes_initial (audio : MeetingAudio) : Transcribes audio {} where
  attempt := by simp
  final := by simp

variable {runtime next : LiveRuntime}

/-- A step of live transcription. -/
theorem Transcribes.frame (htranscribes : runtime.Transcribes audio)
    (hattempt : next.attempt = runtime.attempt ∨ next.attempt = none)
    (hfinal : next.final = runtime.final) : next.Transcribes audio := by
  constructor
  · intro phase hphase
    rcases hattempt with hsame | hnone
    · exact htranscribes.attempt phase (hsame ▸ hphase)
    · rw [hnone] at hphase
      cases hphase
  · intro found hfound
    exact htranscribes.final found (hfinal ▸ hfound)

theorem Transcribes.withAttempt (htranscribes : runtime.Transcribes audio) {phase : AttemptPhase}
    (hphase : AttemptSound audio phase) :
    ({ runtime with attempt := some phase } : LiveRuntime).Transcribes audio := by
  constructor
  · intro other hother
    cases hother
    exact hphase
  · exact htranscribes.final

theorem Transcribes.persisted (htranscribes : runtime.Transcribes audio) {result : FinalTranscript}
    (hwhole : Whole audio result.builtFrom) (commit : Commit) :
    (runtime.persistTranscriptSegments result commit).Transcribes audio := by
  unfold persistTranscriptSegments
  split
  · constructor
    · exact htranscribes.attempt
    · intro found hfound
      cases hfound
      exact hwhole
  · exact htranscribes

theorem Transcribes.step (htranscribes : runtime.Transcribes audio)
    {assigned : List (ProcessedAudioChunk × ℕ)} (hrecorded : runtime.Recorded audio assigned)
    (hstaged : audio.staged.Nodup) (hpositive : ∀ entry ∈ audio.manifest, 0 < entry.startMs)
    (input : LiveStep) : (runtime.step audio input).Transcribes audio := by
  cases input with
  | completeWrite chunk batchBaseStartMs => exact htranscribes.frame (.inl rfl) rfl
  | persistQueued index commit lastAttempt =>
      simp only [LiveRuntime.step]
      split <;> exact htranscribes.frame (.inl rfl) rfl
  | restart => exact htranscribes.frame (.inr rfl) rfl
  | recover => exact htranscribes.frame (.inl rfl) rfl
  | quarantine chunk => exact htranscribes.frame (.inl rfl) rfl
  | claim chunk commit =>
      simp only [LiveRuntime.step, claimLiveTranscriptionJob]
      split <;> exact htranscribes.frame (.inl rfl) rfl
  | admitJob index statusAllows =>
      simp only [LiveRuntime.step]
      split
      · unfold admitJob
        split <;> exact htranscribes.frame (.inl rfl) rfl
      · exact htranscribes
  | infer index outcome =>
      simp only [LiveRuntime.step]
      split <;> exact htranscribes.frame (.inl rfl) rfl
  | write index statusAllows commit =>
      simp only [LiveRuntime.step]
      split
      · unfold writeJob
        dsimp only
        repeat' split
        all_goals exact htranscribes.frame (.inl rfl) rfl
      · exact htranscribes
  | markFailed index commit =>
      simp only [LiveRuntime.step]
      split
      · split <;> exact htranscribes.frame (.inl rfl) rfl
      · exact htranscribes
  | requeue index stored =>
      simp only [LiveRuntime.step]
      split <;> exact htranscribes.frame (.inl rfl) rfl
  | beginAttempt loadFailed =>
      simp only [LiveRuntime.step]
      split
      next found hfound =>
        apply htranscribes.withAttempt
        split
        · trivial
        · exact htranscribes.final found hfound
      next => exact htranscribes.withAttempt trivial
  | loadLive liveFailed completedFailed =>
      simp only [LiveRuntime.step]
      split
      · exact htranscribes.withAttempt
          (attemptSound_gatherLive hrecorded hpositive liveFailed completedFailed)
      · exact htranscribes
  | transcribe vcText =>
      simp only [LiveRuntime.step]
      cases hphase : runtime.attempt with
      | none => exact htranscribes.frame (.inr rfl) rfl
      | some phase =>
          exact htranscribes.withAttempt
            (attemptSound_transcribe hstaged (htranscribes.attempt phase hphase) vcText)
  | persist commit =>
      simp only [LiveRuntime.step]
      split
      next result hresult =>
        exact htranscribes.persisted (htranscribes.attempt _ hresult) commit
      next => exact htranscribes
  | endAttempt => exact htranscribes.frame (.inr rfl) rfl

end LiveRuntime

/-- In every run in which each chunk completes once: whenever final rows exist, what they were
built from says of every staged chunk what ASR heard in it, once. -/
theorem staged_chunks_transcribed_once (audio : MeetingAudio) (hstaged : audio.staged.Nodup)
    (hpositive : ∀ entry ∈ audio.manifest, 0 < entry.startMs) {inputs : List LiveStep}
    (honce : (inputs.filterMap LiveStep.completedChunk).Nodup) {found : FinalTranscript}
    (hfinal : (Machine.run (LiveRuntime.step audio) {} inputs).final = some found) :
    Whole audio found.builtFrom := by
  have htranscribes : (Machine.run (LiveRuntime.step audio) {} inputs).Transcribes audio := by
    clear hfinal
    induction inputs using List.reverseRecOn with
    | nil => exact LiveRuntime.transcribes_initial audio
    | append_singleton done input ih =>
        have hdone : (done.filterMap LiveStep.completedChunk).Nodup := by
          rw [List.filterMap_append, List.nodup_append] at honce
          exact honce.1
        obtain ⟨assigned, -, hrecorded⟩ := LiveRuntime.recorded_run audio hdone
        rw [Machine.run_append]
        exact (ih hdone).step hrecorded hstaged hpositive input
  exact htranscribes.final found hfinal

/-- The second chunk is done live, the first is left to final ASR. -/
def answerSummaryRun : List LiveStep :=
  answerRun ++ [LiveStep.beginAttempt false, .loadLive false false, .transcribe [], .persist .committed]

theorem answer_transcribed_once :
    (∀ found, (Machine.run (LiveRuntime.step answerAudio) {} answerSummaryRun).final = some found →
      Whole answerAudio found.builtFrom) ∧
      (Machine.run (LiveRuntime.step answerAudio) {} answerSummaryRun).final.map
        (fun found => spokenText found.segments) = some "ready? yes".toList := by
  constructor
  · intro found hfinal
    exact staged_chunks_transcribed_once answerAudio (by decide) (by decide) (by decide) hfinal
  · decide +kernel

/-- The same meeting, its first chunk written while the clock read a time before the epoch. -/
def clocklessAudio : MeetingAudio where
  manifest := [answerEntry 0 0, answerEntry 1 5000]
  asr := fun chunk =>
    if chunk = ⟨"u1", 0, 0⟩ then
      [{ speakerId := "", startMs := 200, endMs := 700, text := " ready? ".toList }]
    else if chunk = ⟨"u1", 1, 5000⟩ then
      [{ speakerId := "", startMs := 100, endMs := 800, text := "yes".toList }]
    else []
  asr_valid := by
    intro chunk segment hsegment
    split at hsegment
    · rw [List.mem_singleton.mp hsegment]
      simp
    · split at hsegment
      · rw [List.mem_singleton.mp hsegment]
        simp
      · cases hsegment
  asr_fits := by
    intro chunk segment hsegment
    split at hsegment
    next hchunk =>
      rw [List.mem_singleton.mp hsegment, hchunk]
      simp [TranscriptSegment.FitsAt, i64Max]
    next =>
      split at hsegment
      next hchunk =>
        rw [List.mem_singleton.mp hsegment, hchunk]
        simp [TranscriptSegment.FitsAt, i64Max]
      next => cases hsegment

/-- The first chunk is done live, the second is left to final ASR. -/
def clocklessRun : List LiveStep :=
  [.completeWrite ⟨"u1", 0, 0⟩ 0, .persistQueued 0 .committed false,
   .claim ⟨"u1", 0, 0⟩ .committed, .admitJob 0 (some true), .infer 0 .ok,
   .write 0 (some true) .committed, .completeWrite ⟨"u1", 1, 5000⟩ 5000,
   .beginAttempt false, .loadLive false false, .transcribe [], .persist .committed]

/-- The final base skips starts at 0, so the live rows of such a chunk are clipped to an empty
interval and dropped, while the chunk counts as completed. -/
theorem clockless_chunk_lost :
    clocklessAudio.staged.Nodup ∧ (clocklessRun.filterMap LiveStep.completedChunk).Nodup ∧
      ∃ found, (Machine.run (LiveRuntime.step clocklessAudio) {} clocklessRun).final = some found ∧
        spokenText found.segments = "yes".toList ∧ ¬Whole clocklessAudio found.builtFrom := by
  refine ⟨by decide, by decide, ?_⟩
  have hspoken : (Machine.run (LiveRuntime.step clocklessAudio) {} clocklessRun).final.map
      (fun found => (spokenText found.segments,
        spokenText (segmentsOf ⟨"u1", 0, 0⟩ found.builtFrom))) = some ("yes".toList, []) := by
    decide +kernel
  obtain ⟨found, hfound, heq⟩ := Option.map_eq_some_iff.mp hspoken
  obtain ⟨hrows, hlost⟩ := Prod.mk.inj heq
  refine ⟨found, hfound, hrows, fun hwhole => ?_⟩
  have hheard : clocklessAudio.chunkText ⟨"u1", 0, 0⟩ = "ready?".toList := by decide +kernel
  have hchunk := hwhole ⟨"u1", 0, 0⟩ (by decide)
  rw [hlost, hheard] at hchunk
  exact absurd hchunk (by decide)

end DiscordTranscript.Application
