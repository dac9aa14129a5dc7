import DiscordTranscript.Application.LivePlacement

/-! # The clocks of the final transcript

Speech is placed relative to the start of the manifest, which is also the first sample of the
mixdown; messages of the voice channel are placed relative to the start of the meeting. The
same computation with base zero gives the wall-clock times of the speech.
-/

namespace DiscordTranscript.Application

open Audio Domain MachineInt TranscriptionAttempt

/-- A message of the voice channel with its wall-clock time. -/
structure VcTextMessage where
  speakerId : String
  timestampMs : ℤ
  text : List Char

/-- The difference, clipped to `i64`. -/
def saturatingSubI64 (left right : ℤ) : ℤ := max (-(2 ^ 63)) (min (left - right) (2 ^ 63 - 1))

def vcTextSegment (startedAtMs : ℤ) (message : VcTextMessage) : TranscriptSegment :=
  let startMs := (max (saturatingSubI64 message.timestampMs startedAtMs) 0).toNat
  { speakerId := message.speakerId
    startMs
    endMs := saturatingAdd u64Max startMs 1
    text := message.text
    confidence := none
    isNoisy := false
    source := .vcText
    mergedCount := 1 }

/-! ## Speech -/

/-- A live row of a staged chunk, relative to the start of the chunk's audio. -/
structure StagedRow (audio : MeetingAudio) where
  entry : AudioChunkManifestEntry
  segment : TranscriptSegment
  staged : entry ∈ audio.manifest
  heard : segment ∈ audio.chunkTranscript (manifestChunk entry)

/-- The row as it is loaded with a base. -/
def StagedRow.placed {audio : MeetingAudio} (baseMs : ℕ) (row : StagedRow audio) :
    TranscriptSegment :=
  LiveRuntime.reloaded (row.segment.delay (row.entry.startMs - baseMs))

section

variable (audio : MeetingAudio) (baseMs : ℕ) (completed : List ProcessedAudioChunk)

/-- What final ASR hears in the chunks that are not completed, relative to a base. -/
def remainingSpeech : List TranscriptSegment :=
  (audio.manifest.filter (manifestChunk · ∉ completed)).flatMap fun entry =>
    placeSegments (entry.asrInput baseMs) (audio.asr (manifestChunk entry))

/-- The speech handed to the last normalisation, from the live rows in the order they were
loaded in and the chunks that are not completed. -/
def speechSegments (rows : List (StagedRow audio)) : List TranscriptSegment :=
  let transcribed := normalizeSegments (sortTranscriptSegments
    (remainingSpeech audio baseMs completed))
  let live := rows.map (·.placed baseMs)
  if live.isEmpty then transcribed
  else normalizeSegments (sortTranscriptSegments (transcribed ++ live))

end

theorem sortTranscriptSegments_fits {offset : ℕ} {segments : List TranscriptSegment}
    (hfits : ∀ segment ∈ segments, segment.FitsAt offset) :
    ∀ segment ∈ sortTranscriptSegments segments, segment.FitsAt offset := by
  intro segment hsegment
  exact hfits segment ((List.perm_insertionSort _ _).mem_iff.mp hsegment)

section

variable {audio : MeetingAudio} {baseMs : ℕ} (completed : List ProcessedAudioChunk)
  (hbase : ∀ entry ∈ audio.manifest, baseMs ≤ entry.startMs)

include hbase

theorem fitsAt_remainingSpeech :
    ∀ segment ∈ remainingSpeech audio baseMs completed, segment.FitsAt baseMs := by
  intro segment hsegment
  obtain ⟨entry, hentry, hplaced⟩ := List.mem_flatMap.mp hsegment
  have hle := hbase entry (List.mem_of_mem_filter hentry)
  have hplace := placeSegments_asr audio (manifestChunk entry) entry.path.display
    (Nat.sub_le (manifestChunk entry).startMs baseMs)
  have hplaced : segment ∈ (audio.voiced (manifestChunk entry)).map
      (·.delay ((manifestChunk entry).startMs - baseMs)) := hplace ▸ hplaced
  obtain ⟨raw, hraw, rfl⟩ := List.mem_map.mp hplaced
  have hfits := audio.voiced_fits (manifestChunk entry) raw hraw
  have hstart : (manifestChunk entry).startMs = entry.startMs := rfl
  unfold TranscriptSegment.FitsAt TranscriptSegment.delay at *
  dsimp only
  omega

theorem StagedRow.fitsAt (row : StagedRow audio) : (row.placed baseMs).FitsAt baseMs := by
  have hle := hbase row.entry row.staged
  have hfits := audio.chunkTranscript_fits (manifestChunk row.entry) row.segment row.heard
  have hstart : (manifestChunk row.entry).startMs = row.entry.startMs := rfl
  unfold TranscriptSegment.FitsAt StagedRow.placed LiveRuntime.reloaded TranscriptSegment.delay at *
  dsimp only
  omega

theorem StagedRow.placed_delay (row : StagedRow audio) :
    (row.placed baseMs).delay baseMs = row.placed 0 := by
  have hle := hbase row.entry row.staged
  simp only [StagedRow.placed, LiveRuntime.reloaded, TranscriptSegment.delay]
  congr 1 <;> omega

/-- Moved back by the base, the speech that was placed is the speech at its wall-clock time. -/
theorem remainingSpeech_delay :
    (remainingSpeech audio baseMs completed).map (·.delay baseMs) =
      remainingSpeech audio 0 completed := by
  unfold remainingSpeech
  rw [List.map_flatMap]
  apply List.flatMap_congr
  intro entry hentry
  have hle := hbase entry (List.mem_of_mem_filter hentry)
  have hplaced := placeSegments_asr audio (manifestChunk entry) entry.path.display
    (Nat.sub_le (manifestChunk entry).startMs baseMs)
  have hwall := placeSegments_asr audio (manifestChunk entry) entry.path.display
    (Nat.sub_le (manifestChunk entry).startMs 0)
  have hstart : (manifestChunk entry).startMs = entry.startMs := rfl
  refine (congrArg (List.map (·.delay baseMs)) hplaced).trans (Eq.trans ?_ hwall.symm)
  rw [List.map_map]
  apply List.map_congr_left
  intro segment _
  simp only [Function.comp_apply, TranscriptSegment.delay_delay]
  congr 1
  omega

theorem speechSegments_delay (rows : List (StagedRow audio)) :
    (speechSegments audio baseMs completed rows).map (·.delay baseMs) =
      speechSegments audio 0 completed rows := by
  have hremaining := fitsAt_remainingSpeech completed hbase
  have hshift : (normalizeSegments (sortTranscriptSegments
      (remainingSpeech audio baseMs completed))).map (·.delay baseMs) =
      normalizeSegments (sortTranscriptSegments (remainingSpeech audio 0 completed)) := by
    rw [← normalizeSegments_delay (sortTranscriptSegments_fits hremaining),
      ← sortTranscriptSegments_delay hremaining, remainingSpeech_delay completed hbase]
  have hlive : (rows.map (·.placed baseMs)).map (·.delay baseMs) = rows.map (·.placed 0) := by
    rw [List.map_map]
    apply List.map_congr_left
    intro row _
    exact row.placed_delay hbase
  unfold speechSegments
  simp only [List.isEmpty_map]
  split
  · exact hshift
  · have hboth : ∀ segment ∈ normalizeSegments (sortTranscriptSegments
        (remainingSpeech audio baseMs completed)) ++ rows.map (·.placed baseMs),
        segment.FitsAt baseMs := by
      intro segment hsegment
      rcases List.mem_append.mp hsegment with hmem | hmem
      · exact fitsAt_normalizeSegments (sortTranscriptSegments_fits hremaining) segment hmem
      · obtain ⟨row, -, rfl⟩ := List.mem_map.mp hmem
        exact row.fitsAt hbase
    rw [← normalizeSegments_delay (sortTranscriptSegments_fits hboth),
      ← sortTranscriptSegments_delay hboth, List.map_append, hshift, hlive]

end

/-! ## Speech and messages -/

/-- The speech handed to the last normalisation with its wall-clock time: the same speech placed
with base zero. -/
def spokenSegments (audio : MeetingAudio) (completed : List ProcessedAudioChunk)
    (rows : List (StagedRow audio)) : List (TranscriptSegment × ℕ) :=
  (speechSegments audio (manifestMeetingStartMs audio.manifest) completed rows).zip
    ((speechSegments audio 0 completed rows).map (·.startMs))

/-- All segments are placed on one clock: between speech and messages lies the time that lay
between them, they are in the order in which they happened, and playing the mixdown from the
start of a segment reaches its moment. -/
structure SharedClock (audio : MeetingAudio) (completed : List ProcessedAudioChunk)
    (rows : List (StagedRow audio)) (startedAtMs : ℤ) (messages : List VcTextMessage) : Prop where
  apart : ∀ speech ∈ spokenSegments audio completed rows, ∀ message ∈ messages,
    ((vcTextSegment startedAtMs message).startMs : ℤ) - speech.1.startMs =
      message.timestampMs - speech.2
  ordered : ∀ speech ∈ spokenSegments audio completed rows, ∀ message ∈ messages,
    ((vcTextSegment startedAtMs message).startMs < speech.1.startMs ↔
      message.timestampMs < speech.2)
  speech_reached : ∀ speech ∈ spokenSegments audio completed rows,
    manifestMeetingStartMs audio.manifest + speech.1.startMs = speech.2
  message_reached : ∀ message ∈ messages,
    (manifestMeetingStartMs audio.manifest + (vcTextSegment startedAtMs message).startMs : ℤ) =
      message.timestampMs

theorem spokenSegments_reached {audio : MeetingAudio}
    (hpositive : ∀ entry ∈ audio.manifest, 0 < entry.startMs)
    (completed : List ProcessedAudioChunk) (rows : List (StagedRow audio)) :
    ∀ speech ∈ spokenSegments audio completed rows,
      manifestMeetingStartMs audio.manifest + speech.1.startMs = speech.2 := by
  intro speech hspeech
  unfold spokenSegments at hspeech
  rw [← speechSegments_delay completed
    (fun entry hentry => manifestMeetingStartMs_le hentry (hpositive entry hentry)) rows,
    List.map_map, ← List.map_prod_left_eq_zip] at hspeech
  obtain ⟨segment, -, rfl⟩ := List.mem_map.mp hspeech
  simp only [Function.comp_apply, TranscriptSegment.delay]
  omega

theorem manifestMeetingStartMs_pos {chunks : List AudioChunkManifestEntry} (hchunks : chunks ≠ [])
    (hpositive : ∀ chunk ∈ chunks, 0 < chunk.startMs) : 0 < manifestMeetingStartMs chunks := by
  obtain ⟨chunk, hchunk⟩ := List.exists_mem_of_ne_nil chunks hchunks
  have hmem : chunk.startMs ∈ (chunks.map (·.startMs)).filter (· > 0) :=
    List.mem_filter.mpr ⟨List.mem_map_of_mem hchunk, decide_eq_true (hpositive chunk hchunk)⟩
  rw [manifestMeetingStartMs]
  cases hmin : ((chunks.map (·.startMs)).filter (· > 0)).min? with
  | none =>
      rw [List.min?_eq_none_iff] at hmin
      rw [hmin] at hmem
      cases hmem
  | some least =>
      have hleast := (List.mem_filter.mp (List.min?_eq_some_iff.mp hmin).1).2
      simpa using hleast

/-- A message sent during the meeting is placed at its distance from the start of the meeting;
a difference that does not fit would have to end after the last time there is. -/
theorem vcTextSegment_startMs {startedAtMs : ℤ} {message : VcTextMessage}
    (hafter : startedAtMs ≤ message.timestampMs) :
    ((vcTextSegment startedAtMs message).startMs : ℤ) =
      min (message.timestampMs - startedAtMs) (2 ^ 63 - 1) := by
  simp only [vcTextSegment, saturatingSubI64]
  omega

/-- Speech and messages share one clock exactly if there are no messages or the first chunk
starts with the meeting. -/
theorem shared_clock_iff_started_with_first_chunk (audio : MeetingAudio)
    (hstaged : audio.manifest ≠ []) (hpositive : ∀ entry ∈ audio.manifest, 0 < entry.startMs)
    (completed : List ProcessedAudioChunk) (rows : List (StagedRow audio))
    {startedAtMs stoppedAtMs : ℤ}
    (hstopped : stoppedAtMs ≤ 2 ^ 63 - 1) {messages : List VcTextMessage}
    (hsent : ∀ message ∈ messages,
      startedAtMs ≤ message.timestampMs ∧ message.timestampMs ≤ stoppedAtMs) :
    SharedClock audio completed rows startedAtMs messages ↔
      messages = [] ∨ startedAtMs = manifestMeetingStartMs audio.manifest := by
  have hspeech := spokenSegments_reached hpositive completed rows
  have horigin := manifestMeetingStartMs_pos hstaged hpositive
  constructor
  · intro hshared
    by_contra hneither
    obtain ⟨hmessages, hapart⟩ := not_or.mp hneither
    obtain ⟨message, hmessage⟩ := List.exists_mem_of_ne_nil messages hmessages
    obtain ⟨hafter, hbefore⟩ := hsent message hmessage
    have hreached := hshared.message_reached message hmessage
    rw [vcTextSegment_startMs hafter] at hreached
    omega
  · intro hcondition
    have hmessage : ∀ message ∈ messages,
        (manifestMeetingStartMs audio.manifest + (vcTextSegment startedAtMs message).startMs : ℤ) =
          message.timestampMs := by
      intro message hmem
      obtain ⟨hafter, hbefore⟩ := hsent message hmem
      rcases hcondition with hnone | hsame
      · rw [hnone] at hmem
        cases hmem
      · rw [vcTextSegment_startMs hafter]
        omega
    constructor
    · intro speech hmem message hsentMessage
      have hreached := hspeech speech hmem
      have := hmessage message hsentMessage
      omega
    · intro speech hmem message hsentMessage
      have hreached := hspeech speech hmem
      have := hmessage message hsentMessage
      omega
    · exact hspeech
    · exact hmessage

/-- "me too", sent while the second chunk of the meeting is spoken. -/
def meTooMessage : VcTextMessage := ⟨"u2", 5200, "me too".toList⟩

/-- The recorder hears the first speech as the meeting starts. -/
theorem prompt_meeting_shares_clock :
    SharedClock answerAudio [] [] 1000 [meTooMessage] :=
  (shared_clock_iff_started_with_first_chunk answerAudio (by decide) (by decide) [] []
    (by decide : (9000 : ℤ) ≤ 2 ^ 63 - 1) (by simp [meTooMessage])).mpr (.inr (by decide))

/-- The meeting starts 400 ms before its first chunk. Between the first words and the message
lie 4000 ms, in the transcript 4400 ms. -/
theorem silent_start_splits_clock :
    (∀ entry ∈ answerAudio.manifest, 0 < entry.startMs) ∧
      (600 : ℤ) ≤ manifestMeetingStartMs answerAudio.manifest ∧
      (600 : ℤ) ≤ meTooMessage.timestampMs ∧ meTooMessage.timestampMs ≤ 9000 ∧
      (∃ speech ∈ spokenSegments answerAudio [] [],
        meTooMessage.timestampMs - speech.2 = 4000 ∧
          ((vcTextSegment 600 meTooMessage).startMs : ℤ) - speech.1.startMs = 4400) ∧
      ¬SharedClock answerAudio [] [] 600 [meTooMessage] := by
  have hspoken : (spokenSegments answerAudio [] []).map (fun speech => (speech.1.startMs, speech.2)) =
      [(200, 1200), (4100, 5100)] := by decide +kernel
  obtain ⟨speech, hspeech, htimes⟩ := List.mem_map.mp (hspoken ▸ List.mem_cons_self)
  have hmessage : (vcTextSegment 600 meTooMessage).startMs = 4600 := by decide +kernel
  obtain ⟨hstart, hmoment⟩ := Prod.mk.inj htimes
  have hactual : meTooMessage.timestampMs - speech.2 = 4000 := by
    rw [hmoment]
    decide
  have hplaced : ((vcTextSegment 600 meTooMessage).startMs : ℤ) - speech.1.startMs = 4400 := by
    rw [hmessage, hstart]
    decide
  refine ⟨by decide, by decide, by decide, by decide, ⟨speech, hspeech, hactual, hplaced⟩, ?_⟩
  intro hshared
  have hapart := hshared.apart speech hspeech meTooMessage (by simp)
  omega

end DiscordTranscript.Application
