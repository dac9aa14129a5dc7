import DiscordTranscript.Application.LiveOutbox
import DiscordTranscript.Foundation.OrderedList

/-! # Where live speech lies on the timeline

Live rows are written relative to the base of their chunk and moved to the start of the
manifest when they are loaded. No subtraction or addition on the way is clipped, so that the
speech lies where final transcription of the same chunk would put it.
-/

namespace DiscordTranscript.Application

open Audio Domain MachineInt Text TranscriptionAttempt

/-- What ASR says of the chunk, under the chunk's speaker. -/
def MeetingAudio.voiced (audio : MeetingAudio) (chunk : ProcessedAudioChunk) :
    List TranscriptSegment :=
  (audio.asr chunk).map fun segment => { segment with speakerId := chunk.speakerId }

/-- The normalised transcript of a chunk, relative to the start of its audio. -/
def MeetingAudio.chunkTranscript (audio : MeetingAudio) (chunk : ProcessedAudioChunk) :
    List TranscriptSegment :=
  normalizeSegments (audio.voiced chunk)

section

variable (audio : MeetingAudio) (chunk : ProcessedAudioChunk)

theorem MeetingAudio.voiced_fits :
    ∀ segment ∈ audio.voiced chunk, segment.FitsAt chunk.startMs := by
  intro segment hsegment
  obtain ⟨raw, hraw, rfl⟩ := List.mem_map.mp hsegment
  exact audio.asr_fits chunk raw hraw

theorem placeSegments_asr {offset : ℕ} (path : String) (hoffset : offset ≤ chunk.startMs) :
    placeSegments ⟨chunk.speakerId, path, offset⟩ (audio.asr chunk) =
      (audio.voiced chunk).map (·.delay offset) := by
  unfold placeSegments MeetingAudio.voiced
  rw [List.map_map]
  apply List.map_congr_left
  intro segment hsegment
  obtain ⟨hstart, hend⟩ := (audio.asr_fits chunk segment hsegment).mono hoffset
  unfold i64Max at hstart hend
  simp only [Function.comp_apply, TranscriptSegment.delay]
  rw [saturatingAdd_of_le (by unfold u64Max; omega), saturatingAdd_of_le (by unfold u64Max; omega)]

theorem MeetingAudio.voiced_fitsAt {offset : ℕ} (hoffset : offset ≤ chunk.startMs) :
    ∀ segment ∈ audio.voiced chunk, segment.FitsAt offset :=
  fun segment hsegment => (audio.voiced_fits chunk segment hsegment).mono hoffset

/-- The final transcript of a chunk alone. -/
theorem normalizeSegments_placeSegments {offset : ℕ} (path : String)
    (hoffset : offset ≤ chunk.startMs) :
    normalizeSegments (placeSegments ⟨chunk.speakerId, path, offset⟩ (audio.asr chunk)) =
      (audio.chunkTranscript chunk).map (·.delay offset) := by
  rw [placeSegments_asr audio chunk path hoffset,
    normalizeSegments_delay (audio.voiced_fitsAt chunk hoffset)]
  rfl

theorem MeetingAudio.voiced_range : ∀ segment ∈ audio.voiced chunk, segment.endMs ≤ i64Max := by
  intro segment hsegment
  have hfits := (audio.voiced_fits chunk segment hsegment).2
  omega

theorem MeetingAudio.chunkTranscript_kept :
    ∀ segment ∈ audio.chunkTranscript chunk,
      cleanText segment.text = segment.text ∧ segment.kept = true := by
  intro segment hsegment
  obtain ⟨hnormalizes, -⟩ := normalizes_normalizeSegments (kept_startMs_le (audio.voiced_range chunk))
  exact hnormalizes.clean_kept (fun member hmember => (List.mem_filter.mp hmember).2) hsegment

theorem MeetingAudio.chunkTranscript_fits :
    ∀ segment ∈ audio.chunkTranscript chunk, segment.FitsAt chunk.startMs :=
  fitsAt_normalizeSegments (audio.voiced_fits chunk)

theorem MeetingAudio.chunkTranscript_sorted : (audio.chunkTranscript chunk).Pairwise
    fun left right => left.orderKey ≤ right.orderKey := by
  obtain ⟨hnormalizes, -⟩ := normalizes_normalizeSegments (kept_startMs_le (audio.voiced_range chunk))
  exact hnormalizes.pairwise ((sortTranscriptSegments_sorted _).filter _)

end

theorem normalizeSegments_sortTranscriptSegments (segments : List TranscriptSegment) :
    normalizeSegments (sortTranscriptSegments segments) = normalizeSegments segments := by
  unfold normalizeSegments
  rw [sortTranscriptSegments_of_sorted (sortTranscriptSegments_sorted segments)]

theorem trim_ne_nil_of_kept {segment : TranscriptSegment} (hkept : segment.kept = true) :
    (trim segment.text).isEmpty = false := by
  unfold TranscriptSegment.kept at hkept
  rw [Bool.and_eq_true] at hkept
  have hclean := cleanText_isEmpty segment.text
  rw [hkept.1] at hclean
  have hne : cleanText segment.text ≠ [] := by simpa using hclean
  have htrim : trim segment.text ≠ [] := by
    intro hnil
    apply hne
    rw [cleanText, hnil]
    rfl
  simpa using htrim

/-- The rows of a live job. -/
theorem liveSegments_eq (audio : MeetingAudio) (chunk : ProcessedAudioChunk) (baseStartMs : ℕ) :
    liveSegments audio chunk baseStartMs =
      (audio.chunkTranscript chunk).map (·.delay (chunk.startMs - baseStartMs)) := by
  unfold liveSegments
  dsimp only
  rw [normalizeSegments_sortTranscriptSegments,
    normalizeSegments_placeSegments audio chunk "" (Nat.sub_le _ _), List.filter_eq_self]
  intro segment hsegment
  obtain ⟨raw, hraw, rfl⟩ := List.mem_map.mp hsegment
  have hkept := (raw.kept_delay (chunk.startMs - baseStartMs)).trans
    (audio.chunkTranscript_kept chunk raw hraw).2
  simpa using trim_ne_nil_of_kept hkept

/-- Rebasing moves a row from its base to the final one, exactly. -/
theorem rebaseSegment_delay {segment : TranscriptSegment} {startMs finalBase liveBase : ℕ}
    (hfits : segment.FitsAt startMs) (hfinal : finalBase ≤ startMs) (hlive : liveBase ≤ startMs) :
    rebaseSegment finalBase liveBase (segment.delay (startMs - liveBase)) =
      segment.delay (startMs - finalBase) := by
  obtain ⟨hstart, hend⟩ := hfits
  unfold i64Max at hstart hend
  unfold rebaseSegment
  split
  · simp only [TranscriptSegment.delay]
    rw [saturatingAdd_of_le (by unfold u64Max; omega),
      saturatingAdd_of_le (by unfold u64Max; omega)]
    congr 1 <;> omega
  · simp only [TranscriptSegment.delay]
    congr 1 <;> omega

/-! ## Loaded rows -/

namespace LiveRuntime

variable {audio : MeetingAudio} {assigned : List (ProcessedAudioChunk × ℕ)} {runtime : LiveRuntime}
  {chunk : ProcessedAudioChunk}

/-- A row as the query reads it back. -/
def reloaded (segment : TranscriptSegment) : TranscriptSegment := { segment with mergedCount := 1 }

theorem segmentsOf_insertionSort (chunk : ProcessedAudioChunk)
    (rows : List (ProcessedAudioChunk × TranscriptSegment)) :
    segmentsOf chunk (rows.insertionSort fun left right => left.2.orderKey ≤ right.2.orderKey) =
      sortTranscriptSegments (segmentsOf chunk rows) := by
  unfold segmentsOf sortTranscriptSegments
  rw [List.filter_insertionSort (fun row : ProcessedAudioChunk × TranscriptSegment =>
    row.2.orderKey) (fun row => decide (row.1 = chunk)) rows]
  exact List.map_insertionSort _ _ _ _ fun _ _ _ _ => Iff.rfl

/-- The base the join finds for a chunk. -/
theorem Recorded.completedBase_eq (hrecorded : runtime.Recorded audio assigned)
    (hdone : Completed runtime.outbox chunk) {base : ℕ} (hbase : (chunk, base) ∈ assigned) :
    completedBase runtime.outbox chunk = some base := by
  obtain ⟨row, hmem, hchunk, hstatus⟩ := hdone
  have hfind : (runtime.outbox.find? fun row =>
      decide (row.chunk = chunk) && decide (row.status = .done)) = some row := by
    apply List.find?_eq_some_of_unique hmem (by simp [hchunk, hstatus])
    intro other hother hwanted
    simp only [Bool.and_eq_true, decide_eq_true_eq] at hwanted
    exact List.inj_on_of_nodup_map hrecorded.outbox.nodup hother hmem
      (hwanted.1.trans hchunk.symm)
  have hrow := hrecorded.outbox.row_assigned row hmem
  rw [hchunk] at hrow
  rw [completedBase, hfind, hrecorded.base_unique hbase hrow]
  rfl

theorem completedBase_eq_none {outbox : List OutboxRow} (hopen : ¬Completed outbox chunk) :
    completedBase outbox chunk = none := by
  unfold completedBase
  rw [Option.map_eq_none_iff, List.find?_eq_none]
  intro row hrow hwanted
  simp only [Bool.and_eq_true, decide_eq_true_eq] at hwanted
  exact hopen ⟨row, hrow, hwanted⟩

/-- The rows of a chunk come from its live rows alone. -/
theorem segmentsOf_loadLive (runtime : LiveRuntime) (chunk : ProcessedAudioChunk)
    (finalTimelineBaseMs : ℕ) :
    segmentsOf chunk (runtime.loadLiveTranscriptSegments finalTimelineBaseMs) =
      sortTranscriptSegments ((segmentsOf chunk runtime.live).filterMap fun segment =>
        (completedBase runtime.outbox chunk).map fun liveBase =>
          rebaseSegment finalTimelineBaseMs liveBase (reloaded segment)) := by
  unfold loadLiveTranscriptSegments
  rw [segmentsOf_insertionSort]
  congr 1
  induction runtime.live with
  | nil => rfl
  | cons entry rest ih =>
      obtain ⟨owner, segment⟩ := entry
      by_cases howner : owner = chunk
      · subst howner
        cases hbase : completedBase runtime.outbox owner with
        | none =>
            simp only [hbase, Option.map_none, segmentsOf] at ih ⊢
            simpa [hbase] using ih
        | some base =>
            simp only [hbase, Option.map_some, segmentsOf] at ih ⊢
            simpa [hbase, reloaded] using ih
      · cases hbase : completedBase runtime.outbox owner with
        | none => simpa [segmentsOf, hbase, howner] using ih
        | some base => simpa [segmentsOf, hbase, howner] using ih

/-- The loaded rows of a completed chunk, while there are no final rows: what ASR says of the
chunk, moved from the start of its audio to the timeline of the meeting. -/
theorem Recorded.loaded_eq (hrecorded : runtime.Recorded audio assigned)
    (hdone : Completed runtime.outbox chunk) (hfinal : runtime.final = none)
    {finalTimelineBaseMs : ℕ} (hle : finalTimelineBaseMs ≤ chunk.startMs) :
    segmentsOf chunk (runtime.loadLiveTranscriptSegments finalTimelineBaseMs) =
      (audio.chunkTranscript chunk).map fun segment =>
        reloaded (segment.delay (chunk.startMs - finalTimelineBaseMs)) := by
  obtain ⟨row, hmem, hchunk, hstatus⟩ := hdone
  have hassigned := hrecorded.outbox.row_assigned row hmem
  rw [hchunk] at hassigned
  have hbase := hrecorded.base_le _ hassigned
  have hdone : Completed runtime.outbox chunk := ⟨row, hmem, hchunk, hstatus⟩
  rw [segmentsOf_loadLive, hrecorded.completedBase_eq hdone hassigned,
    hrecorded.completed hfinal _ hassigned hdone, liveSegments_eq]
  simp only [Option.map_some, List.filterMap_eq_map', List.map_map]
  have hrows : (audio.chunkTranscript chunk).map
      ((fun segment => rebaseSegment finalTimelineBaseMs row.timelineBaseMs (reloaded segment)) ∘
        (·.delay (chunk.startMs - row.timelineBaseMs))) =
      (audio.chunkTranscript chunk).map fun segment =>
        reloaded (segment.delay (chunk.startMs - finalTimelineBaseMs)) := by
    apply List.map_congr_left
    intro segment hsegment
    have hfits : (reloaded segment).FitsAt chunk.startMs :=
      audio.chunkTranscript_fits chunk segment hsegment
    exact rebaseSegment_delay hfits hle hbase
  rw [hrows]
  -- The rows come in timeline order already.
  apply sortTranscriptSegments_of_sorted
  rw [List.pairwise_map]
  refine (audio.chunkTranscript_sorted chunk).imp_of_mem ?_
  intro left right hleft hright hkey
  have hfits := audio.chunkTranscript_fits chunk
  have hoffset : chunk.startMs - finalTimelineBaseMs ≤ chunk.startMs := Nat.sub_le _ _
  exact (TranscriptSegment.orderKey_delay_le_iff ((hfits left hleft).mono hoffset)
    ((hfits right hright).mono hoffset)).mpr hkey

end LiveRuntime

/-! ## Live and final transcription agree -/

/-- When a segment is spoken. -/
def spokenAt (segment : TranscriptSegment) : ℕ × ℕ := (segment.startMs, segment.endMs)

/-- Neither the offsets nor the additions of the two paths nor the move of a live row leave
their range. -/
structure Unclipped (audio : MeetingAudio) (chunk : ProcessedAudioChunk)
    (liveBase finalBase : ℕ) : Prop where
  liveBase_le : liveBase ≤ chunk.startMs
  finalBase_le : finalBase ≤ chunk.startMs
  live_fits : ∀ segment ∈ audio.asr chunk,
    segment.startMs + (chunk.startMs - liveBase) ≤ u64Max ∧
      segment.endMs + (chunk.startMs - liveBase) ≤ u64Max
  final_fits : ∀ segment ∈ audio.asr chunk,
    segment.startMs + (chunk.startMs - finalBase) ≤ u64Max ∧
      segment.endMs + (chunk.startMs - finalBase) ≤ u64Max
  moved_back : finalBase ≤ liveBase → ∀ row ∈ liveSegments audio chunk liveBase,
    row.startMs + (liveBase - finalBase) ≤ u64Max ∧ row.endMs + (liveBase - finalBase) ≤ u64Max
  moved_forward : liveBase < finalBase → ∀ row ∈ liveSegments audio chunk liveBase,
    finalBase - liveBase ≤ row.startMs ∧ finalBase - liveBase ≤ row.endMs

theorem unclipped_of_le (audio : MeetingAudio) {chunk : ProcessedAudioChunk}
    {liveBase finalBase : ℕ} (hlive : liveBase ≤ chunk.startMs)
    (hfinal : finalBase ≤ chunk.startMs) : Unclipped audio chunk liveBase finalBase := by
  have hasr : ∀ segment ∈ audio.asr chunk, ∀ base, base ≤ chunk.startMs →
      segment.startMs + (chunk.startMs - base) ≤ u64Max ∧
        segment.endMs + (chunk.startMs - base) ≤ u64Max := by
    intro segment hsegment base hbase
    have hfits := audio.asr_fits chunk segment hsegment
    unfold TranscriptSegment.FitsAt i64Max at hfits
    unfold u64Max
    omega
  have hrow : ∀ row ∈ liveSegments audio chunk liveBase, ∃ segment : TranscriptSegment,
      segment.FitsAt chunk.startMs ∧ row.startMs = segment.startMs + (chunk.startMs - liveBase) ∧
        row.endMs = segment.endMs + (chunk.startMs - liveBase) := by
    intro row hrow
    rw [liveSegments_eq] at hrow
    obtain ⟨segment, hsegment, rfl⟩ := List.mem_map.mp hrow
    exact ⟨segment, audio.chunkTranscript_fits chunk segment hsegment, rfl, rfl⟩
  refine ⟨hlive, hfinal, fun segment hsegment => hasr segment hsegment liveBase hlive,
    fun segment hsegment => hasr segment hsegment finalBase hfinal, ?_, ?_⟩
  · intro hle row hmem
    obtain ⟨segment, hfits, hstart, hend⟩ := hrow row hmem
    unfold TranscriptSegment.FitsAt i64Max at hfits
    unfold u64Max
    omega
  · intro hlt row hmem
    obtain ⟨segment, -, hstart, hend⟩ := hrow row hmem
    omega

/-- For a chunk of the manifest: the rows of a chunk that is done lie where its final
transcript would, at the chunk's start plus the time of ASR minus the manifest's start, and no
step clips; a chunk that is not done, or whose meeting has final rows, has no live rows. -/
structure PlacedAsFinal (audio : MeetingAudio) (runtime : LiveRuntime)
    (entry : AudioChunkManifestEntry) : Prop where
  rows : Completed runtime.outbox (manifestChunk entry) → runtime.final = none →
    (segmentsOf (manifestChunk entry)
        (runtime.loadLiveTranscriptSegments (manifestMeetingStartMs audio.manifest))).map spokenAt =
      (normalizeSegments (placeSegments (entry.asrInput (manifestMeetingStartMs audio.manifest))
        (audio.asr (manifestChunk entry)))).map spokenAt
  times : (normalizeSegments
      (placeSegments (entry.asrInput (manifestMeetingStartMs audio.manifest))
        (audio.asr (manifestChunk entry)))).map spokenAt =
    (audio.chunkTranscript (manifestChunk entry)).map fun segment =>
      (entry.startMs + segment.startMs - manifestMeetingStartMs audio.manifest,
        entry.startMs + segment.endMs - manifestMeetingStartMs audio.manifest)
  unclipped : ∀ row ∈ runtime.outbox, row.chunk = manifestChunk entry →
    Unclipped audio (manifestChunk entry) row.timelineBaseMs (manifestMeetingStartMs audio.manifest)
  otherwise : ¬(Completed runtime.outbox (manifestChunk entry) ∧ runtime.final = none) →
    segmentsOf (manifestChunk entry)
      (runtime.loadLiveTranscriptSegments (manifestMeetingStartMs audio.manifest)) = []

theorem live_speech_placed_as_final (audio : MeetingAudio) {inputs : List LiveStep}
    (honce : (inputs.filterMap LiveStep.completedChunk).Nodup)
    (hpositive : ∀ entry ∈ audio.manifest, 0 < entry.startMs)
    {entry : AudioChunkManifestEntry} (hentry : entry ∈ audio.manifest) :
    PlacedAsFinal audio (Machine.run (LiveRuntime.step audio) {} inputs) entry := by
  obtain ⟨assigned, -, hrecorded⟩ := LiveRuntime.recorded_run audio honce
  have hle : manifestMeetingStartMs audio.manifest ≤ (manifestChunk entry).startMs :=
    manifestMeetingStartMs_le hentry (hpositive entry hentry)
  have hfinal := normalizeSegments_placeSegments audio (manifestChunk entry) entry.path.display
    (Nat.sub_le (manifestChunk entry).startMs (manifestMeetingStartMs audio.manifest))
  have hinput : entry.asrInput (manifestMeetingStartMs audio.manifest) =
      ⟨(manifestChunk entry).speakerId, entry.path.display,
        (manifestChunk entry).startMs - manifestMeetingStartMs audio.manifest⟩ := rfl
  constructor
  · intro hdone hnone
    rw [hrecorded.loaded_eq hdone hnone hle, hinput, hfinal, List.map_map, List.map_map]
    rfl
  · rw [hinput, hfinal, List.map_map]
    apply List.map_congr_left
    intro segment _
    have hstart : (manifestChunk entry).startMs = entry.startMs := rfl
    rw [hstart] at hle ⊢
    simp only [Function.comp_apply, spokenAt, TranscriptSegment.delay, Prod.mk.injEq]
    omega
  · intro row hrow hchunk
    apply unclipped_of_le audio _ hle
    have hassigned := hrecorded.outbox.row_assigned row hrow
    rw [hchunk] at hassigned
    exact hrecorded.base_le _ hassigned
  · intro hopen
    by_cases hdone : Completed
        (Machine.run (LiveRuntime.step audio) {} inputs).outbox (manifestChunk entry)
    · have hlive := hrecorded.final fun hnone => hopen ⟨hdone, hnone⟩
      rw [LiveRuntime.segmentsOf_loadLive, hlive]
      rfl
    · rw [LiveRuntime.segmentsOf_loadLive, LiveRuntime.completedBase_eq_none hdone]
      simp [sortTranscriptSegments]

def answerEntry (sequence startMs : ℕ) : AudioChunkManifestEntry where
  speakerId := "u1"
  sequence := sequence
  startMs := startMs
  durationMs := 900
  sampleRate := 48000
  fileSizeBytes := 86444
  pcmDataSizeBytes := 86400
  path := ⟨"/audio", s!"u1_{sequence}.wav"⟩

/-- A meeting of one speaker whose second chunk is done first. -/
def answerAudio : MeetingAudio where
  manifest := [answerEntry 0 1000, answerEntry 1 5000]
  asr := fun chunk =>
    if chunk = ⟨"u1", 0, 1000⟩ then
      [{ speakerId := "", startMs := 200, endMs := 700, text := " ready? ".toList }]
    else if chunk = ⟨"u1", 1, 5000⟩ then
      [{ speakerId := "", startMs := 100, endMs := 800, text := "yes".toList }]
    else []
  asr_valid := by
    intro chunk segment hsegment
    split at hsegment
    · rw [List.mem_singleton.mp hsegment]
      simp
    · split at hsegment
      · rw [List.mem_singleton.mp hsegment]
        simp
      · cases hsegment
  asr_fits := by
    intro chunk segment hsegment
    split at hsegment
    next hchunk =>
      rw [List.mem_singleton.mp hsegment, hchunk]
      simp [TranscriptSegment.FitsAt, i64Max]
    next =>
      split at hsegment
      next hchunk =>
        rw [List.mem_singleton.mp hsegment, hchunk]
        simp [TranscriptSegment.FitsAt, i64Max]
      next => cases hsegment

def answerRun : List LiveStep :=
  [.completeWrite ⟨"u1", 1, 5000⟩ 5000, .persistQueued 0 .committed false,
   .claim ⟨"u1", 1, 5000⟩ .committed, .admitJob 0 (some true), .infer 0 .ok,
   .write 0 (some true) .committed, .completeWrite ⟨"u1", 0, 1000⟩ 1000]

theorem answer_placed_as_final :
    (∀ entry ∈ answerAudio.manifest,
      PlacedAsFinal answerAudio (Machine.run (LiveRuntime.step answerAudio) {} answerRun) entry) ∧
      (segmentsOf ⟨"u1", 1, 5000⟩ ((Machine.run (LiveRuntime.step answerAudio) {}
        answerRun).loadLiveTranscriptSegments 1000)).map spokenAt = [(4100, 4800)] := by
  constructor
  · intro entry hentry
    exact live_speech_placed_as_final answerAudio (by decide) (by decide) hentry
  · decide +kernel

end DiscordTranscript.Application
