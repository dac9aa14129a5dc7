import DiscordTranscript.Foundation.KeyedList
import DiscordTranscript.Foundation.Sweep
import DiscordTranscript.Audio.ManifestAgreement
import DiscordTranscript.Audio.SpeakerAudio

/-! # What final transcription hears of a speaker

The inputs prepared from a manifest are the pieces of audio that are sent to final
transcription: each is a file and the time at which it begins. At rates of whole
kilohertz the pieces of one speaker are what a sweep over the intervals of the
speaker's unprocessed chunks keeps.
-/

namespace DiscordTranscript.Audio

open MachineInt Infrastructure Sweep

/-! ## Pieces -/

/-- The file under a path after the preparation: the one written last, or the staged
one. -/
def AsrPreparation.fileBytes (preparation : AsrPreparation) (dir : MeetingDir) (path : String) :
    Option (List UInt8) :=
  ((preparation.written.reverse.find? fun file => decide (file.1 = path)).map (·.2)).or
    ((dir.entries.find? fun entry => decide ((dir.chunkPath entry).display = path)).map (·.bytes))

/-- The sample rate and the PCM of the file that an input names. -/
def AsrPreparation.audio (preparation : AsrPreparation) (dir : MeetingDir)
    (input : SpeakerAudioInput) : Option (ℕ × List UInt8) :=
  (preparation.fileBytes dir input.audioPath).bind fun bytes =>
    (readWavPcm ⟨dir.path, input.audioPath⟩ bytes).toOption

def AsrPreparation.pieces (preparation : AsrPreparation) (speakerId : String) :
    List SpeakerAudioInput :=
  preparation.prepared.filter fun input => decide (input.speakerId = speakerId)

def pieceStartMs (chunks : List AudioChunkManifestEntry) (input : SpeakerAudioInput) : ℕ :=
  manifestMeetingStartMs chunks + input.offsetMs

/-- The milliseconds that a piece fills. -/
def AsrPreparation.pieceSpan (preparation : AsrPreparation) (dir : MeetingDir)
    (chunks : List AudioChunkManifestEntry) (input : SpeakerAudioInput) : Span where
  start := pieceStartMs chunks input
  stop := pieceStartMs chunks input +
    (preparation.audio dir input).elim 0 fun audio => pcmDurationMs audio.2 audio.1

def AudioChunkManifestEntry.span (chunk : AudioChunkManifestEntry) : Span where
  start := chunk.startMs
  stop := chunk.startMs + chunk.durationMs

/-- The pieces of a speaker can be read, are in time order, overlap by less than one
millisecond, and fill the milliseconds of the speaker's unprocessed chunks. -/
structure PiecesCover (unicodeAlphanumeric : Char → Bool) (dir : MeetingDir)
    (chunks : List AudioChunkManifestEntry) (processed : List ProcessedAudioChunk)
    (preparation : AsrPreparation) (speakerId : String) : Prop where
  readable : ∀ piece ∈ preparation.pieces speakerId, (preparation.audio dir piece).isSome
  ordered : (preparation.pieces speakerId).Pairwise fun earlier later =>
    pieceStartMs chunks earlier ≤ pieceStartMs chunks later
  overlap : (preparation.pieces speakerId).Pairwise fun earlier later =>
    ∀ audio ∈ preparation.audio dir earlier,
      pieceStartMs chunks earlier * audio.1 + audio.2.length / 2 * 1000 <
        (pieceStartMs chunks later + 1) * audio.1
  covers : ∀ time,
    (∃ piece ∈ preparation.pieces speakerId,
      (preparation.pieceSpan dir chunks piece).Contains time) ↔
    ∃ chunk ∈ chunks, chunk.speakerId = speakerId ∧
      isProcessed unicodeAlphanumeric dir chunks processed chunk = false ∧ chunk.span.Contains time

/-! ## Staged chunks -/

/-- A chunk of a manifest stands for a staged file. -/
structure AudioChunkManifestEntry.StagedAs (dir : MeetingDir) (pcm : List UInt8)
    (chunk : AudioChunkManifestEntry) : Prop where
  entry : ∃ entry ∈ dir.entries, chunk.path = dir.chunkPath entry ∧
    readWavPcm chunk.path entry.bytes = .ok (chunk.sampleRate, pcm)
  durationMs_eq : chunk.durationMs = pcmDurationMs pcm chunk.sampleRate

theorem readWavPcm_path {path other : ChunkPath} {bytes : List UInt8} {audio : ℕ × List UInt8}
    (hread : readWavPcm path bytes = .ok audio) : readWavPcm other bytes = .ok audio := by
  have hvalid := valid_of_readWavPcm hread
  rw [readWavPcm_of_valid hvalid] at hread ⊢
  exact hread

theorem acceptedChunks_stagedAs {dir : MeetingDir} {chunk : AudioChunkManifestEntry}
    (hchunk : chunk ∈ dir.acceptedChunks) : ∃ pcm, chunk.StagedAs dir pcm := by
  obtain ⟨entry, hentry, hpath, hload⟩ := acceptedChunks_path hchunk
  obtain ⟨⟨durationMs, sampleRate, dataSize⟩, hread⟩ := readWavMetadata_of_loadChunkMetadata hload
  rw [loadChunkMetadata_of_ok hread] at hload
  cases hload
  obtain ⟨pcm, hpcm, -, hduration⟩ := readWavMetadata_eq_ok_iff.mp hread
  exact ⟨pcm, ⟨entry, hentry, rfl, hpcm⟩, hduration⟩

/-- The chunks of a manifest are the accepted ones, with their speakers resolved or not,
and no two of them share a path. -/
structure ScannedFrom (dir : MeetingDir) (chunks : List AudioChunkManifestEntry) : Prop where
  staged : ∀ chunk ∈ chunks, ∃ pcm, chunk.StagedAs dir pcm
  paths_nodup : (chunks.map (·.path.display)).Nodup

theorem map_filterMap_sublist {α β γ : Type*} {keep : α → Option β} {key : β → γ}
    {name : α → γ} (hname : ∀ item kept, keep item = some kept → key kept = name item)
    (items : List α) : ((items.filterMap keep).map key).Sublist (items.map name) := by
  induction items with
  | nil => exact List.Sublist.slnil
  | cons item rest ih =>
      cases hkeep : keep item with
      | none =>
          rw [List.filterMap_cons_none hkeep, List.map_cons]
          exact ih.cons _
      | some kept =>
          rw [List.filterMap_cons_some hkeep, List.map_cons, List.map_cons, hname item kept hkeep]
          exact ih.cons_cons _

theorem acceptedChunks_paths_nodup (dir : MeetingDir) :
    (dir.acceptedChunks.map (·.path.display)).Nodup := by
  have hname : ∀ (entry : DirEntry) (chunk : AudioChunkManifestEntry),
      (loadChunkMetadata (dir.stagedFile entry)).toOption = some chunk →
      chunk.path.display = (dir.chunkPath entry).display := by
    intro entry chunk hload
    exact congrArg ChunkPath.display (loadChunkMetadata_path (Except.eq_ok_of_toOption hload))
  have hentries : (dir.entries.map fun entry => (dir.chunkPath entry).display).Nodup := by
    have hcomp : (dir.entries.map fun entry => (dir.chunkPath entry).display) =
        (dir.entries.map (·.name)).map fun name => ChunkPath.display ⟨dir.path, name⟩ := by
      rw [List.map_map]
      rfl
    rw [hcomp]
    refine dir.names_nodup.map fun left right heq => ?_
    have hsame : (⟨dir.path, left⟩ : ChunkPath) = ⟨dir.path, right⟩ := display_inj rfl heq
    exact congrArg ChunkPath.name hsame
  refine List.Nodup.sublist ?_ hentries
  exact (map_filterMap_sublist hname _).trans (List.filter_sublist.map _)

theorem scannedFrom_of_selectManifest {unicodeAlphanumeric : Char → Bool}
    {recordingObjects : Bool} {dir : MeetingDir} {chunks : List AudioChunkManifestEntry}
    (hselect : selectManifest unicodeAlphanumeric recordingObjects dir = .ok chunks) :
    ScannedFrom dir chunks := by
  have hperm : ∀ (values : List AudioChunkManifestEntry),
      ((sortManifest values).map (·.path.display)).Perm (values.map (·.path.display)) :=
    fun values => (List.perm_insertionSort _ values).map _
  rw [selectManifest] at hselect
  cases recordingObjects with
  | true =>
      cases hscan : scanChunkManifest unicodeAlphanumeric dir with
      | error message => simp [hscan, Except.mapError] at hselect
      | ok scanned =>
          rw [hscan] at hselect
          cases hselect
          rw [scanChunkManifest_eq hscan]
          constructor
          · intro chunk hchunk
            obtain ⟨accepted, haccepted, rfl⟩ := List.mem_map.mp (mem_sortManifest.mp hchunk)
            obtain ⟨pcm, hentry, hduration⟩ := acceptedChunks_stagedAs haccepted
            exact ⟨pcm, hentry, hduration⟩
          · refine (hperm _).nodup_iff.mpr ?_
            rw [List.map_map]
            exact acceptedChunks_paths_nodup dir
  | false =>
      cases hscan : scanMixdownChunkManifest dir with
      | error message => simp [hscan, Except.mapError] at hselect
      | ok scanned =>
          rw [hscan] at hselect
          cases hselect
          rw [(scanMixdownChunkManifest_eq hscan).2]
          constructor
          · exact fun chunk hchunk => acceptedChunks_stagedAs (mem_sortManifest.mp hchunk)
          · exact (hperm _).nodup_iff.mpr (acceptedChunks_paths_nodup dir)

section

variable {dir : MeetingDir} {chunks : List AudioChunkManifestEntry}
  {chunk other : AudioChunkManifestEntry} {pcm : List UInt8}

/-- A path of the manifest finds its chunk. -/
theorem ScannedFrom.find_eq (hscanned : ScannedFrom dir chunks) (hchunk : chunk ∈ chunks) :
    chunks.reverse.find? (fun other => other.path.display = chunk.path.display) = some chunk := by
  refine List.find?_eq_some_of_unique (List.mem_reverse.mpr hchunk) (decide_eq_true rfl) ?_
  intro other hother hsame
  exact List.inj_on_of_nodup_map hscanned.paths_nodup (List.mem_reverse.mp hother) hchunk
    (of_decide_eq_true hsame)

namespace AudioChunkManifestEntry.StagedAs

theorem dir_eq (hstaged : chunk.StagedAs dir pcm) : chunk.path.dir = dir.path := by
  obtain ⟨entry, -, hpath, -⟩ := hstaged.entry
  rw [hpath]
  rfl

theorem name_plain (hstaged : chunk.StagedAs dir pcm) : '/' ∉ chunk.path.name.toList := by
  obtain ⟨entry, hentry, hpath, -⟩ := hstaged.entry
  rw [hpath]
  exact dir.names_plain entry hentry

theorem readPcm_eq (hstaged : chunk.StagedAs dir pcm) :
    dir.readPcm chunk.path = .ok (chunk.sampleRate, pcm) := by
  obtain ⟨entry, hentry, hpath, hread⟩ := hstaged.entry
  have hfind : dir.entries.find? (fun other => dir.chunkPath other = chunk.path) = some entry := by
    refine List.find?_eq_some_of_unique hentry (decide_eq_true hpath.symm) ?_
    intro other hother hsame
    refine List.inj_on_of_nodup_map dir.names_nodup hother hentry ?_
    exact congrArg ChunkPath.name ((of_decide_eq_true hsame).trans hpath)
  rw [MeetingDir.readPcm, hfind]
  exact hread

/-- An untouched path still names the staged file. -/
theorem fileBytes_eq (hstaged : chunk.StagedAs dir pcm) {preparation : AsrPreparation}
    (hunwritten : ∀ file ∈ preparation.written, file.1 ≠ chunk.path.display) :
    ∃ bytes, preparation.fileBytes dir chunk.path.display = some bytes ∧
      readWavPcm chunk.path bytes = .ok (chunk.sampleRate, pcm) := by
  obtain ⟨entry, hentry, hpath, hread⟩ := hstaged.entry
  have hnone : preparation.written.reverse.find?
      (fun file => decide (file.1 = chunk.path.display)) = none := by
    rw [List.find?_eq_none]
    intro file hfile
    simpa using hunwritten file (List.mem_reverse.mp hfile)
  have hfind : dir.entries.find?
      (fun other => decide ((dir.chunkPath other).display = chunk.path.display)) = some entry := by
    refine List.find?_eq_some_of_unique hentry (decide_eq_true (by rw [hpath])) ?_
    intro other hother hsame
    have hdisplay : (dir.chunkPath other).display = (dir.chunkPath entry).display := by
      rw [of_decide_eq_true hsame, hpath]
    have hsamePath : dir.chunkPath other = dir.chunkPath entry := display_inj rfl hdisplay
    refine List.inj_on_of_nodup_map dir.names_nodup hother hentry ?_
    exact congrArg ChunkPath.name hsamePath
  refine ⟨entry.bytes, ?_, hread⟩
  rw [AsrPreparation.fileBytes, hnone, hfind]
  rfl

end AudioChunkManifestEntry.StagedAs

end

/-! ## One chunk -/

/-- Cutting whole milliseconds off the head leaves the rest of the duration. -/
theorem WholeKilohertz.drop_duration {sampleRate : ℕ} (hrate : WholeKilohertz sampleRate)
    {pcm : List UInt8} {overlapMs : ℕ} (hshort : overlapMs < pcmDurationMs pcm sampleRate) :
    overlapMs * bytesPerMs sampleRate < pcm.length ∧
      pcmDurationMs (pcm.drop (overlapMs * bytesPerMs sampleRate)) sampleRate =
        pcmDurationMs pcm sampleRate - overlapMs := by
  rw [hrate.pcmDurationMs_eq] at hshort ⊢
  have hpos := hrate.bytesPerMs_pos
  constructor
  · calc overlapMs * bytesPerMs sampleRate
        < pcm.length / bytesPerMs sampleRate * bytesPerMs sampleRate :=
          Nat.mul_lt_mul_of_pos_right hshort hpos
      _ ≤ pcm.length := Nat.div_mul_le_self _ _
  · rw [hrate.pcmDurationMs_eq, List.length_drop, mul_comm, Nat.sub_mul_div]

theorem trimOverlap_eq {chunk : AudioChunkManifestEntry} {pcm : List UInt8} {overlapMs : ℕ}
    (hrate : WholeKilohertz chunk.sampleRate)
    (hduration : chunk.durationMs = pcmDurationMs pcm chunk.sampleRate)
    (hmax : pcm.length ≤ maxWavChunkPcmBytes) (hfits : chunk.startMs + chunk.durationMs ≤ u64Max)
    (hoverlap : 0 < overlapMs) (hshort : overlapMs < chunk.durationMs) :
    trimOverlap chunk overlapMs pcm =
      some (pcm.drop (overlapMs * bytesPerMs chunk.sampleRate), chunk.startMs + overlapMs) := by
  obtain ⟨hbytes, -⟩ := hrate.drop_duration (hduration ▸ hshort)
  obtain ⟨hskip, hsamples⟩ := hrate.samples_eq overlapMs
  rw [← hskip] at hbytes
  simp only [maxWavChunkPcmBytes] at hmax
  have hproduct : overlapMs * chunk.sampleRate ≤ u64Max := by
    simp only [u64Max]
    omega
  have hdouble : overlapMs * chunk.sampleRate / 1000 * 2 ≤ u64Max := by
    simp only [u64Max]
    omega
  have hback : saturatingMul u64Max (overlapMs * chunk.sampleRate / 1000) 1000 /
      chunk.sampleRate = overlapMs := by
    rw [saturatingMul_of_le (hsamples ▸ hproduct), ← hsamples, Nat.mul_div_cancel _ hrate.1]
  have hend : chunk.startMs + overlapMs ≤ u64Max :=
    (Nat.add_le_add_left hshort.le _).trans hfits
  rw [trimOverlap, if_neg hoverlap.ne']
  simp only [saturatingMul_of_le hproduct, saturatingMul_of_le hdouble]
  rw [if_neg (not_le.mpr hbytes), hback, saturatingAdd_of_le hend, hskip]

/-- What is left of a chunk that reaches past the audio before it. -/
theorem trimOverlap_rest {chunk : AudioChunkManifestEntry} {pcm : List UInt8} {reach : ℕ}
    (hrate : WholeKilohertz chunk.sampleRate)
    (hduration : chunk.durationMs = pcmDurationMs pcm chunk.sampleRate) (hpcm : pcm ≠ [])
    (hmax : pcm.length ≤ maxWavChunkPcmBytes) (hfits : chunk.startMs + chunk.durationMs ≤ u64Max)
    (hpast : ¬(reach - chunk.startMs ≥ chunk.durationMs ∧ reach - chunk.startMs > 0)) :
    ∃ rest, trimOverlap chunk (reach - chunk.startMs) pcm =
        some (rest, max chunk.startMs reach) ∧ rest ≠ [] ∧ rest.length ≤ pcm.length ∧
      max chunk.startMs reach + pcmDurationMs rest chunk.sampleRate =
        chunk.startMs + chunk.durationMs := by
  by_cases hoverlap : reach - chunk.startMs = 0
  · have hmax : max chunk.startMs reach = chunk.startMs := by omega
    refine ⟨pcm, ?_, hpcm, le_rfl, ?_⟩
    · rw [trimOverlap, if_pos hoverlap, hmax]
    · rw [hmax, hduration]
  · have hshort : reach - chunk.startMs < chunk.durationMs := by omega
    have hmaxStart : max chunk.startMs reach = chunk.startMs + (reach - chunk.startMs) := by omega
    obtain ⟨hbytes, hrest⟩ := hrate.drop_duration (hduration ▸ hshort)
    refine ⟨pcm.drop ((reach - chunk.startMs) * bytesPerMs chunk.sampleRate), ?_, ?_, ?_, ?_⟩
    · rw [trimOverlap_eq hrate hduration hmax hfits (Nat.pos_of_ne_zero hoverlap) hshort,
        hmaxStart]
    · rw [Ne, List.drop_eq_nil_iff]
      exact not_le.mpr hbytes
    · rw [List.length_drop]
      exact Nat.sub_le _ _
    · rw [hrest, ← hduration, hmaxStart]
      omega

theorem length_resampledBody (fir : List ℤ → ℤ) (input : List UInt8) (count : ℕ) :
    ((List.range count).flatMap fun i => i16ToLeBytes (fir (firTaps input (i * 3)))).length =
      count * 2 := by
  induction count with
  | zero => rfl
  | succ count ih =>
      rw [List.range_succ, List.flatMap_append, List.length_append, ih, List.flatMap_singleton,
        length_i16ToLeBytes, Nat.add_mul]

/-- Resampling keeps the number of whole milliseconds. -/
theorem resampleForAsr_duration (fir : List ℤ → ℤ) (needsResample : Bool) {pcm : List UInt8}
    (sampleRate : ℕ) (hpcm : pcm ≠ []) :
    (resampleForAsr fir needsResample pcm sampleRate).1 ≠ [] ∧
      (resampleForAsr fir needsResample pcm sampleRate).1.length ≤ pcm.length ∧
      pcmDurationMs (resampleForAsr fir needsResample pcm sampleRate).1
        (resampleForAsr fir needsResample pcm sampleRate).2 = pcmDurationMs pcm sampleRate := by
  have hkept : (pcm, sampleRate).1 ≠ [] ∧ (pcm, sampleRate).1.length ≤ pcm.length ∧
      pcmDurationMs (pcm, sampleRate).1 (pcm, sampleRate).2 = pcmDurationMs pcm sampleRate :=
    ⟨hpcm, le_rfl, rfl⟩
  unfold resampleForAsr
  split
  next =>
    unfold resamplePcm16le
    split
    next => exact hkept
    next =>
      split
      next => exact hkept
      next hrates =>
        obtain ⟨rfl, -⟩ := not_or.mp hrates |>.imp not_not.mp not_not.mp
        split
        next => exact hkept
        next hlong =>
          have hlength := length_resampledBody fir pcm (pcm.length / 2 / 3)
          refine ⟨?_, ?_, ?_⟩
          · apply List.ne_nil_of_length_pos
            rw [hlength]
            omega
          · rw [hlength]
            omega
          · dsimp only
            rw [pcmDurationMs_of_pos (by decide), pcmDurationMs_of_pos (by decide), hlength]
            omega
  next => exact hkept

/-- The input made of a chunk. -/
def AudioChunkManifestEntry.asrInput (meetingStartMs : ℕ) (chunk : AudioChunkManifestEntry) :
    SpeakerAudioInput where
  speakerId := chunk.speakerId
  audioPath := chunk.path.display
  offsetMs := chunk.startMs - meetingStartMs

/-- A chunk whose audio can be cut at whole milliseconds and whose end is a time. -/
structure AudioChunkManifestEntry.Cuttable (dir : MeetingDir) (pcm : List UInt8)
    (chunk : AudioChunkManifestEntry) : Prop extends chunk.StagedAs dir pcm where
  rate : WholeKilohertz chunk.sampleRate
  fits : chunk.startMs + chunk.durationMs ≤ u64Max

/-- The piece kept of a chunk: its own file when nothing of it was heard before, or a new
file with the rest of it. -/
inductive KeepsPiece (chunk : AudioChunkManifestEntry) (reach meetingStartMs : ℕ)
    (piece : SpeakerAudioInput) (written : List (String × List UInt8)) : Prop
  | whole (hpiece : piece = chunk.asrInput meetingStartMs) (hwritten : written = [])
      (hreach : reach ≤ chunk.startMs)
  | cut (wav : List UInt8) (audio : ℕ × List UInt8) (hspeaker : piece.speakerId = chunk.speakerId)
      (hpath : piece.audioPath = asrOutputPath chunk.path)
      (hstart : piece.offsetMs = max chunk.startMs reach - meetingStartMs)
      (hwritten : written = [(asrOutputPath chunk.path, wav)])
      (hread : ∀ path, readWavPcm path wav = .ok audio)
      (hduration : max chunk.startMs reach + pcmDurationMs audio.2 audio.1 =
        chunk.startMs + chunk.durationMs)

namespace KeepsPiece

variable {chunk : AudioChunkManifestEntry} {reach meetingStartMs : ℕ}
  {piece : SpeakerAudioInput} {written : List (String × List UInt8)}

theorem speakerId_eq (hkeeps : KeepsPiece chunk reach meetingStartMs piece written) :
    piece.speakerId = chunk.speakerId := by
  cases hkeeps with
  | whole hpiece => rw [hpiece]; rfl
  | cut _ _ hspeaker => exact hspeaker

theorem audioPath_eq (hkeeps : KeepsPiece chunk reach meetingStartMs piece written) :
    piece.audioPath = chunk.path.display ∨ piece.audioPath = asrOutputPath chunk.path := by
  cases hkeeps with
  | whole hpiece => rw [hpiece]; exact .inl rfl
  | cut _ _ _ hpath => exact .inr hpath

theorem written_path (hkeeps : KeepsPiece chunk reach meetingStartMs piece written) :
    ∀ file ∈ written, file.1 = asrOutputPath chunk.path := by
  intro file hfile
  cases hkeeps with
  | whole _ hwritten =>
      rw [hwritten] at hfile
      cases hfile
  | cut wav audio hspeaker hpath hstart hwritten =>
      rw [hwritten] at hfile
      rw [List.mem_singleton.mp hfile]

end KeepsPiece

section

variable {fir : List ℤ → ℤ} {outputs : AsrOutputs} {dir : MeetingDir}
  {chunks : List AudioChunkManifestEntry} {resampleTo16k : Bool}
  {chunk : AudioChunkManifestEntry} {pcm : List UInt8} {state next : AsrPreparation}

/-- What an iteration of the loop does with the input of a chunk. -/
inductive PrepareMove (chunk : AudioChunkManifestEntry) (meetingStartMs : ℕ)
    (state next : AsrPreparation) : Prop
  | skipped (hstart : chunk.startMs < state.speakerEnd chunk.speakerId)
      (hstop : chunk.startMs + chunk.durationMs ≤ state.speakerEnd chunk.speakerId)
      (hsame : next = state)
  | kept (piece : SpeakerAudioInput) (written : List (String × List UInt8))
      (hpast : ¬(chunk.startMs < state.speakerEnd chunk.speakerId ∧
        chunk.startMs + chunk.durationMs ≤ state.speakerEnd chunk.speakerId))
      (hkeeps : KeepsPiece chunk (state.speakerEnd chunk.speakerId) meetingStartMs piece written)
      (hprepared : next.prepared = state.prepared ++ [piece])
      (hwritten : next.written = state.written ++ written)
      (hends : next.speakerEnds = state.speakerEnds.insert chunk.speakerId
        (max (state.speakerEnd chunk.speakerId) (chunk.startMs + chunk.durationMs)))

theorem writeOutput_eq_ok {input : SpeakerAudioInput} {body : List UInt8}
    {outputRate startMs meetingStartMs : ℕ}
    (hwrite : state.writeOutput outputs chunk input body outputRate startMs meetingStartMs =
      .ok next) :
    ∃ wav, buildWavBytesRaw body outputRate 1 16 = .ok wav ∧
      next.prepared = state.prepared ++ [{ input with
        audioPath := asrOutputPath chunk.path
        offsetMs := startMs - meetingStartMs }] ∧
      next.written = state.written ++ [(asrOutputPath chunk.path, wav)] ∧
      next.speakerEnds = state.speakerEnds.insert input.speakerId
        (max (state.speakerEnd input.speakerId)
          (saturatingAdd u64Max chunk.startMs chunk.durationMs)) := by
  simp only [AsrPreparation.writeOutput] at hwrite
  split at hwrite
  next => cases hwrite
  next =>
    split at hwrite
    next => cases hwrite
    next wav hbuild =>
      split at hwrite
      next => cases hwrite
      next =>
        cases hwrite
        exact ⟨wav, hbuild, rfl, rfl, rfl⟩

theorem prepareInput_move (hscanned : ScannedFrom dir chunks) (hchunk : chunk ∈ chunks)
    (hcuttable : chunk.Cuttable dir pcm)
    (hprepare : prepareInput fir outputs dir chunks resampleTo16k state
      (chunk.asrInput (manifestMeetingStartMs chunks)) = .ok next) :
    PrepareMove chunk (manifestMeetingStartMs chunks) state next := by
  have hend := saturatingAdd_of_le hcuttable.fits
  obtain ⟨entry, -, -, hreadPcm⟩ := hcuttable.entry
  obtain ⟨hpcm, -, hmax, -⟩ := readWavPcm_body hreadPcm
  have hpushed : state.speakerEnd chunk.speakerId - chunk.startMs = 0 →
      PrepareMove chunk (manifestMeetingStartMs chunks) state
        (state.push (chunk.asrInput (manifestMeetingStartMs chunks))
          (saturatingAdd u64Max chunk.startMs chunk.durationMs)) := by
    intro hnone
    have hreach := Nat.sub_eq_zero_iff_le.mp hnone
    refine .kept _ [] (fun hboth => absurd hboth.1 (not_lt.mpr hreach)) (.whole rfl rfl hreach) rfl
      (List.append_nil _).symm ?_
    rw [hend]
    rfl
  rw [prepareInput, show (chunk.asrInput (manifestMeetingStartMs chunks)).audioPath =
    chunk.path.display from rfl, hscanned.find_eq hchunk] at hprepare
  simp only [show (chunk.asrInput (manifestMeetingStartMs chunks)).speakerId = chunk.speakerId
    from rfl] at hprepare
  split at hprepare
  next hskip =>
    cases hprepare
    exact .skipped (by omega) (by omega) rfl
  next hpast =>
    split at hprepare
    next hwhole =>
      cases hprepare
      exact hpushed hwhole.1
    next hread =>
      obtain ⟨⟨rate, body⟩, hbody, hprepare⟩ := Except.bind_eq_ok.mp hprepare
      rw [hcuttable.readPcm_eq] at hbody
      cases hbody
      obtain ⟨rest, htrim, hrest, hshorter, hstop⟩ := trimOverlap_rest hcuttable.rate
        hcuttable.durationMs_eq hpcm hmax hcuttable.fits hpast
      simp only [htrim] at hprepare
      split at hprepare
      next hunsupported =>
        cases hprepare
        exact hpushed hunsupported.2.2
      next =>
        obtain ⟨wav, hbuild, hprepared, hwritten, hends⟩ := writeOutput_eq_ok hprepare
        obtain ⟨hnonempty, hlength, hduration⟩ := resampleForAsr_duration fir
          (resampleTo16k && decide (chunk.sampleRate ≠ 16000)) chunk.sampleRate hrest
        refine .kept _ _ (by omega) (.cut wav _ rfl rfl rfl rfl (fun path =>
          readWavPcm_buildWavBytesRaw hbuild hnonempty (hlength.trans (hshorter.trans hmax))) ?_)
          hprepared hwritten (hend ▸ hends)
        rw [hduration]
        exact hstop

end

/-! ## The whole loop -/

/-- Files under other paths are as they were. -/
theorem AsrPreparation.fileBytes_of_written {state next : AsrPreparation}
    {written : List (String × List UInt8)} (hwritten : next.written = state.written ++ written)
    {path : String} (hother : ∀ file ∈ written, file.1 ≠ path) (dir : MeetingDir) :
    next.fileBytes dir path = state.fileBytes dir path := by
  have hnone : written.reverse.find? (fun file => decide (file.1 = path)) = none := by
    rw [List.find?_eq_none]
    intro file hfile
    simpa using hother file (List.mem_reverse.mp hfile)
  rw [fileBytes, fileBytes, hwritten, List.reverse_append, List.find?_append, hnone]
  rfl

theorem manifestMeetingStartMs_le {chunks : List AudioChunkManifestEntry}
    {chunk : AudioChunkManifestEntry} (hchunk : chunk ∈ chunks) (hpositive : 0 < chunk.startMs) :
    manifestMeetingStartMs chunks ≤ chunk.startMs := by
  have hmem : chunk.startMs ∈ (chunks.map (·.startMs)).filter (· > 0) :=
    List.mem_filter.mpr ⟨List.mem_map_of_mem hchunk, decide_eq_true hpositive⟩
  rw [manifestMeetingStartMs]
  cases hmin : ((chunks.map (·.startMs)).filter (· > 0)).min? with
  | none =>
      rw [List.min?_eq_none_iff] at hmin
      rw [hmin] at hmem
      cases hmem
  | some least => exact (List.min?_eq_some_iff.mp hmin).2 _ hmem

/-- After some chunks, the pieces of every speaker are what a sweep over the spans of the
speaker's chunks keeps. -/
structure Heard (dir : MeetingDir) (chunks done : List AudioChunkManifestEntry)
    (state : AsrPreparation) : Prop where
  source : ∀ input ∈ state.prepared, ∃ chunk ∈ done,
    input.audioPath = chunk.path.display ∨ input.audioPath = asrOutputPath chunk.path
  written : ∀ file ∈ state.written, ∃ chunk ∈ done, file.1 = asrOutputPath chunk.path
  readable : ∀ input ∈ state.prepared, (state.audio dir input).isSome
  swept : ∀ speakerId, Swept
    ((done.filter fun chunk => decide (chunk.speakerId = speakerId)).map (·.span))
    ⟨(state.pieces speakerId).map (state.pieceSpan dir chunks), state.speakerEnd speakerId⟩

namespace Heard

variable {dir : MeetingDir} {chunks done : List AudioChunkManifestEntry}
  {state next : AsrPreparation} {chunk : AudioChunkManifestEntry} {pcm : List UInt8}

theorem nil (dir : MeetingDir) (chunks : List AudioChunkManifestEntry) : Heard dir chunks [] {} where
  source := fun _ hinput => nomatch hinput
  written := fun _ hfile => nomatch hfile
  readable := fun _ hinput => nomatch hinput
  swept := fun _ => Swept.nil

/-- The file of a kept piece lasts from the start of the piece to the end of the chunk. -/
theorem kept_span (hheard : Heard dir chunks done state) (hcuttable : chunk.Cuttable dir pcm)
    (hdone : ∀ other ∈ done, other.path.dir = dir.path)
    (hstart : manifestMeetingStartMs chunks ≤ chunk.startMs) {reach : ℕ}
    {piece : SpeakerAudioInput} {written : List (String × List UInt8)}
    (hkeeps : KeepsPiece chunk reach (manifestMeetingStartMs chunks) piece written)
    (hwritten : next.written = state.written ++ written) :
    (next.audio dir piece).isSome ∧ next.pieceSpan dir chunks piece =
      ⟨max chunk.startMs reach, chunk.startMs + chunk.durationMs⟩ := by
  cases hkeeps with
  | whole hpiece hnone hreach =>
      subst hpiece hnone
      have hunwritten : ∀ file ∈ next.written, file.1 ≠ chunk.path.display := by
        intro file hfile
        rw [hwritten, List.append_nil] at hfile
        obtain ⟨other, hother, hpath⟩ := hheard.written file hfile
        rw [hpath]
        refine (display_ne_asrOutputPath ?_ hcuttable.name_plain).symm
        rw [hcuttable.dir_eq, hdone other hother]
      obtain ⟨bytes, hbytes, hread⟩ := hcuttable.fileBytes_eq hunwritten
      have haudio : next.audio dir (chunk.asrInput (manifestMeetingStartMs chunks)) =
          some (chunk.sampleRate, pcm) := by
        rw [AsrPreparation.audio, show (chunk.asrInput (manifestMeetingStartMs chunks)).audioPath =
          chunk.path.display from rfl, hbytes, Option.bind_some, readWavPcm_path hread]
        rfl
      have hbegin : pieceStartMs chunks (chunk.asrInput (manifestMeetingStartMs chunks)) =
          chunk.startMs := Nat.add_sub_cancel' hstart
      rw [AsrPreparation.pieceSpan, haudio, hbegin, max_eq_left hreach, hcuttable.durationMs_eq]
      exact ⟨rfl, rfl⟩
  | cut wav audio hspeaker hpath hoffset hwav hread hduration =>
      subst hwav
      have hbytes : next.fileBytes dir piece.audioPath = some wav := by
        rw [AsrPreparation.fileBytes, hwritten, List.reverse_append, hpath]
        simp
      have haudio : next.audio dir piece = some audio := by
        rw [AsrPreparation.audio, hbytes, Option.bind_some, hread]
        rfl
      have hbegin : pieceStartMs chunks piece = max chunk.startMs reach := by
        rw [pieceStartMs, hoffset]
        exact Nat.add_sub_cancel' (hstart.trans (le_max_left _ _))
      rw [AsrPreparation.pieceSpan, haudio, hbegin, ← hduration]
      exact ⟨rfl, rfl⟩

theorem step (hheard : Heard dir chunks done state) (hcuttable : chunk.Cuttable dir pcm)
    (hdone : ∀ other ∈ done, other.path.dir = dir.path ∧ '/' ∉ other.path.name.toList ∧
      other.path ≠ chunk.path)
    (hstart : manifestMeetingStartMs chunks ≤ chunk.startMs)
    (hafter : ∀ earlier ∈ done, earlier.speakerId = chunk.speakerId →
      earlier.startMs ≤ chunk.startMs)
    (hmove : PrepareMove chunk (manifestMeetingStartMs chunks) state next) :
    Heard dir chunks (done ++ [chunk]) next := by
  -- The sweep of the chunk's speaker takes the chunk; the other sweeps are as they were.
  have hadd : Swept
      ((done.filter fun other => decide (other.speakerId = chunk.speakerId)).map (·.span) ++
        [chunk.span])
      (State.add ⟨(state.pieces chunk.speakerId).map (state.pieceSpan dir chunks),
        state.speakerEnd chunk.speakerId⟩ chunk.span) := by
    refine (hheard.swept chunk.speakerId).add (Nat.le_add_right _ _) fun earlier hearlier => ?_
    obtain ⟨other, hother, rfl⟩ := List.mem_map.mp hearlier
    obtain ⟨hmem, hspeaker⟩ := List.mem_filter.mp hother
    exact hafter other hmem (of_decide_eq_true hspeaker)
  have hspans : ∀ speakerId, ((done ++ [chunk]).filter fun other =>
      decide (other.speakerId = speakerId)).map (·.span) =
      (done.filter fun other => decide (other.speakerId = speakerId)).map (·.span) ++
        if chunk.speakerId = speakerId then [chunk.span] else [] := by
    intro speakerId
    rw [List.filter_append, List.map_append]
    congr 1
    by_cases hspeaker : chunk.speakerId = speakerId <;> simp [hspeaker]
  cases hmove with
  | skipped hlt hle hsame =>
      subst hsame
      refine ⟨?_, ?_, hheard.readable, fun speakerId => ?_⟩
      · intro input hinput
        obtain ⟨other, hother, hpath⟩ := hheard.source input hinput
        exact ⟨other, List.mem_append_left _ hother, hpath⟩
      · intro file hfile
        obtain ⟨other, hother, hpath⟩ := hheard.written file hfile
        exact ⟨other, List.mem_append_left _ hother, hpath⟩
      · rw [hspans speakerId]
        split
        next hspeaker =>
          subst hspeaker
          rwa [State.add_of_inside _ _ chunk.span ⟨hlt, hle⟩] at hadd
        next =>
          rw [List.append_nil]
          exact hheard.swept speakerId
  | kept piece written hpast hkeeps hprepared hwritten hends =>
      obtain ⟨hsome, hspan⟩ := hheard.kept_span hcuttable (fun other hother =>
        (hdone other hother).1) hstart hkeeps hwritten
      have haudio : ∀ input ∈ state.prepared, next.audio dir input = state.audio dir input := by
        intro input hinput
        rw [AsrPreparation.audio, AsrPreparation.audio,
          AsrPreparation.fileBytes_of_written hwritten ?_]
        intro file hfile
        rw [hkeeps.written_path file hfile]
        obtain ⟨other, hother, hpath⟩ := hheard.source input hinput
        obtain ⟨hotherDir, hplain, hdifferent⟩ := hdone other hother
        have hdir : other.path.dir = chunk.path.dir := hotherDir.trans hcuttable.dir_eq.symm
        rcases hpath with hpath | hpath
        · rw [hpath]
          exact (display_ne_asrOutputPath hdir hplain).symm
        · rw [hpath]
          exact fun hsame => hdifferent (asrOutputPath_inj hdir hsame.symm)
      have hpieces : ∀ speakerId, (next.pieces speakerId).map (next.pieceSpan dir chunks) =
          (state.pieces speakerId).map (state.pieceSpan dir chunks) ++
            if chunk.speakerId = speakerId then
              [⟨max chunk.startMs (state.speakerEnd chunk.speakerId),
                chunk.startMs + chunk.durationMs⟩]
            else [] := by
        intro speakerId
        rw [AsrPreparation.pieces, hprepared, List.filter_append, List.map_append]
        congr 1
        · refine List.map_congr_left fun input hinput => ?_
          rw [AsrPreparation.pieceSpan, AsrPreparation.pieceSpan,
            haudio input (List.mem_of_mem_filter hinput)]
        · by_cases hspeaker : chunk.speakerId = speakerId
          · simp [hkeeps.speakerId_eq, hspeaker, hspan]
          · simp [hkeeps.speakerId_eq, hspeaker]
      refine ⟨?_, ?_, ?_, fun speakerId => ?_⟩
      · intro input hinput
        rw [hprepared] at hinput
        rcases List.mem_append.mp hinput with hold | hnew
        · obtain ⟨other, hother, hpath⟩ := hheard.source input hold
          exact ⟨other, List.mem_append_left _ hother, hpath⟩
        · rw [List.mem_singleton.mp hnew]
          exact ⟨chunk, List.mem_append_right _ List.mem_cons_self, hkeeps.audioPath_eq⟩
      · intro file hfile
        rw [hwritten] at hfile
        rcases List.mem_append.mp hfile with hold | hnew
        · obtain ⟨other, hother, hpath⟩ := hheard.written file hold
          exact ⟨other, List.mem_append_left _ hother, hpath⟩
        · exact ⟨chunk, List.mem_append_right _ List.mem_cons_self,
            hkeeps.written_path file hnew⟩
      · intro input hinput
        rw [hprepared] at hinput
        rcases List.mem_append.mp hinput with hold | hnew
        · rw [haudio input hold]
          exact hheard.readable input hold
        · rw [List.mem_singleton.mp hnew]
          exact hsome
      · rw [hspans speakerId, hpieces speakerId]
        by_cases hspeaker : chunk.speakerId = speakerId
        · subst hspeaker
          have hreach : next.speakerEnd chunk.speakerId =
              max (state.speakerEnd chunk.speakerId) (chunk.startMs + chunk.durationMs) := by
            rw [AsrPreparation.speakerEnd, hends, AList.lookup_insert, Option.getD_some]
          rw [State.add_of_past _ _ chunk.span hpast] at hadd
          rw [if_pos rfl, if_pos rfl, hreach]
          exact hadd
        · have hreach : next.speakerEnd speakerId = state.speakerEnd speakerId := by
            rw [AsrPreparation.speakerEnd, hends, AList.lookup_insert_ne (Ne.symm hspeaker)]
            rfl
          rw [if_neg hspeaker, if_neg hspeaker, List.append_nil, List.append_nil, hreach]
          exact hheard.swept speakerId

theorem run {fir : List ℤ → ℤ} {outputs : AsrOutputs} {resampleTo16k : Bool}
    {rest : List AudioChunkManifestEntry} (hscanned : ScannedFrom dir chunks)
    (hchunks : ∀ chunk ∈ done ++ rest, chunk ∈ chunks ∧ 0 < chunk.startMs ∧
      ∃ pcm, chunk.Cuttable dir pcm)
    (hpaths : ((done ++ rest).map (·.path.display)).Nodup)
    (hsorted : (done ++ rest).Pairwise fun left right =>
      left.speakerId = right.speakerId → left.startMs ≤ right.startMs)
    (hheard : Heard dir chunks done state)
    (hprepare : (rest.map (·.asrInput (manifestMeetingStartMs chunks))).foldlM
      (prepareInput fir outputs dir chunks resampleTo16k) state = .ok next) :
    Heard dir chunks (done ++ rest) next := by
  induction rest generalizing done state with
  | nil =>
      cases hprepare
      rwa [List.append_nil]
  | cons chunk rest ih =>
      obtain ⟨middle, hfirst, hrest⟩ := Except.bind_eq_ok.mp hprepare
      have hmem : chunk ∈ done ++ chunk :: rest := List.mem_append_right _ List.mem_cons_self
      obtain ⟨hchunk, hpositive, pcm, hcuttable⟩ := hchunks chunk hmem
      have hdone : ∀ other ∈ done, other.path.dir = dir.path ∧
          '/' ∉ other.path.name.toList ∧ other.path ≠ chunk.path := by
        intro other hother
        obtain ⟨-, -, otherPcm, hotherCuttable⟩ := hchunks other (List.mem_append_left _ hother)
        refine ⟨hotherCuttable.dir_eq, hotherCuttable.name_plain, fun hsame => ?_⟩
        rw [List.map_append, List.map_cons, List.nodup_append] at hpaths
        exact hpaths.2.2 other.path.display (List.mem_map_of_mem hother) chunk.path.display
          List.mem_cons_self (by rw [hsame])
      have hstep := hheard.step hcuttable hdone
        (manifestMeetingStartMs_le hchunk hpositive)
        (fun earlier hearlier => (List.pairwise_append.mp hsorted).2.2 earlier hearlier chunk
          List.mem_cons_self)
        (prepareInput_move hscanned hchunk hcuttable hfirst)
      rw [List.append_cons] at hchunks hpaths hsorted ⊢
      exact ih hchunks hpaths hsorted hstep hrest

end Heard

theorem AsrPreparation.audio_rate_pos {preparation : AsrPreparation} {dir : MeetingDir}
    {input : SpeakerAudioInput} {audio : ℕ × List UInt8}
    (haudio : preparation.audio dir input = some audio) : 0 < audio.1 := by
  obtain ⟨bytes, -, hread⟩ := Option.bind_eq_some_iff.mp haudio
  exact (readWavPcm_body (Except.eq_ok_of_toOption hread)).2.2.2

/-- Audio lasts less than one millisecond longer than its whole milliseconds. -/
theorem overlap_lt_of_stop_le {sampleRate : ℕ} {pcm : List UInt8} (hrate : 0 < sampleRate)
    {startMs laterMs : ℕ} (hstop : startMs + pcmDurationMs pcm sampleRate ≤ laterMs) :
    startMs * sampleRate + pcm.length / 2 * 1000 < (laterMs + 1) * sampleRate := by
  have hsamples : pcm.length / 2 * 1000 < (pcmDurationMs pcm sampleRate + 1) * sampleRate := by
    rw [pcmDurationMs_of_pos hrate, Nat.add_mul, Nat.one_mul, mul_comm]
    exact Nat.lt_div_mul_add hrate
  calc startMs * sampleRate + pcm.length / 2 * 1000
      < startMs * sampleRate + (pcmDurationMs pcm sampleRate + 1) * sampleRate :=
        Nat.add_lt_add_left hsamples _
    _ = (startMs + pcmDurationMs pcm sampleRate + 1) * sampleRate := by
        rw [← Nat.add_mul, Nat.add_assoc]
    _ ≤ (laterMs + 1) * sampleRate := Nat.mul_le_mul_right _ (Nat.add_le_add_right hstop 1)

/-- The unprocessed chunks in the order of the loop. -/
def asrChunkOrder (unicodeAlphanumeric : Char → Bool) (dir : MeetingDir)
    (chunks : List AudioChunkManifestEntry) (processed : List ProcessedAudioChunk) :
    List AudioChunkManifestEntry :=
  (chunks.filter fun chunk =>
    !isProcessed unicodeAlphanumeric dir chunks processed chunk).insertionSort fun left right =>
      asrInputKey (left.asrInput (manifestMeetingStartMs chunks)) ≤
        asrInputKey (right.asrInput (manifestMeetingStartMs chunks))

theorem map_asrChunkOrder (unicodeAlphanumeric : Char → Bool) (dir : MeetingDir)
    (chunks : List AudioChunkManifestEntry) (processed : List ProcessedAudioChunk) :
    (asrChunkOrder unicodeAlphanumeric dir chunks processed).map
        (·.asrInput (manifestMeetingStartMs chunks)) =
      sortAsrInputs (speakerAudioInputsFromManifest unicodeAlphanumeric dir chunks processed) :=
  List.map_insertionSort _ _ _ _ fun _ _ _ _ => Iff.rfl

/-- In a manifest of positive start times whose chunks have rates of whole kilohertz and
ends that are times, the pieces prepared for any speaker are in time order, overlap by less
than one millisecond, and fill exactly the intervals of the speaker's unprocessed chunks. -/
theorem manifest_pieces_cover (fir : List ℤ → ℤ) (outputs : AsrOutputs)
    (unicodeAlphanumeric : Char → Bool) (recordingObjects : Bool) (dir : MeetingDir)
    {chunks : List AudioChunkManifestEntry}
    (hselect : selectManifest unicodeAlphanumeric recordingObjects dir = .ok chunks)
    (hpositive : ∀ chunk ∈ chunks, 0 < chunk.startMs)
    (hrates : ∀ chunk ∈ chunks, chunk.sampleRate % 1000 = 0)
    (hfits : ∀ chunk ∈ chunks, chunk.startMs + chunk.durationMs ≤ u64Max)
    (processed : List ProcessedAudioChunk) (resampleTo16k : Bool) {preparation : AsrPreparation}
    (hprepare : prepareManifestAsrInputs fir outputs unicodeAlphanumeric dir chunks processed
      resampleTo16k = .ok preparation) (speakerId : String) :
    PiecesCover unicodeAlphanumeric dir chunks processed preparation speakerId := by
  have hscanned := scannedFrom_of_selectManifest hselect
  let order := asrChunkOrder unicodeAlphanumeric dir chunks processed
  have hperm : order.Perm (chunks.filter fun chunk =>
      !isProcessed unicodeAlphanumeric dir chunks processed chunk) := List.perm_insertionSort _ _
  have hmem : ∀ chunk, chunk ∈ order ↔ chunk ∈ chunks ∧
      isProcessed unicodeAlphanumeric dir chunks processed chunk = false := by
    intro chunk
    rw [hperm.mem_iff, List.mem_filter, Bool.not_eq_true']
  have hsorted : order.Pairwise fun left right =>
      left.speakerId = right.speakerId → left.startMs ≤ right.startMs := by
    refine (List.pairwise_insertionSort_key (fun chunk : AudioChunkManifestEntry =>
      asrInputKey (chunk.asrInput (manifestMeetingStartMs chunks))) _).imp_of_mem ?_
    intro left right hleft hright hle hspeaker
    obtain ⟨hrightMem, -⟩ := (hmem right).mp hright
    have hbase := manifestMeetingStartMs_le hrightMem (hpositive right hrightMem)
    have hoffset : left.startMs - manifestMeetingStartMs chunks ≤
        right.startMs - manifestMeetingStartMs chunks := by
      rcases Prod.Lex.le_iff.mp hle with hlt | ⟨-, hrest⟩
      · exact absurd hspeaker hlt.ne
      · rcases Prod.Lex.le_iff.mp hrest with hlt | ⟨heq, -⟩
        · exact hlt.le
        · exact heq.le
    omega
  have hcuttable : ∀ chunk ∈ order, chunk ∈ chunks ∧ 0 < chunk.startMs ∧
      ∃ pcm, chunk.Cuttable dir pcm := by
    intro chunk hchunk
    obtain ⟨hin, -⟩ := (hmem chunk).mp hchunk
    obtain ⟨pcm, hstaged⟩ := hscanned.staged chunk hin
    obtain ⟨entry, -, -, hread⟩ := hstaged.entry
    exact ⟨hin, hpositive chunk hin, pcm, hstaged,
      ⟨(readWavPcm_body hread).2.2.2, hrates chunk hin⟩, hfits chunk hin⟩
  have hpaths : (order.map (·.path.display)).Nodup := by
    refine (hperm.map _).nodup_iff.mpr ?_
    exact hscanned.paths_nodup.sublist (List.filter_sublist.map _)
  have hheard : Heard dir chunks order preparation := by
    have hfold : (order.map (·.asrInput (manifestMeetingStartMs chunks))).foldlM
        (prepareInput fir outputs dir chunks resampleTo16k) {} = .ok preparation := by
      rw [map_asrChunkOrder]
      exact hprepare
    exact Heard.run hscanned hcuttable hpaths hsorted (Heard.nil dir chunks) hfold
  have hswept := hheard.swept speakerId
  refine ⟨fun piece hpiece => hheard.readable piece (List.mem_of_mem_filter hpiece), ?_, ?_, ?_⟩
  · have hordered := hswept.ordered
    rwa [List.pairwise_map] at hordered
  · have hapart := hswept.apart
    rw [List.pairwise_map] at hapart
    refine hapart.imp fun {earlier later} hapart audio haudio => ?_
    have hstop : pieceStartMs chunks earlier + pcmDurationMs audio.2 audio.1 ≤
        pieceStartMs chunks later := by
      rw [AsrPreparation.pieceSpan, haudio] at hapart
      exact hapart
    exact overlap_lt_of_stop_le (AsrPreparation.audio_rate_pos haudio) hstop
  · intro time
    have hcovered := hswept.covered time
    constructor
    · rintro ⟨piece, hpiece, hcontains⟩
      obtain ⟨span, hspan, hcontains⟩ :=
        hcovered.mp ⟨_, List.mem_map_of_mem hpiece, hcontains⟩
      obtain ⟨chunk, hchunk, rfl⟩ := List.mem_map.mp hspan
      obtain ⟨horder, hspeaker⟩ := List.mem_filter.mp hchunk
      obtain ⟨hin, hunprocessed⟩ := (hmem chunk).mp horder
      exact ⟨chunk, hin, of_decide_eq_true hspeaker, hunprocessed, hcontains⟩
    · rintro ⟨chunk, hin, hspeaker, hunprocessed, hcontains⟩
      have hchunk : chunk ∈ order.filter fun other => decide (other.speakerId = speakerId) :=
        List.mem_filter.mpr ⟨(hmem chunk).mpr ⟨hin, hunprocessed⟩, decide_eq_true hspeaker⟩
      obtain ⟨span, hspan, hcontains⟩ :=
        hcovered.mpr ⟨_, List.mem_map_of_mem hchunk, hcontains⟩
      obtain ⟨piece, hpiece, rfl⟩ := List.mem_map.mp hspan
      exact ⟨piece, hpiece, hcontains⟩

/-- The places and the audio of a speaker's pieces when no chunk was processed before. -/
def speakerPieces (dir : MeetingDir) (speakerId : String) :
    Option (List (ℕ × Option (ℕ × List UInt8))) := do
  let chunks ← (selectManifest (fun _ => false) false dir).toOption
  let preparation ← (prepareManifestAsrInputs (fun _ => 0) {} (fun _ => false) dir chunks []
    false).toOption
  if ∀ chunk ∈ chunks, 0 < chunk.startMs then
    some ((preparation.pieces speakerId).map fun piece =>
      (pieceStartMs chunks piece, preparation.audio dir piece))
  else none

theorem exists_of_speakerPieces {dir : MeetingDir} {speakerId : String}
    {placed : List (ℕ × Option (ℕ × List UInt8))}
    (hplaced : speakerPieces dir speakerId = some placed) :
    ∃ chunks preparation, selectManifest (fun _ => false) false dir = .ok chunks ∧
      (∀ chunk ∈ chunks, 0 < chunk.startMs) ∧
      prepareManifestAsrInputs (fun _ => 0) {} (fun _ => false) dir chunks [] false =
        .ok preparation ∧
      placed = (preparation.pieces speakerId).map fun piece =>
        (pieceStartMs chunks piece, preparation.audio dir piece) := by
  obtain ⟨chunks, hchunks, hplaced⟩ := Option.bind_eq_some_iff.mp hplaced
  obtain ⟨preparation, hpreparation, hplaced⟩ := Option.bind_eq_some_iff.mp hplaced
  split at hplaced
  next hpositive =>
    exact ⟨chunks, preparation, Except.eq_ok_of_toOption hchunks, hpositive,
      Except.eq_ok_of_toOption hpreparation, (Option.some.inj hplaced).symm⟩
  next => cases hplaced

/-- A piece that plays on for a millisecond or more after the next one began. -/
theorem not_piecesCover_of_playsOn {dir : MeetingDir} {chunks : List AudioChunkManifestEntry}
    {preparation : AsrPreparation} {speakerId : String} {startMs laterMs : ℕ}
    {audio : ℕ × List UInt8} {later : Option (ℕ × List UInt8)}
    (hplaced : [(startMs, some audio), (laterMs, later)] =
      (preparation.pieces speakerId).map fun piece =>
        (pieceStartMs chunks piece, preparation.audio dir piece))
    (hplays : (laterMs + 1) * audio.1 ≤ startMs * audio.1 + audio.2.length / 2 * 1000) :
    ¬PiecesCover (fun _ => false) dir chunks [] preparation speakerId := by
  intro hcover
  have hoverlap : ((preparation.pieces speakerId).map fun piece =>
      (pieceStartMs chunks piece, preparation.audio dir piece)).Pairwise fun earlier later =>
        ∀ audio ∈ earlier.2, earlier.1 * audio.1 + audio.2.length / 2 * 1000 <
          (later.1 + 1) * audio.1 := by
    rw [List.pairwise_map]
    exact hcover.overlap
  rw [← hplaced] at hoverlap
  have hlt := List.rel_of_pairwise_cons hoverlap List.mem_cons_self audio rfl
  exact absurd hplays (Nat.not_le.mpr hlt)

/-- A directory of two staged chunks of one speaker. -/
def twoChunkDir (sampleRate firstStart secondStart firstSamples secondSamples : ℕ)
    (hplain : ∀ name ∈ [chunkFileName "alice" 1 firstStart, chunkFileName "alice" 2 secondStart],
      '/' ∉ name.toList)
    (hnodup : [chunkFileName "alice" 1 firstStart, chunkFileName "alice" 2 secondStart].Nodup) :
    MeetingDir where
  path := "audio"
  entries := [
    { name := chunkFileName "alice" 1 firstStart
      bytes := wavFileBytes (List.replicate (firstSamples * 2) 1) sampleRate 1 (sampleRate * 2)
        2 16 },
    { name := chunkFileName "alice" 2 secondStart
      bytes := wavFileBytes (List.replicate (secondSamples * 2) 1) sampleRate 1 (sampleRate * 2)
        2 16 }]
  names_nodup := hnodup
  names_plain := by simpa using hplain

/-- The second chunk straddles the end of the first. -/
def straddlingDir : MeetingDir :=
  twoChunkDir 1000 10 12 3 4 (by decide +kernel) (by decide +kernel)

theorem straddling_pieces_cover :
    ∃ chunks preparation,
      selectManifest (fun _ => false) false straddlingDir = .ok chunks ∧
      prepareManifestAsrInputs (fun _ => 0) {} (fun _ => false) straddlingDir chunks [] false =
        .ok preparation ∧
      (preparation.pieces "alice").length = 2 ∧
      PiecesCover (fun _ => false) straddlingDir chunks [] preparation "alice" := by
  have hplaced : speakerPieces straddlingDir "alice" =
      some [(10, some (1000, List.replicate 6 1)), (13, some (1000, List.replicate 6 1))] := by
    decide +kernel
  obtain ⟨chunks, preparation, hselect, hpositive, hprepare, hpieces⟩ :=
    exists_of_speakerPieces hplaced
  have hfields : (selectManifest (fun _ => false) false straddlingDir).toOption.map
      (fun chunks => (decide (∀ chunk ∈ chunks, chunk.sampleRate % 1000 = 0),
        decide (∀ chunk ∈ chunks, chunk.startMs + chunk.durationMs ≤ u64Max))) =
      some (true, true) := by decide +kernel
  rw [hselect] at hfields
  obtain ⟨hrates, hfits⟩ := Prod.mk.inj (Option.some.inj hfields)
  refine ⟨chunks, preparation, hselect, hprepare, ?_, ?_⟩
  · have hcount := congrArg List.length hpieces
    rw [List.length_map] at hcount
    exact hcount.symm
  · exact manifest_pieces_cover (fun _ => 0) {} (fun _ => false) false straddlingDir hselect
      hpositive (of_decide_eq_true hrates) (of_decide_eq_true hfits) [] false hprepare "alice"

/-- Two chunks that begin together, with forty-four and a tenth samples to a millisecond. -/
def fractionalDir : MeetingDir :=
  twoChunkDir 44100 1000 1000 45 90 (by decide +kernel) (by decide +kernel)

/-- Two chunks at the largest times. -/
def latestDir : MeetingDir :=
  twoChunkDir 1000 (u64Max - 1) u64Max 3 3 (by decide +kernel) (by decide +kernel)

/-- The scan and the preparation of a directory succeed, and the pieces of Alice do not
cover her chunks. -/
def PiecesMiss (dir : MeetingDir) : Prop :=
  ∃ chunks preparation, selectManifest (fun _ => false) false dir = .ok chunks ∧
    (∀ chunk ∈ chunks, 0 < chunk.startMs) ∧
    prepareManifestAsrInputs (fun _ => 0) {} (fun _ => false) dir chunks [] false =
      .ok preparation ∧
    ¬PiecesCover (fun _ => false) dir chunks [] preparation "alice"

/-- The trimmed head is rounded down to a millisecond, and ends saturate: in both cases the
second piece begins while the first one still has a millisecond to play. -/
theorem trimmed_pieces_overlap : PiecesMiss fractionalDir ∧ PiecesMiss latestDir := by
  have hfractional : speakerPieces fractionalDir "alice" =
      some [(1000, some (44100, List.replicate 90 1)),
        (1000, some (44100, List.replicate 92 1))] := by decide +kernel
  have hlatest : speakerPieces latestDir "alice" =
      some [(u64Max - 1, some (1000, List.replicate 6 1)),
        (u64Max, some (1000, List.replicate 6 1))] := by decide +kernel
  constructor
  · obtain ⟨chunks, preparation, hselect, hpositive, hprepare, hpieces⟩ :=
      exists_of_speakerPieces hfractional
    exact ⟨chunks, preparation, hselect, hpositive, hprepare,
      not_piecesCover_of_playsOn hpieces (by decide)⟩
  · obtain ⟨chunks, preparation, hselect, hpositive, hprepare, hpieces⟩ :=
      exists_of_speakerPieces hlatest
    exact ⟨chunks, preparation, hselect, hpositive, hprepare,
      not_piecesCover_of_playsOn hpieces (by decide)⟩

end DiscordTranscript.Audio
