import Mathlib.Data.Prod.Lex
import Mathlib.Data.String.Basic
import DiscordTranscript.Foundation.AssocSum
import DiscordTranscript.Audio.ChunkFile
import DiscordTranscript.Audio.SongbirdAdapter

/-! # The audio manifest and the inputs of final transcription

The model of the manifest half of `audio/meeting_audio.rs`. A meeting directory
is scanned for staged chunks in one of two modes, and the manifest is turned
into the audio inputs of the final ASR run. The directory is fixed while this
happens. What `fs::read_dir` lists, what the persisted SSRC mapping parses to,
and the outcomes of the writes into `transcription_chunks` are given; the
filter of the resampler and `char::is_alphanumeric` outside ASCII are
parameters.
-/

namespace DiscordTranscript.Audio

open MachineInt Infrastructure

def maxMeetingAudioSpanMs : ℕ := 24 * 3600 * 1000
def maxMeetingAudioChunks : ℕ := 4096
def maxMeetingAudioInputPcmBytes : ℕ := 512 * 1024 * 1024
def maxS3FinalAsrBytes : ℕ := maxMeetingAudioInputPcmBytes + 44 * maxMeetingAudioChunks
def maxSpeakerAudioOutputs : ℕ := 256

structure ProcessedAudioChunk where
  speakerId : String
  sequence : ℕ
  startMs : ℕ
  deriving DecidableEq, Repr

structure SpeakerAudioInput where
  speakerId : String
  audioPath : String
  offsetMs : ℕ
  deriving DecidableEq, Repr

structure DirEntry where
  name : String
  isDir : Bool := false
  bytes : List UInt8 := []
  modifiedMs : Option ℕ := none
  deriving DecidableEq

/-- A meeting's audio directory in listing order. `tracker` is the parsed
`ssrc_mapping.json`, absent when the file is missing or unreadable. -/
structure MeetingDir where
  path : String
  entries : List DirEntry
  tracker : Option SsrcTracker := none
  names_nodup : (entries.map (·.name)).Nodup
  names_plain : ∀ entry ∈ entries, '/' ∉ entry.name.toList

namespace MeetingDir

def chunkPath (dir : MeetingDir) (entry : DirEntry) : ChunkPath :=
  { dir := dir.path, name := entry.name }

def stagedFile (dir : MeetingDir) (entry : DirEntry) : StagedFile where
  path := dir.chunkPath entry
  bytes := entry.bytes
  modifiedMs := entry.modifiedMs

/-- `read_wav_pcm` of a path in the directory. -/
def readPcm (dir : MeetingDir) (path : ChunkPath) : Except String (ℕ × List UInt8) :=
  match dir.entries.find? (fun entry => dir.chunkPath entry = path) with
  | some entry => readWavPcm path entry.bytes
  | none => .error s!"failed to stat {path.display}: No such file or directory (os error 2)"

end MeetingDir

/-! ## Scanning -/

/-- The scanners skip directories, other extensions, and the mixdown. -/
def DirEntry.isChunkFile (entry : DirEntry) : Bool :=
  let (stem, extension) := splitExtension entry.name
  !entry.isDir && extension.any (fun ext => ext.toList.map Char.toLower = "wav".toList) &&
    stem ≠ "mixdown"

/-- The local variables of a scan. -/
structure ManifestScan where
  chunks : List AudioChunkManifestEntry := []
  skippedChunks : ℕ := 0
  totalBytes : ℕ := 0

/-- One directory entry; `uploadBudget` is on in the S3 scanner only. -/
def MeetingDir.scanEntry (dir : MeetingDir) (uploadBudget : Bool) (scan : ManifestScan)
    (entry : DirEntry) : Except String ManifestScan :=
  if !entry.isChunkFile then .ok scan
  else match loadChunkMetadata (dir.stagedFile entry) with
  | .error _ => .ok { scan with skippedChunks := scan.skippedChunks + 1 }
  | .ok chunk =>
      if scan.chunks.length ≥ maxMeetingAudioChunks then
        .error s!"too many audio chunks in {dir.path}: max {maxMeetingAudioChunks}"
      else if !uploadBudget then .ok { scan with chunks := scan.chunks ++ [chunk] }
      else match checkedAdd u64Max scan.totalBytes chunk.fileSizeBytes with
      | none => .error "S3 final ASR audio size overflow"
      | some totalBytes =>
          if totalBytes > maxS3FinalAsrBytes then
            .error s!"S3 final ASR audio exceeds byte limit: {totalBytes} (max {maxS3FinalAsrBytes})"
          else .ok { scan with chunks := scan.chunks ++ [chunk], totalBytes := totalBytes }

def ManifestScan.emptyError (scan : ManifestScan) : String :=
  if scan.skippedChunks > 0 then
    s!"no audio chunks found for meeting (skipped {scan.skippedChunks} corrupt chunk(s))"
  else "no audio chunks found for meeting"

def manifestKey (chunk : AudioChunkManifestEntry) : ℕ ×ₗ String ×ₗ ℕ :=
  toLex (chunk.startMs, toLex (chunk.speakerId, chunk.sequence))

def sortManifest (chunks : List AudioChunkManifestEntry) : List AudioChunkManifestEntry :=
  chunks.insertionSort fun left right => manifestKey left ≤ manifestKey right

def scanMixdownChunkManifest (dir : MeetingDir) :
    Except String (List AudioChunkManifestEntry) := do
  let scan ← dir.entries.foldlM (dir.scanEntry false) {}
  if scan.chunks.isEmpty then .error scan.emptyError
  else .ok (sortManifest scan.chunks)

/-- The latest end minus the earliest start. -/
def manifestSpanMs (chunks : List AudioChunkManifestEntry) : ℕ :=
  let meetingStartMs := ((chunks.map (·.startMs)).min?).getD 0
  let meetingEndMs :=
    ((chunks.map fun chunk => saturatingAdd u64Max chunk.startMs chunk.durationMs).max?).getD
      meetingStartMs
  meetingEndMs - meetingStartMs

section

variable (unicodeAlphanumeric : Char → Bool)

/-- The raw fallback id, then its path-component forms. -/
def ssrcKeys (ssrc : ℕ) : List String :=
  SsrcTracker.fallbackKey ssrc ::
    sanitizePathComponentCandidates unicodeAlphanumeric (SsrcTracker.fallbackKey ssrc)

def loadSsrcMapping (dir : MeetingDir) : AList fun _ : String => String :=
  (dir.tracker.elim [] (·.ssrcToUser)).foldl
    (fun lookup mapping => (ssrcKeys unicodeAlphanumeric mapping.1).foldl
      (fun lookup key => lookup.insert key mapping.2) lookup) ∅

def resolveSpeaker (mapping : AList fun _ : String => String)
    (chunk : AudioChunkManifestEntry) : AudioChunkManifestEntry :=
  { chunk with speakerId := (mapping.lookup chunk.speakerId).getD chunk.speakerId }

def scanChunkManifest (dir : MeetingDir) : Except String (List AudioChunkManifestEntry) := do
  let scan ← dir.entries.foldlM (dir.scanEntry true) {}
  let chunks := scan.chunks.map (resolveSpeaker (loadSsrcMapping unicodeAlphanumeric dir))
  let speakerCount := (chunks.map (·.speakerId)).dedup.length
  if scan.chunks.isEmpty then .error scan.emptyError
  else if manifestSpanMs scan.chunks > maxMeetingAudioSpanMs then
    .error s!"S3 final ASR audio span exceeds limit: {manifestSpanMs scan.chunks} ms (max {maxMeetingAudioSpanMs})"
  else if speakerCount > maxSpeakerAudioOutputs then
    .error s!"too many speaker audio outputs in {dir.path}: {speakerCount} (max {maxSpeakerAudioOutputs})"
  else .ok (sortManifest chunks)

/-- The choice in `process_enqueued_summary_job`: the S3 scanner when recordings
are kept in an object store, else the mixdown scanner. -/
def selectManifest (recordingObjects : Bool) (dir : MeetingDir) :
    Except String (List AudioChunkManifestEntry) :=
  if recordingObjects then
    (scanChunkManifest unicodeAlphanumeric dir).mapError (s!"S3 manifest failed: {·}")
  else (scanMixdownChunkManifest dir).mapError (s!"audio manifest failed: {·}")

/-! ## ASR inputs -/

def manifestMeetingStartMs (chunks : List AudioChunkManifestEntry) : ℕ :=
  (((chunks.map (·.startMs)).filter (· > 0)).min?.or (chunks.map (·.startMs)).min?).getD 0

def normalizedProcessedChunks (mapping : AList fun _ : String => String)
    (processed : List ProcessedAudioChunk) : List (String × ℕ × ℕ) :=
  processed.map fun chunk =>
    let speakerId := ((mapping.lookup chunk.speakerId).or
      ((SsrcTracker.parseSsrcFallback chunk.speakerId).bind fun ssrc =>
        mapping.lookup (SsrcTracker.fallbackKey ssrc))).getD chunk.speakerId
    (speakerId, chunk.sequence, chunk.startMs)

/-- The mapping is read from the directory of the first chunk. -/
def manifestMapping (dir : MeetingDir) (chunks : List AudioChunkManifestEntry) :
    AList fun _ : String => String :=
  if chunks.isEmpty then ∅ else loadSsrcMapping unicodeAlphanumeric dir

/-- The chunk is one of those that live transcription has completed. -/
def isProcessed (dir : MeetingDir) (chunks : List AudioChunkManifestEntry)
    (processed : List ProcessedAudioChunk) (chunk : AudioChunkManifestEntry) : Bool :=
  (normalizedProcessedChunks (manifestMapping unicodeAlphanumeric dir chunks) processed).contains
    (chunk.speakerId, chunk.sequence, chunk.startMs)

def speakerAudioInputsFromManifest (dir : MeetingDir) (chunks : List AudioChunkManifestEntry)
    (processed : List ProcessedAudioChunk) : List SpeakerAudioInput :=
  (chunks.filter fun chunk => !isProcessed unicodeAlphanumeric dir chunks processed chunk).map
    fun chunk => {
      speakerId := chunk.speakerId
      audioPath := chunk.path.display
      offsetMs := chunk.startMs - manifestMeetingStartMs chunks }

end

def asrInputKey (input : SpeakerAudioInput) : String ×ₗ ℕ ×ₗ String :=
  toLex (input.speakerId, toLex (input.offsetMs, input.audioPath))

def sortAsrInputs (inputs : List SpeakerAudioInput) : List SpeakerAudioInput :=
  inputs.insertionSort fun left right => asrInputKey left ≤ asrInputKey right

/-- The outcomes of creating the output directory and of writing into it: the
text of the error for a path, if there is one. -/
structure AsrOutputs where
  createDir : String → Option String := fun _ => none
  write : String → Option String := fun _ => none

structure AsrPreparation where
  speakerEnds : AList (fun _ : String => ℕ) := ∅
  outputDir : Option String := none
  prepared : List SpeakerAudioInput := []
  written : List (String × List UInt8) := []

def AsrPreparation.speakerEnd (state : AsrPreparation) (speakerId : String) : ℕ :=
  (state.speakerEnds.lookup speakerId).getD 0

/-- The input is kept and its speaker's end moves to the end of the chunk. -/
def AsrPreparation.push (state : AsrPreparation) (input : SpeakerAudioInput) (chunkEndMs : ℕ) :
    AsrPreparation :=
  { state with
    speakerEnds := state.speakerEnds.insert input.speakerId
      (max (state.speakerEnd input.speakerId) chunkEndMs)
    prepared := state.prepared ++ [input] }

/-- The overlapping head is cut at a sample boundary. Nothing may be left. -/
def trimOverlap (entry : AudioChunkManifestEntry) (overlapMs : ℕ) (pcm : List UInt8) :
    Option (List UInt8 × ℕ) :=
  if overlapMs = 0 then some (pcm, entry.startMs)
  else
    let samplesToSkip := saturatingMul u64Max overlapMs entry.sampleRate / 1000
    let bytesToSkip := saturatingMul u64Max samplesToSkip 2
    if bytesToSkip ≥ pcm.length then none
    else some (pcm.drop bytesToSkip, saturatingAdd u64Max entry.startMs
      (saturatingMul u64Max samplesToSkip 1000 / entry.sampleRate))

def asrOutputDir (path : ChunkPath) : String := path.dir ++ "/transcription_chunks"

def asrOutputPath (path : ChunkPath) : String :=
  asrOutputDir path ++ "/" ++ path.name ++ ".asr.wav"

section

variable (fir : List ℤ → ℤ) (outputs : AsrOutputs)

/-- The output directory is created once. -/
def AsrPreparation.createOutputDir (state : AsrPreparation) (dir : String) : Option String :=
  if state.outputDir.isSome then none else outputs.createDir dir

/-- The tail of an iteration: the trimmed or resampled audio becomes a file. -/
def AsrPreparation.writeOutput (state : AsrPreparation) (entry : AudioChunkManifestEntry)
    (input : SpeakerAudioInput) (pcm : List UInt8) (outputRate startMs meetingStartMs : ℕ) :
    Except String AsrPreparation :=
  let dir := asrOutputDir entry.path
  let outputPath := asrOutputPath entry.path
  match state.createOutputDir outputs dir with
  | some err => .error s!"failed to create {dir}: {err}"
  | none =>
      match buildWavBytesRaw pcm outputRate 1 16 with
      | .error err => .error s!"failed to encode prepared chunk: {err.display}"
      | .ok wav =>
          match outputs.write outputPath with
          | some err => .error s!"failed to write {outputPath}: {err}"
          | none =>
              let renamed := { input with
                audioPath := outputPath
                offsetMs := startMs - meetingStartMs }
              .ok ({ state with
                outputDir := some dir
                written := state.written ++ [(outputPath, wav)] }.push renamed
                  (saturatingAdd u64Max entry.startMs entry.durationMs))

def resampleForAsr (needsResample : Bool) (pcm : List UInt8) (sampleRate : ℕ) :
    List UInt8 × ℕ :=
  if needsResample then resamplePcm16le fir pcm sampleRate 16000 else (pcm, sampleRate)

/-- One iteration of the loop over the sorted inputs. -/
def prepareInput (dir : MeetingDir) (chunks : List AudioChunkManifestEntry)
    (resampleTo16k : Bool) (state : AsrPreparation) (input : SpeakerAudioInput) :
    Except String AsrPreparation :=
  -- A later chunk of the same path replaces an earlier one in the map.
  match chunks.reverse.find? (fun chunk => chunk.path.display = input.audioPath) with
  | none => .error s!"manifest entry missing for {input.audioPath}"
  | some entry =>
      let chunkEndMs := saturatingAdd u64Max entry.startMs entry.durationMs
      let overlapMs := state.speakerEnd input.speakerId - entry.startMs
      let needsResample := resampleTo16k && entry.sampleRate ≠ 16000
      if overlapMs ≥ entry.durationMs ∧ overlapMs > 0 then .ok state
      else if overlapMs = 0 ∧ !needsResample then .ok (state.push input chunkEndMs)
      else do
        let (_, pcm) ← dir.readPcm entry.path
        match trimOverlap entry overlapMs pcm with
        | none => .ok state
        | some (trimmed, startMs) =>
            let (output, outputRate) :=
              resampleForAsr fir needsResample trimmed entry.sampleRate
            let meetingStartMs := manifestMeetingStartMs chunks
            if needsResample ∧ outputRate ≠ 16000 ∧ overlapMs = 0 then
              .ok (state.push input chunkEndMs)
            else state.writeOutput outputs entry input output outputRate startMs meetingStartMs

def prepareManifestAsrInputs (unicodeAlphanumeric : Char → Bool) (dir : MeetingDir)
    (chunks : List AudioChunkManifestEntry) (processed : List ProcessedAudioChunk)
    (resampleTo16k : Bool) : Except String AsrPreparation :=
  (sortAsrInputs
    (speakerAudioInputsFromManifest unicodeAlphanumeric dir chunks processed)).foldlM
    (prepareInput fir outputs dir chunks resampleTo16k) {}

end

end DiscordTranscript.Audio
