import DiscordTranscript.Audio.Manifest
import DiscordTranscript.Domain.Privacy
import DiscordTranscript.Domain.Transcript
import DiscordTranscript.Interfaces.SignedTokens

/-! # Final transcription and its checkpoints

The model of `run_transcription_with_s3_sources` in `application/summary.rs`. Every
audio input of a meeting is sent to ASR once; its segments, already moved to the
speaker and to the meeting's timeline, are kept in a checkpoint file that is named
by the hash of the audio path. A later attempt on the same workspace takes an input
from its checkpoint when the seven recorded fields agree.

One workspace is given. The debug copies of ASR responses are best effort and read
by nothing, so they are left out.
-/

namespace DiscordTranscript.Application

open Audio Domain Interfaces MachineInt Text

/-! ## ASR -/

structure S3AudioObjectReference where
  key : String
  speakerId : Option String := none
  offsetMs : Option ℕ := none
  deriving DecidableEq

inductive AudioSource where
  | localFile (path : String)
  | s3Object (reference : S3AudioObjectReference)
  deriving DecidableEq

structure AsrRequest where
  source : AudioSource
  language : Option String
  prompt : Option (List Char)
  deriving DecidableEq

structure AsrResult where
  text : List Char
  segments : List TranscriptSegment
  rawBody : List Char

inductive AsrError where
  | invalidAudioSource (message : String)
  | invalidJson (message : String)
  | invalidSegment (message : String)

def AsrError.display : AsrError → String
  | .invalidAudioSource err => "invalid ASR audio source: " ++ err
  | .invalidJson err => "invalid whisper response json: " ++ err
  | .invalidSegment err => "invalid whisper segment: " ++ err

inductive SummaryError where
  | asr (message : String)
  | summaryEngine (message : String)

/-! ## Requests -/

/-- The fields of a summary request that transcription reads. -/
structure SummaryRequest where
  title : Option String
  audioPath : String
  speakerAudio : List SpeakerAudioInput
  language : Option String

def buildWhisperContextPrompt (title speakerId : Option String) : Option (List Char) :=
  let captioned (caption : String) (value : Option String) : List (List Char) :=
    match value.map fun text => trim text.toList with
    | some text =>
        if text.isEmpty then [] else [caption.toList ++ join [' '] (splitWhitespace text)]
    | none => []
  let lines := captioned "Meeting title: " title ++ captioned "Speaker ID: " speakerId
  if lines.isEmpty then none else some (join ['\n'] lines)

def buildWhisperPrompt (request : SummaryRequest) (speaker : Option SpeakerAudioInput) :
    Option (List Char) :=
  buildWhisperContextPrompt request.title (speaker.map (·.speakerId))

structure TranscriptionOutput where
  segments : List TranscriptSegment
  transcriptForSummary : List Char
  maskingStats : MaskingStats

def buildTranscriptionOutput (patterns : PiiPatterns) (segments : List TranscriptSegment) :
    TranscriptionOutput :=
  let normalized := normalizeSegments segments
  let rendered := renderForSummary normalized none
  let masked := maskPii patterns rendered
  { segments := normalized, transcriptForSummary := masked.text, maskingStats := masked.stats }

/-! ## Checkpoint files -/

def finalAsrCheckpointVersion : ℕ := 1

structure FinalAsrChunkCheckpoint (Json : Type) where
  version : ℕ
  audioPath : String
  audioFingerprint : String
  speakerId : String
  offsetMs : ℕ
  language : Option String
  prompt : Option (List Char)
  segments : List TranscriptSegment
  rawResponse : Json

/-- What every attempt shares: SHA-256, the JSON coding of checkpoints, the reading
of an ASR response as JSON, the masking patterns, and the speech recogniser as a
function of the audio, the language and the prompt. -/
structure TranscriptionPlatform where
  Json : Type
  Encoded : Type
  sha256 : List UInt8 → List UInt8
  sha256_injective : Function.Injective sha256
  encode : FinalAsrChunkCheckpoint Json → Encoded
  decode : Encoded → Option (FinalAsrChunkCheckpoint Json)
  decode_encode : ∀ checkpoint, decode (encode checkpoint) = some checkpoint
  parseRawBody : List Char → Json
  patterns : PiiPatterns
  recognise : List UInt8 → Option String → Option (List Char) → AsrResult

/-- The checkpoint directory, by file name. -/
abbrev CheckpointDir (platform : TranscriptionPlatform) := String → Option platform.Encoded

/-- The operation of `persist_final_asr_chunk_checkpoint` that fails, and what it
leaves in the file under construction. -/
inductive CheckpointFault (Encoded : Type) where
  | createDirectory (err : String)
  | encode (err : String)
  | createPart (err : String)
  | writePart (err : String) (written : Encoded)
  | flushPart (err : String)
  | rename (err : String) (removed : Bool)

section Checkpoints

variable (platform : TranscriptionPlatform)

def finalAsrChunkCheckpointPath (audioPath : String) : String :=
  toHex (platform.sha256 (utf8Bytes audioPath)) ++ ".json"

def checkpointPartPath (audioPath : String) : String :=
  finalAsrChunkCheckpointPath platform audioPath ++ ".part"

def loadFinalAsrChunkCheckpoint (files : CheckpointDir platform) (language : Option String)
    (speaker : SpeakerAudioInput) (prompt : Option (List Char)) (audioFingerprint : String) :
    Option (FinalAsrChunkCheckpoint platform.Json) := do
  let encoded ← files (finalAsrChunkCheckpointPath platform speaker.audioPath)
  let checkpoint ← platform.decode encoded
  if checkpoint.version = finalAsrCheckpointVersion ∧
      checkpoint.audioPath = speaker.audioPath ∧
      checkpoint.audioFingerprint = audioFingerprint ∧
      checkpoint.speakerId = speaker.speakerId ∧
      checkpoint.offsetMs = speaker.offsetMs ∧
      checkpoint.language = language ∧
      checkpoint.prompt = prompt then some checkpoint
  else none

/-- The checkpoint is written next to its file and then renamed over it. -/
def persistFinalAsrChunkCheckpoint (files : CheckpointDir platform)
    (fault : Option (CheckpointFault platform.Encoded))
    (checkpoint : FinalAsrChunkCheckpoint platform.Json) :
    Except String Unit × CheckpointDir platform :=
  let path := finalAsrChunkCheckpointPath platform checkpoint.audioPath
  let part := checkpointPartPath platform checkpoint.audioPath
  let bytes := platform.encode checkpoint
  match fault with
  | some (.createDirectory err) =>
      (.error ("failed to create final ASR checkpoint directory: " ++ err), files)
  | some (.encode err) => (.error ("failed to encode final ASR checkpoint: " ++ err), files)
  | some (.createPart err) => (.error ("failed to write final ASR checkpoint: " ++ err), files)
  | some (.writePart err written) =>
      (.error ("failed to write final ASR checkpoint: " ++ err),
        Function.update files part (some written))
  | some (.flushPart err) =>
      (.error ("failed to flush final ASR checkpoint: " ++ err),
        Function.update files part (some bytes))
  | some (.rename err removed) =>
      (.error ("failed to finalize final ASR checkpoint: " ++ err),
        Function.update files part (if removed then none else some bytes))
  | none => (.ok (), Function.update (Function.update files part none) path (some bytes))

end Checkpoints

/-! ## Attempts -/

/-- One call of `run_transcription_with_s3_sources`. Audio files are readable and
stay as they are during the attempt, a mirrored object holds what the local file
holds, and whatever ASR answers at an input without an error is what the recogniser
makes of the audio it was given. -/
structure TranscriptionAttempt (platform : TranscriptionPlatform) where
  request : SummaryRequest
  s3Sources : String → Option S3AudioObjectReference
  audio : AudioSource → Option (List UInt8)
  whisper : ℕ → AsrRequest → Except AsrError AsrResult
  writeFault : ℕ → Option (CheckpointFault platform.Encoded)
  paths_nodup : (request.speakerAudio.map (·.audioPath)).Nodup
  readable : ∀ speaker ∈ request.speakerAudio, (audio (.localFile speaker.audioPath)).isSome
  mirrored : ∀ path reference, s3Sources path = some reference →
    audio (.s3Object reference) = audio (.localFile path)
  recognised : ∀ input asrRequest result, whisper input asrRequest = .ok result →
    ∃ content, audio asrRequest.source = some content ∧
      result = platform.recognise content asrRequest.language asrRequest.prompt

inductive InferenceOutcome where
  | failed
  | unstored
  | stored
  deriving DecidableEq

/-- A speaker input that was sent to ASR, with the audio it held then and what came
of it: no answer, an answer without a checkpoint, or an answer and its checkpoint. -/
structure Inference where
  speaker : SpeakerAudioInput
  content : Option (List UInt8)
  language : Option String
  prompt : Option (List Char)
  outcome : InferenceOutcome
  deriving DecidableEq

/-- The workspace between attempts, and every inference made on it so far. -/
structure TranscriptionState (platform : TranscriptionPlatform) where
  checkpoints : CheckpointDir platform
  inferences : List Inference

namespace TranscriptionState

variable {platform : TranscriptionPlatform}

def empty : TranscriptionState platform := ⟨fun _ => none, []⟩

def record (state : TranscriptionState platform) (inference : Inference) :
    TranscriptionState platform :=
  { state with inferences := state.inferences ++ [inference] }

end TranscriptionState

namespace TranscriptionAttempt

variable {platform : TranscriptionPlatform} (attempt : TranscriptionAttempt platform)

def finalAsrAudioFingerprint (audioPath : String) : Option String :=
  (attempt.audio (.localFile audioPath)).map fun content => toHex (platform.sha256 content)

def asrRequest (audioPath : String) (prompt : Option (List Char)) : AsrRequest :=
  let source := match attempt.s3Sources audioPath with
    | some reference => AudioSource.s3Object reference
    | none => AudioSource.localFile audioPath
  { source, language := attempt.request.language, prompt }

/-- Segments moved to the speaker and to the meeting's timeline. -/
def placeSegments (speaker : SpeakerAudioInput) (segments : List TranscriptSegment) :
    List TranscriptSegment :=
  segments.map fun segment =>
    { segment with
      speakerId := speaker.speakerId
      startMs := saturatingAdd u64Max segment.startMs speaker.offsetMs
      endMs := saturatingAdd u64Max segment.endMs speaker.offsetMs }

/-- What the attempt sends to ASR for a speaker input. -/
def inference (speaker : SpeakerAudioInput) (outcome : InferenceOutcome) : Inference :=
  { speaker
    content := attempt.audio (.localFile speaker.audioPath)
    language := attempt.request.language
    prompt := buildWhisperPrompt attempt.request (some speaker)
    outcome }

def newCheckpoint (speaker : SpeakerAudioInput) (transcription : AsrResult) :
    FinalAsrChunkCheckpoint platform.Json :=
  { version := finalAsrCheckpointVersion
    audioPath := speaker.audioPath
    audioFingerprint := (attempt.finalAsrAudioFingerprint speaker.audioPath).getD ""
    speakerId := speaker.speakerId
    offsetMs := speaker.offsetMs
    language := attempt.request.language
    prompt := buildWhisperPrompt attempt.request (some speaker)
    segments := placeSegments speaker transcription.segments
    rawResponse := platform.parseRawBody transcription.rawBody }

/-- One round of the loop over `speaker_audio`. -/
def transcribeSpeaker (index : ℕ) (speaker : SpeakerAudioInput)
    (state : TranscriptionState platform) :
    Except SummaryError (List TranscriptSegment) × TranscriptionState platform :=
  let prompt := buildWhisperPrompt attempt.request (some speaker)
  let fingerprint := attempt.finalAsrAudioFingerprint speaker.audioPath
  match fingerprint.bind
      (loadFinalAsrChunkCheckpoint platform state.checkpoints attempt.request.language speaker
        prompt) with
  | some checkpoint => (.ok checkpoint.segments, state)
  | none =>
      match attempt.whisper index (attempt.asrRequest speaker.audioPath prompt) with
      | .error err => (.error (.asr err.display), state.record (attempt.inference speaker .failed))
      | .ok transcription =>
          let checkpoint := attempt.newCheckpoint speaker transcription
          -- the audio is hashed again after inference
          if fingerprint.isSome ∧
              attempt.finalAsrAudioFingerprint speaker.audioPath = fingerprint then
            match persistFinalAsrChunkCheckpoint platform state.checkpoints
                (attempt.writeFault index) checkpoint with
            | (.ok (), files) =>
                (.ok checkpoint.segments,
                  { state.record (attempt.inference speaker .stored) with checkpoints := files })
            | (.error err, files) =>
                (.error (.summaryEngine err),
                  { state.record (attempt.inference speaker .unstored) with checkpoints := files })
          else (.ok checkpoint.segments, state.record (attempt.inference speaker .unstored))

def transcribeSpeakers : ℕ → List SpeakerAudioInput → TranscriptionState platform →
    Except SummaryError (List TranscriptSegment) × TranscriptionState platform
  | _, [], state => (.ok [], state)
  | index, speaker :: rest, state =>
      match attempt.transcribeSpeaker index speaker state with
      | (.error err, state) => (.error err, state)
      | (.ok segments, state) =>
          match transcribeSpeakers (index + 1) rest state with
          | (.error err, state) => (.error err, state)
          | (.ok merged, state) => (.ok (segments ++ merged), state)

def runTranscriptionWithS3Sources (state : TranscriptionState platform) :
    Except SummaryError TranscriptionOutput × TranscriptionState platform :=
  if attempt.request.speakerAudio.isEmpty then
    let prompt := buildWhisperPrompt attempt.request none
    match attempt.whisper 0 (attempt.asrRequest attempt.request.audioPath prompt) with
    | .error err => (.error (.asr err.display), state)
    | .ok transcription =>
        (.ok (buildTranscriptionOutput platform.patterns transcription.segments), state)
  else
    match attempt.transcribeSpeakers 0 attempt.request.speakerAudio state with
    | (.error err, state) => (.error err, state)
    | (.ok merged, state) =>
        (.ok (buildTranscriptionOutput platform.patterns (sortTranscriptSegments merged)), state)

end TranscriptionAttempt

/-- The workspace after a sequence of attempts on it. -/
def transcriptionStep {platform : TranscriptionPlatform} (state : TranscriptionState platform)
    (attempt : TranscriptionAttempt platform) : TranscriptionState platform :=
  (attempt.runTranscriptionWithS3Sources state).2

end DiscordTranscript.Application
