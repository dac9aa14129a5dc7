import DiscordTranscript.Application.Transcription
import DiscordTranscript.Audio.ManifestPieces
import DiscordTranscript.Domain.TranscriptShift
import DiscordTranscript.Foundation.Runs

/-! # Live and final transcription of one meeting

The live-transcription outbox of `application/runtime.rs` together with the part of
`process_enqueued_summary_job` that reads and replaces its rows. Every section under the
service lock is one step, and so is every SQL transaction: it took effect as a whole or not at
all, whatever its COMMIT reported. Chunks have one identity on both paths, and ASR is a function
of the chunk.

The staged chunks of a speaker do not overlap, so that preparing the final ASR inputs keeps each
of them as it is.
-/

namespace DiscordTranscript.Application

open Audio Domain MachineInt Text TranscriptionAttempt

def maxDbTimestampMs : ℕ := 2 ^ 31 - 1

/-- The meeting as both paths see it: the staged chunks and what ASR makes of a chunk, with
times that the client has validated and that lie within the audio. -/
structure MeetingAudio where
  manifest : List AudioChunkManifestEntry
  asr : ProcessedAudioChunk → List TranscriptSegment
  asr_valid : ∀ chunk, ∀ segment ∈ asr chunk, segment.startMs < segment.endMs
  asr_fits : ∀ chunk, ∀ segment ∈ asr chunk, segment.FitsAt chunk.startMs

def manifestChunk (entry : AudioChunkManifestEntry) : ProcessedAudioChunk where
  speakerId := entry.speakerId
  sequence := entry.sequence
  startMs := entry.startMs

def MeetingAudio.staged (audio : MeetingAudio) : List ProcessedAudioChunk :=
  audio.manifest.map manifestChunk

/-! ## Live segments -/

/-- The segments of a live job, relative to its base. -/
def liveSegments (audio : MeetingAudio) (chunk : ProcessedAudioChunk) (baseStartMs : ℕ) :
    List TranscriptSegment :=
  let offsetMs := chunk.startMs - baseStartMs
  let segments := placeSegments ⟨chunk.speakerId, "", offsetMs⟩ (audio.asr chunk)
  (normalizeSegments (sortTranscriptSegments segments)).filter fun segment =>
    !(trim segment.text).isEmpty

/-- A row moved from its own base to the final one. -/
def rebaseSegment (finalTimelineBaseMs liveBase : ℕ) (segment : TranscriptSegment) :
    TranscriptSegment :=
  if finalTimelineBaseMs ≤ liveBase then
    let delta := liveBase - finalTimelineBaseMs
    { segment with
      startMs := saturatingAdd u64Max segment.startMs delta
      endMs := saturatingAdd u64Max segment.endMs delta }
  else
    let delta := finalTimelineBaseMs - liveBase
    { segment with startMs := segment.startMs - delta, endMs := segment.endMs - delta }

/-! ## Tables -/

inductive LiveStatus where
  | queued
  | running
  | done
  | failed
  deriving DecidableEq, Repr

/-- A row of `live_transcription_chunks`. -/
structure OutboxRow where
  chunk : ProcessedAudioChunk
  timelineBaseMs : ℕ
  status : LiveStatus
  hasAudioPath : Bool
  deriving DecidableEq, Repr

/-- The final rows, with the segments they were built from. -/
structure FinalTranscript where
  segments : List TranscriptSegment
  builtFrom : List (ProcessedAudioChunk × TranscriptSegment)

def updateRow (chunk : ProcessedAudioChunk) (update : OutboxRow → OutboxRow)
    (outbox : List OutboxRow) : List OutboxRow :=
  outbox.map fun row => if row.chunk = chunk then update row else row

/-- `INSERT ... ON CONFLICT (id) DO UPDATE`. -/
def upsertRow (row : OutboxRow) (update : OutboxRow → OutboxRow) (outbox : List OutboxRow) :
    List OutboxRow :=
  if outbox.any (·.chunk = row.chunk) then updateRow row.chunk update outbox else outbox ++ [row]

def persistLiveTranscriptionChunkQueued (chunk : ProcessedAudioChunk) (timelineBaseMs : ℕ) :
    List OutboxRow → List OutboxRow :=
  upsertRow ⟨chunk, timelineBaseMs, .queued, true⟩ fun row =>
    { row with
      status := if row.status = .done ∨ row.status = .running then row.status else .queued
      timelineBaseMs
      hasAudioPath := true }

def recoverInterruptedLiveTranscriptionJobs (outbox : List OutboxRow) : List OutboxRow :=
  outbox.map fun row =>
    if row.status = .running ∧ row.hasAudioPath = true then { row with status := .queued } else row

def setStatus (status : LiveStatus) (row : OutboxRow) : OutboxRow := { row with status }

/-- Only rows of one status are updated. -/
def setStatusFrom (expected status : LiveStatus) (row : OutboxRow) : OutboxRow :=
  if row.status = expected then { row with status } else row

def deleteLiveRows (chunk : ProcessedAudioChunk)
    (live : List (ProcessedAudioChunk × TranscriptSegment)) :
    List (ProcessedAudioChunk × TranscriptSegment) :=
  live.filter (·.1 ≠ chunk)

/-! ## The process -/

/-- What a transaction did and reported. -/
inductive Commit where
  | committed
  | committedUnreported
  | rolledBack
  deriving DecidableEq, Repr

def Commit.tookEffect : Commit → Bool
  | .rolledBack => false
  | _ => true

inductive LiveJobPhase where
  | claimed
  | admitted
  | transcribed
  | failing
  | retrying
  deriving DecidableEq, Repr

structure LiveJob where
  chunk : ProcessedAudioChunk
  baseStartMs : ℕ
  phase : LiveJobPhase := .claimed
  deriving DecidableEq, Repr

/-- What a summary attempt holds between its steps. -/
inductive AttemptPhase where
  /-- No final rows were found. -/
  | starting
  /-- Final rows were found; they stand for what they were built from. -/
  | recovered (found : FinalTranscript)
  /-- Live rows and completed chunks, read in one section. -/
  | gathered (live : List (ProcessedAudioChunk × TranscriptSegment))
      (completed : List ProcessedAudioChunk)
  | transcribed (result : FinalTranscript)

/-- Enqueued chunks wait with their base until the outbox has stored them. -/
structure LiveRuntime where
  bases : Option ℕ := none
  enqueued : List (ProcessedAudioChunk × ℕ) := []
  outbox : List OutboxRow := []
  live : List (ProcessedAudioChunk × TranscriptSegment) := []
  final : Option FinalTranscript := none
  jobs : List LiveJob := []
  attempt : Option AttemptPhase := none

inductive Inferred where
  | ok
  | failed
  | shutdown
  deriving DecidableEq, Repr

/-- The steps. An admission is the answer of the store: an error, or whether the meeting's
status allows live rows. -/
inductive LiveStep where
  | completeWrite (chunk : ProcessedAudioChunk) (batchBaseStartMs : ℕ)
  | persistQueued (index : ℕ) (commit : Commit) (lastAttempt : Bool)
  | restart
  | recover
  | quarantine (chunk : ProcessedAudioChunk)
  | claim (chunk : ProcessedAudioChunk) (commit : Commit)
  | admitJob (job : ℕ) (statusAllows : Option Bool)
  | infer (job : ℕ) (outcome : Inferred)
  | write (job : ℕ) (statusAllows : Option Bool) (commit : Commit)
  | markFailed (job : ℕ) (commit : Commit)
  | requeue (job : ℕ) (stored : Bool)
  | beginAttempt (loadFailed : Bool)
  | loadLive (liveFailed completedFailed : Bool)
  | transcribe (vcText : List TranscriptSegment)
  | persist (commit : Commit)
  | endAttempt

namespace LiveRuntime

variable (audio : MeetingAudio)

/-- The per-meeting base shrinks to the smallest batch base seen by this process. -/
def liveTranscriptionBase (runtime : LiveRuntime) (batchBaseStartMs : ℕ) : ℕ :=
  min batchBaseStartMs (runtime.bases.getD batchBaseStartMs)

def completeRecordingChunkWrite (runtime : LiveRuntime) (chunk : ProcessedAudioChunk)
    (batchBaseStartMs : ℕ) : LiveRuntime :=
  let base := runtime.liveTranscriptionBase (min batchBaseStartMs chunk.startMs)
  { runtime with bases := some base, enqueued := runtime.enqueued ++ [(chunk, base)] }

/-- One round of the loop that stores an enqueued chunk. -/
def persistQueuedAttempt (runtime : LiveRuntime) (index : ℕ) (chunk : ProcessedAudioChunk)
    (baseStartMs : ℕ) (commit : Commit) (lastAttempt : Bool) : LiveRuntime :=
  { runtime with
    outbox := if commit.tookEffect then
        persistLiveTranscriptionChunkQueued chunk baseStartMs runtime.outbox
      else runtime.outbox
    enqueued := if commit = .committed ∨ lastAttempt = true then runtime.enqueued.eraseIdx index
      else runtime.enqueued }

/-- The claimed row becomes a job with the row's base, unless the update reports an error. -/
def claimLiveTranscriptionJob (runtime : LiveRuntime) (chunk : ProcessedAudioChunk)
    (commit : Commit) : LiveRuntime :=
  match runtime.outbox.find? fun row =>
      decide (row.chunk = chunk) && decide (row.status = .queued) && row.hasAudioPath with
  | some row =>
      { runtime with
        outbox := if commit.tookEffect then
            updateRow chunk (setStatusFrom .queued .running) runtime.outbox
          else runtime.outbox
        jobs := if commit = .committed then
            runtime.jobs ++ [⟨chunk, row.timelineBaseMs, .claimed⟩]
          else runtime.jobs }
  | none => runtime

def setJobPhase (runtime : LiveRuntime) (job : ℕ) (phase : LiveJobPhase) : LiveRuntime :=
  { runtime with jobs := runtime.jobs.modify job fun current => { current with phase } }

def finishJob (runtime : LiveRuntime) (job : ℕ) : LiveRuntime :=
  { runtime with jobs := runtime.jobs.eraseIdx job }

def finalTranscriptRowsExist (runtime : LiveRuntime) : Bool := runtime.final.isSome

def admitJob (runtime : LiveRuntime) (job : ℕ) (statusAllows : Option Bool) : LiveRuntime :=
  match statusAllows with
  | none => runtime.setJobPhase job .retrying
  | some allows =>
      runtime.setJobPhase job
        (if allows && !runtime.finalTranscriptRowsExist then .admitted else .failing)

def dbSafe (segments : List TranscriptSegment) : Bool :=
  segments.all fun segment =>
    decide (segment.startMs ≤ maxDbTimestampMs) && decide (segment.endMs ≤ maxDbTimestampMs)

def persistLiveTranscriptionSuccess (runtime : LiveRuntime) (chunk : ProcessedAudioChunk)
    (segments : List TranscriptSegment) : LiveRuntime :=
  { runtime with
    live := deleteLiveRows chunk runtime.live ++ segments.map (chunk, ·)
    outbox := updateRow chunk (setStatus .done) runtime.outbox }

/-- The admission check and the write are one section. -/
def writeJob (runtime : LiveRuntime) (index : ℕ) (job : LiveJob) (statusAllows : Option Bool)
    (commit : Commit) : LiveRuntime :=
  match statusAllows with
  | none => runtime.setJobPhase index .retrying
  | some allows =>
      if allows && !runtime.finalTranscriptRowsExist then
        let segments := liveSegments audio job.chunk job.baseStartMs
        if dbSafe segments && commit.tookEffect then
          let written := runtime.persistLiveTranscriptionSuccess job.chunk segments
          if commit = .committed then written.finishJob index
          else written.setJobPhase index .failing
        else runtime.setJobPhase index .failing
      else runtime.setJobPhase index .failing

def markLiveTranscriptionChunkFailed (runtime : LiveRuntime) (job : LiveJob) : LiveRuntime :=
  { runtime with
    live := deleteLiveRows job.chunk runtime.live
    outbox := upsertRow ⟨job.chunk, job.baseStartMs, .failed, false⟩
      (fun row => { row with status := .failed, timelineBaseMs := job.baseStartMs })
      runtime.outbox }

/-! ## The summary attempt -/

/-- The base in the outbox row of a completed chunk. -/
def completedBase (outbox : List OutboxRow) (chunk : ProcessedAudioChunk) : Option ℕ :=
  (outbox.find? fun row => decide (row.chunk = chunk) && decide (row.status = .done)).map
    (·.timelineBaseMs)

/-- Live rows of completed chunks, moved to the final base. -/
def loadLiveTranscriptSegments (runtime : LiveRuntime) (finalTimelineBaseMs : ℕ) :
    List (ProcessedAudioChunk × TranscriptSegment) :=
  let rows := runtime.live.filterMap fun entry =>
    (completedBase runtime.outbox entry.1).map fun liveBase =>
      (entry.1, rebaseSegment finalTimelineBaseMs liveBase { entry.2 with mergedCount := 1 })
  rows.insertionSort fun left right => left.2.orderKey ≤ right.2.orderKey

def loadCompletedLiveTranscriptionChunks (runtime : LiveRuntime) : List ProcessedAudioChunk :=
  (runtime.outbox.filter (·.status = .done)).map (·.chunk)

/-- Both are read in one section; without live rows every chunk is transcribed again. -/
def gatherLive (runtime : LiveRuntime) (liveFailed completedFailed : Bool) : AttemptPhase :=
  let live := if liveFailed then []
    else runtime.loadLiveTranscriptSegments (manifestMeetingStartMs audio.manifest)
  if live.isEmpty || completedFailed then .gathered [] []
  else .gathered live runtime.loadCompletedLiveTranscriptionChunks

/-- One ASR input for every staged chunk that live transcription has not completed. -/
def finalAsrSegments (completed : List ProcessedAudioChunk) :
    List (ProcessedAudioChunk × TranscriptSegment) :=
  (audio.manifest.filter (manifestChunk · ∉ completed)).flatMap fun entry =>
    (placeSegments (entry.asrInput (manifestMeetingStartMs audio.manifest))
      (audio.asr (manifestChunk entry))).map (manifestChunk entry, ·)

/-- Final ASR of the remaining chunks, then the live segments, then the messages of the voice
channel. -/
def transcribeGathered (live : List (ProcessedAudioChunk × TranscriptSegment))
    (completed : List ProcessedAudioChunk) (vcText : List TranscriptSegment) : FinalTranscript :=
  let remaining := finalAsrSegments audio completed
  let transcribed := normalizeSegments (sortTranscriptSegments (remaining.map (·.2)))
  let voice := if live.isEmpty then transcribed
    else normalizeSegments (sortTranscriptSegments (transcribed ++ live.map (·.2)))
  let segments := if vcText.isEmpty then voice
    else normalizeSegments (sortTranscriptSegments (voice ++ vcText))
  ⟨segments, live ++ remaining⟩

def transcribe (phase : AttemptPhase) (vcText : List TranscriptSegment) : AttemptPhase :=
  match phase with
  | .recovered found => .transcribed { found with segments := normalizeSegments found.segments }
  | .gathered live completed => .transcribed (transcribeGathered audio live completed vcText)
  | phase => phase

/-- The final rows replace the old ones and all live rows. -/
def persistTranscriptSegments (runtime : LiveRuntime) (result : FinalTranscript)
    (commit : Commit) : LiveRuntime :=
  if !result.segments.isEmpty && dbSafe result.segments && commit.tookEffect then
    { runtime with
      final := some { result with segments := sortTranscriptSegments result.segments }
      live := [] }
  else runtime

/-! ## Steps -/

def step (runtime : LiveRuntime) : LiveStep → LiveRuntime
  | .completeWrite chunk batchBaseStartMs =>
      runtime.completeRecordingChunkWrite chunk batchBaseStartMs
  | .persistQueued index commit lastAttempt =>
      match runtime.enqueued[index]? with
      | some (chunk, baseStartMs) =>
          runtime.persistQueuedAttempt index chunk baseStartMs commit lastAttempt
      | none => runtime
  | .restart => { runtime with bases := none, enqueued := [], jobs := [], attempt := none }
  | .recover =>
      { runtime with outbox := recoverInterruptedLiveTranscriptionJobs runtime.outbox }
  | .quarantine chunk =>
      { runtime with outbox := updateRow chunk (setStatusFrom .queued .failed) runtime.outbox }
  | .claim chunk commit => runtime.claimLiveTranscriptionJob chunk commit
  | .admitJob job statusAllows =>
      match runtime.jobs[job]? with
      | some ⟨_, _, .claimed⟩ => runtime.admitJob job statusAllows
      | _ => runtime
  | .infer job outcome =>
      match runtime.jobs[job]? with
      | some ⟨_, _, .admitted⟩ =>
          runtime.setJobPhase job
            (match outcome with
              | .ok => .transcribed
              | .failed => .failing
              | .shutdown => .retrying)
      | _ => runtime
  | .write job statusAllows commit =>
      match runtime.jobs[job]? with
      | some ⟨chunk, baseStartMs, .transcribed⟩ =>
          runtime.writeJob audio job ⟨chunk, baseStartMs, .transcribed⟩ statusAllows commit
      | _ => runtime
  | .markFailed job commit =>
      match runtime.jobs[job]? with
      | some ⟨chunk, baseStartMs, .failing⟩ =>
          (if commit.tookEffect then
            runtime.markLiveTranscriptionChunkFailed ⟨chunk, baseStartMs, .failing⟩
          else runtime).finishJob job
      | _ => runtime
  | .requeue job stored =>
      match runtime.jobs[job]? with
      | some ⟨chunk, _, .retrying⟩ =>
          { runtime.finishJob job with
            outbox := if stored then
              updateRow chunk (setStatusFrom .running .queued) runtime.outbox
            else runtime.outbox }
      | _ => runtime
  | .beginAttempt loadFailed =>
      match runtime.final with
      | some found =>
          { runtime with attempt := some (if loadFailed then .starting else .recovered found) }
      | none => { runtime with attempt := some .starting }
  | .loadLive liveFailed completedFailed =>
      match runtime.attempt with
      | some .starting =>
          { runtime with attempt := some (runtime.gatherLive audio liveFailed completedFailed) }
      | _ => runtime
  | .transcribe vcText =>
      { runtime with attempt := runtime.attempt.map fun phase => transcribe audio phase vcText }
  | .persist commit =>
      match runtime.attempt with
      | some (.transcribed result) => runtime.persistTranscriptSegments result commit
      | _ => runtime
  | .endAttempt => { runtime with attempt := none }

end LiveRuntime

end DiscordTranscript.Application
