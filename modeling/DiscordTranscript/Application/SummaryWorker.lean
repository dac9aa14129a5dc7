import DiscordTranscript.Foundation.Interleaving
import DiscordTranscript.Infrastructure.Queue
import DiscordTranscript.Infrastructure.Storage

/-! # The summary worker

The model of `application/worker.rs`: a summary job is enqueued, processed by
whoever has claimed it, and completed after the notification. A worker is a
program in which every call of the store and of the queue is one action; between
two actions other workers may act and the lease may be lost. How a call to the
outside ends (audio files, transcription, summary engine, workspace) is an input
of an action that leaves the two stores alone.
-/

namespace DiscordTranscript.Application

open Domain Infrastructure Interleaving

inductive WorkerError where
  | queue (message : String)
  | store (message : String)
  | summary (message : String)
  | completion (message : String)
  | alreadyExists
  deriving DecidableEq, Repr

def WorkerError.display : WorkerError → String
  | .queue err => s!"queue error: {err}"
  | .store err => s!"store error: {err}"
  | .summary err => s!"summary error: {err}"
  | .completion err => s!"summary completion error: {err}"
  | .alreadyExists => "summary job already exists in queue"

def enqueueSummaryJob (queue : InMemoryJobQueue) (jobId meetingId : String) :
    Except WorkerError Unit × InMemoryJobQueue :=
  let fresh : FreshJob := { id := jobId, meetingId := meetingId, jobType := .summarize }
  match queue.enqueue fresh.job with
  | (.ok (), queue) => (.ok (), queue)
  | (.error (.alreadyExists _), queue) => (.error .alreadyExists, queue)
  | (.error err, queue) => (.error (.queue err.display), queue)

/-! ## Actions of a worker -/

/-- The two stores. `exhausted` is the worker whose retry used the job up, with
the statuses it has still to try; nothing reads it. -/
structure SummaryShared where
  store : InMemoryMeetingStore
  queue : InMemoryJobQueue
  exhausted : Option (ℕ × List MeetingStatus) := none

/-- What the environment decides at an action: the clock, and for a call to the
outside the error it ends with or what it answers. -/
structure WorkerInput where
  now : ℤ
  failure : Option String := none
  text : String := ""
  seconds : ℕ := 0

abbrev Worker := ExceptT WorkerError (Program SummaryShared WorkerInput)

def queueCall {α : Type}
    (call : InMemoryJobQueue → ℤ → Except QueueError α × InMemoryJobQueue) : Worker α :=
  ExceptT.mk <| Program.atomic fun shared input =>
    let (result, queue) := call shared.queue input.now
    (result.mapError fun err => .queue err.display, { shared with queue := queue })

/-- The answer of the store as a value; `orFail` is the `?` after it. -/
def storeCall {α : Type}
    (call : InMemoryMeetingStore → ℤ → Except StoreError α × InMemoryMeetingStore) :
    Worker (Except StoreError α) :=
  ExceptT.mk <| Program.atomic fun shared input =>
    let (result, store) := call shared.store input.now
    (.ok result, { shared with store := store })

def orFail {α : Type} : Except StoreError α → Worker α
  | .ok value => pure value
  | .error err => throw (.store err.display)

/-- A call to the outside. -/
def outside : Worker WorkerInput :=
  ExceptT.mk <| Program.atomic fun shared input => (.ok input, shared)

def heartbeat (job : Job) : Worker Unit := queueCall fun queue now => queue.heartbeat job now

def markDone (job : Job) : Worker Unit := queueCall fun queue now => queue.markDone job now

def setMeetingStatus (meetingId : String) (status expected : MeetingStatus) :
    Worker (Except StoreError Unit) :=
  storeCall fun store _ => store.setMeetingStatus meetingId status (some expected)

def setErrorMessage (meetingId : String) (errorMessage : Option String) :
    Worker (Except StoreError Unit) :=
  storeCall fun store _ => store.setErrorMessage meetingId errorMessage

def setMeetingTitle (meetingId title : String) : Worker (Except StoreError Unit) :=
  storeCall fun store _ => store.setMeetingTitle meetingId title

def getMeeting (meetingId : String) : Worker (Except StoreError (Option StoredMeeting)) :=
  storeCall fun store _ => (.ok (store.get meetingId), store)

def getEffectiveMeetingSettings (meetingId : String) :
    Worker (Except StoreError (Option EffectiveMeetingSettings)) :=
  storeCall fun store _ => (.ok (store.effectiveSettings.lookup meetingId), store)

/-- A failure of the in-memory store to append an event does not occur. -/
def recordUsageEvent (event : ℤ → UsageEvent) : Worker Unit := do
  let _ ← storeCall fun store now => (.ok (), store.appendUsageEvent (event now))

/-! ## The status of the meeting -/

/-- The loop of `advance_to_transcribing` over the statuses left to try. -/
def advanceFrom (meetingId : String) : List MeetingStatus → Worker Unit
  | [] => throw (.store s!"could not advance meeting {meetingId} to transcribing")
  | expected :: rest => do
      match ← setMeetingStatus meetingId .transcribing expected with
      | .ok () => pure ()
      | .error (.casConflict _) => advanceFrom meetingId rest
      | .error err => throw (.store err.display)

def summaryStatuses : List MeetingStatus := [.stopping, .transcribing, .summarizing]

def advanceToTranscribing (meetingId : String) : Worker Unit :=
  advanceFrom meetingId summaryStatuses

def revertToStoppingForRetry (meetingId : String) (fromStatus : MeetingStatus) : Worker Unit := do
  let _ ← setMeetingStatus meetingId .stopping fromStatus

/-- One round of the loop below. -/
def attemptFailed (self : ℕ) (meetingId : String) (expected : MeetingStatus)
    (rest : List MeetingStatus) : Worker (Except StoreError Unit) :=
  ExceptT.mk <| Program.atomic fun shared _ =>
    let (result, store) := shared.store.setMeetingStatus meetingId .failed (some expected)
    let left := match result with
      | .error (.casConflict _) => rest
      | _ => []
    (.ok result, { shared with
      store := store
      exhausted := if left = [] then none else some (self, left) })

/-- The loop of `mark_summary_meeting_failed_from_summary_state`. -/
def markFailedFrom (self : ℕ) (meetingId errorMessage : String) : List MeetingStatus → Worker Bool
  | [] => pure false
  | expected :: rest => do
      match ← attemptFailed self meetingId expected rest with
      | .ok () =>
          orFail (← setErrorMessage meetingId (some errorMessage))
          pure true
      | .error (.casConflict _) => markFailedFrom self meetingId errorMessage rest
      | .error err => throw (.store err.display)

def retryJob (self : ℕ) (job : Job) (errorMessage : String) (maxRetries : ℕ) : Worker JobStatus :=
  ExceptT.mk <| Program.atomic fun shared input =>
    let (result, queue) := shared.queue.retry job errorMessage maxRetries input.now
    (result.mapError fun err => .queue err.display, { shared with
      queue := queue
      exhausted := match result with
        | .ok .failed => some (self, summaryStatuses)
        | _ => shared.exhausted })

/-! ## The pipeline -/

structure SummaryJobOptions where
  maxRetries : ℕ
  supportsTranscriptCorrection : Bool := false

structure ProcessMeetingOutput where
  meetingId : String
  title : String
  markdown : String

structure ProcessJobResult where
  jobId : String
  job : Job
  output : ProcessMeetingOutput

/-- The error arm after a call to the outside that failed. -/
def revertOnFailure (meetingId : String) (fromStatus : MeetingStatus) (result : WorkerInput) :
    Worker Unit :=
  match result.failure with
  | none => pure ()
  | some err => do
      revertToStoppingForRetry meetingId fromStatus
      throw (.summary err)

/-- The ASR usage is recorded when the length of the audio can be read. -/
def recordAsrUsage (job : Job) (meeting : StoredMeeting) : Worker Unit := do
  let asrSeconds ← outside
  match asrSeconds.failure with
  | some _ => pure ()
  | none => recordUsageEvent fun now => {
      id := s!"usage:asr_seconds:{job.meetingId}"
      guildId := meeting.guildId
      meetingId := some job.meetingId
      quantity := asrSeconds.seconds
      observedAt := now }

/-- A failed correction only leaves the transcript as it was. -/
def correctTranscript (options : SummaryJobOptions) (job : Job) : Worker Unit :=
  if options.supportsTranscriptCorrection then do
    heartbeat job
    let _correction ← outside
  else pure ()

/-- `process_meeting_summary_with_s3_sources` with `ensure_owned` a heartbeat.
The in-memory store does not extract AI memory. -/
def processMeetingSummary (options : SummaryJobOptions) (job : Job) (meeting : StoredMeeting) :
    Worker ProcessMeetingOutput := do
  heartbeat job
  advanceToTranscribing job.meetingId
  let transcription ← outside
  heartbeat job
  revertOnFailure job.meetingId .transcribing transcription
  recordAsrUsage job meeting
  heartbeat job
  let _debugArtifact ← outside
  heartbeat job
  orFail (← setMeetingStatus job.meetingId .summarizing .transcribing)
  heartbeat job
  let contextManifest ← outside
  heartbeat job
  revertOnFailure job.meetingId .summarizing contextManifest
  correctTranscript options job
  heartbeat job
  let manifest ← outside
  heartbeat job
  revertOnFailure job.meetingId .summarizing manifest
  let workspaceSupported ← outside
  revertOnFailure job.meetingId .summarizing workspaceSupported
  heartbeat job
  let _promptArtifact ← outside
  heartbeat job
  let agentWorkspace ← outside
  heartbeat job
  revertOnFailure job.meetingId .summarizing agentWorkspace
  let markdown ← outside
  heartbeat job
  revertOnFailure job.meetingId .summarizing markdown
  let contextLeak ← outside
  revertOnFailure job.meetingId .summarizing contextLeak
  heartbeat job
  let persisted ← outside
  revertOnFailure job.meetingId .summarizing persisted
  heartbeat job
  let title ← outside
  heartbeat job
  orFail (← setMeetingTitle job.meetingId title.text)
  heartbeat job
  let _titleArtifact ← outside
  heartbeat job
  return { meetingId := job.meetingId, title := title.text, markdown := markdown.text }

/-! ## A claimed job -/

def recordSummaryCompletionUsage (meetingId : String) : Worker Unit := do
  match ← getMeeting meetingId with
  | .ok (some meeting) => recordUsageEvent fun now => {
      id := s!"usage:summary_runs:{meetingId}"
      guildId := meeting.guildId
      meetingId := some meetingId
      quantity := 1
      observedAt := now }
  | _ => pure ()

def completePosted (job : Job) (summaryEnabled : Bool) : Worker (Option ProcessMeetingOutput) := do
  heartbeat job
  markDone job
  if summaryEnabled then
    recordSummaryCompletionUsage job.meetingId
    return none
  else return none

def suppressDisabled (job : Job) (meeting : StoredMeeting) :
    Worker (Option ProcessMeetingOutput) :=
  match meeting.status with
  | .stopping => do
      heartbeat job
      orFail (← setMeetingStatus job.meetingId .posted .stopping)
      heartbeat job
      markDone job
      return none
  | status =>
      throw (.store (s!"cannot suppress disabled summary job for meeting {job.meetingId} " ++
        s!"in status {status.asStr}"))

/-- Preparing the workspace, the mixdown and the uploads fails with the text of a
summary error or provides the input of the pipeline. -/
def prepareAudio : Worker Unit := do
  match (← outside).failure with
  | none => pure ()
  | some err => throw (.summary err)

/-- The closure whose result decides about the job. -/
def attemptSummaryJob (options : SummaryJobOptions) (job : Job) :
    Worker (Option ProcessMeetingOutput) := do
  match ← orFail (← getMeeting job.meetingId) with
  | none => throw (.store s!"meeting not found for summary: {job.meetingId}")
  | some meeting =>
      let effectiveSettings ← orFail (← getEffectiveMeetingSettings job.meetingId)
      let summaryEnabled := effectiveSettings.all (·.summaryEnabled)
      if meeting.status = .posted then completePosted job summaryEnabled
      else if !summaryEnabled then suppressDisabled job meeting
      else
        prepareAudio
        return some (← processMeetingSummary options job meeting)

def processClaimedSummaryJob (options : SummaryJobOptions) (self : ℕ) (job : Job) :
    Worker (Option ProcessJobResult) := do
  match ← ExceptT.lift (attemptSummaryJob options job).run with
  | .ok (some output) =>
      heartbeat job
      return some { jobId := job.id, job := job, output := output }
  | .ok none => return none
  | .error err =>
      heartbeat job
      let status ← retryJob self job err.display options.maxRetries
      if status = .failed then
        let _ ← markFailedFrom self job.meetingId err.display summaryStatuses
        throw err
      else throw err

def completeSummaryJobAfterNotification (job : Job) : Worker Bool := do
  heartbeat job
  orFail (← setMeetingStatus job.meetingId .posted .summarizing)
  orFail (← setErrorMessage job.meetingId none)
  match ← ExceptT.lift (markDone job).run with
  | .ok () => return true
  | .error _ => return false

/-- A worker from its claim on; the notification in between may fail. -/
def summaryWorker (options : SummaryJobOptions) (self : ℕ) (job : Job) : Worker Unit := do
  match ← processClaimedSummaryJob options self job with
  | none => pure ()
  | some result =>
      match (← outside).failure with
      | some err => throw (.completion err)
      | none => let _ ← completeSummaryJobAfterNotification result.job

/-- The last step of a completion. -/
def markCompleted (job : Job) : Worker Bool := do
  match ← ExceptT.lift (markDone job).run with
  | .ok () => return true
  | .error _ => return false

/-- The worker from its notification on. -/
def notifyAndComplete (job : Job) : Worker Unit := do
  match (← outside).failure with
  | some err => throw (.completion err)
  | none => let _ ← completeSummaryJobAfterNotification job

/-! ## Several workers -/

inductive SummaryEvent where
  | claimNext (options : SummaryJobOptions) (token : String) (now : ℤ)
  | claimById (options : SummaryJobOptions) (token : String) (now : ℤ)
  | recoverStaleRunning (limit : ℕ) (now : ℤ)

/-- The call of the queue that an event about the job is. -/
def SummaryEvent.queueCall (jobId : String) : SummaryEvent → QueueCall
  | .claimNext _ token now => { now := now, op := .claimNext .summarize token }
  | .claimById _ token now => { now := now, op := .claimById jobId token }
  | .recoverStaleRunning limit now => { now := now, op := .recoverStaleRunning .summarize limit }

def summaryEnvironment (jobId : String) (shared : SummaryShared) (event : SummaryEvent) :
    SummaryShared :=
  { shared with queue := shared.queue.step (event.queueCall jobId) }

/-- A claim of the job starts a worker. -/
def spawnSummaryWorker (jobId : String) (shared : SummaryShared) (event : SummaryEvent)
    (self : ℕ) : Option (Program SummaryShared WorkerInput (Except WorkerError Unit)) :=
  match event with
  | .claimNext options token now =>
      ((shared.queue.claimNext .summarize token now).1.filter (·.id = jobId)).map
        fun job => (summaryWorker options self job).run
  | .claimById options token now =>
      (shared.queue.claimById jobId token now).1.map fun job => (summaryWorker options self job).run
  | .recoverStaleRunning _ _ => none

abbrev SummarySystem := Threads SummaryShared WorkerInput (Except WorkerError Unit)

def SummarySystem.step (jobId : String) (system : SummarySystem)
    (event : Event WorkerInput SummaryEvent) : SummarySystem :=
  Threads.step (summaryEnvironment jobId) (spawnSummaryWorker jobId) system event

end DiscordTranscript.Application
