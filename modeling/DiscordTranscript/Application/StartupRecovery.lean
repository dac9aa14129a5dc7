import DiscordTranscript.Application.RecordingCommands
import DiscordTranscript.Infrastructure.SqlMeetings

/-! # Recovery at startup

The model of `domain/recovery.rs`, of `application/recovery_runner.rs` and of the
loop body of `run_startup_recovery` in `application/runtime.rs`, over the tables of
the database. What the file system, the gateway and the local sessions answer is an
input, and so is how the executor ends each statement. Of `run_summary_and_notify`
the statements on the meeting and on its job are here; which of them it runs, and in
what order, is an input as well. Leaving the voice channel and posting a notification
do not touch the tables.
-/

namespace DiscordTranscript.Application

open Domain Infrastructure

/-! ## The decision -/

structure RecoveryCandidate where
  meetingId : String
  status : MeetingStatus
  voiceConnected : Bool
  hasLocalSession : Bool
  hasRecordingFile : Bool
  deriving DecidableEq, Repr

inductive RecoveryAction where
  | noop
  | confirmStopClientDisconnect
  | requeueSummary
  | markFailedMissingRecording
  deriving DecidableEq, Repr

def decideRecoveryAction (candidate : RecoveryCandidate) : RecoveryAction :=
  match candidate.status with
  | .recording =>
      if candidate.voiceConnected && candidate.hasLocalSession then .noop
      else if candidate.hasRecordingFile then .confirmStopClientDisconnect
      else .markFailedMissingRecording
  | .stopping | .transcribing | .summarizing =>
      if candidate.hasRecordingFile then .requeueSummary else .markFailedMissingRecording
  | .scheduled | .posted | .failed | .aborted => .noop

/-! ## The runner -/

inductive RecoveryEffect where
  | noop (meetingId : String)
  | stopConfirmedClientDisconnect (meetingId : String)
  | summaryRequeued (meetingId : String)
  | markedFailed (meetingId : String)
  deriving DecidableEq, Repr

inductive RecoveryRunnerError where
  | store (message : String)
  | stop (message : String)
  deriving DecidableEq, Repr

/-- How the executor ends the statements of one turn, and when they run. -/
structure RecoveryReplies where
  now : ℤ
  status : Reply := .answered
  errorMessage : Reply := .answered
  requeueStale : Reply := .answered
  enqueue : Reply := .answered
  jobStatusError : Option String := none
  driverText : String := ""

/-- `stop_meeting`. -/
def stopMeetingRow (table : MeetingsTable) (meetingId : String) (reason : StopReason) (now : ℤ)
    (reply : Reply) : Except StoreError StopOutcome × MeetingsTable :=
  let (result, next) := SqlMeetingStore.markStoppingIfRecording table meetingId reason now reply
  (result.map fun transition => match transition with
    | .acquired => .owner
    | .alreadyStoppingOrStopped => .alreadyHandled, next)

def runRecovery (table : MeetingsTable) (candidate : RecoveryCandidate)
    (replies : RecoveryReplies) : Except RecoveryRunnerError RecoveryEffect × MeetingsTable :=
  match decideRecoveryAction candidate with
  | .noop => (.ok (.noop candidate.meetingId), table)
  | .confirmStopClientDisconnect =>
      match stopMeetingRow table candidate.meetingId .clientDisconnect replies.now replies.status with
      | (.error err, next) => (.error (.stop err.display), next)
      | (.ok .owner, next) => (.ok (.stopConfirmedClientDisconnect candidate.meetingId), next)
      | (.ok .alreadyHandled, next) => (.ok (.summaryRequeued candidate.meetingId), next)
  | .requeueSummary =>
      if candidate.status = .transcribing ∨ candidate.status = .summarizing then
        match SqlMeetingStore.setMeetingStatus table candidate.meetingId .stopping candidate.status
            replies.now replies.status with
        | (.error err, next) => (.error (.store err.display), next)
        | (.ok (), next) => (.ok (.summaryRequeued candidate.meetingId), next)
      else (.ok (.summaryRequeued candidate.meetingId), table)
  | .markFailedMissingRecording =>
      match SqlMeetingStore.setMeetingStatus table candidate.meetingId .failed candidate.status
          replies.now replies.status with
      | (.error err, next) => (.error (.store err.display), next)
      | (.ok (), next) =>
          match SqlMeetingStore.setErrorMessage next candidate.meetingId
              (some "missing recording artifact during recovery") replies.now
              replies.errorMessage with
          | (.error err, last) => (.error (.store err.display), last)
          | (.ok (), last) => (.ok (.markedFailed candidate.meetingId), last)

/-! ## The summary job -/

inductive RecoverySummaryJobClaimState where
  | claimable
  | delayed (nextRunAt : ℤ)
  | busy
  | terminal
  | unavailable
  deriving DecidableEq, Repr

/-- `enqueue_summary_job` on the table. -/
def enqueueSummaryJobRow (table : JobsTable) (jobId meetingId : String)
    (replies : RecoveryReplies) : Except WorkerError Unit × JobsTable :=
  let fresh : FreshJob := { id := jobId, meetingId := meetingId, jobType := .summarize }
  match SqlJobQueue.enqueue table fresh.job replies.driverText replies.now replies.enqueue with
  | (.ok (), next) => (.ok (), next)
  | (.error (.alreadyExists _), next) => (.error .alreadyExists, next)
  | (.error err, next) => (.error (.queue err.display), next)

/-- `RECOVERY_SUMMARY_JOB_STATUS_SQL`, and what the row says. -/
def recoveryExistingSummaryJobClaimState (table : JobsTable) (jobId : String)
    (replies : RecoveryReplies) : RecoverySummaryJobClaimState :=
  match replies.jobStatusError with
  | some _ => .unavailable
  | none =>
      match (table.get jobId).filter fun row => row.jobType = .summarize with
      | none => .unavailable
      | some row =>
          match row.status with
          | .queued =>
              match row.nextRunAt with
              | some nextRunAt =>
                  if nextRunAt > replies.now then .delayed nextRunAt else .claimable
              | none => .claimable
          | .running => .busy
          | .done | .failed | .canceled => .terminal

def recoverSummaryJobForStartup (table : JobsTable) (jobId meetingId : String)
    (summaryEnabled : Bool) (replies : RecoveryReplies) :
    RecoverySummaryJobClaimState × JobsTable :=
  if !summaryEnabled then (.unavailable, table)
  else match replies.requeueStale.execute table (table.requeueStaleJob jobId replies.now) with
  | (.error _, next) => (.unavailable, next)
  | (.ok _, next) =>
      match enqueueSummaryJobRow next jobId meetingId replies with
      | (.ok (), last) => (.claimable, last)
      | (.error .alreadyExists, last) =>
          (recoveryExistingSummaryJobClaimState last jobId replies, last)
      | (.error _, last) => (.unavailable, last)

/-! ## The turn of one meeting -/

/-- `recoverable_audio_dir_with_legacy_fallback`, of what `has_nonempty_audio_chunk`
answers for the two directories: whether the audio is in the legacy one. -/
def recoverableAudioDir (primary legacy : Except String Bool) : Except String (Option Bool) :=
  match primary with
  | .ok true => .ok (some false)
  | .ok false =>
      match legacy with
      | .ok true => .ok (some true)
      | .ok false => .ok none
      | .error legacyErr => .error legacyErr
  | .error primaryErr =>
      match legacy with
      | .ok true => .ok (some true)
      | .ok false => .error primaryErr
      | .error legacyErr => .error s!"{primaryErr}; legacy fallback also failed: {legacyErr}"

def recoveryCanResumeFromFinalTranscript (status : MeetingStatus) : Bool :=
  status = .stopping || status = .transcribing || status = .summarizing

/-- What surrounds a meeting when its turn comes. -/
structure RecoverySurroundings where
  lookupError : Option String := none
  primaryAudio : Except String Bool
  legacyAudio : Except String Bool
  finalTranscriptRows : Except String Bool
  voiceConnected : Bool
  localSession : Bool
  summaryEnabled : Bool

/-- Whether something is left to summarize; `none` when that cannot be found out. -/
def recordingFile (surroundings : RecoverySurroundings) (known : Bool) (status : MeetingStatus) :
    Option Bool :=
  let audio := if known then recoverableAudioDir surroundings.primaryAudio surroundings.legacyAudio
    else surroundings.legacyAudio.map fun found => if found then some true else none
  let recoverable := match audio with
    | .ok dir => dir.isSome
    | .error _ => false
  let discoveryFailed := match audio with
    | .ok _ => false
    | .error _ => true
  let finalRows := !recoverable && recoveryCanResumeFromFinalTranscript status &&
    match surroundings.finalTranscriptRows with
    | .ok rows => rows
    | .error _ => false
  if discoveryFailed && !finalRows then none else some (recoverable || finalRows)

/-- How the turn of a meeting ends. -/
inductive RecoveryOutcome where
  | deferred
  | kept
  | failed
  | process
  | retryAt (nextRunAt : ℤ)
  | left (state : RecoverySummaryJobClaimState)
  deriving DecidableEq, Repr

/-- The end of a turn, after `run_recovery`. -/
def followUp (jobs : JobsTable) (meetingId : String) (summaryEnabled : Bool)
    (replies : RecoveryReplies) (result : Except RecoveryRunnerError RecoveryEffect) :
    RecoveryOutcome × JobsTable :=
  match result with
  | .error _ => (.deferred, jobs)
  | .ok (.noop _) => (.kept, jobs)
  | .ok (.markedFailed _) => (.failed, jobs)
  | .ok (.summaryRequeued _) | .ok (.stopConfirmedClientDisconnect _) =>
      let (state, next) := recoverSummaryJobForStartup jobs (summaryJobId meetingId) meetingId
        summaryEnabled replies
      (match state with
        | .claimable => .process
        | .delayed nextRunAt => .retryAt nextRunAt
        | other => .left other, next)

/-- The loop body of `run_startup_recovery` for a meeting found with `status`. -/
def recoverMeeting (db : Database) (meetingId : String) (status : MeetingStatus)
    (surroundings : RecoverySurroundings) (replies : RecoveryReplies) :
    RecoveryOutcome × Database :=
  match surroundings.lookupError with
  | some _ => (.deferred, db)
  | none =>
      let known := (db.meetings.get meetingId).isSome
      match recordingFile surroundings known status with
      | none => (.deferred, db)
      | some hasRecordingFile =>
          let candidate : RecoveryCandidate := {
            meetingId := meetingId
            status := status
            voiceConnected := surroundings.voiceConnected
            hasLocalSession := known && surroundings.localSession
            hasRecordingFile := hasRecordingFile }
          let (result, meetings) := runRecovery db.meetings candidate replies
          let (outcome, jobs) := followUp db.jobs meetingId surroundings.summaryEnabled replies
            result
          (outcome, { meetings := meetings, jobs := jobs })

/-! ## Processing the summary -/

/-- What `process_enqueued_summary_job` and the posting expect of the status and make of it. -/
def summaryMoves : List (MeetingStatus × MeetingStatus) :=
  [(.stopping, .transcribing), (.transcribing, .summarizing), (.summarizing, .posted),
    -- a phase that is to be retried, and one whose retry could not be recorded
    (.transcribing, .stopping), (.summarizing, .stopping), (.stopping, .summarizing),
    (.stopping, .failed), (.transcribing, .failed), (.summarizing, .failed)]

/-- A statement on the meeting or on its summary job. -/
inductive SummaryStatement where
  | claimById (claimToken : String)
  | claimant (op : ClaimantOp) (job : Job)
  | setMeetingStatus (expected status : MeetingStatus) (hmove : (expected, status) ∈ summaryMoves)
  | setErrorMessage (errorMessage : Option String)
  | setMeetingTitle (title : String)
  | setStatusMessage (channelId messageId : String)
  | setSummaryThreadId (threadId : String)

structure SummaryCall where
  now : ℤ
  statement : SummaryStatement
  reply : Reply := .answered

def summaryStep (meetingId : String) (db : Database) (call : SummaryCall) : Database :=
  match call.statement with
  | .claimById claimToken =>
      { db with jobs := db.jobs.step {
          now := call.now
          op := .claimById (summaryJobId meetingId) claimToken
          reply := call.reply } }
  | .claimant op job =>
      { db with jobs := db.jobs.step {
          now := call.now
          op := .claimant op { job with id := summaryJobId meetingId }
          reply := call.reply } }
  | .setMeetingStatus expected status _ =>
      { db with meetings := (SqlMeetingStore.setMeetingStatus db.meetings meetingId status expected
          call.now call.reply).2 }
  | .setErrorMessage errorMessage =>
      { db with meetings := (SqlMeetingStore.setErrorMessage db.meetings meetingId errorMessage
          call.now call.reply).2 }
  | .setMeetingTitle title =>
      { db with meetings := (SqlMeetingStore.setMeetingTitle db.meetings meetingId title call.now
          call.reply).2 }
  | .setStatusMessage channelId messageId =>
      { db with meetings := (SqlMeetingStore.setStatusMessage db.meetings meetingId channelId
          messageId call.now call.reply).2 }
  | .setSummaryThreadId threadId =>
      { db with meetings := (SqlMeetingStore.setSummaryThreadId db.meetings meetingId threadId
          call.now call.reply).2 }

/-- `run_summary_and_notify`, and the retries that are spawned for the meeting, as far as the
process gets with them. No other meeting is touched, so they may be run on their own. -/
def runSummaryAndNotify (meetingId : String) (db : Database) (calls : List SummaryCall) :
    Database := Machine.run (summaryStep meetingId) db calls

/-! ## A pass over the meetings -/

/-- What surrounds the meetings during a pass, how its statements end, what the summaries that it
starts do to their meetings, and how many meetings it reaches before the process ends. -/
structure RecoveryPass where
  surroundings : String → RecoverySurroundings
  replies : String → RecoveryReplies
  summaries : String → List SummaryCall := fun _ => []
  reached : ℕ

/-- The turn of a meeting as the scan found it. -/
def RecoveryPass.turn (pass : RecoveryPass) (db : Database) (snapshot : MeetingRow) : Database :=
  let (outcome, next) := recoverMeeting db snapshot.id snapshot.status
    (pass.surroundings snapshot.id) (pass.replies snapshot.id)
  match outcome with
  | .process | .retryAt _ => runSummaryAndNotify snapshot.id next (pass.summaries snapshot.id)
  | _ => next

/-- `run_startup_recovery`. -/
def runStartupRecovery (db : Database) (pass : RecoveryPass) : Database :=
  Machine.run pass.turn db (db.meetings.recoveryScan.take pass.reached)

end DiscordTranscript.Application
