import DiscordTranscript.Infrastructure.SqlJobs
import DiscordTranscript.Infrastructure.Storage

/-! # The meetings table

The part of `SqlMeetingStore` (`infrastructure/sql_store.rs`) and of the statements
in `infrastructure/sql.rs` that stop a meeting, move it and note an error, a title or
the messages about it, with the table `meetings` beside the table `jobs`.
-/

namespace DiscordTranscript.Infrastructure

open Domain

structure MeetingRow extends StoredMeeting where
  summaryThreadId : Option String := none
  retentionRawCleanedAt : Option ℤ := none
  updatedAt : ℤ
  deriving DecidableEq, Repr

/-- `id` is the primary key. -/
abbrev MeetingsTable := Table MeetingRow fun row => row.id

structure Database where
  meetings : MeetingsTable
  jobs : JobsTable

/-- `GREATEST(0, EXTRACT(EPOCH FROM ..)::INTEGER)`, which rounds to the nearest second. -/
def epochSeconds (startedAt stoppedAt : ℤ) : ℕ := ((stoppedAt - startedAt + 500) / 1000).toNat

namespace MeetingRow

def setStopping (reason : StopReason) (now : ℤ) (row : MeetingRow) : MeetingRow :=
  { row with
    status := .stopping
    stopReason := some reason
    stoppedAt := some now
    durationSeconds := row.startedAt.map (epochSeconds · now)
    updatedAt := now }

def setStatus (status : MeetingStatus) (now : ℤ) (row : MeetingRow) : MeetingRow :=
  { row with
    status := status
    updatedAt := now }

/-- `error_message=NULLIF($1, '')`. -/
def setError (errorMessage : String) (now : ℤ) (row : MeetingRow) : MeetingRow :=
  { row with
    errorMessage := if errorMessage = "" then none else some errorMessage
    updatedAt := now }

def setTitle (title : String) (now : ℤ) (row : MeetingRow) : MeetingRow :=
  { row with
    title := some title
    updatedAt := now }

def setStatusMessage (channelId messageId : String) (now : ℤ) (row : MeetingRow) : MeetingRow :=
  { row with
    statusMessageChannelId := some channelId
    statusMessageId := some messageId
    updatedAt := now }

def setThread (threadId : String) (now : ℤ) (row : MeetingRow) : MeetingRow :=
  { row with
    summaryThreadId := some threadId
    updatedAt := now }

end MeetingRow

/-! ## The statements -/

/-- What `SET_MEETING_STATUS_CAS_SQL` answers. -/
inductive CasOutcome where
  | updated
  | conflict
  | notFound
  deriving DecidableEq, Repr

namespace MeetingsTable

/-- `MARK_STOPPING_IF_RECORDING_SQL`. -/
def markStoppingIfRecording (table : MeetingsTable) (meetingId : String) (reason : StopReason)
    (now : ℤ) : Option MeetingRow × MeetingsTable :=
  table.updateKey meetingId (fun row => row.status = .recording)
    (MeetingRow.setStopping reason now) fun _ => rfl

/-- `SET_MEETING_STATUS_CAS_SQL`. -/
def setMeetingStatusCas (table : MeetingsTable) (status : MeetingStatus) (meetingId : String)
    (expected : MeetingStatus) (now : ℤ) : CasOutcome × MeetingsTable :=
  let (updated, next) := table.updateKey meetingId (fun row => row.status = expected)
    (MeetingRow.setStatus status now) fun _ => rfl
  (if updated.isSome then .updated
    else if (table.get meetingId).isSome then .conflict
    else .notFound, next)

/-- `UPDATE meetings SET .. WHERE id=..`. -/
def setColumns (table : MeetingsTable) (meetingId : String) (change : MeetingRow → MeetingRow)
    (hkey : ∀ row, (change row).id = row.id) : Option MeetingRow × MeetingsTable :=
  table.updateKey meetingId (fun _ => true) change hkey

/-- `RECOVERY_SCAN_SQL`. -/
def recoveryScan (table : MeetingsTable) : List MeetingRow :=
  table.rows.filter fun row => row.status = .recording || row.status = .stopping ||
    row.status = .transcribing || row.status = .summarizing

end MeetingsTable

/-! ## The store -/

namespace SqlMeetingStore

def markStoppingIfRecording (table : MeetingsTable) (meetingId : String) (reason : StopReason)
    (now : ℤ) (reply : Reply) : Except StoreError StopTransition × MeetingsTable :=
  let (result, next) := reply.execute table (table.markStoppingIfRecording meetingId reason now)
  ((result.mapError .backend).map fun row =>
    if row.isSome then .acquired else .alreadyStoppingOrStopped, next)

/-- With an expected status. -/
def setMeetingStatus (table : MeetingsTable) (meetingId : String) (status expected : MeetingStatus)
    (now : ℤ) (reply : Reply) : Except StoreError Unit × MeetingsTable :=
  match reply.execute table (table.setMeetingStatusCas status meetingId expected now) with
  | (.error err, next) => (.error (.backend err), next)
  | (.ok .updated, next) => (.ok (), next)
  | (.ok .conflict, next) => (.error (.casConflict meetingId), next)
  | (.ok .notFound, next) => (.error (.notFound meetingId), next)

/-- The shared body of the setters below. -/
def setColumns (table : MeetingsTable) (meetingId : String) (change : MeetingRow → MeetingRow)
    (hkey : ∀ row, (change row).id = row.id) (reply : Reply) :
    Except StoreError Unit × MeetingsTable :=
  match reply.execute table (table.setColumns meetingId change hkey) with
  | (.error err, next) => (.error (.backend err), next)
  | (.ok (some _), next) => (.ok (), next)
  | (.ok none, next) => (.error (.notFound meetingId), next)

def setErrorMessage (table : MeetingsTable) (meetingId : String) (errorMessage : Option String)
    (now : ℤ) (reply : Reply) : Except StoreError Unit × MeetingsTable :=
  setColumns table meetingId (MeetingRow.setError (errorMessage.getD "") now) (fun _ => rfl) reply

def setMeetingTitle (table : MeetingsTable) (meetingId title : String) (now : ℤ) (reply : Reply) :
    Except StoreError Unit × MeetingsTable :=
  setColumns table meetingId (MeetingRow.setTitle title now) (fun _ => rfl) reply

def setStatusMessage (table : MeetingsTable) (meetingId channelId messageId : String) (now : ℤ)
    (reply : Reply) : Except StoreError Unit × MeetingsTable :=
  setColumns table meetingId (MeetingRow.setStatusMessage channelId messageId now) (fun _ => rfl)
    reply

def setSummaryThreadId (table : MeetingsTable) (meetingId threadId : String) (now : ℤ)
    (reply : Reply) : Except StoreError Unit × MeetingsTable :=
  setColumns table meetingId (MeetingRow.setThread threadId now) (fun _ => rfl) reply

end SqlMeetingStore

end DiscordTranscript.Infrastructure
