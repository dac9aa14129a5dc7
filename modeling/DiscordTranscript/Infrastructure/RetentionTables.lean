import Mathlib.Data.PNat.Defs
import DiscordTranscript.Infrastructure.SqlMeetings
import DiscordTranscript.Infrastructure.Workspace

/-! # What retention reads and deletes

The policy of `domain/retention.rs`, and the statements of
`application/retention_cleanup.rs` and `infrastructure/sql.rs` that list expired
workspaces, mark what has been cleaned and delete rows. The periodic cleanup lets
the settings that a meeting was recorded with override the policy; the cleanup that
an administrator starts does not look at them. Apart from that their statements
agree, so they take the numbers of days as an argument.
-/

namespace DiscordTranscript.Infrastructure

open Domain

structure RetentionPolicy where
  rawAudioTtlDays : ℕ+ := 7
  transcriptTtlDays : ℕ+ := 30
  summaryTtlDays : Option ℕ+ := none
  deriving DecidableEq

/-! ## Rows -/

/-- A row of `meeting_effective_settings`. -/
structure EffectiveSettingsRow where
  meetingId : String
  retentionRawAudioTtlDays : ℤ
  retentionTranscriptTtlDays : ℤ
  retentionSummaryTtlDays : Option ℤ
  deriving DecidableEq

structure StoredTranscript where
  id : String
  meetingId : String
  createdAt : ℤ
  isDeleted : Bool := false
  deriving DecidableEq

structure StoredSummary where
  id : String
  meetingId : String
  createdAt : ℤ
  deriving DecidableEq

structure StoredArtifact where
  id : String
  meetingId : String
  kind : String
  createdAt : ℤ
  expiresAt : Option ℤ := none
  deriving DecidableEq

structure RetentionDatabase where
  meetings : MeetingsTable
  settings : Table EffectiveSettingsRow fun row => row.meetingId
  transcripts : Table StoredTranscript fun row => row.id
  summaries : Table StoredSummary fun row => row.id
  artifacts : Table StoredArtifact fun row => row.id

def rawAudioKinds : List String := ["raw_audio", "audio", "mixdown_audio", "speaker_audio"]

def transcriptKinds : List String := ["transcript", "masked_transcript"]

def summaryKinds : List String := ["summary", "summary_markdown"]

def debugKinds : List String := ["debug", "debug_artifact", "whisper_debug"]

/-! ## When something has expired -/

/-- The days that each kind of data of a meeting is kept; without a number it is kept
for good. -/
structure RetentionTtl where
  rawAudio : String → Option ℤ
  transcript : String → Option ℤ
  summary : String → Option ℤ

/-- The numbers of the policy for every meeting. -/
def RetentionPolicy.fixedTtl (policy : RetentionPolicy) : RetentionTtl where
  rawAudio := fun _ => some policy.rawAudioTtlDays
  transcript := fun _ => some policy.transcriptTtlDays
  summary := fun _ => policy.summaryTtlDays.map fun days => days

/-- `CASE WHEN s.meeting_id IS NULL THEN .. WHEN .. > 0 THEN .. END`. -/
def snapshotDays (snapshot : Option (Option ℤ)) (fallback : Option ℤ) : Option ℤ :=
  match snapshot with
  | none => fallback
  | some days => days.filter (0 < ·)

/-- The numbers that a meeting was recorded with, else those of the policy. -/
def RetentionDatabase.ttl (db : RetentionDatabase) (policy : RetentionPolicy) : RetentionTtl where
  rawAudio := fun meetingId => snapshotDays
    ((db.settings.get meetingId).map fun row => some row.retentionRawAudioTtlDays)
    (policy.fixedTtl.rawAudio meetingId)
  transcript := fun meetingId => snapshotDays
    ((db.settings.get meetingId).map fun row => some row.retentionTranscriptTtlDays)
    (policy.fixedTtl.transcript meetingId)
  summary := fun meetingId => snapshotDays
    ((db.settings.get meetingId).map fun row => row.retentionSummaryTtlDays)
    (policy.fixedTtl.summary meetingId)

def dayMs : ℤ := 24 * 60 * 60 * 1000

/-- `.. IS NOT NULL AND .. < NOW() - ((.. || ' days')::interval)`. -/
def expired (days : Option ℤ) (now : ℤ) (time : Option ℤ) : Bool :=
  days.any fun days => time.any (· < now - days * dayMs)

/-- `status IN ('posted', 'failed', 'aborted')`. -/
def MeetingRow.finished (meeting : MeetingRow) : Bool :=
  meeting.status = .posted || meeting.status = .failed || meeting.status = .aborted

def MeetingRow.ids (meeting : MeetingRow) : MeetingIds where
  guildId := meeting.guildId
  voiceChannelId := meeting.voiceChannelId
  meetingId := meeting.id

/-- What every statement asks of the meeting. -/
def MeetingRow.retained (guildId : String) (meeting : MeetingRow) : Bool :=
  meeting.guildId = guildId && meeting.finished

namespace RetentionDatabase

variable (db : RetentionDatabase) (ttl : RetentionTtl) (guildId : String) (now : ℤ)

/-! ## Expired workspaces -/

/-- Of which meetings the raw audio has expired. -/
def rawExpired (meeting : MeetingRow) : Bool :=
  meeting.retained guildId && expired (ttl.rawAudio meeting.id) now meeting.stoppedAt

/-- `.._EXPIRED_RAW_WORKSPACES_SQL`. -/
def expiredRawWorkspaces : List MeetingRow :=
  db.meetings.rows.filter fun meeting =>
    rawExpired ttl guildId now meeting && meeting.retentionRawCleanedAt.isNone

/-- `.._EXPIRED_DEBUG_WORKSPACES_SQL`. -/
def expiredDebugWorkspaces : List MeetingRow :=
  db.meetings.rows.filter fun meeting =>
    rawExpired ttl guildId now meeting && meeting.retentionRawCleanedAt.isSome

/-- All that is left of a meeting's transcript has expired. -/
def transcriptExpired (meeting : MeetingRow) : Bool :=
  let days := ttl.transcript meeting.id
  let own := db.transcripts.rows.filter fun row => row.meetingId = meeting.id
  days.isSome && meeting.retained guildId &&
    !(own.any fun row => !row.isDeleted && !expired days now (some row.createdAt)) &&
    (own.any (fun row => expired days now (some row.createdAt)) ||
      expired days now meeting.stoppedAt)

/-- `.._EXPIRED_TRANSCRIPT_WORKSPACES_SQL`. -/
def expiredTranscriptWorkspaces : List MeetingRow :=
  db.meetings.rows.filter (db.transcriptExpired ttl guildId now)

/-- All summaries of a meeting have expired. -/
def summaryExpired (meeting : MeetingRow) : Bool :=
  let days := ttl.summary meeting.id
  let own := db.summaries.rows.filter fun row => row.meetingId = meeting.id
  days.isSome && meeting.retained guildId &&
    !(own.any fun row => !expired days now (some row.createdAt)) &&
    (expired days now meeting.stoppedAt ||
      own.any fun row => expired days now (some row.createdAt))

/-- `.._EXPIRED_SUMMARY_WORKSPACES_SQL`. -/
def expiredSummaryWorkspaces : List MeetingRow :=
  db.meetings.rows.filter (db.summaryExpired ttl guildId now)

/-! ## Updates and deletions -/

/-- A meeting that a row belongs to, with a condition on it. -/
def ofMeeting (meetingId : String) (selected : MeetingRow → Bool) : Bool :=
  db.meetings.rows.any fun meeting => meeting.id = meetingId && selected meeting

def setRawCleaned (meeting : MeetingRow) : MeetingRow :=
  { meeting with
    retentionRawCleanedAt := some now
    updatedAt := now }

def clearTitle (meeting : MeetingRow) : MeetingRow :=
  { meeting with
    title := none
    updatedAt := now }

/-- `.._MARK_RAW_WORKSPACE_CLEANED_SQL`; only the one for administrators asks for a
finished meeting. -/
def markRawWorkspaceCleaned (onlyFinished : Bool) (meetingId : String) : RetentionDatabase :=
  { db with
    meetings := db.meetings.update (fun meeting => meeting.id = meetingId &&
        meeting.guildId = guildId && (!onlyFinished || meeting.finished) &&
        meeting.retentionRawCleanedAt.isNone)
      (setRawCleaned now) fun _ => rfl }

/-- `.._MARK_TRANSCRIPTS_DELETED_SQL`. -/
def markTranscriptsDeleted : RetentionDatabase :=
  { db with
    transcripts := db.transcripts.update (fun row => !row.isDeleted &&
        expired (ttl.transcript row.meetingId) now (some row.createdAt) &&
        db.ofMeeting row.meetingId (MeetingRow.retained guildId))
      (fun row => { row with isDeleted := true }) fun _ => rfl }

/-- `.._DELETE_EXPIRED_ARTIFACTS_SQL`. -/
def deleteExpiredArtifacts : RetentionDatabase :=
  { db with
    artifacts := db.artifacts.delete fun row => row.expiresAt.any (· ≤ now) &&
      db.ofMeeting row.meetingId (MeetingRow.retained guildId) }

/-- `.._DELETE_RAW_ARTIFACTS_SQL` and `.._DELETE_DEBUG_ARTIFACTS_SQL`, which go by the
end of the meeting. -/
def deleteArtifactsOfStopped (kinds : List String) : RetentionDatabase :=
  { db with
    artifacts := db.artifacts.delete fun row => kinds.contains row.kind &&
      db.ofMeeting row.meetingId (rawExpired ttl guildId now) }

/-- `.._DELETE_TRANSCRIPT_ARTIFACTS_SQL` and `.._DELETE_SUMMARY_ARTIFACTS_SQL`, which go
by their own age. -/
def deleteAgedArtifacts (kinds : List String) (days : String → Option ℤ) : RetentionDatabase :=
  { db with
    artifacts := db.artifacts.delete fun row => kinds.contains row.kind &&
      expired (days row.meetingId) now (some row.createdAt) &&
      db.ofMeeting row.meetingId (MeetingRow.retained guildId) }

/-- `.._DELETE_SUMMARIES_SQL`. The deletion reads the titles as they were before the
update. -/
def deleteSummaries : RetentionDatabase :=
  let cleared (meeting : MeetingRow) : Bool :=
    meeting.title.isSome && meeting.guildId = guildId && db.summaryExpired ttl guildId now meeting
  { db with
    meetings := db.meetings.update cleared (clearTitle now) fun _ => rfl
    summaries := db.summaries.delete fun row =>
      expired (ttl.summary row.meetingId) now (some row.createdAt) &&
      db.ofMeeting row.meetingId fun meeting => meeting.retained guildId &&
        (!db.summaryExpired ttl guildId now meeting || cleared meeting || meeting.title.isNone) }

/-- `ADMIN_RETENTION_MARK_MEETING_TRANSCRIPTS_DELETED_SQL`. -/
def markMeetingTranscriptsDeleted (meetingId : String) : RetentionDatabase :=
  { db with
    transcripts := db.transcripts.update (fun row => row.meetingId = meetingId &&
        db.ofMeeting meetingId (MeetingRow.retained guildId) && !row.isDeleted)
      (fun row => { row with isDeleted := true }) fun _ => rfl }

/-- `ADMIN_RETENTION_DELETE_MEETING_SUMMARIES_SQL`. -/
def deleteMeetingSummaries (meetingId : String) : RetentionDatabase :=
  let cleared (meeting : MeetingRow) : Bool :=
    meeting.id = meetingId && meeting.title.isSome && meeting.retained guildId
  { db with
    meetings := db.meetings.update cleared (clearTitle now) fun _ => rfl
    summaries := db.summaries.delete fun row => row.meetingId = meetingId &&
      db.ofMeeting meetingId fun meeting => meeting.retained guildId &&
        (meeting.title.isNone || cleared meeting) }

/-- `ADMIN_RETENTION_DELETE_MEETING_ARTIFACTS_BY_KIND_SQL`. -/
def deleteMeetingArtifacts (meetingId : String) (kinds : List String) : RetentionDatabase :=
  { db with
    artifacts := db.artifacts.delete fun row => row.meetingId = meetingId &&
      db.ofMeeting meetingId (MeetingRow.retained guildId) && kinds.contains row.kind }

/-- A statement whose answer is only counted. -/
def run (reply : Reply) (statement : RetentionDatabase → RetentionDatabase) : RetentionDatabase :=
  (reply.execute db ((), statement db)).2

end RetentionDatabase

end DiscordTranscript.Infrastructure
