import Mathlib.Data.Nat.Notation

/-! # Statuses and roles

The enumerations of `domain/model.rs` that meetings and jobs carry, with the
texts under which they are stored and reported, and the roles of
`domain/authz.rs` with what they may do.
-/

namespace DiscordTranscript.Domain

inductive MeetingStatus where
  | scheduled
  | recording
  | stopping
  | transcribing
  | summarizing
  | posted
  | failed
  | aborted
  deriving DecidableEq, Repr

def MeetingStatus.asStr : MeetingStatus → String
  | .scheduled => "scheduled"
  | .recording => "recording"
  | .stopping => "stopping"
  | .transcribing => "transcribing"
  | .summarizing => "summarizing"
  | .posted => "posted"
  | .failed => "failed"
  | .aborted => "aborted"

inductive StopReason where
  | manual
  | autoEmpty
  | scheduledEnd
  | clientDisconnect
  | error
  deriving DecidableEq, Repr

inductive JobType where
  | transcribe
  | summarize
  | cleanup
  deriving DecidableEq, Repr

inductive JobStatus where
  | queued
  | running
  | failed
  | done
  | canceled
  deriving DecidableEq, Repr

def JobStatus.asStr : JobStatus → String
  | .queued => "queued"
  | .running => "running"
  | .failed => "failed"
  | .done => "done"
  | .canceled => "canceled"

/-- The derived `Debug` text. -/
def JobStatus.debug : JobStatus → String
  | .queued => "Queued"
  | .running => "Running"
  | .failed => "Failed"
  | .done => "Done"
  | .canceled => "Canceled"

inductive UserRole where
  | startedMeeting
  | guildAdmin
  | botAdmin
  | member
  deriving DecidableEq, Repr

inductive Action where
  | view
  | reprocess
  | delete
  | startRecording
  | stopRecording
  deriving DecidableEq, Repr

def isAllowed : UserRole → Action → Bool
  | .botAdmin, _ => true
  | .guildAdmin, _ => true
  | .startedMeeting, action => action = .view || action = .delete || action = .stopRecording
  | .member, action => action = .view

end DiscordTranscript.Domain
