import DiscordTranscript.Application.RecordingLifecycle
import DiscordTranscript.Application.StartupRecovery
import DiscordTranscript.Infrastructure.SqlQueueRefinement

/-! # What recovery at startup achieves

A turn touches the meeting it is about and that meeting's summary job. Each
statement of it either leaves the meeting where it was or takes it where recovery
wants it; from there only the summary moves it, and recovery takes it back or finds
it closed. So a process may die in the middle of any number of passes: the first pass
that is completed settles every meeting.
-/

namespace DiscordTranscript.Application

open Domain Infrastructure

/-! ## Statements on one meeting -/

section

variable {table : MeetingsTable} {meetingId : String} {now : ℤ}

theorem setMeetingStatus_table (table : MeetingsTable) (meetingId : String)
    (status expected : MeetingStatus) (now : ℤ) (reply : Reply) :
    (SqlMeetingStore.setMeetingStatus table meetingId status expected now reply).2 =
      if reply.committed then (table.setMeetingStatusCas status meetingId expected now).2
      else table := by
  rw [← Reply.execute_state]
  unfold SqlMeetingStore.setMeetingStatus
  rcases reply.execute table (table.setMeetingStatusCas status meetingId expected now) with
    ⟨err | outcome, next⟩
  · rfl
  · cases outcome with
    | _ => rfl

theorem setColumns_table (table : MeetingsTable) (meetingId : String)
    (change : MeetingRow → MeetingRow) (hkey : ∀ row, (change row).id = row.id) (reply : Reply) :
    (SqlMeetingStore.setColumns table meetingId change hkey reply).2 =
      if reply.committed then (table.setColumns meetingId change hkey).2 else table := by
  rw [← Reply.execute_state]
  unfold SqlMeetingStore.setColumns
  rcases reply.execute table (table.setColumns meetingId change hkey) with ⟨err | row | row, next⟩
  · rfl
  · rfl
  · rfl

theorem setColumns_keeps (good : MeetingsTable → Prop) {change : MeetingRow → MeetingRow}
    {hkey : ∀ row, (change row).id = row.id} (reply : Reply) (hgood : good table)
    (hset : good (table.setColumns meetingId change hkey).2) :
    good (SqlMeetingStore.setColumns table meetingId change hkey reply).2 := by
  rw [setColumns_table]
  split
  · exact hset
  · exact hgood

/-- A conditional update that finds the status it expects. -/
theorem setMeetingStatus_answered {row : MeetingRow} (hget : table.get meetingId = some row)
    (status : MeetingStatus) (now : ℤ) :
    (SqlMeetingStore.setMeetingStatus table meetingId status row.status now .answered).1 =
      .ok () := by
  unfold SqlMeetingStore.setMeetingStatus MeetingsTable.setMeetingStatusCas
  simp [Reply.execute, Table.updateKey, hget, Option.filter]

theorem setErrorMessage_answered {row : MeetingRow} (hget : table.get meetingId = some row)
    (errorMessage : Option String) (now : ℤ) :
    (SqlMeetingStore.setErrorMessage table meetingId errorMessage now .answered).1 = .ok () := by
  unfold SqlMeetingStore.setErrorMessage SqlMeetingStore.setColumns MeetingsTable.setColumns
  simp [Reply.execute, Table.updateKey, hget, Option.filter]

theorem stopMeetingRow_table (table : MeetingsTable) (meetingId : String) (reason : StopReason)
    (now : ℤ) (reply : Reply) :
    (stopMeetingRow table meetingId reason now reply).2 =
      if reply.committed then (table.markStoppingIfRecording meetingId reason now).2 else table :=
  reply.execute_state table _

theorem stopMeetingRow_answered {row : MeetingRow} (hget : table.get meetingId = some row)
    (hrecording : row.status = .recording) (reason : StopReason) (now : ℤ) :
    (stopMeetingRow table meetingId reason now .answered).1 = .ok .owner := by
  unfold stopMeetingRow SqlMeetingStore.markStoppingIfRecording
    MeetingsTable.markStoppingIfRecording
  simp [Reply.execute, Table.updateKey, hget, hrecording, Option.filter, Except.map,
    Except.mapError]

end

/-! ## Where recovery takes a meeting -/

/-- The status that an action leads to. -/
def RecoveryAction.target (action : RecoveryAction) (status : MeetingStatus) : MeetingStatus :=
  match action with
  | .noop => status
  | .confirmStopClientDisconnect | .requeueSummary => .stopping
  | .markFailedMissingRecording => .failed

/-- The candidate that a turn makes of a meeting that is in the table. -/
def RecoverySurroundings.candidate (surroundings : RecoverySurroundings) (meetingId : String)
    (status : MeetingStatus) (hasRecordingFile : Bool) : RecoveryCandidate where
  meetingId := meetingId
  status := status
  voiceConnected := surroundings.voiceConnected
  hasLocalSession := surroundings.localSession
  hasRecordingFile := hasRecordingFile

/-- What a turn decides about a meeting that is in the table, unless it is put off. -/
def recoveryAction? (surroundings : RecoverySurroundings) (status : MeetingStatus) :
    Option RecoveryAction :=
  match surroundings.lookupError with
  | some _ => none
  | none => (recordingFile surroundings true status).map fun hasRecordingFile =>
      decideRecoveryAction (surroundings.candidate "" status hasRecordingFile)

/-- The status in which a turn leaves it. -/
def recoveredStatus (surroundings : RecoverySurroundings) (status : MeetingStatus) :
    MeetingStatus :=
  ((recoveryAction? surroundings status).map (·.target status)).getD status

/-! ## One turn -/

/-- What every statement of `run_recovery` keeps is kept by all of it. -/
theorem runRecovery_keeps (good : MeetingsTable → Prop) {table : MeetingsTable}
    {candidate : RecoveryCandidate} {replies : RecoveryReplies} (hgood : good table)
    (hstop : decideRecoveryAction candidate = .confirmStopClientDisconnect →
      good (table.markStoppingIfRecording candidate.meetingId .clientDisconnect replies.now).2)
    (hstatus : good (table.setMeetingStatusCas
      ((decideRecoveryAction candidate).target candidate.status) candidate.meetingId
      candidate.status replies.now).2)
    (herror : ∀ table text, good table → good (MeetingsTable.setColumns table candidate.meetingId
      (MeetingRow.setError text replies.now) fun _ => rfl).2) :
    good (runRecovery table candidate replies).2 := by
  unfold runRecovery
  cases hdecide : decideRecoveryAction candidate with
  | noop => exact hgood
  | confirmStopClientDisconnect =>
      have htable : good (stopMeetingRow table candidate.meetingId .clientDisconnect replies.now
          replies.status).2 := by
        rw [stopMeetingRow_table]
        split
        · exact hstop hdecide
        · exact hgood
      dsimp only
      generalize stopMeetingRow table candidate.meetingId .clientDisconnect replies.now
        replies.status = answer at htable
      obtain ⟨err | outcome, next⟩ := answer
      · exact htable
      · cases outcome with
        | owner => exact htable
        | alreadyHandled => exact htable
  | requeueSummary =>
      rw [hdecide] at hstatus
      have htable : good (SqlMeetingStore.setMeetingStatus table candidate.meetingId .stopping
          candidate.status replies.now replies.status).2 := by
        rw [setMeetingStatus_table]
        split
        · exact hstatus
        · exact hgood
      dsimp only
      split
      · generalize SqlMeetingStore.setMeetingStatus table candidate.meetingId .stopping
          candidate.status replies.now replies.status = answer at htable
        obtain ⟨err | ⟨⟩, next⟩ := answer
        · exact htable
        · exact htable
      · exact hgood
  | markFailedMissingRecording =>
      rw [hdecide] at hstatus
      have htable : good (SqlMeetingStore.setMeetingStatus table candidate.meetingId .failed
          candidate.status replies.now replies.status).2 := by
        rw [setMeetingStatus_table]
        split
        · exact hstatus
        · exact hgood
      dsimp only
      generalize SqlMeetingStore.setMeetingStatus table candidate.meetingId .failed
        candidate.status replies.now replies.status = answer at htable
      obtain ⟨err | ⟨⟩, next⟩ := answer
      · exact htable
      · have hlast : good (SqlMeetingStore.setErrorMessage next candidate.meetingId
            (some "missing recording artifact during recovery") replies.now
            replies.errorMessage).2 :=
          setColumns_keeps good _ htable (herror next _ htable)
        dsimp only
        generalize SqlMeetingStore.setErrorMessage next candidate.meetingId
          (some "missing recording artifact during recovery") replies.now
          replies.errorMessage = answer at hlast
        obtain ⟨err | ⟨⟩, last⟩ := answer
        · exact hlast
        · exact hlast

theorem runRecovery_get_of_ne (table : MeetingsTable) {candidate : RecoveryCandidate}
    {replies : RecoveryReplies} {other : String} (hother : other ≠ candidate.meetingId) :
    (runRecovery table candidate replies).2.get other = table.get other := by
  refine runRecovery_keeps (fun next => next.get other = table.get other) rfl ?_ ?_ ?_
  · intro _
    exact Table.get_updateKey_of_ne table hother _ _ _
  · exact Table.get_updateKey_of_ne table hother _ _ _
  · intro next text hnext
    exact (Table.get_updateKey_of_ne next hother _ _ _).trans hnext

/-- The meeting is there, in one of the statuses. -/
def Reaches (table : MeetingsTable) (meetingId : String) (statuses : List MeetingStatus) : Prop :=
  ∃ row, table.get meetingId = some row ∧ row.status ∈ statuses

theorem reaches_updateKey {table : MeetingsTable} {meetingId : String} {row : MeetingRow}
    (hget : table.get meetingId = some row) {statuses : List MeetingStatus}
    (hstatus : row.status ∈ statuses) {also : MeetingRow → Bool}
    {change : MeetingRow → MeetingRow} (hkey : ∀ row, (change row).id = row.id)
    (hchange : also row = true → (change row).status ∈ statuses) :
    Reaches (table.updateKey meetingId also change hkey).2 meetingId statuses := by
  refine ⟨if also row then change row else row, ?_, ?_⟩
  · rw [Table.get_updateKey, hget]
    rfl
  · split
    next halso => exact hchange halso
    next => exact hstatus

/-- However its statements end, `run_recovery` leaves the meeting in its status or in
the one its action leads to. -/
theorem runRecovery_reaches {table : MeetingsTable} {candidate : RecoveryCandidate}
    (replies : RecoveryReplies) {row : MeetingRow}
    (hget : table.get candidate.meetingId = some row) (hstatus : row.status = candidate.status) :
    Reaches (runRecovery table candidate replies).2 candidate.meetingId
      [candidate.status, (decideRecoveryAction candidate).target candidate.status] := by
  have hold : row.status ∈
      [candidate.status, (decideRecoveryAction candidate).target candidate.status] := by
    rw [hstatus]
    exact List.mem_cons_self
  refine runRecovery_keeps (fun next => Reaches next candidate.meetingId _)
    ⟨row, hget, hold⟩ ?_ ?_ ?_
  · intro hstop
    refine reaches_updateKey hget hold _ fun _ => ?_
    rw [hstop]
    exact List.mem_cons_of_mem _ List.mem_cons_self
  · exact reaches_updateKey hget hold _ fun _ => List.mem_cons_of_mem _ List.mem_cons_self
  · rintro next text ⟨current, hcurrent, hreached⟩
    exact reaches_updateKey hcurrent hreached _ fun _ => hreached

/-! ### A turn without failures -/

/-- Every statement is answered. -/
structure RecoveryReplies.Answered (replies : RecoveryReplies) : Prop where
  status : replies.status = .answered
  errorMessage : replies.errorMessage = .answered
  requeueStale : replies.requeueStale = .answered
  enqueue : replies.enqueue = .answered

/-- The effect that an action has when nothing fails. -/
def RecoveryAction.effect (action : RecoveryAction) (meetingId : String) : RecoveryEffect :=
  match action with
  | .noop => .noop meetingId
  | .confirmStopClientDisconnect => .stopConfirmedClientDisconnect meetingId
  | .requeueSummary => .summaryRequeued meetingId
  | .markFailedMissingRecording => .markedFailed meetingId

theorem recording_of_confirmStop {candidate : RecoveryCandidate}
    (hdecide : decideRecoveryAction candidate = .confirmStopClientDisconnect) :
    candidate.status = .recording := by
  obtain ⟨meetingId, status, voiceConnected, hasLocalSession, hasRecordingFile⟩ := candidate
  cases status with
  | recording => rfl
  | stopping | transcribing | summarizing => cases hasRecordingFile <;> cases hdecide
  | scheduled | posted | failed | aborted => cases hdecide

theorem summaryStatus_of_requeueSummary {candidate : RecoveryCandidate}
    (hdecide : decideRecoveryAction candidate = .requeueSummary) :
    candidate.status ∈ summaryStatuses := by
  obtain ⟨meetingId, status, voiceConnected, hasLocalSession, hasRecordingFile⟩ := candidate
  cases status with
  | recording =>
      cases voiceConnected <;> cases hasLocalSession <;> cases hasRecordingFile <;> cases hdecide
  | stopping | transcribing | summarizing => simp [summaryStatuses]
  | scheduled | posted | failed | aborted => cases hdecide

section

variable {table : MeetingsTable} {meetingId : String} {row : MeetingRow}

theorem get_setMeetingStatusCas (hget : table.get meetingId = some row) (status : MeetingStatus)
    (now : ℤ) :
    (table.setMeetingStatusCas status meetingId row.status now).2.get meetingId =
      some (row.setStatus status now) := by
  refine (Table.get_updateKey table meetingId _ _ _).trans ?_
  rw [hget]
  simp

theorem get_markStopping (hget : table.get meetingId = some row)
    (hrecording : row.status = .recording) (reason : StopReason) (now : ℤ) :
    (table.markStoppingIfRecording meetingId reason now).2.get meetingId =
      some (row.setStopping reason now) := by
  refine (Table.get_updateKey table meetingId _ _ _).trans ?_
  rw [hget]
  simp [hrecording]

theorem get_setErrorMessage (hget : table.get meetingId = some row) (text : String) (now : ℤ) :
    (MeetingsTable.setColumns table meetingId (MeetingRow.setError text now)
      fun _ => rfl).2.get meetingId = some (row.setError text now) := by
  refine (Table.get_updateKey table meetingId _ _ _).trans ?_
  rw [hget]
  simp

end

/-- When the statements are answered, the meeting reaches the status that the action
leads to. -/
theorem runRecovery_answered {table : MeetingsTable} {candidate : RecoveryCandidate}
    {replies : RecoveryReplies} (hreply : replies.status = .answered)
    (herrorReply : replies.errorMessage = .answered) {row : MeetingRow}
    (hget : table.get candidate.meetingId = some row) (hstatus : row.status = candidate.status) :
    (runRecovery table candidate replies).1 =
        .ok ((decideRecoveryAction candidate).effect candidate.meetingId) ∧
      Reaches (runRecovery table candidate replies).2 candidate.meetingId
        [(decideRecoveryAction candidate).target candidate.status] := by
  have hmove : ∀ status, SqlMeetingStore.setMeetingStatus table candidate.meetingId status
      candidate.status replies.now replies.status = (.ok (),
        (table.setMeetingStatusCas status candidate.meetingId candidate.status replies.now).2) := by
    intro status
    rw [← hstatus, hreply]
    exact Prod.ext (setMeetingStatus_answered hget status replies.now)
      (setMeetingStatus_table table candidate.meetingId status row.status replies.now .answered)
  have hmoved : ∀ status, (table.setMeetingStatusCas status candidate.meetingId candidate.status
      replies.now).2.get candidate.meetingId = some (row.setStatus status replies.now) := by
    intro status
    rw [← hstatus]
    exact get_setMeetingStatusCas hget status replies.now
  unfold runRecovery
  cases hdecide : decideRecoveryAction candidate with
  | noop => exact ⟨rfl, row, hget, by simp [RecoveryAction.target, hstatus]⟩
  | confirmStopClientDisconnect =>
      have hrecording := hstatus.trans (recording_of_confirmStop hdecide)
      have hstop : stopMeetingRow table candidate.meetingId .clientDisconnect replies.now
          .answered = (.ok .owner,
            (table.markStoppingIfRecording candidate.meetingId .clientDisconnect replies.now).2) :=
        Prod.ext (stopMeetingRow_answered hget hrecording .clientDisconnect replies.now)
          (stopMeetingRow_table table candidate.meetingId .clientDisconnect replies.now .answered)
      simp only [hreply, hstop]
      exact ⟨rfl, _, get_markStopping hget hrecording _ _, List.mem_singleton_self _⟩
  | requeueSummary =>
      have hsummary := summaryStatus_of_requeueSummary hdecide
      simp only [hmove]
      split
      next => exact ⟨rfl, _, hmoved .stopping, List.mem_singleton_self _⟩
      next hstays =>
        rw [not_or] at hstays
        have hstopping : candidate.status = .stopping := by
          simpa [summaryStatuses, hstays] using hsummary
        exact ⟨rfl, row, hget, by simp [RecoveryAction.target, hstatus, hstopping]⟩
  | markFailedMissingRecording =>
      have hnote : SqlMeetingStore.setErrorMessage
          (table.setMeetingStatusCas .failed candidate.meetingId candidate.status replies.now).2
          candidate.meetingId (some "missing recording artifact during recovery") replies.now
          .answered = (.ok (), _) :=
        Prod.ext (setErrorMessage_answered (hmoved .failed) _ replies.now)
          (setColumns_table _ candidate.meetingId _ _ .answered)
      simp only [hmove, herrorReply, hnote]
      exact ⟨rfl, _, get_setErrorMessage (hmoved .failed) _ replies.now,
        List.mem_singleton_self _⟩

/-! ### The summary job -/

section

variable {table : JobsTable} {jobId meetingId : String} {replies : RecoveryReplies}

theorem enqueueSummaryJobRow_table (table : JobsTable) (jobId meetingId : String)
    (replies : RecoveryReplies) :
    (enqueueSummaryJobRow table jobId meetingId replies).2 =
      if replies.enqueue.committed then (table.enqueueJob jobId meetingId .summarize
        (uniqueViolation "jobs_pkey" replies.driverText) replies.now).2 else table := by
  refine Eq.trans ?_ (JobsTable.enqueue_table table
    (FreshJob.job { id := jobId, meetingId := meetingId, jobType := .summarize })
    replies.driverText replies.now replies.enqueue)
  unfold enqueueSummaryJobRow
  dsimp only
  generalize SqlJobQueue.enqueue table _ replies.driverText replies.now replies.enqueue = answer
  obtain ⟨err | ⟨⟩, next⟩ := answer
  · cases err with
    | _ => rfl
  · rfl

/-- What the statements about the summary job keep. -/
theorem recoverSummaryJob_keeps (good : JobsTable → Prop) (hgood : good table)
    (hrequeue : good (table.requeueStaleJob jobId replies.now).2)
    (henqueue : ∀ table, good table → good (JobsTable.enqueueJob table jobId meetingId .summarize
      (uniqueViolation "jobs_pkey" replies.driverText) replies.now).2) (summaryEnabled : Bool) :
    good (recoverSummaryJobForStartup table jobId meetingId summaryEnabled replies).2 := by
  have hfirst : good (replies.requeueStale.execute table
      (table.requeueStaleJob jobId replies.now)).2 := by
    rw [Reply.execute_state]
    split
    · exact hrequeue
    · exact hgood
  unfold recoverSummaryJobForStartup
  cases summaryEnabled with
  | false => exact hgood
  | true =>
      generalize replies.requeueStale.execute table
        (table.requeueStaleJob jobId replies.now) = answer at hfirst ⊢
      obtain ⟨err | found, next⟩ := answer
      · exact hfirst
      · have hsecond : good (enqueueSummaryJobRow next jobId meetingId replies).2 := by
          rw [enqueueSummaryJobRow_table]
          split
          · exact henqueue next hfirst
          · exact hfirst
        dsimp only [Bool.not_true, Bool.false_eq_true, if_false]
        generalize enqueueSummaryJobRow next jobId meetingId replies = answer at hsecond
        obtain ⟨err | ⟨⟩, last⟩ := answer
        · cases err with
          | _ => exact hsecond
        · exact hsecond

theorem get_enqueueJob_of_ne {other : String} (hother : other ≠ jobId) (jobType : JobType)
    (violation : String) (now : ℤ) :
    (table.enqueueJob jobId meetingId jobType violation now).2.get other = table.get other := by
  unfold JobsTable.enqueueJob
  split
  next hfresh =>
    refine (Table.get_insert table _ hfresh other).trans (if_neg ?_)
    exact hother.symm
  next => rfl

/-- After an `INSERT` the job is there, whether it was new or not. -/
theorem isSome_get_enqueueJob (table : JobsTable) (jobId meetingId : String) (jobType : JobType)
    (violation : String) (now : ℤ) :
    ((table.enqueueJob jobId meetingId jobType violation now).2.get jobId).isSome := by
  unfold JobsTable.enqueueJob
  split
  next hfresh =>
    have hget := Table.get_insert table (JobsTable.freshRow jobId meetingId jobType now) hfresh jobId
    exact Option.isSome_iff_exists.mpr ⟨_, hget.trans (if_pos rfl)⟩
  next hused =>
    rw [not_not] at hused
    obtain ⟨row, hrow, hid⟩ := List.mem_map.mp hused
    exact Option.isSome_iff_exists.mpr ⟨row, Table.get_eq_some.mpr ⟨hrow, hid⟩⟩

theorem recoverSummaryJob_get_of_ne {other : String} (hother : other ≠ jobId)
    (summaryEnabled : Bool) :
    (recoverSummaryJobForStartup table jobId meetingId summaryEnabled replies).2.get other =
      table.get other := by
  refine recoverSummaryJob_keeps (fun next => next.get other = table.get other) rfl ?_ ?_
    summaryEnabled
  · exact Table.get_updateKey_of_ne table hother _ _ _
  · intro next hnext
    exact (get_enqueueJob_of_ne hother _ _ _).trans hnext

/-- With summaries enabled and the statements answered, the job is there at the end. -/
theorem recoverSummaryJob_isSome (table : JobsTable) (jobId meetingId : String)
    (hrequeue : replies.requeueStale = .answered)
    (henqueue : replies.enqueue = .answered) :
    ((recoverSummaryJobForStartup table jobId meetingId true replies).2.get jobId).isSome := by
  unfold recoverSummaryJobForStartup
  rw [hrequeue]
  have hjob : ((enqueueSummaryJobRow (table.requeueStaleJob jobId replies.now).2 jobId meetingId
      replies).2.get jobId).isSome := by
    rw [enqueueSummaryJobRow_table, henqueue]
    exact isSome_get_enqueueJob _ _ _ _ _ _
  dsimp only [Bool.not_true, Bool.false_eq_true, if_false, Reply.execute]
  generalize enqueueSummaryJobRow (table.requeueStaleJob jobId replies.now).2 jobId meetingId
    replies = answer at hjob
  obtain ⟨err | ⟨⟩, last⟩ := answer
  · cases err with
    | _ => exact hjob
  · exact hjob

end

/-! ### The whole turn -/

/-- What the database has about a meeting: its row and its summary job. -/
def Database.about (meetingId : String) (db : Database) : Option MeetingRow × Option JobRow :=
  (db.meetings.get meetingId, db.jobs.get (summaryJobId meetingId))

section

variable {db : Database} {meetingId : String} {status : MeetingStatus}
  {surroundings : RecoverySurroundings} {replies : RecoveryReplies}

theorem followUp_jobs (jobs : JobsTable) (meetingId : String) (summaryEnabled : Bool)
    (replies : RecoveryReplies) (result : Except RecoveryRunnerError RecoveryEffect) :
    (followUp jobs meetingId summaryEnabled replies result).2 = jobs ∨
      (followUp jobs meetingId summaryEnabled replies result).2 =
        (recoverSummaryJobForStartup jobs (summaryJobId meetingId) meetingId summaryEnabled
          replies).2 := by
  unfold followUp
  cases result with
  | error err => exact .inl rfl
  | ok effect =>
      cases effect with
      | noop | markedFailed => exact .inl rfl
      | stopConfirmedClientDisconnect | summaryRequeued => exact .inr rfl

/-- A turn is put off, or runs its statements on the meeting and perhaps on its job. -/
theorem recoverMeeting_cases (db : Database) (meetingId : String) (status : MeetingStatus)
    (surroundings : RecoverySurroundings) (replies : RecoveryReplies) :
    recoverMeeting db meetingId status surroundings replies = (.deferred, db) ∨
      ∃ candidate : RecoveryCandidate, candidate.meetingId = meetingId ∧
        recoverMeeting db meetingId status surroundings replies =
          ((followUp db.jobs meetingId surroundings.summaryEnabled replies
              (runRecovery db.meetings candidate replies).1).1,
            { meetings := (runRecovery db.meetings candidate replies).2
              jobs := (followUp db.jobs meetingId surroundings.summaryEnabled replies
                (runRecovery db.meetings candidate replies).1).2 }) := by
  unfold recoverMeeting
  cases surroundings.lookupError with
  | some err => exact .inl rfl
  | none =>
      dsimp only
      cases recordingFile surroundings (db.meetings.get meetingId).isSome status with
      | none => exact .inl rfl
      | some hasRecordingFile =>
          refine .inr ⟨{
            meetingId := meetingId
            status := status
            voiceConnected := surroundings.voiceConnected
            hasLocalSession := (db.meetings.get meetingId).isSome && surroundings.localSession
            hasRecordingFile := hasRecordingFile }, rfl, rfl⟩

/-- The turn of a meeting that is in the table. -/
theorem recoverMeeting_known {row : MeetingRow} (hget : db.meetings.get meetingId = some row)
    (status : MeetingStatus) (surroundings : RecoverySurroundings) (replies : RecoveryReplies) :
    recoveryAction? surroundings status = none ∧
        recoverMeeting db meetingId status surroundings replies = (.deferred, db) ∨
      ∃ candidate : RecoveryCandidate, candidate.meetingId = meetingId ∧
        candidate.status = status ∧
        recoveryAction? surroundings status = some (decideRecoveryAction candidate) ∧
        recoverMeeting db meetingId status surroundings replies =
          ((followUp db.jobs meetingId surroundings.summaryEnabled replies
              (runRecovery db.meetings candidate replies).1).1,
            { meetings := (runRecovery db.meetings candidate replies).2
              jobs := (followUp db.jobs meetingId surroundings.summaryEnabled replies
                (runRecovery db.meetings candidate replies).1).2 }) := by
  unfold recoverMeeting recoveryAction?
  rw [hget]
  cases surroundings.lookupError with
  | some err => exact .inl ⟨rfl, rfl⟩
  | none =>
      dsimp only [Option.isSome_some]
      cases recordingFile surroundings true status with
      | none => exact .inl ⟨rfl, rfl⟩
      | some hasRecordingFile =>
          exact .inr ⟨surroundings.candidate meetingId status hasRecordingFile, rfl, rfl, rfl, rfl⟩

/-- A turn leaves the other meetings and their jobs alone. -/
theorem about_recoverMeeting_of_ne {other : String} (hother : other ≠ meetingId) :
    Database.about other (recoverMeeting db meetingId status surroundings replies).2 =
      Database.about other db := by
  rcases recoverMeeting_cases db meetingId status surroundings replies with
    hsame | ⟨candidate, rfl, hturn⟩
  · rw [hsame]
  · have hjob : summaryJobId other ≠ summaryJobId candidate.meetingId :=
      fun heq => hother (summaryJobId_inj heq)
    rw [hturn]
    refine Prod.ext (runRecovery_get_of_ne db.meetings hother) ?_
    simp only [Database.about]
    rcases followUp_jobs db.jobs candidate.meetingId surroundings.summaryEnabled replies
      (runRecovery db.meetings candidate replies).1 with hjobs | hjobs
    · rw [hjobs]
    · rw [hjobs]
      exact recoverSummaryJob_get_of_ne hjob _

/-- However its statements end, a turn leaves the meeting where it was or where
recovery takes it. -/
theorem recoverMeeting_reaches {row : MeetingRow} (hget : db.meetings.get meetingId = some row)
    (surroundings : RecoverySurroundings) (replies : RecoveryReplies) :
    Reaches (recoverMeeting db meetingId row.status surroundings replies).2.meetings meetingId
      [row.status, recoveredStatus surroundings row.status] := by
  rcases recoverMeeting_known hget row.status surroundings replies with
    ⟨-, hturn⟩ | ⟨candidate, rfl, hstatus, haction, hturn⟩
  · rw [hturn]
    exact ⟨row, hget, List.mem_cons_self⟩
  · have hreaches := runRecovery_reaches replies hget hstatus.symm
    rw [hturn, recoveredStatus, haction, ← hstatus]
    exact hreaches

/-- When its statements are answered, the meeting is where recovery takes it, and its
summary job is there if it was handed over. -/
theorem recoverMeeting_answered {row : MeetingRow} (hget : db.meetings.get meetingId = some row)
    {surroundings : RecoverySurroundings} {replies : RecoveryReplies} (hreplies : replies.Answered)
    {action : RecoveryAction} (haction : recoveryAction? surroundings row.status = some action) :
    let after := (recoverMeeting db meetingId row.status surroundings replies).2
    Reaches after.meetings meetingId [recoveredStatus surroundings row.status] ∧
      ((action = .confirmStopClientDisconnect ∨ action = .requeueSummary) →
        surroundings.summaryEnabled = true →
        (after.jobs.get (summaryJobId meetingId)).isSome) := by
  rcases recoverMeeting_known hget row.status surroundings replies with
    ⟨hnone, -⟩ | ⟨candidate, rfl, hstatus, hdecided, hturn⟩
  · rw [hnone] at haction
    cases haction
  · rw [hdecided] at haction
    obtain rfl := Option.some.inj haction
    obtain ⟨hresult, hreaches⟩ :=
      runRecovery_answered hreplies.status hreplies.errorMessage hget hstatus.symm
    rw [hturn, recoveredStatus, hdecided, ← hstatus]
    refine ⟨hreaches, fun hover henabled => ?_⟩
    have hjob := recoverSummaryJob_isSome db.jobs (summaryJobId candidate.meetingId)
      candidate.meetingId hreplies.requeueStale hreplies.enqueue
    rw [hresult, henabled]
    rcases hover with hover | hover
    · rw [hover]
      exact hjob
    · rw [hover]
      exact hjob

end

/-! ## Handing over to the summary -/

/-- The action leaves the meeting to its summary. -/
def RecoveryAction.handsOver : RecoveryAction → Bool
  | .confirmStopClientDisconnect | .requeueSummary => true
  | .noop | .markFailedMissingRecording => false

/-- A turn leaves the meeting to its summary, unless its statements fail. -/
def handsOver (surroundings : RecoverySurroundings) (status : MeetingStatus) : Bool :=
  (recoveryAction? surroundings status).any (·.handsOver)

/-- The outcomes with which `run_summary_and_notify` follows, at once or later. -/
def RecoveryOutcome.processes : RecoveryOutcome → Bool
  | .process | .retryAt _ => true
  | .deferred | .kept | .failed | .left _ => false

theorem turn_cases (pass : RecoveryPass) (db : Database) (snapshot : MeetingRow) :
    let turn := recoverMeeting db snapshot.id snapshot.status (pass.surroundings snapshot.id)
      (pass.replies snapshot.id)
    pass.turn db snapshot = turn.2 ∨ turn.1.processes = true ∧
      pass.turn db snapshot =
        runSummaryAndNotify snapshot.id turn.2 (pass.summaries snapshot.id) := by
  unfold RecoveryPass.turn
  generalize recoverMeeting db snapshot.id snapshot.status (pass.surroundings snapshot.id)
    (pass.replies snapshot.id) = turn
  obtain ⟨outcome, next⟩ := turn
  cases outcome with
  | process | retryAt => exact .inr ⟨rfl, rfl⟩
  | deferred | kept | failed | left => exact .inl rfl

/-- The summary follows only what hands the meeting over. -/
theorem followUp_processes {table : MeetingsTable} {jobs : JobsTable}
    {candidate : RecoveryCandidate} {summaryEnabled : Bool} {replies : RecoveryReplies}
    (hprocesses : (followUp jobs candidate.meetingId summaryEnabled replies
      (runRecovery table candidate replies).1).1.processes = true) :
    (decideRecoveryAction candidate).handsOver = true := by
  unfold runRecovery at hprocesses
  cases hdecide : decideRecoveryAction candidate with
  | confirmStopClientDisconnect | requeueSummary => rfl
  | noop =>
      rw [hdecide] at hprocesses
      cases hprocesses
  | markFailedMissingRecording =>
      rw [hdecide] at hprocesses
      dsimp only at hprocesses
      generalize SqlMeetingStore.setMeetingStatus table candidate.meetingId .failed
        candidate.status replies.now replies.status = answer at hprocesses
      obtain ⟨err | ⟨⟩, next⟩ := answer
      · cases hprocesses
      · dsimp only at hprocesses
        generalize SqlMeetingStore.setErrorMessage next candidate.meetingId
          (some "missing recording artifact during recovery") replies.now
          replies.errorMessage = answer at hprocesses
        obtain ⟨err | ⟨⟩, last⟩ := answer
        · cases hprocesses
        · cases hprocesses

theorem recoverMeeting_processes {db : Database} {row : MeetingRow} {meetingId : String}
    (hget : db.meetings.get meetingId = some row) {surroundings : RecoverySurroundings}
    {replies : RecoveryReplies}
    (hprocesses : (recoverMeeting db meetingId row.status surroundings replies).1.processes =
      true) : handsOver surroundings row.status = true := by
  rcases recoverMeeting_known hget row.status surroundings replies with
    ⟨-, hturn⟩ | ⟨candidate, rfl, -, haction, hturn⟩
  · rw [hturn] at hprocesses
    cases hprocesses
  · rw [hturn] at hprocesses
    rw [handsOver, haction]
    exact followUp_processes hprocesses

/-! ## Processing the summary -/

section

variable {db : Database} {meetingId : String} {call : SummaryCall}

theorem updateClaimed_keeps (good : JobsTable → Prop) {table : JobsTable} {job : Job}
    {reply : Reply} {statement : String → Option JobRow × JobsTable} (hgood : good table)
    (hstatement : ∀ claimToken, good (statement claimToken).2) :
    good (SqlJobQueue.updateClaimed table job reply statement).2 := by
  rw [JobsTable.updateClaimed_table]
  split
  · unfold SqlJobQueue.updateClaimed
    cases requireClaimToken job with
    | error err => exact hgood
    | ok claimToken =>
        have hnext := hstatement claimToken
        dsimp only [Reply.execute]
        generalize statement claimToken = answer at hnext
        obtain ⟨_ | row, next⟩ := answer
        · exact hnext
        · exact hnext
  · exact hgood

/-- A statement on the job is an update of it, or does nothing. -/
theorem summaryStep_jobs (good : JobsTable → Prop) (hgood : good db.jobs)
    (hupdate : ∀ also change hkey,
      good (db.jobs.updateKey (summaryJobId meetingId) also change hkey).2) :
    good (summaryStep meetingId db call).jobs := by
  obtain ⟨now, statement, reply⟩ := call
  cases statement with
  | claimById claimToken =>
      have hstep := reply.execute_state db.jobs
        (db.jobs.claimJobById (summaryJobId meetingId) claimToken .summarize now)
      have hjobs : (summaryStep meetingId db ⟨now, .claimById claimToken, reply⟩).jobs = _ := hstep
      rw [hjobs]
      split
      · exact hupdate _ _ _
      · exact hgood
  | claimant op job =>
      cases op with
      | heartbeat | markDone | markFailed | retry =>
          exact updateClaimed_keeps good hgood fun _ => hupdate _ _ _
  | setMeetingStatus | setErrorMessage | setMeetingTitle | setStatusMessage
  | setSummaryThreadId => exact hgood

/-- A statement on the meeting moves it as listed or leaves its status alone. -/
theorem summaryStep_meetings (good : MeetingsTable → Prop) (hgood : good db.meetings)
    (hmove : ∀ expected status, (expected, status) ∈ summaryMoves →
      good (db.meetings.setMeetingStatusCas status meetingId expected call.now).2)
    (hcolumns : ∀ change hkey, (∀ row : MeetingRow, (change row).status = row.status) →
      good (db.meetings.setColumns meetingId change hkey).2) :
    good (summaryStep meetingId db call).meetings := by
  obtain ⟨now, statement, reply⟩ := call
  cases statement with
  | claimById | claimant => exact hgood
  | setMeetingStatus expected status hlisted =>
      have htable := setMeetingStatus_table db.meetings meetingId status expected now reply
      have hmeetings : (summaryStep meetingId db
          ⟨now, .setMeetingStatus expected status hlisted, reply⟩).meetings = _ := htable
      rw [hmeetings]
      split
      · exact hmove expected status hlisted
      · exact hgood
  | setErrorMessage | setMeetingTitle | setStatusMessage | setSummaryThreadId =>
      exact setColumns_keeps good reply hgood (hcolumns _ _ fun _ => rfl)

/-- The summary leaves the other meetings and their jobs alone. -/
theorem about_runSummaryAndNotify_of_ne {other : String} (hother : other ≠ meetingId)
    (db : Database) (calls : List SummaryCall) :
    Database.about other (runSummaryAndNotify meetingId db calls) = Database.about other db := by
  have hjob : summaryJobId other ≠ summaryJobId meetingId :=
    fun heq => hother (summaryJobId_inj heq)
  refine Machine.run_invariant (summaryStep meetingId)
    (fun next => Database.about other next = Database.about other db) ?_ rfl calls
  intro next call hnext
  rw [← hnext]
  refine Prod.ext ?_ ?_
  · exact summaryStep_meetings (fun table => table.get other = next.meetings.get other) rfl
      (fun _ _ _ => Table.get_updateKey_of_ne _ hother _ _ _)
      fun _ _ _ => Table.get_updateKey_of_ne _ hother _ _ _
  · exact summaryStep_jobs
      (fun table => table.get (summaryJobId other) = next.jobs.get (summaryJobId other)) rfl
      fun _ _ _ => Table.get_updateKey_of_ne _ hjob _ _ _

/-- The statuses that the summary leads to. -/
def processedStatuses : List MeetingStatus :=
  [.stopping, .transcribing, .summarizing, .posted, .failed]

theorem runSummaryAndNotify_reaches {statuses : List MeetingStatus}
    (hreaches : Reaches db.meetings meetingId statuses) (hstatuses : processedStatuses ⊆ statuses)
    (calls : List SummaryCall) :
    Reaches (runSummaryAndNotify meetingId db calls).meetings meetingId statuses := by
  have hlisted : ∀ move ∈ summaryMoves, move.2 ∈ processedStatuses := by decide
  refine Machine.run_invariant (summaryStep meetingId)
    (fun next => Reaches next.meetings meetingId statuses) ?_ hreaches calls
  rintro next call ⟨row, hget, hstatus⟩
  refine summaryStep_meetings (fun table => Reaches table meetingId statuses)
    ⟨row, hget, hstatus⟩ ?_ ?_
  · intro expected status hmove
    exact reaches_updateKey hget hstatus _ fun _ => hstatuses (hlisted _ hmove)
  · intro change hkey hsame
    exact reaches_updateKey hget hstatus _ fun _ => (hsame row).symm ▸ hstatus

end

/-! ## Settling -/

/-- A recovery that finds out what there is about the meeting. -/
def RecoverySurroundings.Readable (surroundings : RecoverySurroundings) : Prop :=
  surroundings.lookupError = none ∧ ∀ status, (recordingFile surroundings true status).isSome

/-- What is found out at one time is so at the other too. -/
def RecoverySurroundings.Agrees (seen actual : RecoverySurroundings) : Prop :=
  seen.lookupError = none → ∀ status found, recordingFile seen true status = some found →
    recordingFile actual true status = some found ∧
      (seen.voiceConnected && seen.localSession) = (actual.voiceConnected && actual.localSession)

section

variable {seen actual : RecoverySurroundings} {status : MeetingStatus}

theorem RecoverySurroundings.Readable.action (hreadable : actual.Readable)
    (status : MeetingStatus) : ∃ hasRecordingFile,
      recordingFile actual true status = some hasRecordingFile ∧
      recoveryAction? actual status =
        some (decideRecoveryAction (actual.candidate "" status hasRecordingFile)) := by
  obtain ⟨hlookup, hfile⟩ := hreadable
  obtain ⟨hasRecordingFile, hfound⟩ := Option.isSome_iff_exists.mp (hfile status)
  refine ⟨hasRecordingFile, hfound, ?_⟩
  rw [recoveryAction?, hlookup, hfound]
  rfl

/-- Agreeing recoveries do the same, or one of them puts the meeting off. -/
theorem RecoverySurroundings.Agrees.action (hagrees : seen.Agrees actual)
    (hreadable : actual.Readable) (status : MeetingStatus) :
    recoveryAction? seen status = none ∨
      recoveryAction? seen status = recoveryAction? actual status := by
  unfold recoveryAction?
  rw [hreadable.1]
  cases hlookup : seen.lookupError with
  | some err => exact .inl rfl
  | none =>
      cases hfile : recordingFile seen true status with
      | none => exact .inl rfl
      | some found =>
          right
          obtain ⟨hfound, hlive⟩ := hagrees hlookup status found hfile
          rw [hfound]
          simp only [Option.map_some, Option.some.injEq]
          unfold decideRecoveryAction RecoverySurroundings.candidate
          cases status with
          | recording => simp only [hlive]
          | _ => rfl

/-- A meeting with audio has something to summarize, whatever its status. -/
theorem recordingFile_of_recording (hfile : recordingFile actual true .recording = some true)
    (status : MeetingStatus) : recordingFile actual true status = some true := by
  unfold recordingFile at *
  simp only [if_true] at *
  cases haudio : recoverableAudioDir actual.primaryAudio actual.legacyAudio with
  | error err => simp [haudio, recoveryCanResumeFromFinalTranscript] at hfile
  | ok dir =>
      have hsome : dir.isSome = true := by
        simpa [haudio, recoveryCanResumeFromFinalTranscript] using hfile
      simp [hsome]

/-- After the recording the status makes no difference. -/
theorem recordingFile_of_summaryStatus (hstatus : status ∈ summaryStatuses) :
    recordingFile actual true status = recordingFile actual true .stopping := by
  have hresumes : recoveryCanResumeFromFinalTranscript status = true := by
    simpa [recoveryCanResumeFromFinalTranscript, summaryStatuses, or_assoc] using hstatus
  unfold recordingFile
  rw [hresumes]
  rfl

theorem recoveredStatus_of_found {found : Bool} (hreadable : actual.Readable)
    (hfound : recordingFile actual true status = some found) :
    recoveredStatus actual status =
      (decideRecoveryAction (actual.candidate "" status found)).target status := by
  rw [recoveredStatus, recoveryAction?, hreadable.1, hfound]
  rfl

/-- Only the meetings that the scan selects are taken anywhere. -/
theorem recoveredStatus_of_unscanned (actual : RecoverySurroundings) (hrecording : status ≠ .recording)
    (hsummary : status ∉ summaryStatuses) : recoveredStatus actual status = status := by
  unfold recoveredStatus recoveryAction?
  cases actual.lookupError with
  | some err => rfl
  | none =>
      cases recordingFile actual true status with
      | none => rfl
      | some found =>
          cases status with
          | recording => exact absurd rfl hrecording
          | stopping | transcribing | summarizing => simp [summaryStatuses] at hsummary
          | scheduled | posted | failed | aborted => rfl

theorem handsOver_of_stopping {found : Bool} (hreadable : actual.Readable)
    (hfound : recordingFile actual true status = some found)
    (hstopping : recoveredStatus actual status = .stopping) :
    decideRecoveryAction (actual.candidate "" status found) = .confirmStopClientDisconnect ∨
      decideRecoveryAction (actual.candidate "" status found) = .requeueSummary := by
  rw [recoveredStatus_of_found hreadable hfound] at hstopping
  cases haction : decideRecoveryAction (actual.candidate "" status found) with
  | confirmStopClientDisconnect => exact .inl rfl
  | requeueSummary => exact .inr rfl
  | noop =>
      rw [haction, RecoveryAction.target] at hstopping
      subst hstopping
      cases found <;> cases haction
  | markFailedMissingRecording =>
      rw [haction] at hstopping
      cases hstopping

theorem recoveredStatus_of_handsOver (hover : handsOver actual status = true) :
    recoveredStatus actual status = .stopping := by
  unfold handsOver at hover
  unfold recoveredStatus
  cases haction : recoveryAction? actual status with
  | none =>
      rw [haction] at hover
      cases hover
  | some action =>
      rw [haction] at hover
      cases action with
      | confirmStopClientDisconnect | requeueSummary => rfl
      | noop | markFailedMissingRecording => cases hover

/-- A meeting is handed over when there is something to summarize. -/
theorem found_of_handsOver (hover : handsOver actual status = true) :
    recordingFile actual true status = some true ∧
      (status = .recording ∨ status ∈ summaryStatuses) := by
  unfold handsOver recoveryAction? at hover
  cases hlookup : actual.lookupError with
  | some err => simp [hlookup] at hover
  | none =>
      cases hfile : recordingFile actual true status with
      | none => simp [hlookup, hfile] at hover
      | some found =>
          simp only [hlookup, hfile, Option.map_some, Option.any_some] at hover
          cases status with
          | scheduled | posted | failed | aborted => cases hover
          | stopping | transcribing | summarizing =>
              cases found with
              | true => exact ⟨rfl, .inr (by decide)⟩
              | false => cases hover
          | recording =>
              cases found with
              | true => exact ⟨rfl, .inl rfl⟩
              | false =>
                  unfold decideRecoveryAction RecoverySurroundings.candidate at hover
                  dsimp only at hover
                  split at hover <;> cases hover

/-- As long as its summary is not through with it, it is handed over again. -/
theorem handsOver_again (hover : handsOver actual status = true) {before : MeetingStatus}
    (hreadable : actual.Readable) (hbefore : before ∈ summaryStatuses) :
    handsOver actual before = true := by
  obtain ⟨hfound, hstatus⟩ := found_of_handsOver hover
  have hagain : recordingFile actual true before = some true := by
    rcases hstatus with rfl | hstatus
    · exact recordingFile_of_recording hfound before
    · rw [recordingFile_of_summaryStatus hbefore, ← recordingFile_of_summaryStatus hstatus]
      exact hfound
  rw [handsOver, recoveryAction?, hreadable.1, hagain]
  cases before with
  | stopping | transcribing | summarizing => rfl
  | scheduled | recording | posted | failed | aborted => simp [summaryStatuses] at hbefore

/-- What is not handed over stays where it is or has failed, and then it stays there. -/
theorem recoveredStatus_of_not_handsOver (hover : handsOver actual status = false) :
    recoveredStatus actual status = status ∨ recoveredStatus actual status = .failed := by
  unfold handsOver at hover
  unfold recoveredStatus
  cases haction : recoveryAction? actual status with
  | none => exact .inl rfl
  | some action =>
      rw [haction] at hover
      cases action with
      | confirmStopClientDisconnect | requeueSummary => cases hover
      | noop => exact .inl rfl
      | markFailedMissingRecording => exact .inr rfl

theorem not_handsOver_of_unscanned (actual : RecoverySurroundings)
    (hrecording : status ≠ .recording) (hsummary : status ∉ summaryStatuses) :
    handsOver actual status = false := by
  by_contra hover
  rcases (found_of_handsOver (by simpa using hover)).2 with heq | hmem
  · exact hrecording heq
  · exact hsummary hmem

/-- Where a meeting can be that passes have found in `status`. -/
def reachable (surroundings : RecoverySurroundings) (status : MeetingStatus) :
    List MeetingStatus :=
  status :: if handsOver surroundings status then processedStatuses
    else [recoveredStatus surroundings status]

theorem recoveredStatus_mem_reachable (actual : RecoverySurroundings) (status : MeetingStatus) :
    [status, recoveredStatus actual status] ⊆ reachable actual status := by
  unfold reachable
  split
  next hover =>
    rw [recoveredStatus_of_handsOver hover]
    exact List.cons_subset_cons _ (by decide)
  next => exact List.Subset.refl _

theorem recoveredStatus_mem_processed (actual : RecoverySurroundings) {before : MeetingStatus}
    (hbefore : before ∈ processedStatuses) :
    recoveredStatus actual before ∈ processedStatuses := by
  cases hover : handsOver actual before with
  | true =>
      rw [recoveredStatus_of_handsOver hover]
      decide
  | false =>
      rcases recoveredStatus_of_not_handsOver hover with hsame | hfailed
      · rwa [hsame]
      · rw [hfailed]
        decide

/-- A later recovery takes the meeting nowhere else, from wherever an earlier one left it. -/
theorem reachable_trans (hagrees : seen.Agrees actual) (hreadable : actual.Readable)
    {before : MeetingStatus} (hbefore : before ∈ reachable actual status) :
    reachable seen before ⊆ reachable actual status := by
  have hactual : reachable actual before ⊆ reachable actual status := by
    unfold reachable at hbefore ⊢
    rcases List.mem_cons.mp hbefore with rfl | hlater
    · exact List.Subset.refl _
    refine List.cons_subset.mpr ⟨hbefore, ?_⟩
    split at hlater
    next hover =>
      rw [if_pos hover]
      refine List.subset_cons_of_subset _ ?_
      split
      · exact List.Subset.refl _
      · exact List.cons_subset.mpr
          ⟨recoveredStatus_mem_processed actual hlater, List.nil_subset _⟩
    next hover =>
      rw [if_neg hover]
      rcases recoveredStatus_of_not_handsOver (by simpa using hover) with hsame | hfailed
      · rw [List.mem_singleton.mp hlater, hsame, if_neg hover, hsame]
        simp
      · rw [List.mem_singleton.mp hlater, hfailed,
          not_handsOver_of_unscanned actual (by decide) (by decide),
          recoveredStatus_of_unscanned actual (by decide) (by decide)]
        simp
  rcases hagrees.action hreadable before with hnone | hsame
  · have hstays : reachable seen before = [before, before] := by
      simp [reachable, handsOver, recoveredStatus, hnone]
    rw [hstays]
    exact List.cons_subset.mpr ⟨hbefore, List.cons_subset.mpr ⟨hbefore, List.nil_subset _⟩⟩
  · have hequal : reachable seen before = reachable actual before := by
      rw [reachable, handsOver, recoveredStatus, hsame]
      rfl
    rw [hequal]
    exact hactual

end

/-! ## Passes -/

section

variable {db : Database} {row : MeetingRow}

theorem mem_recoveryScan {table : MeetingsTable} :
    row ∈ table.recoveryScan ↔
      row ∈ table.rows ∧ (row.status = .recording ∨ row.status ∈ summaryStatuses) := by
  simp [MeetingsTable.recoveryScan, summaryStatuses, or_assoc]

theorem scan_nodup (table : MeetingsTable) (reached : ℕ) :
    ((table.recoveryScan.take reached).map fun row => row.id).Nodup :=
  table.nodup.sublist (((List.take_sublist reached _).trans List.filter_sublist).map _)

theorem about_turn_of_ne (pass : RecoveryPass) (snapshot : MeetingRow) {other : String}
    (hother : other ≠ snapshot.id) :
    Database.about other (pass.turn db snapshot) = Database.about other db := by
  rcases turn_cases pass db snapshot with hturn | ⟨-, hturn⟩
  · rw [hturn]
    exact about_recoverMeeting_of_ne hother
  · rw [hturn, about_runSummaryAndNotify_of_ne hother]
    exact about_recoverMeeting_of_ne hother

/-- The turns of the other meetings leave a meeting alone: it is as it was when its own
turn comes, if there is one. -/
theorem about_runStartupRecovery (pass : RecoveryPass) (hrow : row ∈ db.meetings.rows) :
    (∃ before : Database, Database.about row.id before = Database.about row.id db ∧
        Database.about row.id (runStartupRecovery db pass) =
          Database.about row.id (pass.turn before row)) ∨
      row ∉ db.meetings.recoveryScan.take pass.reached ∧
        Database.about row.id (runStartupRecovery db pass) = Database.about row.id db := by
  have hframe : ∀ (state : Database) (input : MeetingRow) (other : String), other ≠ input.id →
      Database.about other (pass.turn state input) = Database.about other state :=
    fun _ snapshot _ hother => about_turn_of_ne pass snapshot hother
  by_cases hreached : row ∈ db.meetings.recoveryScan.take pass.reached
  · exact .inl (Machine.run_view_of_mem pass.turn hframe (scan_nodup db.meetings pass.reached)
      hreached db)
  · refine .inr ⟨hreached, Machine.run_view_of_notMem pass.turn hframe ?_ db⟩
    intro hid
    obtain ⟨other, hother, heq⟩ := List.mem_map.mp hid
    have hmem := (mem_recoveryScan.mp (List.mem_of_mem_take hother)).1
    exact hreached (db.meetings.eq_of_key_eq hmem hrow heq ▸ hother)

theorem Database.get_of_about {before : Database} {meetingId : String}
    (habout : Database.about meetingId before = Database.about meetingId db) :
    before.meetings.get meetingId = db.meetings.get meetingId :=
  congrArg Prod.fst habout

theorem Reaches.of_about {before : Database} {meetingId : String} {statuses : List MeetingStatus}
    (habout : Database.about meetingId db = Database.about meetingId before)
    (hreaches : Reaches before.meetings meetingId statuses) :
    Reaches db.meetings meetingId statuses := by
  obtain ⟨row, hget, hstatus⟩ := hreaches
  exact ⟨row, (Database.get_of_about habout).trans hget, hstatus⟩

theorem Reaches.mono {table : MeetingsTable} {meetingId : String}
    {statuses larger : List MeetingStatus} (hreaches : Reaches table meetingId statuses)
    (hsubset : statuses ⊆ larger) : Reaches table meetingId larger := by
  obtain ⟨row, hget, hstatus⟩ := hreaches
  exact ⟨row, hget, hsubset hstatus⟩

theorem turn_reaches (pass : RecoveryPass) (hget : db.meetings.get row.id = some row) :
    Reaches (pass.turn db row).meetings row.id (reachable (pass.surroundings row.id) row.status) := by
  have hreaches := (recoverMeeting_reaches hget (pass.surroundings row.id)
    (pass.replies row.id)).mono (recoveredStatus_mem_reachable _ _)
  rcases turn_cases pass db row with hturn | ⟨hprocesses, hturn⟩
  · rw [hturn]
    exact hreaches
  · rw [hturn]
    refine runSummaryAndNotify_reaches hreaches ?_ _
    rw [reachable, if_pos (recoverMeeting_processes hget hprocesses)]
    exact List.subset_cons_self _ _

/-- However a pass goes and wherever it ends, a meeting is where it was, where recovery
takes it, or where its summary takes it from there. -/
theorem runStartupRecovery_reaches (pass : RecoveryPass) (hrow : row ∈ db.meetings.rows) :
    Reaches (runStartupRecovery db pass).meetings row.id
      (reachable (pass.surroundings row.id) row.status) := by
  have hget := Table.get_eq_some.mpr ⟨hrow, rfl⟩
  rcases about_runStartupRecovery pass hrow with ⟨before, hbefore, hafter⟩ | ⟨-, hafter⟩
  · have hthere : before.meetings.get row.id = some row :=
      (Database.get_of_about hbefore).trans hget
    exact (turn_reaches pass hthere).of_about hafter
  · exact Reaches.of_about hafter ⟨row, hget, List.mem_cons_self⟩

/-- A pass that reaches every meeting, with every statement answered. -/
structure RecoveryPass.Undisturbed (pass : RecoveryPass) (db : Database) : Prop where
  reached : db.meetings.recoveryScan.length ≤ pass.reached
  answered : ∀ meetingId, (pass.replies meetingId).Answered

/-- The pass has brought the meeting back to `stopping`, with its summary job if summaries are
made, and only its summary has moved them since. -/
def LeftToSummary (pass : RecoveryPass) (db : Database) (meetingId : String) : Prop :=
  ∃ waiting : Database, Reaches waiting.meetings meetingId [.stopping] ∧
    ((pass.surroundings meetingId).summaryEnabled = true →
      (waiting.jobs.get (summaryJobId meetingId)).isSome) ∧
    ∃ calls, (calls = [] ∨ calls = pass.summaries meetingId) ∧
      Database.about meetingId db =
        Database.about meetingId (runSummaryAndNotify meetingId waiting calls)

/-- What is handed over has been closed by its summary or is handed over by this pass; the rest
is where recovery takes it. -/
def Settled (pass : RecoveryPass) (db : Database) (meetingId : String) (status : MeetingStatus) :
    Prop :=
  if handsOver (pass.surroundings meetingId) status then
    Reaches db.meetings meetingId [.posted, .failed] ∨ LeftToSummary pass db meetingId
  else Reaches db.meetings meetingId [recoveredStatus (pass.surroundings meetingId) status]

/-- A turn without failures. -/
theorem turn_settles {pass : RecoveryPass} (hanswered : (pass.replies row.id).Answered)
    (hget : db.meetings.get row.id = some row)
    (hreadable : (pass.surroundings row.id).Readable) :
    Settled pass (pass.turn db row) row.id row.status := by
  obtain ⟨found, hfound, haction⟩ := hreadable.action row.status
  obtain ⟨hreaches, hjob⟩ := recoverMeeting_answered hget hanswered haction
  unfold Settled
  split
  next hover =>
    rw [recoveredStatus_of_handsOver hover] at hreaches
    have hhands := handsOver_of_stopping hreadable hfound (recoveredStatus_of_handsOver hover)
    refine .inr ⟨_, hreaches, hjob hhands, ?_⟩
    rcases turn_cases pass db row with hturn | ⟨-, hturn⟩
    · exact ⟨[], .inl rfl, by rw [hturn]; rfl⟩
    · exact ⟨_, .inr rfl, by rw [hturn]⟩
  next hover =>
    rcases turn_cases pass db row with hturn | ⟨hprocesses, -⟩
    · rw [hturn]
      exact hreaches
    · exact absurd (recoverMeeting_processes hget hprocesses) hover

theorem Settled.of_about {pass : RecoveryPass} {before : Database} {meetingId : String}
    {status : MeetingStatus}
    (habout : Database.about meetingId db = Database.about meetingId before)
    (hsettled : Settled pass before meetingId status) : Settled pass db meetingId status := by
  unfold Settled at hsettled ⊢
  split
  next hover =>
    rw [if_pos hover] at hsettled
    refine hsettled.imp (Reaches.of_about habout) ?_
    rintro ⟨waiting, hreaches, hjob, calls, hcalls, hafter⟩
    exact ⟨waiting, hreaches, hjob, calls, hcalls, habout.trans hafter⟩
  next hover =>
    rw [if_neg hover] at hsettled
    exact hsettled.of_about habout

/-- An undisturbed pass settles the meetings that it can find out about. -/
theorem runStartupRecovery_settles {pass : RecoveryPass} (hpass : pass.Undisturbed db)
    (hrow : row ∈ db.meetings.rows) (hreadable : (pass.surroundings row.id).Readable) :
    Settled pass (runStartupRecovery db pass) row.id row.status := by
  have hget := Table.get_eq_some.mpr ⟨hrow, rfl⟩
  rcases about_runStartupRecovery pass hrow with ⟨before, hbefore, hafter⟩ | ⟨hnot, hafter⟩
  · have hthere : before.meetings.get row.id = some row :=
      (Database.get_of_about hbefore).trans hget
    exact (turn_settles (hpass.answered row.id) hthere hreadable).of_about hafter
  · rw [List.take_of_length_le hpass.reached, mem_recoveryScan, not_and, not_or] at hnot
    obtain ⟨hrecording, hsummary⟩ := hnot hrow
    rw [Settled, if_neg (by simp [not_handsOver_of_unscanned _ hrecording hsummary]),
      recoveredStatus_of_unscanned _ hrecording hsummary]
    exact Reaches.of_about hafter ⟨row, hget, List.mem_singleton_self _⟩

/-- What settles a meeting from where passes have left it settles it from where they found it. -/
theorem Settled.of_reachable {pass : RecoveryPass} {meetingId : String}
    {status before : MeetingStatus} (hreadable : (pass.surroundings meetingId).Readable)
    (hbefore : before ∈ reachable (pass.surroundings meetingId) status)
    (hsettled : Settled pass db meetingId before) : Settled pass db meetingId status := by
  unfold reachable at hbefore
  rcases List.mem_cons.mp hbefore with rfl | hlater
  · exact hsettled
  split at hlater
  next hover =>
    rw [Settled, if_pos hover]
    by_cases hsummary : before ∈ summaryStatuses
    · rwa [Settled, if_pos (handsOver_again hover hreadable hsummary)] at hsettled
    · -- its summary is through with it
      have hclosed : before ∈ [.posted, .failed] := by
        revert hlater hsummary
        cases before <;> decide
      have hrecording : before ≠ .recording := by
        rintro rfl
        revert hlater
        decide
      rw [Settled, if_neg (by simp [not_handsOver_of_unscanned _ hrecording hsummary]),
        recoveredStatus_of_unscanned _ hrecording hsummary] at hsettled
      exact .inl (hsettled.mono (List.cons_subset.mpr ⟨hclosed, List.nil_subset _⟩))
  next hover =>
    rw [Settled, if_neg hover]
    rw [List.mem_singleton.mp hlater] at hsettled
    rcases recoveredStatus_of_not_handsOver (by simpa using hover) with hsame | hfailed
    · rwa [hsame, Settled, if_neg hover] at hsettled
    · rw [hfailed, Settled, not_handsOver_of_unscanned _ (by decide) (by decide),
        if_neg Bool.false_ne_true,
        recoveredStatus_of_unscanned _ (by decide) (by decide)] at hsettled
      rwa [hfailed]

/-- A process may end in the middle of any number of passes, whatever the summaries have done by
then: the first pass that runs to its end settles every meeting. -/
theorem recovery_settles_after_interruptions (db : Database) (interrupted : List RecoveryPass)
    (last : RecoveryPass)
    (hlast : last.Undisturbed (Machine.run runStartupRecovery db interrupted)) :
    ∀ row ∈ db.meetings.rows, (last.surroundings row.id).Readable →
      (∀ pass ∈ interrupted, (pass.surroundings row.id).Agrees (last.surroundings row.id)) →
        Settled last (runStartupRecovery (Machine.run runStartupRecovery db interrupted) last)
          row.id row.status := by
  intro row hrow hreadable hagrees
  have hget := Table.get_eq_some.mpr ⟨hrow, rfl⟩
  -- until then the meeting is in one of these statuses
  have hreaches : Reaches (Machine.run runStartupRecovery db interrupted).meetings row.id
      (reachable (last.surroundings row.id) row.status) := by
    refine Machine.run_invariant_of_mem runStartupRecovery
      (fun db => Reaches db.meetings row.id (reachable (last.surroundings row.id) row.status))
      ?_ ⟨row, hget, List.mem_cons_self⟩
    rintro db pass hpass ⟨before, hbefore, hstatus⟩
    obtain ⟨hmem, hid⟩ := Table.get_eq_some.mp hbefore
    have hmoved := runStartupRecovery_reaches pass hmem
    rw [hid] at hmoved
    exact hmoved.mono (reachable_trans (hagrees pass hpass) hreadable hstatus)
  obtain ⟨before, hbefore, hstatus⟩ := hreaches
  obtain ⟨hmem, hid⟩ := Table.get_eq_some.mp hbefore
  have hsettled := runStartupRecovery_settles hlast hmem (hid ▸ hreadable)
  rw [hid] at hsettled
  exact hsettled.of_reachable hreadable hstatus

end

/-- A recorded meeting, and one without any audio. -/
def leftMeetings : Database where
  meetings := {
    rows := [
      { id := "m1", status := .recording, updatedAt := 0 },
      { id := "m2", status := .summarizing, updatedAt := 0 }]
    nodup := by decide }
  jobs := ∅

def foundMeetings (meetingId : String) : RecoverySurroundings where
  primaryAudio := .ok (meetingId = "m1")
  legacyAudio := .ok false
  finalTranscriptRows := .ok false
  voiceConnected := false
  localSession := false
  summaryEnabled := true

/-- The first pass loses the answers about the meetings; the second one starts the summary of
its first meeting and is cut off before it comes to the second. -/
def interruptedPasses : List RecoveryPass :=
  [{ surroundings := foundMeetings
     replies := fun _ => { now := 1000, status := .failed "closed" true }
     reached := 2 },
   { surroundings := foundMeetings
     replies := fun _ => { now := 2000 }
     summaries := fun _ => [
       { now := 2000, statement := .claimById "t1" },
       { now := 2000, statement := .setMeetingStatus .stopping .transcribing (by decide) }]
     reached := 1 }]

/-- The lease has run out, the summary starts again and gets further. -/
def lastPass : RecoveryPass where
  surroundings := foundMeetings
  replies := fun _ => { now := 200000 }
  summaries := fun _ => [
    { now := 200000, statement := .claimById "t2" },
    { now := 200000, statement := .setMeetingStatus .stopping .transcribing (by decide) },
    { now := 260000, statement := .setMeetingStatus .transcribing .summarizing (by decide) }]
  reached := 2

theorem leftMeetings_settle :
    let after := runStartupRecovery (Machine.run runStartupRecovery leftMeetings interruptedPasses)
      lastPass
    Settled lastPass after "m1" .recording ∧ Settled lastPass after "m2" .summarizing := by
  have hagrees : ∀ pass ∈ interruptedPasses, ∀ meetingId,
      (pass.surroundings meetingId).Agrees (lastPass.surroundings meetingId) := by
    intro pass hpass meetingId
    have hsame : pass.surroundings = lastPass.surroundings := by
      simp only [interruptedPasses, List.mem_cons, List.not_mem_nil, or_false] at hpass
      rcases hpass with rfl | rfl
      · rfl
      · rfl
    rw [hsame]
    exact fun _ _ _ hfound => ⟨hfound, rfl⟩
  have hsettled := recovery_settles_after_interruptions leftMeetings interruptedPasses lastPass
    ⟨by decide, fun _ => ⟨rfl, rfl, rfl, rfl⟩⟩
  have hreadable : ∀ meetingId, (foundMeetings meetingId).Readable := by
    refine fun meetingId => ⟨rfl, fun status => ?_⟩
    unfold recordingFile foundMeetings recoverableAudioDir
    cases decide (meetingId = "m1") with
    | _ => rfl
  exact ⟨hsettled { id := "m1", status := .recording, updatedAt := 0 } (by decide) (hreadable _)
      fun pass hpass => hagrees pass hpass "m1",
    hsettled { id := "m2", status := .summarizing, updatedAt := 0 } (by decide) (hreadable _)
      fun pass hpass => hagrees pass hpass "m2"⟩

end DiscordTranscript.Application
