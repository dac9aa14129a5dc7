import DiscordTranscript.Application.RecoveryGuarantees
import DiscordTranscript.Application.SummaryOutcomes

/-! # From recovery to the posted summary

A turn of the recovery hands its meeting over when nobody else has the summary job
or can be expected to have it: there is none, its lease has run out, or it is queued
and due. Whoever then claims the job and is left alone posts the meeting.
-/

namespace DiscordTranscript.Application

open Domain Infrastructure

/-- A summary job that nobody has and that is not put off to a later time. -/
def JobRow.recoverable (now : ℤ) (job : JobRow) : Bool :=
  job.stale now || job.ready now

/-- The job is there for `meetingId`, queued and due. -/
def Awaits (table : JobsTable) (meetingId : String) (now : ℤ) : Prop :=
  ∃ job, table.get (summaryJobId meetingId) = some job ∧ job.meetingId = meetingId ∧
    job.ready now = true

section

variable {table : JobsTable} {jobId meetingId : String} {replies : RecoveryReplies}

theorem ready_freshRow (jobId meetingId : String) (now : ℤ) :
    (JobsTable.freshRow jobId meetingId .summarize now).ready now = true := by
  simp [JobRow.ready, JobRow.due, JobsTable.freshRow]

theorem ready_setRequeued {job : JobRow} {now : ℤ} (hstale : job.stale now = true) :
    (job.setRequeued now).ready now = true := by
  obtain ⟨htype, -, -⟩ := JobRow.stale_imp hstale
  simp [JobRow.ready, JobRow.due, JobRow.setRequeued, htype]

/-- A new job is claimable. -/
theorem enqueueSummaryJobRow_fresh (hfresh : table.get jobId = none)
    (hreply : replies.enqueue = .answered) (meetingId : String) :
    ∃ hnew, enqueueSummaryJobRow table jobId meetingId replies =
      (.ok (), table.insert (JobsTable.freshRow jobId meetingId .summarize replies.now) hnew) := by
  have hnew : jobId ∉ table.rows.map fun row => row.id := by
    intro hused
    obtain ⟨row, hrow, hid⟩ := List.mem_map.mp hused
    exact Table.get_eq_none.mp hfresh row hrow hid
  refine ⟨hnew, ?_⟩
  unfold enqueueSummaryJobRow SqlJobQueue.enqueue
  rw [hreply]
  simp only [FreshJob.job, table.enqueueJob_fresh hnew, Reply.execute]

/-- A job that exists stays as it is. -/
theorem enqueueSummaryJobRow_existing {job : JobRow} (hget : table.get jobId = some job)
    (hreply : replies.enqueue = .answered) :
    enqueueSummaryJobRow table jobId meetingId replies = (.error .alreadyExists, table) := by
  have hused : jobId ∈ table.rows.map fun row => row.id := JobsTable.mem_ids hget
  unfold enqueueSummaryJobRow SqlJobQueue.enqueue
  rw [hreply]
  simp only [FreshJob.job, table.enqueueJob_existing hused, Reply.execute,
    isPrefixOf_uniqueViolation, if_true]

/-- A job that is queued and due is seen so. -/
theorem claimState_of_ready {job : JobRow} (hget : table.get jobId = some job)
    (hready : job.ready replies.now = true) (hstatus : replies.jobStatusError = none) :
    recoveryExistingSummaryJobClaimState table jobId replies = .claimable := by
  simp only [JobRow.ready, JobRow.due, Bool.and_eq_true, decide_eq_true_eq] at hready
  obtain ⟨⟨htype, hqueued⟩, hdue⟩ := hready
  unfold recoveryExistingSummaryJobClaimState
  rw [hstatus, hget]
  simp only [Option.filter_some, htype, decide_true, if_true, hqueued]
  cases hnext : job.nextRunAt with
  | none => rfl
  | some nextRunAt =>
      have hlate : ¬nextRunAt > replies.now := by simpa [hnext] using hdue
      exact if_neg hlate

/-- A job that nobody has is found claimable, and awaits its claim. -/
theorem recoverSummaryJob_claimable (hreplies : replies.Answered)
    (hstatus : replies.jobStatusError = none)
    (hjob : ∀ job, table.get (summaryJobId meetingId) = some job →
      job.meetingId = meetingId ∧ JobRow.recoverable replies.now job = true) :
    (recoverSummaryJobForStartup table (summaryJobId meetingId) meetingId true replies).1 =
        .claimable ∧
      Awaits (recoverSummaryJobForStartup table (summaryJobId meetingId) meetingId true replies).2
        meetingId replies.now := by
  have hnext := Table.get_updateKey table (summaryJobId meetingId) (JobRow.stale replies.now)
    (JobRow.setRequeued replies.now) fun _ => rfl
  unfold recoverSummaryJobForStartup JobsTable.requeueStaleJob
  rw [hreplies.requeueStale]
  simp only [Bool.not_true, Bool.false_eq_true, if_false, Reply.execute]
  generalize (table.updateKey (summaryJobId meetingId) (JobRow.stale replies.now)
    (JobRow.setRequeued replies.now) fun _ => rfl).2 = next at hnext ⊢
  cases hget : table.get (summaryJobId meetingId) with
  | none =>
      rw [hget, Option.map_none] at hnext
      obtain ⟨hnew, heq⟩ := enqueueSummaryJobRow_fresh hnext hreplies.enqueue meetingId
      rw [heq]
      have hfound := Table.get_insert next
        (JobsTable.freshRow (summaryJobId meetingId) meetingId .summarize replies.now) hnew
        (summaryJobId meetingId)
      exact ⟨rfl, _, hfound.trans (if_pos rfl), rfl, ready_freshRow _ _ _⟩
  | some job =>
      obtain ⟨hmeeting, hrecoverable⟩ := hjob job hget
      rw [hget, Option.map_some] at hnext
      have hready : (if job.stale replies.now then job.setRequeued replies.now else job).ready
          replies.now = true := by
        split
        next hstale => exact ready_setRequeued hstale
        next hstale => simpa [JobRow.recoverable, hstale] using hrecoverable
      have hsame : (if job.stale replies.now then job.setRequeued replies.now else job).meetingId =
          meetingId := by
        split
        next => exact hmeeting
        next => exact hmeeting
      generalize (if job.stale replies.now then job.setRequeued replies.now else job) = found
        at hnext hready hsame
      rw [enqueueSummaryJobRow_existing hnext hreplies.enqueue]
      refine ⟨claimState_of_ready hnext hready hstatus, found, hnext, hsame, hready⟩

/-- A job that awaits its claim goes to whoever claims it, in the table and in the queue
that stands for it. -/
theorem Awaits.claimById {now : ℤ} (hawaits : Awaits table meetingId now) {token : String}
    (htoken : token ≠ "") {queue : InMemoryJobQueue} (hstands : table.StandsFor queue) :
    ∃ claimed,
      (SqlJobQueue.claimById table (summaryJobId meetingId) token now .answered).1 =
        .ok (some claimed) ∧
      claimed.id = summaryJobId meetingId ∧ claimed.meetingId = meetingId ∧
      (queue.claimById (summaryJobId meetingId) token now).2.HoldsClaim claimed now := by
  obtain ⟨job, hget, hmeeting, hready⟩ := hawaits
  simp only [JobRow.ready, JobRow.due_eq, Bool.and_eq_true, decide_eq_true_eq] at hready
  obtain ⟨⟨htype, hqueued⟩, hdue⟩ := hready
  have hjob : queue.get (summaryJobId meetingId) = some job.toJob := by
    rw [show queue = table.queue queue.order from hstands.reordered queue.order,
      table.get_queue, hget]
    rfl
  have hlease : 0 < queue.leaseDuration := by
    rw [hstands.lease]
    decide
  obtain ⟨claimed, hclaimed, hid, hsame, hheld⟩ :=
    SummaryCase.claimById_of_queued hjob hqueued hdue hlease htoken
  refine ⟨claimed, ?_, hid, hsame.trans hmeeting, hheld⟩
  have hanswer := hstands.answersAs.claimById (summaryJobId meetingId) token now
    fun found hfound => by
      rw [hjob] at hfound
      obtain rfl := Option.some.inj hfound
      exact htype
  rw [hanswer, hclaimed]

end

/-! ## To the end -/

/-- The summary of the meeting, as a worker has to bring it to its end. -/
def summaryOf (meetingId : String) : SummaryCase where
  jobId := summaryJobId meetingId
  meetingId := meetingId
  enabled := true
  strict := True

section

variable {db : Database} {meetingId : String} {row : MeetingRow}
  {surroundings : RecoverySurroundings} {replies : RecoveryReplies}

/-- A turn that hands its meeting over. -/
theorem recoverMeeting_handsOver (hget : db.meetings.get meetingId = some row)
    (hreadable : surroundings.Readable)
    (hover : recoveredStatus surroundings row.status = .stopping) (hreplies : replies.Answered)
    (hclaimable : (recoverSummaryJobForStartup db.jobs (summaryJobId meetingId) meetingId
      surroundings.summaryEnabled replies).1 = .claimable) :
    (recoverMeeting db meetingId row.status surroundings replies).1 = .process ∧
      (recoverMeeting db meetingId row.status surroundings replies).2.jobs =
        (recoverSummaryJobForStartup db.jobs (summaryJobId meetingId) meetingId
          surroundings.summaryEnabled replies).2 ∧
      Reaches (recoverMeeting db meetingId row.status surroundings replies).2.meetings meetingId
        [.stopping] := by
  obtain ⟨found, hfound, haction⟩ := hreadable.action row.status
  have hreaches := (recoverMeeting_answered hget hreplies haction).1
  rw [hover] at hreaches
  rcases recoverMeeting_known hget row.status surroundings replies with
    ⟨hnone, -⟩ | ⟨candidate, rfl, hstatus, hdecided, hturn⟩
  · rw [hnone] at haction
    cases haction
  · have hresult := (runRecovery_answered hreplies.status hreplies.errorMessage hget
      hstatus.symm).1
    rw [haction, Option.some.injEq] at hdecided
    have hfollow : followUp db.jobs candidate.meetingId surroundings.summaryEnabled replies
        (runRecovery db.meetings candidate replies).1 =
          (.process, (recoverSummaryJobForStartup db.jobs (summaryJobId candidate.meetingId)
            candidate.meetingId surroundings.summaryEnabled replies).2) := by
      rw [hresult, ← hdecided]
      rcases handsOver_of_stopping hreadable hfound hover with hdecide | hdecide
      · rw [hdecide]
        simp only [RecoveryAction.effect, followUp, hclaimable]
      · rw [hdecide]
        simp only [RecoveryAction.effect, followUp, hclaimable]
    rw [hturn, hfollow] at hreaches ⊢
    exact ⟨rfl, rfl, hreaches⟩

/-- A meeting that a process left behind, with something to summarize and a job that
nobody has, is handed over by its turn; the worker that claims the job then and is left
alone ends with the job done and the meeting posted. -/
theorem recovered_meeting_is_posted (hget : db.meetings.get meetingId = some row)
    (hreadable : surroundings.Readable) (henabled : surroundings.summaryEnabled = true)
    (hover : recoveredStatus surroundings row.status = .stopping) (hreplies : replies.Answered)
    (hstatus : replies.jobStatusError = none)
    (hjob : ∀ job, db.jobs.get (summaryJobId meetingId) = some job →
      job.meetingId = meetingId ∧ JobRow.recoverable replies.now job = true)
    {token : String} (htoken : token ≠ "") :
    let turn := recoverMeeting db meetingId row.status surroundings replies
    turn.1 = .process ∧
      ∃ claimed,
        (SqlJobQueue.claimById turn.2.jobs (summaryJobId meetingId) token replies.now
          .answered).1 = .ok (some claimed) ∧
        ∀ shared : SummaryShared, turn.2.jobs.StandsFor shared.queue →
          shared.meetingStatus meetingId = (turn.2.meetings.get meetingId).map (·.status) →
          shared.summaryEnabled meetingId = true →
          ∀ (options : SummaryJobOptions) (self : ℕ), ∃ value after,
            (summaryWorker options self claimed).run.alone { now := replies.now }
                { shared with
                  queue := (shared.queue.claimById (summaryJobId meetingId) token
                    replies.now).2 } = (.ok value, after) ∧
              (summaryOf meetingId).Completed after := by
  have hjobs := recoverSummaryJob_claimable hreplies hstatus hjob
  rw [← henabled] at hjobs
  obtain ⟨hprocess, htable, hreached, hthere, hstopping⟩ :=
    recoverMeeting_handsOver hget hreadable hover hreplies hjobs.1
  intro turn
  have hawaits : Awaits turn.2.jobs meetingId replies.now := htable ▸ hjobs.2
  obtain ⟨claimed, hclaimed, -⟩ :=
    hawaits.claimById htoken (JobsTable.standsFor_queue turn.2.jobs [])
  refine ⟨hprocess, claimed, hclaimed, ?_⟩
  intro shared hstands hmeeting hsettings options self
  obtain ⟨same, hsame, hid, hmeetingId, hheld⟩ := hawaits.claimById htoken hstands
  rw [hclaimed, Except.ok.injEq, Option.some.injEq] at hsame
  subst hsame
  have hlease : 0 < shared.queue.leaseDuration := by
    rw [hstands.lease]
    decide
  have hsolo : (summaryOf meetingId).Solo claimed replies.now .stopping { shared with
      queue := (shared.queue.claimById (summaryJobId meetingId) token replies.now).2 } := by
    refine ⟨hheld, ?_, ?_, hsettings⟩
    · have hsame := shared.queue.step_leaseDuration
        { now := replies.now, op := .claimById (summaryJobId meetingId) token }
      exact hsame.trans_gt hlease
    · refine Eq.trans hmeeting ?_
      rw [hthere, Option.map_some, List.mem_singleton.mp hstopping]
  exact (summaryOf meetingId).finishes_summaryWorker hid hmeetingId (.inr (.inl rfl)) options self
    _ hsolo

end

/-- A meeting that was being transcribed, with its job still running under a lease that
has run out. -/
def leftBehind : Database where
  meetings := {
    rows := [{ id := "m1", status := .transcribing, updatedAt := 0 }]
    nodup := by decide }
  jobs := {
    rows := [{ JobsTable.freshRow "summary-m1" "m1" .summarize 0 with
      status := .running, claimToken := some "t1", leasedUntil := some 90000 }]
    nodup := by decide }

/-- What a new process finds about it. -/
def audioLeft : RecoverySurroundings where
  primaryAudio := .ok true
  legacyAudio := .ok false
  finalTranscriptRows := .ok false
  voiceConnected := false
  localSession := false
  summaryEnabled := true

theorem leftBehind_is_posted :
    let turn := recoverMeeting leftBehind "m1" .transcribing audioLeft { now := 100000 }
    turn.1 = .process ∧
      ∃ claimed value after,
        (SqlJobQueue.claimById turn.2.jobs (summaryJobId "m1") "t2" 100000 .answered).1 =
          .ok (some claimed) ∧
        (summaryWorker { maxRetries := 3 } 0 claimed).run.alone { now := 100000 } {
          store := { meetings := AList.singleton "m1" { id := "m1", status := .stopping } }
          queue := ((turn.2.jobs.queue []).claimById (summaryJobId "m1") "t2" 100000).2 } =
            (.ok value, after) ∧
        (summaryOf "m1").Completed after := by
  have hreadable : audioLeft.Readable := by
    refine ⟨rfl, fun status => ?_⟩
    cases status <;> rfl
  have hjob : ∀ job, leftBehind.jobs.get (summaryJobId "m1") = some job →
      job.meetingId = "m1" ∧ JobRow.recoverable 100000 job = true := by
    intro job hget
    have hrow : leftBehind.jobs.get (summaryJobId "m1") = some {
        JobsTable.freshRow "summary-m1" "m1" .summarize 0 with
        status := .running, claimToken := some "t1", leasedUntil := some 90000 } := rfl
    rw [hrow, Option.some.injEq] at hget
    subst hget
    exact ⟨rfl, rfl⟩
  obtain ⟨hprocess, claimed, hclaimed, hworker⟩ := @recovered_meeting_is_posted leftBehind "m1"
    { id := "m1", status := .transcribing, updatedAt := 0 } audioLeft { now := 100000 } rfl
    hreadable rfl rfl ⟨rfl, rfl, rfl, rfl⟩ rfl hjob "t2" (by decide)
  obtain ⟨value, after, halone, hcompleted⟩ := hworker {
      store := { meetings := AList.singleton "m1" { id := "m1", status := .stopping } }
      queue := _ } (JobsTable.standsFor_queue _ []) rfl rfl { maxRetries := 3 } 0
  exact ⟨hprocess, claimed, value, after, hclaimed, halone, hcompleted⟩

end DiscordTranscript.Application
