import DiscordTranscript.Infrastructure.SqlQueueRefinement

/-! # What the jobs table guarantees

The guarantees of the in-memory queue, for every run of the table: workers,
recoveries, administrators who cancel and retry, and statements that fail with or
without having been committed. On top of them the columns of a row agree with its
status. Each statement moves each row in one of a few ways, and all but the manual
retry are moves of the in-memory queue.
-/

namespace DiscordTranscript.Infrastructure

open Domain

/-! ## Moves of one row -/

/-- What a statement can do to a row. -/
inductive JobRow.Moves (call : SqlCall) : JobRow → JobRow → Prop where
  | stay (row : JobRow) : Moves call row row
  | claim {row : JobRow} {claimToken : String} (hissued : call.token? = some claimToken)
      (hqueued : row.status = .queued) : Moves call row (row.setClaim claimToken call.now)
  | heartbeat {row : JobRow} (hrunning : row.status = .running) :
      Moves call row (row.setHeartbeat call.now)
  | done {row : JobRow} (hrunning : row.status = .running) : Moves call row (row.setDone call.now)
  | fail {row : JobRow} (errorMessage : String) (hrunning : row.status = .running) :
      Moves call row (row.setFailed errorMessage call.now)
  | retry {row : JobRow} {handle : Job} (errorMessage : String) (maxRetries : ℕ)
      (hcall : call.op = .claimant (.retry errorMessage maxRetries) handle)
      (hhandle : handle.id = row.id) (hrunning : row.status = .running) :
      Moves call row (row.setRetry errorMessage maxRetries call.now)
  | requeue {row : JobRow} (hrunning : row.status = .running) :
      Moves call row (row.setRequeued call.now)
  | cancel {row : JobRow} (reason : String) (hqueued : row.status = .queued) :
      Moves call row (row.setCanceled reason call.now)
  | adminRetry {row : JobRow} (nextRunAt : Option ℤ) (candidate : String → Bool)
      (hcall : call.op = .adminRetry row.id nextRunAt candidate)
      (hcommitted : call.reply.committed = true)
      (hsettled : row.status = .failed ∨ row.status = .canceled) :
      Moves call row (row.setAdminRetry nextRunAt call.now)

/-- The call of the in-memory queue whose token and limit a statement has. -/
def SqlCall.asQueueCall (call : SqlCall) : QueueCall where
  now := call.now
  op := match call.op with
    | .claimNext jobType claimToken _ => .claimNext jobType claimToken
    | .claimById jobId claimToken => .claimById jobId claimToken
    | .claimant op job => .claimant op job
    | _ => (idleCall call.now).op

section

variable {call : SqlCall} {row next : JobRow}

theorem SqlCall.token?_asQueueCall (call : SqlCall) : call.asQueueCall.token? = call.token? := by
  obtain ⟨now, op, reply⟩ := call
  cases op with
  | _ => rfl

/-- A move of a row is a move of its job, or a manual retry of a settled one. -/
theorem JobRow.Moves.toJob (hmove : row.Moves call next) :
    row.toJob.Moves call.asQueueCall next.toJob ∨
      ∃ nextRunAt candidate, call.op = .adminRetry row.id nextRunAt candidate ∧
        call.reply.committed = true ∧ (row.status = .failed ∨ row.status = .canceled) ∧
        next = row.setAdminRetry nextRunAt call.now := by
  cases hmove with
  | stay => exact .inl (.stay _)
  | claim hissued hqueued =>
      rw [JobRow.toJob_setClaim]
      exact .inl (.claim _ (call.token?_asQueueCall.trans hissued) hqueued)
  | heartbeat hrunning => exact .inl (.extendLease _ hrunning)
  | done hrunning =>
      refine .inl (.finish .done none (.inl hrunning) (by decide) fun hqueued => ?_)
      rw [hrunning] at hqueued
      cases hqueued
  | fail errorMessage hrunning =>
      refine .inl (.finish .failed _ (.inl hrunning) (by decide) fun hqueued => ?_)
      rw [hrunning] at hqueued
      cases hqueued
  | retry errorMessage maxRetries hcall hhandle hrunning =>
      rw [JobRow.toJob_setRetry]
      refine .inl (.retry errorMessage maxRetries ?_ hhandle hrunning)
      simp only [SqlCall.asQueueCall, hcall]
  | requeue hrunning =>
      refine .inl (.finish .queued none (.inl hrunning) (by decide) fun hqueued => ?_)
      rw [hrunning] at hqueued
      cases hqueued
  | cancel reason hqueued =>
      exact .inl (.finish .canceled none (.inr hqueued) (by decide) fun _ => rfl)
  | adminRetry nextRunAt candidate hcall hcommitted hsettled =>
      exact .inr ⟨nextRunAt, candidate, hcall, hcommitted, hsettled, rfl⟩

theorem JobRow.Moves.id_eq (hmove : row.Moves call next) : next.id = row.id := by
  cases hmove with
  | _ => rfl

end

/-! ## Every statement moves rows -/

namespace JobsTable

variable {table : JobsTable} {call : SqlCall}

theorem moves_update {selected : JobRow → Bool} {change : JobRow → JobRow}
    (hselected : ∀ row ∈ table.rows, selected row = true → row.Moves call (change row)) :
    List.Forall₂ (JobRow.Moves call) table.rows
      (table.rows.map (Table.changed selected change)) := by
  rw [List.forall₂_map_right_iff]
  refine List.forall₂_same.mpr fun row hrow => ?_
  unfold Table.changed
  split
  next hrow' => exact hselected row hrow hrow'
  next => exact .stay row

theorem moves_stay (table : JobsTable) (call : SqlCall) :
    List.Forall₂ (JobRow.Moves call) table.rows table.rows :=
  List.forall₂_same.mpr fun row _ => .stay row

theorem moves_updateKey {jobId : String} {also : JobRow → Bool} (change : JobRow → JobRow)
    (hkey : ∀ row, (change row).id = row.id)
    (halso : ∀ row ∈ table.rows, row.id = jobId → also row = true → row.Moves call (change row)) :
    List.Forall₂ (JobRow.Moves call) table.rows
      (table.updateKey jobId also change hkey).2.rows := by
  refine moves_update fun row hrow hselected => ?_
  rw [Bool.and_eq_true, decide_eq_true_eq] at hselected
  exact halso row hrow hselected.1 hselected.2

theorem moves_updateClaimed {job : Job} {reply : Reply} (change : JobRow → JobRow)
    (hkey : ∀ row, (change row).id = row.id)
    (hchange : ∀ row : JobRow, row.id = job.id → row.status = .running →
      row.Moves call (change row)) :
    List.Forall₂ (JobRow.Moves call) table.rows
      (SqlJobQueue.updateClaimed table job reply fun claimToken =>
        table.updateKey job.id (JobRow.claimedWith claimToken call.now) change hkey).2.rows := by
  rw [updateClaimed_table]
  split
  next =>
    unfold SqlJobQueue.updateClaimed
    cases requireClaimToken job with
    | error err => exact moves_stay table call
    | ok claimToken =>
        have hmoves : List.Forall₂ (JobRow.Moves call) table.rows (table.updateKey job.id
            (JobRow.claimedWith claimToken call.now) change hkey).2.rows := by
          refine moves_updateKey change hkey fun row _ hid hclaimed => hchange row hid ?_
          rw [JobRow.claimedWith_eq] at hclaimed
          exact (InMemoryJobQueue.hasActiveClaim_iff.mp hclaimed).1
        cases hstatement : table.updateKey job.id (JobRow.claimedWith claimToken call.now) change
            hkey with
        | mk found next =>
            rw [hstatement] at hmoves
            simp only [Reply.execute, hstatement]
            cases found with
            | none => exact hmoves
            | some row => exact hmoves
  next => exact moves_stay table call

/-- Every statement moves the rows one by one or appends a fresh one. -/
theorem step_moves (table : JobsTable) (call : SqlCall) :
    List.Forall₂ (JobRow.Moves call) table.rows (table.step call).rows ∨
      ∃ id meetingId jobType, id ∉ table.ids ∧
        (table.step call).rows = table.rows ++ [freshRow id meetingId jobType call.now] := by
  rw [step_eq]
  by_cases hcommitted : call.reply.committed = true
  · rw [if_pos hcommitted]
    obtain ⟨now, op, reply⟩ := call
    cases op with
    | enqueue job driverText =>
        simp only [step, enqueue_table, Reply.committed, if_true, enqueueJob]
        split
        next hfresh => exact .inr ⟨job.id, job.meetingId, job.jobType, hfresh, rfl⟩
        next => exact .inl (moves_stay table _)
    | claimNext jobType claimToken visible =>
        left
        simp only [step, SqlJobQueue.claimNext, Reply.execute, claimJob]
        split
        next => exact moves_stay table _
        next row hnext =>
          obtain ⟨hmem, hcondition⟩ := List.mem_filter.mp (nextClaimable_mem hnext)
          simp only [Bool.and_eq_true, decide_eq_true_eq] at hcondition
          refine moves_updateKey (JobRow.setClaim claimToken now) (fun _ => rfl)
            fun other hother hid _ => .claim rfl ?_
          rw [table.eq_of_key_eq hother (SqlJobQueue.mem_visibleRows.mp hmem).2 hid]
          exact hcondition.1.2
    | claimById jobId claimToken =>
        left
        refine moves_updateKey (JobRow.setClaim claimToken now) (fun _ => rfl)
          fun row _ _ hcondition => .claim rfl ?_
        simp only [Bool.and_eq_true, decide_eq_true_eq] at hcondition
        exact hcondition.1.2
    | claimant op job =>
        left
        cases op with
        | heartbeat =>
            exact moves_updateClaimed (JobRow.setHeartbeat now) (fun _ => rfl)
              fun _ _ hrunning => .heartbeat hrunning
        | markDone =>
            exact moves_updateClaimed (JobRow.setDone now) (fun _ => rfl)
              fun _ _ hrunning => .done hrunning
        | markFailed errorMessage =>
            exact moves_updateClaimed (JobRow.setFailed errorMessage now) (fun _ => rfl)
              fun _ _ hrunning => .fail errorMessage hrunning
        | retry errorMessage maxRetries =>
            exact moves_updateClaimed (JobRow.setRetry errorMessage maxRetries now) (fun _ => rfl)
              fun _ hid hrunning => .retry errorMessage maxRetries rfl hid.symm hrunning
    | requeueStale jobId =>
        exact .inl (moves_updateKey (JobRow.setRequeued now) (fun _ => rfl)
          fun _ _ _ hstale => .requeue (JobRow.stale_imp hstale).2.1)
    | readySummaryMeetingIds visible collate =>
        left
        refine moves_update fun row hrow hselected => ?_
        obtain ⟨hfound, hstale⟩ :=
          table.staleIds_spec (.readySummaryMeetingIds visible collate) now
        obtain ⟨found, hget, hage⟩ := hstale row.id (of_decide_eq_true hselected)
        obtain ⟨hmem, hid⟩ := Table.get_eq_some.mp hget
        obtain rfl := table.eq_of_key_eq hmem hrow hid
        exact .requeue (JobRow.stale_imp hage).2.1
    | adminCancel jobId reason inGuild =>
        refine .inl (moves_updateKey (JobRow.setCanceled reason now) (fun _ => rfl)
          fun row _ _ hcondition => .cancel reason ?_)
        simp only [Bool.and_eq_true, decide_eq_true_eq] at hcondition
        exact hcondition.2
    | adminRetry jobId nextRunAt candidate =>
        refine .inl (moves_updateKey (JobRow.setAdminRetry nextRunAt now) (fun _ => rfl)
          fun row _ hid hcondition =>
            .adminRetry nextRunAt candidate (by rw [hid]) hcommitted ?_)
        simp only [Bool.and_eq_true, Bool.or_eq_true, decide_eq_true_eq] at hcondition
        exact hcondition.1.2
  · rw [if_neg hcommitted]
    exact .inl (moves_stay table call)

/-- A property of rows that fresh ones have and moves keep is kept by a statement. -/
theorem step_forall (good : JobRow → Prop) {table : JobsTable} {call : SqlCall}
    (hmoves : ∀ row next, row.Moves call next → good row → good next)
    (hfresh : ∀ id meetingId jobType, good (freshRow id meetingId jobType call.now))
    (htable : ∀ row ∈ table.rows, good row) : ∀ row ∈ (table.step call).rows, good row := by
  rcases table.step_moves call with hforall | ⟨id, meetingId, jobType, -, heq⟩
  · intro next hnext
    obtain ⟨row, hrow, hmove⟩ := hforall.exists_of_mem_right hnext
    exact hmoves row next hmove (htable row hrow)
  · rw [heq]
    intro row hrow
    rcases List.mem_append.mp hrow with hrow | hrow
    · exact htable row hrow
    · rw [List.mem_singleton.mp hrow]
      exact hfresh id meetingId jobType

theorem step_exists {table : JobsTable} (call : SqlCall) {row : JobRow}
    (hrow : row ∈ table.rows) : ∃ next ∈ (table.step call).rows, row.Moves call next := by
  rcases table.step_moves call with hforall | ⟨id, meetingId, jobType, -, heq⟩
  · exact hforall.exists_of_mem_left hrow
  · exact ⟨row, by rw [heq]; exact List.mem_append_left _ hrow, .stay row⟩

end JobsTable

/-! ## The columns agree with the status -/

structure JobRow.Coherent (row : JobRow) : Prop where
  claim : row.toJob.ClaimConsistent
  finishedAt : row.finishedAt.isSome ↔ row.toJob.Terminal
  deadLetteredAt : row.deadLetteredAt.isSome ↔ row.status = .failed
  canceledAt : row.canceledAt.isSome ↔ row.status = .canceled
  cancelReason : row.cancelReason.isSome ↔ row.status = .canceled
  nextRunAt : row.nextRunAt.isSome → row.status = .queued
  errorMessage : row.status = .failed → row.errorMessage.isSome
  noErrorMessage : row.status = .done ∨ row.status = .canceled → row.errorMessage = none

section

variable {call : SqlCall} {row next : JobRow}

/-- The columns of a row that is neither running nor settled, for any of the moves. -/
theorem JobRow.Coherent.open_columns (hrow : row.Coherent)
    (hopen : row.status = .queued ∨ row.status = .running) :
    row.finishedAt = none ∧ row.deadLetteredAt = none ∧ row.canceledAt = none ∧
      row.cancelReason = none := by
  have hnone : ∀ {α : Type} {column : Option α} {settled : Prop},
      (column.isSome ↔ settled) → ¬settled → column = none := by
    intro α column settled hiff hnot
    rw [← Option.not_isSome_iff_eq_none, hiff]
    exact hnot
  refine ⟨hnone hrow.finishedAt ?_, hnone hrow.deadLetteredAt ?_, hnone hrow.canceledAt ?_,
    hnone hrow.cancelReason ?_⟩
  all_goals rcases hopen with hstatus | hstatus <;> simp [Job.Terminal, hstatus]

theorem JobRow.Moves.coherent (hmove : row.Moves call next) (hrow : row.Coherent) :
    next.Coherent := by
  have hclaim : next.toJob.ClaimConsistent := by
    rcases hmove.toJob with hjob | ⟨nextRunAt, candidate, -, -, -, rfl⟩
    · exact hjob.claimConsistent hrow.claim
    · exact ⟨fun hrunning => absurd hrunning (by simp [JobRow.setAdminRetry]),
        fun _ => ⟨rfl, rfl⟩⟩
  cases hmove with
  | stay => exact hrow
  | claim hissued hqueued =>
      obtain ⟨hfinished, hdead, hcanceled, hreason⟩ := hrow.open_columns (.inl hqueued)
      exact ⟨hclaim, by simp [setClaim, hfinished, Job.Terminal], by simp [setClaim, hdead],
        by simp [setClaim, hcanceled], by simp [setClaim, hreason], by simp [setClaim],
        by simp [setClaim], by simp [setClaim]⟩
  | heartbeat hrunning =>
      obtain ⟨-, hfinished, hdead, hcanceled, hreason, hnext, herror, hnoError⟩ := hrow
      exact ⟨hclaim, hfinished, hdead, hcanceled, hreason, hnext, herror, hnoError⟩
  | done hrunning =>
      obtain ⟨hfinished, hdead, hcanceled, hreason⟩ := hrow.open_columns (.inr hrunning)
      exact ⟨hclaim, by simp [setDone, Job.Terminal], by simp [setDone, hdead],
        by simp [setDone, hcanceled], by simp [setDone, hreason], by simp [setDone],
        by simp [setDone], by simp [setDone]⟩
  | fail errorMessage hrunning =>
      obtain ⟨hfinished, hdead, hcanceled, hreason⟩ := hrow.open_columns (.inr hrunning)
      exact ⟨hclaim, by simp [setFailed, Job.Terminal], by simp [setFailed],
        by simp [setFailed, hcanceled], by simp [setFailed, hreason], by simp [setFailed],
        by simp [setFailed], by simp [setFailed]⟩
  | retry errorMessage maxRetries hcall hhandle hrunning =>
      refine ⟨hclaim, ?_, ?_, ?_, ?_, ?_, ?_, ?_⟩
      all_goals
        by_cases hexhausted : maxRetries < row.retryCount + 1 <;>
          simp [setRetry, hexhausted, Job.Terminal]
  | requeue hrunning =>
      obtain ⟨hfinished, hdead, hcanceled, hreason⟩ := hrow.open_columns (.inr hrunning)
      exact ⟨hclaim, by simp [setRequeued, hfinished, Job.Terminal], by simp [setRequeued, hdead],
        by simp [setRequeued, hcanceled], by simp [setRequeued, hreason], by simp [setRequeued],
        by simp [setRequeued], by simp [setRequeued]⟩
  | cancel reason hqueued =>
      exact ⟨hclaim, by simp [setCanceled, Job.Terminal], by simp [setCanceled],
        by simp [setCanceled], by simp [setCanceled], by simp [setCanceled],
        by simp [setCanceled], by simp [setCanceled]⟩
  | adminRetry nextRunAt candidate hcall hcommitted hsettled =>
      exact ⟨hclaim, by simp [setAdminRetry, Job.Terminal], by simp [setAdminRetry],
        by simp [setAdminRetry], by simp [setAdminRetry], by simp [setAdminRetry],
        by simp [setAdminRetry], by simp [setAdminRetry]⟩

theorem JobsTable.freshRow_coherent (id meetingId : String) (jobType : JobType) (now : ℤ) :
    (freshRow id meetingId jobType now).Coherent :=
  ⟨⟨by simp [freshRow], fun _ => ⟨rfl, rfl⟩⟩, by simp [freshRow, Job.Terminal],
    by simp [freshRow], by simp [freshRow], by simp [freshRow], by simp [freshRow],
    by simp [freshRow], by simp [freshRow]⟩

end

/-! ## Claims over time -/

namespace JobsTable

variable {table : JobsTable}

/-- The worker's copy of the job carries the token of the running job, and the
lease has not run out. -/
def HoldsClaim (table : JobsTable) (job : Job) (now : ℤ) : Prop :=
  (table.queue []).HoldsClaim job now

/-- The token is not, or no longer, the one of the job. -/
def Stale (table : JobsTable) (jobId claimToken : String) : Prop :=
  ∀ row ∈ table.rows, row.id = jobId → row.claimToken ≠ some claimToken

theorem stale_queue {jobId claimToken : String} (hstale : table.Stale jobId claimToken) :
    (table.queue []).Stale jobId claimToken := by
  intro job hjob hid
  obtain ⟨row, hrow, rfl⟩ := List.mem_map.mp hjob
  exact hstale row hrow hid

theorem claimantCall_ok_iff (table : JobsTable) (op : ClaimantOp) (job : Job) (now : ℤ) :
    (SqlJobQueue.claimantCall table op job now .answered).1 = .ok () ↔
      table.HoldsClaim job now := by
  rw [(SqlJobQueue.claimantCall_alike table [] op job now).ok_iff]
  by_cases hholds : (table.queue []).HoldsClaim job now
  · exact iff_of_true (InMemoryJobQueue.claimantCall_ok hholds op) hholds
  · obtain ⟨err, hmemory⟩ := InMemoryJobQueue.claimantCall_error hholds op
    rw [hmemory]
    exact iff_of_false (by simp) hholds

/-- Without the claim nothing is changed, however the executor ends the statement. -/
theorem updateClaimed_refused {job : Job} {now : ℤ} (hlost : ¬table.HoldsClaim job now)
    (change : JobRow → JobRow) (hkey : ∀ row, (change row).id = row.id) (reply : Reply) :
    ∃ err, SqlJobQueue.updateClaimed table job reply (fun claimToken =>
      table.updateKey job.id (JobRow.claimedWith claimToken now) change hkey) =
        (.error err, table) := by
  unfold SqlJobQueue.updateClaimed
  cases htoken : requireClaimToken job with
  | error err => exact ⟨err, rfl⟩
  | ok claimToken =>
      have hnone : table.updateKey job.id (JobRow.claimedWith claimToken now) change hkey =
          (none, table) := by
        rcases table.updateKey_cases job.id (JobRow.claimedWith claimToken now) change hkey with
          ⟨row, hget, hclaimed, -⟩ | ⟨-, heq⟩
        · refine absurd (InMemoryJobQueue.holdsClaim_iff.mpr
            ⟨row.toJob, claimToken, htoken, ?_, ?_⟩) hlost
          · rw [table.get_queue, hget, Option.map_some]
          · rw [← JobRow.claimedWith_eq]
            exact hclaimed
        · exact heq
      simp only [hnone]
      cases reply with
      | answered => exact ⟨_, rfl⟩
      | failed error committed => exact ⟨.backend error, by simp [Reply.execute]⟩

theorem claimantCall_refused {job : Job} {now : ℤ} (hlost : ¬table.HoldsClaim job now)
    (op : ClaimantOp) (reply : Reply) :
    ∃ err, SqlJobQueue.claimantCall table op job now reply = (.error err, table) := by
  cases op with
  | heartbeat =>
      obtain ⟨err, herr⟩ := updateClaimed_refused hlost (JobRow.setHeartbeat now) (fun _ => rfl) reply
      refine ⟨err, ?_⟩
      simp only [SqlJobQueue.claimantCall, SqlJobQueue.heartbeat, heartbeatRunningJob, herr]
      rfl
  | markDone =>
      obtain ⟨err, herr⟩ := updateClaimed_refused hlost (JobRow.setDone now) (fun _ => rfl) reply
      refine ⟨err, ?_⟩
      simp only [SqlJobQueue.claimantCall, SqlJobQueue.markDone, markJobDone, herr]
      rfl
  | markFailed errorMessage =>
      obtain ⟨err, herr⟩ :=
        updateClaimed_refused hlost (JobRow.setFailed errorMessage now) (fun _ => rfl) reply
      refine ⟨err, ?_⟩
      simp only [SqlJobQueue.claimantCall, SqlJobQueue.markFailed, markJobFailed, herr]
      rfl
  | retry errorMessage maxRetries =>
      obtain ⟨err, herr⟩ :=
        updateClaimed_refused hlost (JobRow.setRetry errorMessage maxRetries now) (fun _ => rfl) reply
      refine ⟨err, ?_⟩
      simp only [SqlJobQueue.claimantCall, SqlJobQueue.retry, retryJob, herr]
      rfl

/-- A token that is stale stays stale until it is issued again. -/
theorem Stale.step {jobId claimToken : String} {call : SqlCall}
    (hstale : table.Stale jobId claimToken) (hissued : call.token? ≠ some claimToken) :
    (table.step call).Stale jobId claimToken := by
  refine step_forall (fun row => row.id = jobId → row.claimToken ≠ some claimToken) ?_
    (fun _ _ _ => by simp [freshRow]) hstale
  intro row next hmove hrow hid htoken
  rcases hmove.toJob with hjob | ⟨nextRunAt, candidate, -, -, -, rfl⟩
  · rcases hjob.token_source htoken with hheld | hnew
    · exact hrow (hmove.id_eq.symm.trans hid) hheld
    · exact hissued ((SqlCall.token?_asQueueCall call).symm.trans hnew)
  · cases htoken

theorem run_coherent (calls : List SqlCall) :
    ∀ row ∈ (Machine.run step ∅ calls).rows, row.Coherent :=
  Machine.run_invariant step (fun table => ∀ row ∈ table.rows, row.Coherent)
    (fun _ call => step_forall JobRow.Coherent (fun _ _ => JobRow.Moves.coherent)
      fun id meetingId jobType => freshRow_coherent id meetingId jobType call.now)
    (by simp) calls

/-- A manual retry of the job that took effect. -/
def RetriedByAdmin (jobId : String) (call : SqlCall) : Prop :=
  call.reply.committed = true ∧ ∃ nextRunAt candidate, call.op = .adminRetry jobId nextRunAt candidate

theorem run_settled {row : JobRow} (hsettled : row.toJob.Terminal) {calls : List SqlCall}
    (hcalls : ∀ call ∈ calls, ¬RetriedByAdmin row.id call) (hrow : row ∈ table.rows) :
    row ∈ (Machine.run step table calls).rows := by
  refine Machine.run_invariant_of_mem step (row ∈ ·.rows) (fun table call hcall htable => ?_) hrow
  obtain ⟨next, hnext, hmove⟩ := step_exists call htable
  cases hmove with
  | stay => exact hnext
  | adminRetry nextRunAt candidate hop hcommitted hstatus =>
      exact absurd ⟨hcommitted, nextRunAt, candidate, hop⟩ (hcalls call hcall)
  | claim _ hqueued | cancel _ hqueued => simp [Job.Terminal, hqueued] at hsettled
  | heartbeat hrunning | done hrunning | requeue hrunning | fail _ hrunning =>
      simp [Job.Terminal, hrunning] at hsettled
  | retry _ _ _ _ hrunning => simp [Job.Terminal, hrunning] at hsettled

theorem run_retriesWithin {calls : List SqlCall} {jobId : String} {maxRetries : ℕ}
    (hlimit : ∀ call ∈ calls, ∀ errorMessage limit handle,
      call.op = .claimant (.retry errorMessage limit) handle → handle.id = jobId →
        limit ≤ maxRetries) :
    ∀ row ∈ (Machine.run step ∅ calls).rows, row.id = jobId →
      row.toJob.RetriesWithin maxRetries := by
  refine Machine.run_invariant_of_mem step
    (fun table => ∀ row ∈ table.rows, row.id = jobId → row.toJob.RetriesWithin maxRetries) ?_
    (by simp)
  intro table call hcall
  refine step_forall (fun row => row.id = jobId → row.toJob.RetriesWithin maxRetries) ?_ ?_
  · intro row next hmove hrow hid
    have hbefore : row.id = jobId := hmove.id_eq.symm.trans hid
    rcases hmove.toJob with hjob | ⟨nextRunAt, candidate, -, -, -, rfl⟩
    · refine hjob.retriesWithin (fun errorMessage limit handle hop hhandle => ?_) (hrow hbefore)
      refine hlimit call hcall errorMessage limit handle ?_ (hhandle.trans hbefore)
      obtain ⟨now, op, reply⟩ := call
      cases op with
      | claimant op job => simpa [SqlCall.asQueueCall] using hop
      | _ => simp [SqlCall.asQueueCall, idleCall] at hop
    · exact ⟨Nat.zero_le _, fun _ => Nat.zero_le _⟩
  · intro id meetingId jobType _
    exact ⟨Nat.zero_le _, fun _ => Nat.zero_le _⟩

/-- A job that `CLAIM_JOB_SQL` may take. -/
def Claimable (jobType : JobType) (visible : List String) (now : ℤ) (row : JobRow) : Prop :=
  row.id ∈ visible ∧ row.jobType = jobType ∧ row.status = .queued ∧ row.due now = true

theorem mem_claimable {jobType : JobType} {visible : List String} {now : ℤ} {row : JobRow} :
    row ∈ table.claimableRows jobType visible now ↔
      row ∈ table.rows ∧ Claimable jobType visible now row := by
  rw [claimableRows, List.mem_filter, SqlJobQueue.mem_visibleRows]
  simp only [Claimable, Bool.and_eq_true, decide_eq_true_eq]
  tauto

/-- The claim of the next job takes the one that is due for longest. -/
theorem nextClaimable_eq_some {jobType : JobType} {visible : List String} {now : ℤ} {row : JobRow}
    (hnext : table.nextClaimable jobType visible now = some row) :
    row ∈ table.rows ∧ Claimable jobType visible now row ∧
      ∀ other ∈ table.rows, Claimable jobType visible now other →
        claimsBefore row other = true := by
  obtain ⟨hrow, hclaimable⟩ := mem_claimable.mp (nextClaimable_mem hnext)
  refine ⟨hrow, hclaimable, fun other hother hclaimable => ?_⟩
  exact nextClaimable_first hnext other (mem_claimable.mpr ⟨hother, hclaimable⟩)

theorem nextClaimable_eq_none {jobType : JobType} {visible : List String} {now : ℤ}
    (hnext : table.nextClaimable jobType visible now = none) :
    ∀ other ∈ table.rows, ¬Claimable jobType visible now other := by
  intro other hother hclaimable
  have hmem := mem_claimable.mpr ⟨hother, hclaimable⟩
  rw [nextClaimable_eq_nil hnext] at hmem
  cases hmem

end JobsTable

open JobsTable Machine in
/-- What holds of the table after the calls. -/
structure SqlQueueGuarantees (calls : List SqlCall) : Prop where
  coherent : ∀ row ∈ (run step ∅ calls).rows, row.Coherent
  accepted_iff : ∀ op job now,
    (SqlJobQueue.claimantCall (run step ∅ calls) op job now .answered).1 = .ok () ↔
      (run step ∅ calls).HoldsClaim job now
  oneClaimant : ∀ left right leftNow rightNow, left.id = right.id →
    (run step ∅ calls).HoldsClaim left leftNow → (run step ∅ calls).HoldsClaim right rightNow →
    left.claimToken = right.claimToken
  refused_unchanged : ∀ op job now reply, ¬(run step ∅ calls).HoldsClaim job now →
    ∃ err, SqlJobQueue.claimantCall (run step ∅ calls) op job now reply =
      (.error err, run step ∅ calls)
  staleRefused : ∀ earlier later, calls = earlier ++ later → ∀ jobId claimToken,
    claimToken ∈ earlier.filterMap SqlCall.token? →
    (run step ∅ earlier).Stale jobId claimToken →
    ∀ op job now reply, job.id = jobId → job.claimToken = some claimToken →
      ∃ err, SqlJobQueue.claimantCall (run step ∅ calls) op job now reply =
        (.error err, run step ∅ calls)
  settled_kept : ∀ earlier later, calls = earlier ++ later →
    ∀ row ∈ (run step ∅ earlier).rows, row.toJob.Terminal →
      (∀ call ∈ later, ¬RetriedByAdmin row.id call) → row ∈ (run step ∅ calls).rows
  retryCount_le : ∀ jobId maxRetries, (∀ call ∈ calls, ∀ errorMessage limit handle,
      call.op = .claimant (.retry errorMessage limit) handle → handle.id = jobId →
        limit ≤ maxRetries) →
    ∀ row ∈ (run step ∅ calls).rows, row.id = jobId → row.retryCount ≤ maxRetries + 1
  claimsEarliest : ∀ jobType claimToken visible now job,
    (SqlJobQueue.claimNext (run step ∅ calls) jobType claimToken visible now .answered).1 =
      .ok (some job) →
    ∃ row ∈ (run step ∅ calls).rows, row.id = job.id ∧ Claimable jobType visible now row ∧
      ∀ other ∈ (run step ∅ calls).rows, Claimable jobType visible now other →
        claimsBefore row other = true
  claimsIfAny : ∀ jobType claimToken visible now,
    (SqlJobQueue.claimNext (run step ∅ calls) jobType claimToken visible now .answered).1 =
      .ok none →
    ∀ other ∈ (run step ∅ calls).rows, ¬Claimable jobType visible now other

open JobsTable in
/-- Every run from the empty table in which claim tokens are never repeated. -/
theorem sql_queue_run_guarantees (calls : List SqlCall)
    (htokens : (calls.filterMap SqlCall.token?).Nodup) : SqlQueueGuarantees calls := by
  refine ⟨run_coherent calls, claimantCall_ok_iff _, ?_, ?_, ?_, ?_, ?_, ?_, ?_⟩
  · intro left right leftNow rightNow hid hleft hright
    exact InMemoryJobQueue.HoldsClaim.token_unique hid hleft hright
  · intro op job now reply hlost
    exact claimantCall_refused hlost op reply
  · rintro earlier later rfl jobId claimToken hissued hstale op job now reply rfl htoken
    apply claimantCall_refused
    rw [List.filterMap_append] at htokens
    have hlater : (Machine.run step ∅ (earlier ++ later)).Stale job.id claimToken := by
      rw [Machine.run_append]
      refine Machine.run_invariant_of_mem step (fun table => table.Stale job.id claimToken)
        (fun table call hcall hqueue => hqueue.step fun hagain => ?_) hstale
      -- The token was issued in the first part, so no call of the second issues it again.
      exact (List.nodup_append.mp htokens).2.2 claimToken hissued claimToken
        (List.mem_filterMap.mpr ⟨call, hcall, hagain⟩) rfl
    exact InMemoryJobQueue.Stale.not_holdsClaim (stale_queue hlater) htoken now
  · rintro earlier later rfl row hrow hsettled hlater
    rw [Machine.run_append]
    exact run_settled hsettled hlater hrow
  · intro jobId maxRetries hlimit row hrow hid
    exact (run_retriesWithin hlimit row hrow hid).count_le
  · intro jobType claimToken visible now job hclaim
    simp only [SqlJobQueue.claimNext, Reply.execute, claimJob] at hclaim
    split at hclaim
    next => simp [Except.mapError, Except.map] at hclaim
    next row hnext =>
      obtain ⟨hrow, hclaimable, hearliest⟩ := nextClaimable_eq_some hnext
      refine ⟨row, hrow, ?_, hclaimable, hearliest⟩
      have hget : (Machine.run step ∅ calls).get row.id = some row :=
        Table.get_eq_some.mpr ⟨hrow, rfl⟩
      simp only [Table.updateKey, hget, Except.mapError, Except.map, Option.filter, if_true,
        Option.map_some, Except.ok.injEq, Option.some.injEq] at hclaim
      rw [← hclaim]
      rfl
  · intro jobType claimToken visible now hclaim
    simp only [SqlJobQueue.claimNext, Reply.execute, claimJob] at hclaim
    split at hclaim
    next hnext => exact nextClaimable_eq_none hnext
    next row hnext =>
      have hget : (Machine.run step ∅ calls).get row.id = some row :=
        Table.get_eq_some.mpr ⟨(nextClaimable_eq_some hnext).1, rfl⟩
      simp [Table.updateKey, hget, Except.mapError, Except.map, Option.filter] at hclaim

/-- The run in which the first worker loses its lease; then an administrator
cancels the job and queues it again. -/
theorem sql_guarantees_after_recovery :
    SqlQueueGuarantees (JobsTable.sqlRun ++
      [SqlCall.mk 94000 (.adminCancel "summary-m1" "no longer needed" fun _ => true) .answered,
        SqlCall.mk 95000 (.adminRetry "summary-m1" none fun _ => true) .answered]) :=
  sql_queue_run_guarantees _ (by decide)

end DiscordTranscript.Infrastructure
