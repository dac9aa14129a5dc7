import Mathlib.Data.List.Sort
import DiscordTranscript.Foundation.Table
import DiscordTranscript.Infrastructure.Queue

/-! # The jobs table

`SqlJobQueue` of `infrastructure/sql_store.rs`, and the statements of
`infrastructure/sql.rs` that it and the administration pages run on the table
`jobs`. A statement is atomic; its `NOW()` is an input in milliseconds, and a
comparison with `NULL` does not select a row. What the statements leave open are
inputs too: which rows other transactions have locked, the order in which equal
rows are read, and the collation of the database.
-/

namespace DiscordTranscript.Infrastructure

open Domain

/-- A row; `toJob` is what the queue parses from it. -/
structure JobRow extends Job where
  createdAt : ℤ
  updatedAt : ℤ
  finishedAt : Option ℤ := none
  deadLetteredAt : Option ℤ := none
  canceledAt : Option ℤ := none
  cancelReason : Option String := none
  deriving DecidableEq, Repr

/-- `id` is the primary key. -/
abbrev JobsTable := Table JobRow fun row => row.id

/-! ## What the statements select and set -/

namespace JobRow

/-- `(next_run_at IS NULL OR next_run_at <= NOW())`. -/
def due (now : ℤ) (row : JobRow) : Bool := row.nextRunAt.isNone || row.nextRunAt.any (· ≤ now)

/-- `claim_token = .. AND status = 'running' AND leased_until > NOW()`. -/
def claimedWith (claimToken : String) (now : ℤ) (row : JobRow) : Bool :=
  row.claimToken = some claimToken && row.status = .running && row.leasedUntil.any (now < ·)

/-- A lease that has run out, or a running job without one that was not touched
for a quarter of an hour. -/
def stale (now : ℤ) (row : JobRow) : Bool :=
  row.jobType = .summarize && row.status = .running &&
    (row.leasedUntil.any (· ≤ now) ||
      row.leasedUntil.isNone && decide (row.updatedAt < now - 15 * 60 * 1000))

/-- A summary job that `CLAIM_JOB_BY_ID_SQL` would take. -/
def ready (now : ℤ) (row : JobRow) : Bool :=
  row.jobType = .summarize && row.status = .queued && row.due now

def setClaim (claimToken : String) (now : ℤ) (row : JobRow) : JobRow :=
  { row with
    status := .running
    claimToken := some claimToken
    leasedUntil := some (now + 90 * 1000)
    nextRunAt := none
    updatedAt := now }

def setHeartbeat (now : ℤ) (row : JobRow) : JobRow :=
  { row with
    leasedUntil := some (now + 90 * 1000)
    updatedAt := now }

def setDone (now : ℤ) (row : JobRow) : JobRow :=
  { row with
    status := .done
    errorMessage := none
    nextRunAt := none
    leasedUntil := none
    claimToken := none
    finishedAt := some now
    updatedAt := now }

def setFailed (errorMessage : String) (now : ℤ) (row : JobRow) : JobRow :=
  { row with
    status := .failed
    errorMessage := some errorMessage
    nextRunAt := none
    leasedUntil := none
    claimToken := none
    finishedAt := some now
    deadLetteredAt := some now
    updatedAt := now }

def setRetry (errorMessage : String) (maxRetries : ℕ) (now : ℤ) (row : JobRow) : JobRow :=
  let exhausted : Bool := row.retryCount + 1 > maxRetries
  { row with
    status := if exhausted then .failed else .queued
    retryCount := row.retryCount + 1
    errorMessage := some errorMessage
    nextRunAt := if exhausted then none
      else some (now + (min 900 (30 * 2 ^ min row.retryCount 5) : ℕ) * 1000)
    leasedUntil := none
    claimToken := none
    finishedAt := if exhausted then some now else none
    deadLetteredAt := if exhausted then some now else none
    canceledAt := none
    cancelReason := none
    updatedAt := now }

def setRequeued (now : ℤ) (row : JobRow) : JobRow :=
  { row with
    status := .queued
    errorMessage := none
    nextRunAt := none
    leasedUntil := none
    claimToken := none
    updatedAt := now }

def setCanceled (reason : String) (now : ℤ) (row : JobRow) : JobRow :=
  { row with
    status := .canceled
    errorMessage := none
    nextRunAt := none
    leasedUntil := none
    claimToken := none
    finishedAt := some now
    deadLetteredAt := none
    canceledAt := some now
    cancelReason := some reason
    updatedAt := now }

def setAdminRetry (nextRunAt : Option ℤ) (now : ℤ) (row : JobRow) : JobRow :=
  { row with
    status := .queued
    retryCount := 0
    errorMessage := none
    nextRunAt := some (nextRunAt.getD now)
    leasedUntil := none
    claimToken := none
    finishedAt := none
    deadLetteredAt := none
    canceledAt := none
    cancelReason := none
    updatedAt := now }

end JobRow

/-! ## The statements -/

namespace JobsTable

/-- The row that `ENQUEUE_JOB_SQL` inserts. -/
def freshRow (id meetingId : String) (jobType : JobType) (now : ℤ) : JobRow where
  id := id
  meetingId := meetingId
  jobType := jobType
  status := .queued
  retryCount := 0
  errorMessage := none
  claimToken := none
  leasedUntil := none
  nextRunAt := none
  createdAt := now
  updatedAt := now

/-- `ENQUEUE_JOB_SQL`; `violation` is what the driver reports about the key. -/
def enqueueJob (table : JobsTable) (id meetingId : String) (jobType : JobType)
    (violation : String) (now : ℤ) : Except String ℕ × JobsTable :=
  if hfresh : id ∉ table.rows.map fun row => row.id then
    (.ok 1, table.insert (freshRow id meetingId jobType now) hfresh)
  else (.error violation, table)

theorem enqueueJob_fresh (table : JobsTable) {id : String}
    (hfresh : id ∉ table.rows.map fun row => row.id) (meetingId : String) (jobType : JobType)
    (violation : String) (now : ℤ) :
    table.enqueueJob id meetingId jobType violation now =
      (.ok 1, table.insert (freshRow id meetingId jobType now) hfresh) := dif_pos hfresh

theorem enqueueJob_existing (table : JobsTable) {id : String}
    (hused : id ∈ table.rows.map fun row => row.id) (meetingId : String) (jobType : JobType)
    (violation : String) (now : ℤ) :
    table.enqueueJob id meetingId jobType violation now = (.error violation, table) :=
  dif_neg (not_not_intro hused)

/-- The rows that are not locked, each once, in the order in which they are read. -/
def visibleRows (table : JobsTable) (visible : List String) : List JobRow :=
  visible.dedup.filterMap table.get

/-- `ORDER BY COALESCE(next_run_at, created_at) ASC, created_at ASC`. -/
def claimsBefore (left right : JobRow) : Bool :=
  left.nextRunAt.getD left.createdAt < right.nextRunAt.getD right.createdAt ||
    left.nextRunAt.getD left.createdAt = right.nextRunAt.getD right.createdAt &&
      left.createdAt ≤ right.createdAt

/-- The rows that the inner query of `CLAIM_JOB_SQL` selects. -/
def claimableRows (table : JobsTable) (jobType : JobType) (visible : List String) (now : ℤ) :
    List JobRow :=
  (table.visibleRows visible).filter fun row =>
    row.jobType = jobType && row.status = .queued && row.due now

/-- The one of them that it takes. -/
def nextClaimable (table : JobsTable) (jobType : JobType) (visible : List String) (now : ℤ) :
    Option JobRow :=
  ((table.claimableRows jobType visible now).insertionSort
    fun left right => claimsBefore left right = true).head?

section

variable {table : JobsTable} {jobType : JobType} {visible : List String} {now : ℤ}

theorem claimsBefore_iff {left right : JobRow} : claimsBefore left right = true ↔
    left.nextRunAt.getD left.createdAt < right.nextRunAt.getD right.createdAt ∨
      left.nextRunAt.getD left.createdAt = right.nextRunAt.getD right.createdAt ∧
        left.createdAt ≤ right.createdAt := by
  simp [claimsBefore]

theorem nextClaimable_mem {row : JobRow}
    (hnext : table.nextClaimable jobType visible now = some row) :
    row ∈ table.claimableRows jobType visible now :=
  (List.mem_insertionSort _).mp (List.mem_of_head? hnext)

theorem nextClaimable_eq_nil (hnext : table.nextClaimable jobType visible now = none) :
    table.claimableRows jobType visible now = [] := by
  have hempty := List.head?_eq_none_iff.mp hnext
  refine List.eq_nil_iff_forall_not_mem.mpr fun row hrow => ?_
  have hmem := (List.mem_insertionSort
    fun left right => claimsBefore left right = true).mpr hrow
  rw [hempty] at hmem
  cases hmem

/-- No selected row comes before the one that is taken. -/
theorem nextClaimable_first {row : JobRow}
    (hnext : table.nextClaimable jobType visible now = some row) :
    ∀ other ∈ table.claimableRows jobType visible now, claimsBefore row other = true := by
  have htotal : Std.Total fun left right : JobRow => claimsBefore left right = true := by
    refine ⟨fun left right => ?_⟩
    simp only [claimsBefore_iff]
    omega
  have htrans : IsTrans JobRow fun left right => claimsBefore left right = true := by
    refine ⟨fun left middle right hleft hright => ?_⟩
    rw [claimsBefore_iff] at *
    omega
  have hsorted := List.pairwise_insertionSort
    (fun left right => claimsBefore left right = true) (table.claimableRows jobType visible now)
  intro other hother
  have hmem := (List.mem_insertionSort
    fun left right => claimsBefore left right = true).mpr hother
  unfold nextClaimable at hnext
  generalize (table.claimableRows jobType visible now).insertionSort
    (fun left right => claimsBefore left right = true) = sorted at hnext hsorted hmem
  cases sorted with
  | nil => cases hnext
  | cons first rest =>
      obtain rfl := Option.some.inj hnext
      rcases List.mem_cons.mp hmem with rfl | hmem
      · exact claimsBefore_iff.mpr (.inr ⟨rfl, le_rfl⟩)
      · exact List.rel_of_pairwise_cons hsorted hmem

end

/-- `CLAIM_JOB_SQL`. -/
def claimJob (table : JobsTable) (jobType : JobType) (claimToken : String)
    (visible : List String) (now : ℤ) : Option JobRow × JobsTable :=
  match table.nextClaimable jobType visible now with
  | none => (none, table)
  | some row =>
      table.updateKey row.id (fun _ => true) (JobRow.setClaim claimToken now) fun _ => rfl

/-- `CLAIM_JOB_BY_ID_SQL`. -/
def claimJobById (table : JobsTable) (jobId claimToken : String) (jobType : JobType) (now : ℤ) :
    Option JobRow × JobsTable :=
  table.updateKey jobId
    (fun row => row.jobType = jobType && row.status = .queued && row.due now)
    (JobRow.setClaim claimToken now) fun _ => rfl

/-- `HEARTBEAT_RUNNING_JOB_SQL`. -/
def heartbeatRunningJob (table : JobsTable) (jobId claimToken : String) (now : ℤ) :
    Option JobRow × JobsTable :=
  table.updateKey jobId (JobRow.claimedWith claimToken now) (JobRow.setHeartbeat now) fun _ => rfl

/-- `MARK_JOB_DONE_SQL`. -/
def markJobDone (table : JobsTable) (jobId claimToken : String) (now : ℤ) :
    Option JobRow × JobsTable :=
  table.updateKey jobId (JobRow.claimedWith claimToken now) (JobRow.setDone now) fun _ => rfl

/-- `MARK_JOB_FAILED_SQL`. -/
def markJobFailed (table : JobsTable) (jobId errorMessage claimToken : String) (now : ℤ) :
    Option JobRow × JobsTable :=
  table.updateKey jobId (JobRow.claimedWith claimToken now) (JobRow.setFailed errorMessage now)
    fun _ => rfl

/-- `RETRY_JOB_SQL`. -/
def retryJob (table : JobsTable) (jobId errorMessage : String) (maxRetries : ℕ)
    (claimToken : String) (now : ℤ) : Option JobRow × JobsTable :=
  table.updateKey jobId (JobRow.claimedWith claimToken now)
    (JobRow.setRetry errorMessage maxRetries now) fun _ => rfl

/-- `RECOVERY_REQUEUE_STALE_RUNNING_SUMMARY_JOB_SQL`. -/
def requeueStaleJob (table : JobsTable) (jobId : String) (now : ℤ) : Option JobRow × JobsTable :=
  table.updateKey jobId (JobRow.stale now) (JobRow.setRequeued now) fun _ => rfl

/-- The stale jobs that `RECOVERY_READY_SUMMARY_JOBS_SQL` takes back: the 25 that
were left alone for longest. -/
def staleJobs (table : JobsTable) (visible : List String) (now : ℤ) : List JobRow :=
  (((table.visibleRows visible).filter (JobRow.stale now)).insertionSort
    fun left right => left.updatedAt ≤ right.updatedAt).take 25

/-- `RECOVERY_READY_SUMMARY_JOBS_SQL`. The query reads the table as it was before
the update, so what was just taken back is added to what was ready. -/
def readySummaryJobs (table : JobsTable) (visible : List String)
    (collate : String → String → Bool) (now : ℤ) : List String × JobsTable :=
  let requeued := table.staleJobs visible now
  let ready := table.rows.filter (JobRow.ready now)
  let meetings := ((requeued ++ ready).map fun row => row.meetingId).dedup
  ((meetings.insertionSort fun left right => collate left right = true).take 25,
    table.update (fun row => decide (row.id ∈ requeued.map fun stale => stale.id))
      (JobRow.setRequeued now) fun _ => rfl)

/-- `ADMIN_CANCEL_JOB_SQL`; `inGuild` says which meetings the join keeps. -/
def adminCancelJob (table : JobsTable) (jobId reason : String) (inGuild : String → Bool)
    (now : ℤ) : Option JobRow × JobsTable :=
  table.updateKey jobId (fun row => inGuild row.meetingId && row.status = .queued)
    (JobRow.setCanceled reason now) fun _ => rfl

/-- What `ADMIN_RETRY_JOB_SQL` does to the jobs; `candidate` says which meetings
can be summarized again. -/
def adminRetryJob (table : JobsTable) (jobId : String) (nextRunAt : Option ℤ)
    (candidate : String → Bool) (now : ℤ) : Option JobRow × JobsTable :=
  table.updateKey jobId
    (fun row => row.jobType = .summarize && (row.status = .failed || row.status = .canceled) &&
      candidate row.meetingId)
    (JobRow.setAdminRetry nextRunAt now) fun _ => rfl

end JobsTable

/-! ## The queue -/

/-- How the executor ends a statement. When it fails, the statement may have been
committed with only its answer lost. -/
inductive Reply where
  | answered
  | failed (error : String) (committed : Bool)
  deriving DecidableEq, Repr

def Reply.execute {α State : Type} (reply : Reply) (state : State) (statement : α × State) :
    Except String α × State :=
  match reply with
  | .answered => (.ok statement.1, statement.2)
  | .failed error committed => (.error error, if committed then statement.2 else state)

/-- Whether the statement took effect. -/
def Reply.committed : Reply → Bool
  | .answered => true
  | .failed _ committed => committed

theorem Reply.execute_state {α State : Type} (reply : Reply) (state : State)
    (statement : α × State) :
    (reply.execute state statement).2 = if reply.committed then statement.2 else state := by
  cases reply with
  | answered => rfl
  | failed error committed => rfl

def uniqueViolationPrefix : String := "UNIQUE_VIOLATION: "

/-- The text of the driver for a violated key. -/
def uniqueViolation (constraint error : String) : String :=
  uniqueViolationPrefix ++ constraint ++ ": " ++ error

theorem isPrefixOf_uniqueViolation (constraint error : String) :
    uniqueViolationPrefix.toList.isPrefixOf (uniqueViolation constraint error).toList = true := by
  rw [List.isPrefixOf_iff_prefix]
  simp only [uniqueViolation, String.toList_append, List.append_assoc]
  exact List.prefix_append _ _

namespace SqlJobQueue

def enqueue (table : JobsTable) (job : Job) (driverText : String) (now : ℤ) (reply : Reply) :
    Except QueueError Unit × JobsTable :=
  let (result, next) := reply.execute table
    (table.enqueueJob job.id job.meetingId job.jobType (uniqueViolation "jobs_pkey" driverText) now)
  match result with
  | .ok (.ok _) => (.ok (), next)
  | .ok (.error err) | .error err =>
      if uniqueViolationPrefix.toList.isPrefixOf err.toList then
        (.error (.alreadyExists job.id), next)
      else (.error (.backend err), next)

def claimNext (table : JobsTable) (jobType : JobType) (claimToken : String)
    (visible : List String) (now : ℤ) (reply : Reply) :
    Except QueueError (Option Job) × JobsTable :=
  let (result, next) := reply.execute table (table.claimJob jobType claimToken visible now)
  ((result.mapError .backend).map fun row => row.map fun row => row.toJob, next)

def claimById (table : JobsTable) (jobId claimToken : String) (now : ℤ) (reply : Reply) :
    Except QueueError (Option Job) × JobsTable :=
  let (result, next) := reply.execute table (table.claimJobById jobId claimToken .summarize now)
  ((result.mapError .backend).map fun row => row.map fun row => row.toJob, next)

/-- The shared body of the operations of a claimant: no row is affected when the
claim is not, or no longer, the one of the job. -/
def updateClaimed (table : JobsTable) (job : Job) (reply : Reply)
    (statement : String → Option JobRow × JobsTable) : Except QueueError JobRow × JobsTable :=
  match requireClaimToken job with
  | .error err => (.error err, table)
  | .ok claimToken =>
      match reply.execute table (statement claimToken) with
      | (.error err, next) => (.error (.backend err), next)
      | (.ok (some row), next) => (.ok row, next)
      | (.ok none, next) =>
          (.error (.invalidState job.id "running with matching active claim token"
            "missing, not running, different claim token, or expired lease"), next)

def heartbeat (table : JobsTable) (job : Job) (now : ℤ) (reply : Reply) :
    Except QueueError Unit × JobsTable :=
  let (result, next) := updateClaimed table job reply fun claimToken =>
    table.heartbeatRunningJob job.id claimToken now
  (result.map fun _ => (), next)

def markDone (table : JobsTable) (job : Job) (now : ℤ) (reply : Reply) :
    Except QueueError Unit × JobsTable :=
  let (result, next) := updateClaimed table job reply fun claimToken =>
    table.markJobDone job.id claimToken now
  (result.map fun _ => (), next)

def markFailed (table : JobsTable) (job : Job) (errorMessage : String) (now : ℤ) (reply : Reply) :
    Except QueueError Unit × JobsTable :=
  let (result, next) := updateClaimed table job reply fun claimToken =>
    table.markJobFailed job.id errorMessage claimToken now
  (result.map fun _ => (), next)

def retry (table : JobsTable) (job : Job) (errorMessage : String) (maxRetries : ℕ) (now : ℤ)
    (reply : Reply) : Except QueueError JobStatus × JobsTable :=
  let (result, next) := updateClaimed table job reply fun claimToken =>
    table.retryJob job.id errorMessage maxRetries claimToken now
  (result.map fun row => row.status, next)

def readySummaryMeetingIds (table : JobsTable) (visible : List String)
    (collate : String → String → Bool) (now : ℤ) (reply : Reply) :
    Except QueueError (List String) × JobsTable :=
  let (result, next) := reply.execute table (table.readySummaryJobs visible collate now)
  (result.mapError .backend, next)

/-- The operation as a worker sees it: accepted or an error, and the next table. -/
def claimantCall (table : JobsTable) (op : ClaimantOp) (job : Job) (now : ℤ) (reply : Reply) :
    Except QueueError Unit × JobsTable :=
  match op with
  | .heartbeat => heartbeat table job now reply
  | .markDone => markDone table job now reply
  | .markFailed errorMessage => markFailed table job errorMessage now reply
  | .retry errorMessage maxRetries =>
      let (result, next) := retry table job errorMessage maxRetries now reply
      (result.map fun _ => (), next)

end SqlJobQueue

/-! ## Runs -/

/-- A statement of some process. -/
inductive SqlOp where
  | enqueue (job : Job) (driverText : String)
  | claimNext (jobType : JobType) (claimToken : String) (visible : List String)
  | claimById (jobId claimToken : String)
  | claimant (op : ClaimantOp) (job : Job)
  | requeueStale (jobId : String)
  | readySummaryMeetingIds (visible : List String) (collate : String → String → Bool)
  | adminCancel (jobId reason : String) (inGuild : String → Bool)
  | adminRetry (jobId : String) (nextRunAt : Option ℤ) (candidate : String → Bool)

/-- A statement with the time at which it runs and how the executor ends it. -/
structure SqlCall where
  now : ℤ
  op : SqlOp
  reply : Reply := .answered

/-- The token that a claim issues if it succeeds. -/
def SqlCall.token? (call : SqlCall) : Option String :=
  match call.op with
  | .claimNext _ claimToken _ | .claimById _ claimToken => some claimToken
  | _ => none

def JobsTable.step (table : JobsTable) (call : SqlCall) : JobsTable :=
  match call.op with
  | .enqueue job driverText => (SqlJobQueue.enqueue table job driverText call.now call.reply).2
  | .claimNext jobType claimToken visible =>
      (SqlJobQueue.claimNext table jobType claimToken visible call.now call.reply).2
  | .claimById jobId claimToken =>
      (SqlJobQueue.claimById table jobId claimToken call.now call.reply).2
  | .claimant op job => (SqlJobQueue.claimantCall table op job call.now call.reply).2
  | .requeueStale jobId => (call.reply.execute table (table.requeueStaleJob jobId call.now)).2
  | .readySummaryMeetingIds visible collate =>
      (SqlJobQueue.readySummaryMeetingIds table visible collate call.now call.reply).2
  | .adminCancel jobId reason inGuild =>
      (call.reply.execute table (table.adminCancelJob jobId reason inGuild call.now)).2
  | .adminRetry jobId nextRunAt candidate =>
      (call.reply.execute table (table.adminRetryJob jobId nextRunAt candidate call.now)).2

end DiscordTranscript.Infrastructure
