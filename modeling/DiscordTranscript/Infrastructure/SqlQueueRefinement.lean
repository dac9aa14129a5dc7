import Mathlib.Data.List.Dedup
import Mathlib.Data.List.Perm.Subperm
import DiscordTranscript.Infrastructure.QueueClaims
import DiscordTranscript.Infrastructure.SqlJobs

/-! # The jobs table implements the queue

What the tests rely on is the in-memory queue, what runs is the table. Every
statement changes the jobs as one call of the in-memory queue does, when that
queue may look at its jobs in another order, and both answer alike up to the kind
of an error. Only the manual retry of a settled job has no counterpart.
-/

namespace DiscordTranscript.Infrastructure

open Domain

/-! ## The queue that a table stands for -/

namespace JobsTable

def jobs (table : JobsTable) : List Job := table.rows.map fun row => row.toJob

def ids (table : JobsTable) : List String := table.rows.map fun row => row.id

/-- The in-memory queue with the jobs of the table and an order to look at them. -/
def queue (table : JobsTable) (order : List String) : InMemoryJobQueue :=
  { jobs := table.jobs, order := order }

theorem map_id_jobs (table : JobsTable) : table.jobs.map (·.id) = table.ids := by
  unfold jobs ids
  rw [List.map_map]
  rfl

theorem jobs_ids_nodup (table : JobsTable) : (table.jobs.map (·.id)).Nodup := by
  rw [map_id_jobs]
  exact table.nodup

theorem get_queue (table : JobsTable) (order : List String) (jobId : String) :
    (table.queue order).get jobId = (table.get jobId).map fun row => row.toJob := by
  unfold InMemoryJobQueue.get queue jobs Table.get
  rw [List.find?_map]
  rfl

theorem mem_ids {table : JobsTable} {row : JobRow} {jobId : String}
    (hget : table.get jobId = some row) : jobId ∈ table.ids := by
  obtain ⟨hrow, rfl⟩ := Table.get_eq_some.mp hget
  exact List.mem_map_of_mem hrow

end JobsTable

/-! ## Changing one job -/

theorem updateFirst_eq_map {jobs : List Job} (hnodup : (jobs.map (·.id)).Nodup) (jobId : String)
    (update : Job → Job) :
    updateFirst jobId update jobs =
      jobs.map fun job => if job.id = jobId then update job else job := by
  induction jobs with
  | nil => rfl
  | cons job rest ih =>
      obtain ⟨hnew, hrest⟩ := List.nodup_cons.mp hnodup
      unfold updateFirst
      rw [List.map_cons]
      split
      next hid =>
        -- No other job has this id.
        have hothers : rest.map (fun other => if other.id = jobId then update other else other) =
            rest := by
          refine List.map_congr_left (g := id) (fun other hother => if_neg fun hsame => hnew ?_)
            |>.trans (List.map_id rest)
          exact List.mem_map.mpr ⟨other, hother, hsame.trans hid.symm⟩
        rw [hothers]
      next => rw [ih hrest]

namespace JobsTable

/-- An update by id finds its row and changes that job alone, or nothing happens. -/
theorem updateKey_jobs (table : JobsTable) (jobId : String) (also : JobRow → Bool)
    (change : JobRow → JobRow) (hkey : ∀ row, (change row).id = row.id) {change' : Job → Job}
    (hchange : ∀ row, (change row).toJob = change' row.toJob) :
    (∃ row, table.get jobId = some row ∧ also row = true ∧
        (table.updateKey jobId also change hkey).1 = some (change row) ∧
        JobsTable.jobs (table.updateKey jobId also change hkey).2 =
          updateFirst jobId change' table.jobs) ∨
      (∀ row, table.get jobId = some row → also row = false) ∧
        table.updateKey jobId also change hkey = (none, table) := by
  rcases table.updateKey_cases jobId also change hkey with ⟨row, hget, halso, heq⟩ | hnone
  · refine .inl ⟨row, hget, halso, by rw [heq], ?_⟩
    rw [heq, updateFirst_eq_map table.jobs_ids_nodup]
    simp only [jobs, Table.rows_update, List.map_map]
    refine List.map_congr_left fun other _ => ?_
    simp only [Function.comp_apply, Table.changed, decide_eq_true_eq]
    split
    · exact hchange other
    · rfl
  · exact .inr hnone

end JobsTable

/-! ## What the columns mean for the job -/

section

variable (row : JobRow) (now : ℤ)

theorem JobRow.due_eq : row.due now = dueForClaim row.toJob now := by
  unfold due dueForClaim
  cases row.nextRunAt <;> simp

theorem JobRow.claimedWith_eq (claimToken : String) :
    row.claimedWith claimToken now = hasActiveClaim row.toJob claimToken now := by
  unfold claimedWith hasActiveClaim leaseExpired
  cases row.leasedUntil with
  | none => simp
  | some lease =>
      have hlease : decide (now < lease) = !decide (lease ≤ now) := by
        rw [← decide_not]
        exact decide_eq_decide.mpr not_le.symm
      simp only [Option.any_some, Option.all_some, hlease]
      rw [Bool.and_comm (decide (row.claimToken = some claimToken))]

theorem JobRow.stale_imp {row : JobRow} {now : ℤ} (hstale : row.stale now = true) :
    row.jobType = .summarize ∧ row.status = .running ∧ leaseExpired row.toJob now = true := by
  unfold stale at hstale
  unfold leaseExpired
  cases hlease : row.leasedUntil <;> simp_all

theorem JobRow.toJob_setClaim (claimToken : String) :
    (row.setClaim claimToken now).toJob = row.toJob.claim claimToken (now + defaultLeaseDuration) :=
  rfl

theorem JobRow.toJob_setHeartbeat :
    (row.setHeartbeat now).toJob = row.toJob.extendLease (now + defaultLeaseDuration) := rfl

theorem JobRow.toJob_setDone : (row.setDone now).toJob = row.toJob.finish .done none := rfl

theorem JobRow.toJob_setFailed (errorMessage : String) :
    (row.setFailed errorMessage now).toJob = row.toJob.finish .failed (some errorMessage) := rfl

theorem JobRow.toJob_setCanceled (reason : String) :
    (row.setCanceled reason now).toJob = row.toJob.finish .canceled none := rfl

/-- The statement computes the delay from the count before the retry. -/
theorem JobRow.toJob_setRetry (errorMessage : String) (maxRetries : ℕ) :
    (row.setRetry errorMessage maxRetries now).toJob =
      row.toJob.retry errorMessage maxRetries now := by
  unfold setRetry Job.retry retryDelay retryDelaySeconds
  by_cases hexhausted : row.retryCount + 1 > maxRetries
  · simp [hexhausted]
  · have hdelay : min 900 (30 * 2 ^ min row.retryCount 5) =
        min (30 * 2 ^ min (row.retryCount + 1 - 1) 5) 900 := by
      rw [Nat.add_sub_cancel, Nat.min_comm]
    simp [hexhausted, hdelay]

end

/-! ## Alike answers -/

/-- Both accept, with related values, or both refuse; and the jobs are the same. -/
inductive AnswersAlike {α β : Type} (related : α → β → Prop) :
    Except QueueError α × JobsTable → Except QueueError β × InMemoryJobQueue → Prop where
  | ok {value : α} {value' : β} {table : JobsTable} {queue : InMemoryJobQueue}
      (hvalue : related value value') (hjobs : table.jobs = queue.jobs) :
      AnswersAlike related (.ok value, table) (.ok value', queue)
  | error {err err' : QueueError} {table : JobsTable} {queue : InMemoryJobQueue}
      (hjobs : table.jobs = queue.jobs) :
      AnswersAlike related (.error err, table) (.error err', queue)

theorem AnswersAlike.jobs_eq {α β : Type} {related : α → β → Prop}
    {sql : Except QueueError α × JobsTable} {memory : Except QueueError β × InMemoryJobQueue}
    (halike : AnswersAlike related sql memory) : sql.2.jobs = memory.2.jobs := by
  cases halike with
  | ok _ hjobs => exact hjobs
  | error hjobs => exact hjobs

theorem AnswersAlike.ok_iff {α : Type} {sql : Except QueueError α × JobsTable}
    {memory : Except QueueError α × InMemoryJobQueue} (halike : AnswersAlike Eq sql memory)
    {value : α} : sql.1 = .ok value ↔ memory.1 = .ok value := by
  cases halike with
  | ok hvalue _ =>
      subst hvalue
      rfl
  | error _ => simp

theorem AnswersAlike.map {α β α' β' : Type} {related : α → β → Prop} {related' : α' → β' → Prop}
    {sql : Except QueueError α × JobsTable} {memory : Except QueueError β × InMemoryJobQueue}
    (halike : AnswersAlike related sql memory) {left : α → α'} {right : β → β'}
    (hmap : ∀ value value', related value value' → related' (left value) (right value')) :
    AnswersAlike related' (sql.1.map left, sql.2) (memory.1.map right, memory.2) := by
  cases halike with
  | ok hvalue hjobs => exact .ok (hmap _ _ hvalue) hjobs
  | error hjobs => exact .error hjobs

namespace SqlJobQueue

variable (table : JobsTable) (order : List String)

/-- A claimant's update finds the same claim in both. -/
theorem updateClaimed_alike (job : Job) (now : ℤ) (change : JobRow → JobRow)
    (hkey : ∀ row, (change row).id = row.id) {change' : Job → Job}
    (hchange : ∀ row, (change row).toJob = change' row.toJob) :
    AnswersAlike (fun row next => row.toJob = next)
      (updateClaimed table job .answered fun claimToken =>
        table.updateKey job.id (JobRow.claimedWith claimToken now) change hkey)
      ((table.queue order).updateClaimed job now change') := by
  unfold updateClaimed InMemoryJobQueue.updateClaimed
  cases htoken : requireClaimToken job with
  | error err => exact .error rfl
  | ok claimToken =>
      rw [table.get_queue]
      simp only [Reply.execute]
      rcases table.updateKey_jobs job.id (JobRow.claimedWith claimToken now) change hkey hchange with
        ⟨row, hget, halso, hrow, hjobs⟩ | ⟨hnone, heq⟩
      · rw [hget, hrow]
        rw [JobRow.claimedWith_eq] at halso
        simp only [Option.map_some, halso]
        exact .ok (hchange row) hjobs
      · rw [heq]
        cases hget : table.get job.id with
        | none => exact .error rfl
        | some row =>
            have hlost := hnone row hget
            rw [JobRow.claimedWith_eq] at hlost
            simp only [Option.map_some, hlost]
            exact .error rfl

theorem retry_alike (job : Job) (errorMessage : String) (maxRetries : ℕ) (now : ℤ) :
    AnswersAlike Eq (retry table job errorMessage maxRetries now .answered)
      ((table.queue order).retry job errorMessage maxRetries now) := by
  refine (updateClaimed_alike table order job now
    (JobRow.setRetry errorMessage maxRetries now) (fun _ => rfl)
    (JobRow.toJob_setRetry · now errorMessage maxRetries)).map ?_
  rintro row next rfl
  rfl

theorem claimantCall_alike (op : ClaimantOp) (job : Job) (now : ℤ) :
    AnswersAlike Eq (claimantCall table op job now .answered)
      ((table.queue order).claimantCall op job now) := by
  cases op with
  | heartbeat =>
      exact (updateClaimed_alike table order job now (JobRow.setHeartbeat now) (fun _ => rfl)
        (JobRow.toJob_setHeartbeat · now)).map fun _ _ _ => rfl
  | markDone =>
      exact (updateClaimed_alike table order job now (JobRow.setDone now) (fun _ => rfl)
        (JobRow.toJob_setDone · now)).map fun _ _ _ => rfl
  | markFailed errorMessage =>
      exact (updateClaimed_alike table order job now (JobRow.setFailed errorMessage now) (fun _ => rfl)
        (JobRow.toJob_setFailed · now errorMessage)).map fun _ _ _ => rfl
  | retry errorMessage maxRetries =>
      exact (retry_alike table order job errorMessage maxRetries now).map fun _ _ _ => rfl

/-- What the table makes of a job that is enqueued: only its ids and type. -/
def freshJob (job : Job) : FreshJob :=
  { id := job.id, meetingId := job.meetingId, jobType := job.jobType }

theorem enqueue_alike (job : Job) (driverText : String) (now : ℤ) :
    AnswersAlike Eq (enqueue table job driverText now .answered)
      ((table.queue order).enqueue (freshJob job).job) := by
  have hany : (table.queue order).jobs.any (fun other => other.id = job.id) = true ↔
      job.id ∈ table.ids := by
    rw [← table.map_id_jobs, List.any_eq_true, List.mem_map]
    simp [JobsTable.queue]
  unfold enqueue InMemoryJobQueue.enqueue JobsTable.enqueueJob
  by_cases hknown : job.id ∈ table.ids
  · have hrefused : (table.queue order).jobs.any
        (fun other => other.id = (freshJob job).job.id) = true := hany.mpr hknown
    rw [if_pos hrefused, dif_neg (show ¬job.id ∉ table.rows.map fun row => row.id from
      not_not_intro hknown)]
    simp only [Reply.execute, isPrefixOf_uniqueViolation, if_true]
    exact .error rfl
  · have hnew : ¬(table.queue order).jobs.any
        (fun other => other.id = (freshJob job).job.id) = true := fun h => hknown (hany.mp h)
    rw [if_neg hnew, dif_pos (show job.id ∉ table.rows.map fun row => row.id from hknown)]
    refine .ok rfl ?_
    exact List.map_append

/-- Jobs of another type are the one difference: the table does not hand them out
by id. -/
theorem claimById_alike (jobId claimToken : String) (now : ℤ)
    (htype : ∀ row, table.get jobId = some row → row.jobType = .summarize) :
    (claimById table jobId claimToken now .answered).1 =
        .ok ((table.queue order).claimById jobId claimToken now).1 ∧
      (claimById table jobId claimToken now .answered).2.jobs =
        ((table.queue order).claimById jobId claimToken now).2.jobs := by
  unfold claimById InMemoryJobQueue.claimById JobsTable.claimJobById
  rw [table.get_queue]
  simp only [Reply.execute]
  rcases table.updateKey_jobs jobId
      (fun row => row.jobType = .summarize && row.status = .queued && row.due now)
      (JobRow.setClaim claimToken now) (fun _ => rfl) (JobRow.toJob_setClaim · now claimToken) with
    ⟨row, hget, halso, hrow, hjobs⟩ | ⟨hnone, heq⟩
  · simp only [Bool.and_eq_true, decide_eq_true_eq, JobRow.due_eq] at halso
    obtain ⟨⟨-, hqueued⟩, hdue⟩ := halso
    rw [hget, hrow, hjobs]
    simp only [Option.map_some, hqueued, hdue]
    exact ⟨rfl, rfl⟩
  · rw [heq]
    cases hget : table.get jobId with
    | none => exact ⟨rfl, rfl⟩
    | some row =>
        have hrefused := hnone row hget
        simp only [htype row hget, decide_true, Bool.true_and, JobRow.due_eq,
          Bool.and_eq_false_iff, decide_eq_false_iff_not] at hrefused
        have hcondition : row.status ≠ .queued ∨ (!dueForClaim row.toJob now) = true := by
          rcases hrefused with hstatus | hdue
          · exact .inl hstatus
          · exact .inr (by rw [hdue]; rfl)
        simp only [Option.map_some, if_pos hcondition]
        exact ⟨rfl, rfl⟩

end SqlJobQueue

/-! ## Jobs taken in an order -/

section

variable {queue : InMemoryJobQueue} {jobType : JobType} {now : ℤ}

/-- Nothing in the order can be claimed. -/
theorem claimFirst_none {order : List String} {claimToken : String}
    (hnone : ∀ jobId ∈ order, ∀ job, queue.get jobId = some job →
      ¬(job.jobType = jobType ∧ job.status = .queued ∧ dueForClaim job now = true)) :
    queue.claimFirst jobType claimToken now order = (none, queue) := by
  induction order with
  | nil => rfl
  | cons jobId rest ih =>
      have hrest := ih fun other hother => hnone other (List.mem_cons_of_mem _ hother)
      unfold InMemoryJobQueue.claimFirst
      cases hget : queue.get jobId with
      | none => exact hrest
      | some job => simpa only [if_neg (hnone jobId List.mem_cons_self job hget)] using hrest

/-- The first of the order can be claimed. -/
theorem claimFirst_head {order : List String} {claimToken jobId : String} {job : Job}
    (hget : queue.get jobId = some job)
    (hclaimable : job.jobType = jobType ∧ job.status = .queued ∧ dueForClaim job now = true) :
    queue.claimFirst jobType claimToken now (jobId :: order) =
      (some (job.claim claimToken (queue.nextLeaseDeadline now)), { queue with
        jobs := updateFirst jobId (Job.claim claimToken (queue.nextLeaseDeadline now))
          queue.jobs }) := by
  unfold InMemoryJobQueue.claimFirst
  simp only [hget, if_pos hclaimable]

theorem get_map {queue : InMemoryJobQueue} {change : Job → Job}
    (hid : ∀ job, (change job).id = job.id) (jobId : String) :
    InMemoryJobQueue.get { queue with jobs := queue.jobs.map change } jobId =
      (queue.get jobId).map change := by
  unfold InMemoryJobQueue.get
  rw [List.find?_map]
  congr 2
  funext job
  simp only [Function.comp_apply, hid]

/-- Taking back as many stale jobs as the limit allows, when they come first. -/
theorem recoverLoop_stale (queue : InMemoryJobQueue) {stale : List String}
    (hnodup : stale.Nodup) (rest : List String) (hqueue : (queue.jobs.map (·.id)).Nodup)
    (hstale : ∀ jobId ∈ stale, ∃ job, queue.get jobId = some job ∧ job.jobType = jobType ∧
      job.status = .running ∧ leaseExpired job now = true) (recovered : List String) :
    (queue.recoverLoop jobType (recovered.length + stale.length) now recovered
        (stale ++ rest)).2.jobs =
      queue.jobs.map fun job => if job.id ∈ stale then job.finish .queued none else job := by
  induction stale generalizing queue recovered with
  | nil =>
      have hkept : (queue.jobs.map fun job => if job.id ∈ ([] : List String) then
          job.finish .queued none else job) = queue.jobs := by simp
      rw [hkept, List.nil_append]
      cases rest with
      | nil => rfl
      | cons jobId rest => simp [InMemoryJobQueue.recoverLoop]
  | cons jobId stale ih =>
      obtain ⟨hnew, hothers⟩ := List.nodup_cons.mp hnodup
      obtain ⟨job, hget, hcondition⟩ := hstale jobId List.mem_cons_self
      have hroom : ¬recovered.length ≥ recovered.length + (jobId :: stale).length := by simp
      let change : Job → Job := fun job => if job.id = jobId then job.finish .queued none else job
      have hchange : ∀ job, (change job).id = job.id := by
        intro job
        simp only [change]
        split <;> rfl
      have hfirst : updateFirst jobId (Job.finish .queued none) queue.jobs =
          queue.jobs.map change := updateFirst_eq_map hqueue jobId _
      have hids : ((queue.jobs.map change).map (·.id)) = queue.jobs.map (·.id) := by
        rw [List.map_map]
        exact List.map_congr_left fun job _ => hchange job
      have hstep := ih { queue with jobs := queue.jobs.map change } hothers
        (hids ▸ hqueue) (fun other hother => ?_) (recovered ++ [job.meetingId])
      · rw [List.cons_append, InMemoryJobQueue.recoverLoop, if_neg hroom]
        simp only [hget, if_pos hcondition, hfirst]
        have hlength : recovered.length + (jobId :: stale).length =
            (recovered ++ [job.meetingId]).length + stale.length := by
          simp only [List.length_append, List.length_cons, List.length_nil]
          omega
        rw [hlength, hstep, List.map_map]
        refine List.map_congr_left fun other _ => ?_
        simp only [Function.comp_apply, hchange, List.mem_cons]
        by_cases hsame : other.id = jobId
        · simp [hsame, change, hnew]
        · simp [hsame, change]
      · obtain ⟨found, hfound, hkept⟩ := hstale other (List.mem_cons_of_mem _ hother)
        refine ⟨found, ?_, hkept⟩
        have hdiffers : found.id ≠ jobId := by
          rw [find?_id hfound]
          rintro rfl
          exact hnew hother
        rw [get_map hchange, hfound, Option.map_some]
        simp [change, hdiffers]

end

/-! ## Claims and recoveries of several rows -/

namespace SqlJobQueue

variable (table : JobsTable)

theorem mem_visibleRows {table : JobsTable} {visible : List String} {row : JobRow} :
    row ∈ table.visibleRows visible ↔ row.id ∈ visible ∧ row ∈ table.rows := by
  unfold JobsTable.visibleRows
  rw [List.mem_filterMap]
  constructor
  · rintro ⟨jobId, hjobId, hget⟩
    obtain ⟨hrow, rfl⟩ := Table.get_eq_some.mp hget
    exact ⟨List.mem_dedup.mp hjobId, hrow⟩
  · rintro ⟨hvisible, hrow⟩
    exact ⟨row.id, List.mem_dedup.mpr hvisible, Table.get_eq_some.mpr ⟨hrow, rfl⟩⟩

/-- The order in which the in-memory queue would find the same job: what the
statement takes first, then the other visible jobs. -/
def claimOrder (jobType : JobType) (visible : List String) (now : ℤ) : List String :=
  match table.nextClaimable jobType visible now with
  | none => visible.dedup
  | some row => row.id :: visible.dedup.erase row.id

theorem claimNext_alike (jobType : JobType) (claimToken : String) (visible : List String)
    (now : ℤ) :
    let queue := table.queue (claimOrder table jobType visible now)
    (claimNext table jobType claimToken visible now .answered).1 =
        .ok (queue.claimNext jobType claimToken now).1 ∧
      (claimNext table jobType claimToken visible now .answered).2.jobs =
        (queue.claimNext jobType claimToken now).2.jobs := by
  unfold claimNext JobsTable.claimJob claimOrder InMemoryJobQueue.claimNext
  simp only [Reply.execute]
  cases hnext : table.nextClaimable jobType visible now with
  | none =>
      have hempty := JobsTable.nextClaimable_eq_nil hnext
      have hnone := @claimFirst_none (table.queue visible.dedup) jobType now visible.dedup
        claimToken fun jobId hjobId job hget hclaimable => by
          rw [table.get_queue, Option.map_eq_some_iff] at hget
          obtain ⟨row, hrow, rfl⟩ := hget
          obtain ⟨hmem, rfl⟩ := Table.get_eq_some.mp hrow
          obtain ⟨htype, hqueued, hdue⟩ := hclaimable
          refine List.filter_eq_nil_iff.mp hempty row
            (mem_visibleRows.mpr ⟨List.mem_dedup.mp hjobId, hmem⟩) ?_
          simp [htype, hqueued, JobRow.due_eq, hdue]
      change _ = Except.ok ((table.queue visible.dedup).claimFirst jobType claimToken now
          visible.dedup).1 ∧ _ = ((table.queue visible.dedup).claimFirst jobType claimToken now
          visible.dedup).2.jobs
      rw [hnone]
      exact ⟨rfl, rfl⟩
  | some row =>
      obtain ⟨hmem, hcondition⟩ := List.mem_filter.mp (JobsTable.nextClaimable_mem hnext)
      obtain ⟨-, hrow⟩ := mem_visibleRows.mp hmem
      simp only [Bool.and_eq_true, decide_eq_true_eq, JobRow.due_eq] at hcondition
      have hget : table.get row.id = some row := Table.get_eq_some.mpr ⟨hrow, rfl⟩
      have hhead := @claimFirst_head
        (table.queue (row.id :: visible.dedup.erase row.id)) jobType now
        (visible.dedup.erase row.id) claimToken row.id row.toJob
        (by rw [table.get_queue, hget]; rfl) ⟨hcondition.1.1, hcondition.1.2, hcondition.2⟩
      rcases table.updateKey_jobs row.id (fun _ => true) (JobRow.setClaim claimToken now)
          (fun _ => rfl) (JobRow.toJob_setClaim · now claimToken) with
        ⟨found, hfound, -, hreturned, hjobs⟩ | ⟨hnone, -⟩
      · obtain rfl := Option.some.inj (hget.symm.trans hfound)
        refine ⟨?_, hjobs.trans (congrArg (fun claimed => claimed.2.jobs) hhead).symm⟩
        rw [hreturned]
        exact (congrArg (fun claimed => Except.ok claimed.1) hhead).symm
      · exact absurd (hnone row hget) (by simp)

theorem cancel_alike (order : List String) (jobId reason : String) (inGuild : String → Bool)
    (now : ℤ) (hguild : ∀ row, table.get jobId = some row → inGuild row.meetingId = true) :
    ((table.adminCancelJob jobId reason inGuild now).1.isSome ↔
        ((table.queue order).cancel jobId).1 = .ok ()) ∧
      (table.adminCancelJob jobId reason inGuild now).2.jobs =
        ((table.queue order).cancel jobId).2.jobs := by
  unfold JobsTable.adminCancelJob InMemoryJobQueue.cancel
  rw [table.get_queue]
  rcases table.updateKey_jobs jobId (fun row => inGuild row.meetingId && row.status = .queued)
      (JobRow.setCanceled reason now) (fun _ => rfl) (JobRow.toJob_setCanceled · now reason) with
    ⟨row, hget, halso, hrow, hjobs⟩ | ⟨hnone, heq⟩
  · simp only [Bool.and_eq_true, decide_eq_true_eq] at halso
    rw [hget, hrow, hjobs]
    simp only [Option.map_some, halso.2]
    exact ⟨by simp, rfl⟩
  · rw [heq]
    cases hget : table.get jobId with
    | none => exact ⟨by simp, rfl⟩
    | some row =>
        have hrefused := hnone row hget
        simp only [hguild row hget, Bool.true_and, decide_eq_false_iff_not] at hrefused
        simp only [Option.map_some, if_pos hrefused]
        exact ⟨by simp, rfl⟩

/-- A statement that requeues the stale rows with the given ids. -/
theorem requeue_alike {stale : List String} (hnodup : stale.Nodup) (rest : List String)
    (now : ℤ) (hstale : ∀ jobId ∈ stale, ∃ row, table.get jobId = some row ∧
      row.stale now = true) :
    JobsTable.jobs (table.update (fun row => decide (row.id ∈ stale)) (JobRow.setRequeued now)
        fun _ => rfl) =
      ((table.queue (stale ++ rest)).recoverStaleRunning .summarize stale.length now).2.jobs := by
  have hjobs : JobsTable.jobs (table.update (fun row => decide (row.id ∈ stale))
      (JobRow.setRequeued now) fun _ => rfl) =
      table.jobs.map fun job => if job.id ∈ stale then job.finish .queued none else job := by
    change (table.rows.map (Table.changed (fun row => decide (row.id ∈ stale))
      (JobRow.setRequeued now))).map _ = (table.rows.map _).map _
    rw [List.map_map, List.map_map]
    refine List.map_congr_left fun row _ => ?_
    simp only [Function.comp_apply, Table.changed, decide_eq_true_eq]
    split
    · rfl
    · rfl
  rw [hjobs]
  unfold InMemoryJobQueue.recoverStaleRunning
  by_cases hempty : stale = []
  · simp [hempty, JobsTable.queue]
  · have hlength : stale.length ≠ 0 := by simpa using hempty
    rw [if_neg hlength]
    have hleft : ∀ jobId ∈ stale, ∃ job, (table.queue (stale ++ rest)).get jobId = some job ∧
        job.jobType = .summarize ∧ job.status = .running ∧ leaseExpired job now = true := by
      intro jobId hjobId
      obtain ⟨row, hget, hrow⟩ := hstale jobId hjobId
      refine ⟨row.toJob, ?_, JobRow.stale_imp hrow⟩
      rw [table.get_queue, hget]
      rfl
    have hloop := recoverLoop_stale (table.queue (stale ++ rest)) hnodup rest table.jobs_ids_nodup
      hleft []
    rw [List.length_nil, Nat.zero_add] at hloop
    exact hloop.symm

end SqlJobQueue

/-! ## Runs -/

/-- The in-memory queue, told at every call in which order to look at its jobs. -/
def memoryStep (queue : InMemoryJobQueue) (input : List String × QueueCall) : InMemoryJobQueue :=
  { queue with order := input.1 }.step input.2

/-- A call that finds nothing to do. -/
def idleCall (now : ℤ) : QueueCall := { now := now, op := .recoverStaleRunning .summarize 0 }

def SqlCall.isAdminRetry (call : SqlCall) : Bool :=
  match call.op with
  | .adminRetry .. => true
  | _ => false

namespace JobsTable

/-- The ids of the stale rows that a statement requeues. -/
def staleIds (table : JobsTable) (op : SqlOp) (now : ℤ) : List String :=
  match op with
  | .requeueStale jobId =>
      ((table.get jobId).filter (JobRow.stale now)).toList.map fun row => row.id
  | .readySummaryMeetingIds visible _ => (table.staleJobs visible now).map fun row => row.id
  | _ => []

/-- The call of the in-memory queue that a committed statement is, and the order in
which that queue looks at its jobs. -/
def memoryCall (table : JobsTable) (op : SqlOp) (now : ℤ) : List String × QueueOp :=
  match op with
  | .enqueue job _ => (table.ids, .enqueue (SqlJobQueue.freshJob job))
  | .claimNext jobType claimToken visible =>
      (SqlJobQueue.claimOrder table jobType visible now, .claimNext jobType claimToken)
  | .claimById jobId claimToken =>
      if (table.get jobId).all (·.jobType = .summarize) then
        (table.ids, .claimById jobId claimToken)
      else (table.ids, (idleCall now).op)
  | .claimant op job => (table.ids, .claimant op job)
  | .requeueStale _ =>
      let stale := table.staleIds op now
      (stale ++ table.ids.diff stale, .recoverStaleRunning .summarize stale.length)
  | .readySummaryMeetingIds visible _ =>
      let stale := table.staleIds op now
      (stale ++ visible.dedup.diff stale, .recoverStaleRunning .summarize stale.length)
  | .adminCancel jobId _ inGuild =>
      if (table.get jobId).all (inGuild ·.meetingId) then (table.ids, .cancel jobId)
      else (table.ids, (idleCall now).op)
  | .adminRetry .. => (table.ids, (idleCall now).op)

def memoryInput (table : JobsTable) (call : SqlCall) : List String × QueueCall :=
  if call.reply.committed then
    let (order, op) := table.memoryCall call.op call.now
    (order, { now := call.now, op := op })
  else (table.ids, idleCall call.now)

/-- The inputs of the in-memory queue along a run of the table. -/
def memoryInputs : JobsTable → List SqlCall → List (List String × QueueCall)
  | _, [] => []
  | table, call :: rest => table.memoryInput call :: memoryInputs (table.step call) rest

theorem enqueue_table (table : JobsTable) (job : Job) (driverText : String) (now : ℤ)
    (reply : Reply) : (SqlJobQueue.enqueue table job driverText now reply).2 =
      if reply.committed then (table.enqueueJob job.id job.meetingId job.jobType
        (uniqueViolation "jobs_pkey" driverText) now).2 else table := by
  rw [← Reply.execute_state]
  unfold SqlJobQueue.enqueue
  rcases reply.execute table _ with ⟨result | result | result, next⟩
  · dsimp only
    split <;> rfl
  · dsimp only
    split <;> rfl
  · rfl

theorem updateClaimed_table (table : JobsTable) (job : Job) (reply : Reply)
    (statement : String → Option JobRow × JobsTable) :
    (SqlJobQueue.updateClaimed table job reply statement).2 =
      if reply.committed then (SqlJobQueue.updateClaimed table job .answered statement).2
      else table := by
  unfold SqlJobQueue.updateClaimed
  cases requireClaimToken job with
  | error err => simp
  | ok claimToken =>
      cases reply with
      | answered => rfl
      | failed error committed =>
          cases hstatement : statement claimToken with
          | mk found next =>
              simp only [Reply.execute, hstatement, Reply.committed]
              cases found with
              | none => rfl
              | some row => rfl

/-- How the executor ends a statement decides only whether it took effect. -/
theorem step_eq (table : JobsTable) (call : SqlCall) :
    table.step call =
      if call.reply.committed then table.step { call with reply := .answered } else table := by
  obtain ⟨now, op, reply⟩ := call
  cases op with
  | enqueue job driverText =>
      simp only [step, enqueue_table]
      rfl
  | claimant op job =>
      cases op with
      | heartbeat => exact updateClaimed_table table job reply _
      | markDone => exact updateClaimed_table table job reply _
      | markFailed errorMessage => exact updateClaimed_table table job reply _
      | retry errorMessage maxRetries => exact updateClaimed_table table job reply _
  | claimNext jobType claimToken visible => exact reply.execute_state table _
  | claimById jobId claimToken => exact reply.execute_state table _
  | requeueStale jobId => exact reply.execute_state table _
  | readySummaryMeetingIds visible collate => exact reply.execute_state table _
  | adminCancel jobId reason inGuild => exact reply.execute_state table _
  | adminRetry jobId nextRunAt candidate => exact reply.execute_state table _

/-! ### One statement -/

theorem map_id_visibleRows (table : JobsTable) (visible : List String) :
    (table.visibleRows visible).map (fun row => row.id) =
      visible.dedup.filter fun jobId => (table.get jobId).isSome := by
  unfold visibleRows
  induction visible.dedup with
  | nil => rfl
  | cons jobId rest ih =>
      cases hget : table.get jobId with
      | none => simp [hget, ih]
      | some row => simp [hget, ih, (Table.get_eq_some.mp hget).2]

theorem staleIds_spec (table : JobsTable) (op : SqlOp) (now : ℤ) :
    (table.staleIds op now).Nodup ∧ ∀ jobId ∈ table.staleIds op now,
      ∃ row, table.get jobId = some row ∧ row.stale now = true := by
  unfold staleIds
  split
  next jobId =>
    cases hfound : (table.get jobId).filter (JobRow.stale now) with
    | none => simp
    | some row =>
        obtain ⟨hget, hstale⟩ := Option.filter_eq_some_iff.mp hfound
        refine ⟨List.nodup_singleton _, fun other hother => ⟨row, ?_, hstale⟩⟩
        obtain rfl := List.mem_singleton.mp hother
        exact Table.get_eq_some.mpr ⟨(Table.get_eq_some.mp hget).1, rfl⟩
  next visible _ =>
    have hvisible : ((table.visibleRows visible).map fun row => row.id).Nodup := by
      rw [map_id_visibleRows]
      exact (List.nodup_dedup visible).filter _
    let candidates := (table.visibleRows visible).filter (JobRow.stale now)
    have hperm := List.perm_insertionSort
      (fun left right : JobRow => left.updatedAt ≤ right.updatedAt) candidates
    constructor
    · have hcandidates : (candidates.map fun row => row.id).Nodup :=
        hvisible.sublist (List.filter_sublist.map _)
      exact ((hperm.map _).nodup_iff.mpr hcandidates).sublist ((List.take_sublist _ _).map _)
    · rintro jobId hjobId
      obtain ⟨row, hrow, rfl⟩ := List.mem_map.mp hjobId
      obtain ⟨hmem, hstale⟩ := List.mem_filter.mp (hperm.mem_iff.mp (List.mem_of_mem_take hrow))
      exact ⟨row, Table.get_eq_some.mpr ⟨(SqlJobQueue.mem_visibleRows.mp hmem).2, rfl⟩, hstale⟩
  next => simp

/-- A statement changes the jobs as the call of the in-memory queue does. -/
theorem step_simulated (table : JobsTable) (call : SqlCall) (hcall : call.isAdminRetry = false) :
    (table.step call).jobs =
      ((table.queue (table.memoryInput call).1).step (table.memoryInput call).2).jobs := by
  rw [step_eq]
  unfold memoryInput
  by_cases hcommitted : call.reply.committed = true
  · rw [if_pos hcommitted, if_pos hcommitted]
    obtain ⟨now, op, reply⟩ := call
    cases op with
    | enqueue job driverText =>
        exact (SqlJobQueue.enqueue_alike table _ job driverText now).jobs_eq
    | claimNext jobType claimToken visible =>
        exact (SqlJobQueue.claimNext_alike table jobType claimToken visible now).2
    | claimById jobId claimToken =>
        by_cases htype : (table.get jobId).all (·.jobType = .summarize) = true
        · simp only [memoryCall, if_pos htype]
          refine (SqlJobQueue.claimById_alike table table.ids jobId claimToken now ?_).2
          intro row hget
          simpa [hget] using htype
        · simp only [memoryCall, if_neg htype]
          change (table.claimJobById jobId claimToken .summarize now).2.jobs = table.jobs
          rcases table.updateKey_jobs jobId
              (fun row => row.jobType = .summarize && row.status = .queued && row.due now)
              (JobRow.setClaim claimToken now) (fun _ => rfl)
              (JobRow.toJob_setClaim · now claimToken) with
            ⟨row, hget, halso, -⟩ | ⟨-, heq⟩
          · simp only [Bool.and_eq_true, decide_eq_true_eq] at halso
            simp [hget, halso.1.1] at htype
          · exact congrArg (fun updated => JobsTable.jobs updated.2) heq
    | claimant op job => exact (SqlJobQueue.claimantCall_alike table _ op job now).jobs_eq
    | requeueStale jobId =>
        obtain ⟨hnodup, hstale⟩ := table.staleIds_spec (.requeueStale jobId) now
        have hmemory := SqlJobQueue.requeue_alike table hnodup
          (table.ids.diff (table.staleIds (.requeueStale jobId) now)) now hstale
        refine Eq.trans ?_ hmemory
        change (table.rows.map _).map _ = (table.rows.map _).map _
        congr 1
        refine List.map_congr_left fun row hrow => ?_
        have hselected : (decide (row.id = jobId) && row.stale now) =
            decide (row.id ∈ table.staleIds (.requeueStale jobId) now) := by
          by_cases hid : row.id = jobId
          · have hget : table.get jobId = some row := Table.get_eq_some.mpr ⟨hrow, hid⟩
            cases hage : row.stale now with
            | false => simp [staleIds, hget, Option.filter, hage]
            | true => simp [staleIds, hget, Option.filter, hage, hid]
          · have hother : row.id ∉ table.staleIds (.requeueStale jobId) now := by
              intro hmem
              obtain ⟨found, hfound, hfoundId⟩ := List.mem_map.mp hmem
              have hget := (Option.filter_eq_some_iff.mp (Option.mem_toList.mp hfound)).1
              exact hid (hfoundId.symm.trans (Table.get_eq_some.mp hget).2)
            simp [hid, hother]
        simp only [Table.changed, hselected]
    | readySummaryMeetingIds visible collate =>
        obtain ⟨hnodup, hstale⟩ := table.staleIds_spec (.readySummaryMeetingIds visible collate) now
        exact SqlJobQueue.requeue_alike table hnodup _ now hstale
    | adminCancel jobId reason inGuild =>
        by_cases hguild : (table.get jobId).all (inGuild ·.meetingId) = true
        · simp only [memoryCall, if_pos hguild]
          refine (SqlJobQueue.cancel_alike table table.ids jobId reason inGuild now ?_).2
          intro row hget
          simpa [hget] using hguild
        · simp only [memoryCall, if_neg hguild]
          change (table.adminCancelJob jobId reason inGuild now).2.jobs = table.jobs
          rcases table.updateKey_jobs jobId
              (fun row => inGuild row.meetingId && row.status = .queued)
              (JobRow.setCanceled reason now) (fun _ => rfl)
              (JobRow.toJob_setCanceled · now reason) with
            ⟨row, hget, halso, -⟩ | ⟨-, heq⟩
          · simp only [Bool.and_eq_true] at halso
            simp [hget, halso.1] at hguild
          · exact congrArg (fun updated => JobsTable.jobs updated.2) heq
    | adminRetry jobId nextRunAt candidate => cases hcall
  · rw [if_neg hcommitted, if_neg hcommitted]
    rfl

/-! ### Whole runs -/

/-- The in-memory queue has the jobs of the table, and gives the same leases. -/
structure StandsFor (table : JobsTable) (queue : InMemoryJobQueue) : Prop where
  jobs : queue.jobs = table.jobs
  lease : queue.leaseDuration = defaultLeaseDuration

theorem StandsFor.reordered {table : JobsTable} {queue : InMemoryJobQueue}
    (hstands : table.StandsFor queue) (order : List String) :
    { queue with order := order } = table.queue order := by
  obtain ⟨jobs, other, lease⟩ := queue
  obtain ⟨rfl, rfl⟩ := hstands
  rfl

theorem standsFor_queue (table : JobsTable) (order : List String) :
    table.StandsFor (table.queue order) := ⟨rfl, rfl⟩

theorem StandsFor.step {table : JobsTable} {queue : InMemoryJobQueue}
    (hstands : table.StandsFor queue) {call : SqlCall} (hcall : call.isAdminRetry = false) :
    (table.step call).StandsFor (memoryStep queue (table.memoryInput call)) := by
  unfold memoryStep
  rw [hstands.reordered]
  exact ⟨(table.step_simulated call hcall).symm, InMemoryJobQueue.step_leaseDuration _ _⟩

theorem StandsFor.run {calls : List SqlCall}
    (hcalls : ∀ call ∈ calls, call.isAdminRetry = false) {table : JobsTable}
    {queue : InMemoryJobQueue} (hstands : table.StandsFor queue) :
    (Machine.run JobsTable.step table calls).StandsFor
      (Machine.run memoryStep queue (table.memoryInputs calls)) := by
  induction calls generalizing table queue with
  | nil => exact hstands
  | cons call rest ih =>
      apply ih fun other hother => hcalls other (List.mem_cons_of_mem _ hother)
      exact hstands.step (hcalls call List.mem_cons_self)

/-- Whatever is asked next, the table answers as the in-memory queue does. A claim
of the next job is the claim of an in-memory queue that looks at the visible jobs
in some order. -/
structure AnswersAs (table : JobsTable) (queue : InMemoryJobQueue) : Prop where
  enqueue : ∀ job driverText now, AnswersAlike Eq
    (SqlJobQueue.enqueue table job driverText now .answered)
    (queue.enqueue (SqlJobQueue.freshJob job).job)
  claimant : ∀ op job now, AnswersAlike Eq
    (SqlJobQueue.claimantCall table op job now .answered) (queue.claimantCall op job now)
  retry : ∀ job errorMessage maxRetries now, AnswersAlike Eq
    (SqlJobQueue.retry table job errorMessage maxRetries now .answered)
    (queue.retry job errorMessage maxRetries now)
  claimById : ∀ jobId claimToken now,
    (∀ job, queue.get jobId = some job → job.jobType = .summarize) →
    (SqlJobQueue.claimById table jobId claimToken now .answered).1 =
      .ok (queue.claimById jobId claimToken now).1
  claimNext : ∀ jobType claimToken visible now, ∃ order, order.Perm visible.dedup ∧
    (SqlJobQueue.claimNext table jobType claimToken visible now .answered).1 =
      .ok (InMemoryJobQueue.claimNext { queue with order := order } jobType claimToken now).1

theorem claimOrder_perm (table : JobsTable) (jobType : JobType) (visible : List String) (now : ℤ) :
    (SqlJobQueue.claimOrder table jobType visible now).Perm visible.dedup := by
  unfold SqlJobQueue.claimOrder
  cases hnext : table.nextClaimable jobType visible now with
  | none => exact .refl _
  | some row =>
      have hmem := (List.mem_filter.mp (nextClaimable_mem hnext)).1
      exact (List.perm_cons_erase
        (List.mem_dedup.mpr (SqlJobQueue.mem_visibleRows.mp hmem).1)).symm

theorem StandsFor.answersAs {table : JobsTable} {queue : InMemoryJobQueue}
    (hstands : table.StandsFor queue) : table.AnswersAs queue := by
  rw [show queue = table.queue queue.order from hstands.reordered queue.order]
  refine ⟨?_, ?_, ?_, ?_, ?_⟩
  · exact SqlJobQueue.enqueue_alike table _
  · exact SqlJobQueue.claimantCall_alike table _
  · exact SqlJobQueue.retry_alike table _
  · intro jobId claimToken now htype
    refine (SqlJobQueue.claimById_alike table _ jobId claimToken now fun row hget => ?_).1
    apply htype row.toJob
    rw [table.get_queue, hget, Option.map_some]
  · intro jobType claimToken visible now
    exact ⟨_, claimOrder_perm table jobType visible now,
      (SqlJobQueue.claimNext_alike table jobType claimToken visible now).1⟩

/-- Every run of the jobs table without a manual retry, whatever fails or is
committed unanswered, is a run of the in-memory queue. -/
theorem sql_queue_runs_as_memory_queue (calls : List SqlCall)
    (hcalls : ∀ call ∈ calls, call.isAdminRetry = false) :
    let table := Machine.run step ∅ calls
    let queue := Machine.run memoryStep {} (memoryInputs ∅ calls)
    table.StandsFor queue ∧ table.AnswersAs queue := by
  have hstands : (Machine.run step ∅ calls).StandsFor
      (Machine.run memoryStep {} (memoryInputs ∅ calls)) :=
    StandsFor.run hcalls (standsFor_queue ∅ [])
  exact ⟨hstands, hstands.answersAs⟩

/-- A worker claims the job, loses the answer of its heartbeat and then its lease;
the job is taken back, claimed again and given up. -/
def sqlRun : List SqlCall :=
  let job (token : String) : Job := {
    id := "summary-m1", meetingId := "m1", jobType := .summarize, status := .running
    retryCount := 0, errorMessage := none, claimToken := some token
    leasedUntil := some 90000, nextRunAt := none }
  [SqlCall.mk 0 (.enqueue (job "") "db error") .answered,
    SqlCall.mk 1000 (.claimNext .summarize "t1" ["summary-m1"]) .answered,
    SqlCall.mk 2000 (.claimant .heartbeat (job "t1")) (.failed "connection closed" true),
    SqlCall.mk 92000 (.readySummaryMeetingIds ["summary-m1"] fun _ _ => true) .answered,
    SqlCall.mk 92000 (.claimById "summary-m1" "t2") .answered,
    SqlCall.mk 93000 (.claimant (.markDone) (job "t1")) .answered,
    SqlCall.mk 93000 (.claimant (.retry "engine failed" 3) (job "t2")) .answered]

theorem sqlRun_as_memory_queue :
    let table := Machine.run step ∅ sqlRun
    let queue := Machine.run memoryStep {} (memoryInputs ∅ sqlRun)
    table.StandsFor queue ∧ table.AnswersAs queue :=
  sql_queue_runs_as_memory_queue sqlRun (by decide)

end JobsTable

end DiscordTranscript.Infrastructure
