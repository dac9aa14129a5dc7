import Mathlib.Algebra.Order.Ring.Int
import Mathlib.Data.List.Basic
import DiscordTranscript.Domain.Model

/-! # The in-memory job queue

The model of `infrastructure/queue.rs`. Times are integers of milliseconds. The
clock reading of an operation and the token that a claim would issue are
inputs. Retry counts are naturals; the `u32` of the source would need 2^32
retries of one job to wrap.
-/

namespace DiscordTranscript.Infrastructure

open Domain

structure Job where
  id : String
  meetingId : String
  jobType : JobType
  status : JobStatus
  retryCount : ℕ
  errorMessage : Option String
  claimToken : Option String
  leasedUntil : Option ℤ
  nextRunAt : Option ℤ
  deriving DecidableEq, Repr

inductive QueueError where
  | backend (message : String)
  | alreadyExists (jobId : String)
  | notFound (jobId : String)
  | missingClaimToken (jobId : String)
  | invalidState (jobId expected actual : String)
  deriving DecidableEq, Repr

def QueueError.display : QueueError → String
  | .backend err => s!"queue backend error: {err}"
  | .alreadyExists jobId => s!"job already exists: {jobId}"
  | .notFound jobId => s!"job not found: {jobId}"
  | .missingClaimToken jobId => s!"job claim token is required: {jobId}"
  | .invalidState jobId expected actual =>
      s!"job {jobId} in wrong state: expected {expected}, got {actual}"

def requireClaimToken (job : Job) : Except QueueError String :=
  match job.claimToken.filter (· ≠ "") with
  | some token => .ok token
  | none => .error (.missingClaimToken job.id)

def defaultLeaseDuration : ℤ := 90 * 1000

structure InMemoryJobQueue where
  jobs : List Job := []
  order : List String := []
  leaseDuration : ℤ := defaultLeaseDuration

def retryDelaySeconds (retryCount : ℕ) : ℕ := min (30 * 2 ^ min (retryCount - 1) 5) 900

def retryDelay (retryCount : ℕ) : ℤ := retryDelaySeconds retryCount * 1000

def dueForClaim (job : Job) (now : ℤ) : Bool := job.nextRunAt.all (· ≤ now)

def leaseExpired (job : Job) (now : ℤ) : Bool := job.leasedUntil.all (· ≤ now)

def hasActiveClaim (job : Job) (claimToken : String) (now : ℤ) : Bool :=
  job.status = .running && job.claimToken = some claimToken && !leaseExpired job now

/-- `iter_mut().find(..)`: the first job with the id is changed in place. -/
def updateFirst (jobId : String) (update : Job → Job) : List Job → List Job
  | [] => []
  | job :: rest =>
      if job.id = jobId then update job :: rest else job :: updateFirst jobId update rest

/-! ## What an operation does to its job -/

namespace Job

def claim (token : String) (leasedUntil : ℤ) (job : Job) : Job :=
  { job with
    status := .running
    claimToken := some token
    leasedUntil := some leasedUntil
    nextRunAt := none }

def extendLease (leasedUntil : ℤ) (job : Job) : Job := { job with leasedUntil := some leasedUntil }

/-- Leaving `Running` gives up the claim. -/
def finish (status : JobStatus) (errorMessage : Option String) (job : Job) : Job :=
  { job with
    status := status
    errorMessage := errorMessage
    nextRunAt := none
    claimToken := none
    leasedUntil := none }

def retry (errorMessage : String) (maxRetries : ℕ) (now : ℤ) (job : Job) : Job :=
  let counted := { job with
    retryCount := job.retryCount + 1
    errorMessage := some errorMessage
    claimToken := none
    leasedUntil := none }
  if counted.retryCount > maxRetries then { counted with status := .failed, nextRunAt := none }
  else { counted with
    status := .queued
    nextRunAt := some (now + retryDelay counted.retryCount) }

end Job

/-! ## The operations -/

namespace InMemoryJobQueue

def get (queue : InMemoryJobQueue) (jobId : String) : Option Job :=
  queue.jobs.find? (·.id = jobId)

def nextLeaseDeadline (queue : InMemoryJobQueue) (now : ℤ) : ℤ := now + queue.leaseDuration

def enqueue (queue : InMemoryJobQueue) (job : Job) : Except QueueError Unit × InMemoryJobQueue :=
  if queue.jobs.any (·.id = job.id) then (.error (.alreadyExists job.id), queue)
  else (.ok (), { queue with order := queue.order ++ [job.id], jobs := queue.jobs ++ [job] })

/-- The loop of `claim_next` over the remaining ids. -/
def claimFirst (queue : InMemoryJobQueue) (jobType : JobType) (token : String) (now : ℤ) :
    List String → Option Job × InMemoryJobQueue
  | [] => (none, queue)
  | jobId :: rest =>
      match queue.get jobId with
      | none => queue.claimFirst jobType token now rest
      | some job =>
          if job.jobType = jobType ∧ job.status = .queued ∧ dueForClaim job now then
            let claimed := Job.claim token (queue.nextLeaseDeadline now)
            (some (claimed job), { queue with jobs := updateFirst jobId claimed queue.jobs })
          else queue.claimFirst jobType token now rest

def claimNext (queue : InMemoryJobQueue) (jobType : JobType) (token : String) (now : ℤ) :
    Option Job × InMemoryJobQueue :=
  queue.claimFirst jobType token now queue.order

def claimById (queue : InMemoryJobQueue) (jobId token : String) (now : ℤ) :
    Option Job × InMemoryJobQueue :=
  match queue.get jobId with
  | none => (none, queue)
  | some job =>
      if job.status ≠ .queued ∨ !dueForClaim job now then (none, queue)
      else
        let claimed := Job.claim token (queue.nextLeaseDeadline now)
        (some (claimed job), { queue with jobs := updateFirst jobId claimed queue.jobs })

/-- The shared body of the four operations of a claimant. -/
def updateClaimed (queue : InMemoryJobQueue) (job : Job) (now : ℤ) (update : Job → Job) :
    Except QueueError Job × InMemoryJobQueue :=
  match requireClaimToken job with
  | .error err => (.error err, queue)
  | .ok claimToken =>
      match queue.get job.id with
      | none => (.error (.notFound job.id), queue)
      | some current =>
          if !hasActiveClaim current claimToken now then
            (.error (.invalidState job.id "running with matching active claim token"
              current.status.asStr), queue)
          else (.ok (update current), { queue with jobs := updateFirst job.id update queue.jobs })

def heartbeat (queue : InMemoryJobQueue) (job : Job) (now : ℤ) :
    Except QueueError Unit × InMemoryJobQueue :=
  let (result, next) := queue.updateClaimed job now
    (Job.extendLease (queue.nextLeaseDeadline now))
  (result.map fun _ => (), next)

def markDone (queue : InMemoryJobQueue) (job : Job) (now : ℤ) :
    Except QueueError Unit × InMemoryJobQueue :=
  let (result, next) := queue.updateClaimed job now (Job.finish .done none)
  (result.map fun _ => (), next)

def markFailed (queue : InMemoryJobQueue) (job : Job) (errorMessage : String) (now : ℤ) :
    Except QueueError Unit × InMemoryJobQueue :=
  let (result, next) := queue.updateClaimed job now (Job.finish .failed (some errorMessage))
  (result.map fun _ => (), next)

def retry (queue : InMemoryJobQueue) (job : Job) (errorMessage : String) (maxRetries : ℕ)
    (now : ℤ) : Except QueueError JobStatus × InMemoryJobQueue :=
  let (result, next) := queue.updateClaimed job now (Job.retry errorMessage maxRetries now)
  (result.map (·.status), next)

def cancel (queue : InMemoryJobQueue) (jobId : String) :
    Except QueueError Unit × InMemoryJobQueue :=
  match queue.get jobId with
  | none => (.error (.notFound jobId), queue)
  | some job =>
      if job.status ≠ .queued then
        (.error (.invalidState jobId "queued" job.status.asStr), queue)
      else (.ok (), { queue with jobs := updateFirst jobId (Job.finish .canceled none) queue.jobs })

/-- The loop of `recover_stale_running`; `recovered` are the meetings so far. -/
def recoverLoop (queue : InMemoryJobQueue) (jobType : JobType) (limit : ℕ) (now : ℤ) :
    List String → List String → List String × InMemoryJobQueue
  | recovered, [] => (recovered, queue)
  | recovered, jobId :: rest =>
      if recovered.length ≥ limit then (recovered, queue)
      else match queue.get jobId with
      | none => queue.recoverLoop jobType limit now recovered rest
      | some job =>
          if job.jobType = jobType ∧ job.status = .running ∧ leaseExpired job now then
            { queue with jobs := updateFirst jobId (Job.finish .queued none) queue.jobs }.recoverLoop
              jobType limit now (recovered ++ [job.meetingId]) rest
          else queue.recoverLoop jobType limit now recovered rest

def recoverStaleRunning (queue : InMemoryJobQueue) (jobType : JobType) (limit : ℕ) (now : ℤ) :
    List String × InMemoryJobQueue :=
  if limit = 0 then ([], queue) else queue.recoverLoop jobType limit now [] queue.order

end InMemoryJobQueue

/-! ## Runs -/

/-- A job as it is enqueued for the first time. -/
structure FreshJob where
  id : String
  meetingId : String
  jobType : JobType
  errorMessage : Option String := none
  nextRunAt : Option ℤ := none

def FreshJob.job (fresh : FreshJob) : Job where
  id := fresh.id
  meetingId := fresh.meetingId
  jobType := fresh.jobType
  status := .queued
  retryCount := 0
  errorMessage := fresh.errorMessage
  claimToken := none
  leasedUntil := none
  nextRunAt := fresh.nextRunAt

/-- What a worker asks for with a job that it has claimed. -/
inductive ClaimantOp where
  | heartbeat
  | markDone
  | markFailed (errorMessage : String)
  | retry (errorMessage : String) (maxRetries : ℕ)

inductive QueueOp where
  | enqueue (fresh : FreshJob)
  | claimNext (jobType : JobType) (token : String)
  | claimById (jobId token : String)
  | claimant (op : ClaimantOp) (job : Job)
  | cancel (jobId : String)
  | recoverStaleRunning (jobType : JobType) (limit : ℕ)

/-- An operation of some worker at a reading of the clock. -/
structure QueueCall where
  now : ℤ
  op : QueueOp

/-- The token that a claim issues if it succeeds. -/
def QueueCall.token? (call : QueueCall) : Option String :=
  match call.op with
  | .claimNext _ token | .claimById _ token => some token
  | _ => none

namespace InMemoryJobQueue

/-- The operation as a worker sees it: accepted or an error, and the next queue. -/
def claimantCall (queue : InMemoryJobQueue) (op : ClaimantOp) (job : Job) (now : ℤ) :
    Except QueueError Unit × InMemoryJobQueue :=
  match op with
  | .heartbeat => queue.heartbeat job now
  | .markDone => queue.markDone job now
  | .markFailed errorMessage => queue.markFailed job errorMessage now
  | .retry errorMessage maxRetries =>
      let (result, next) := queue.retry job errorMessage maxRetries now
      (result.map fun _ => (), next)

def step (queue : InMemoryJobQueue) (call : QueueCall) : InMemoryJobQueue :=
  match call.op with
  | .enqueue fresh => (queue.enqueue fresh.job).2
  | .claimNext jobType token => (queue.claimNext jobType token call.now).2
  | .claimById jobId token => (queue.claimById jobId token call.now).2
  | .claimant op job => (queue.claimantCall op job call.now).2
  | .cancel jobId => (queue.cancel jobId).2
  | .recoverStaleRunning jobType limit => (queue.recoverStaleRunning jobType limit call.now).2

theorem retry_status {queue : InMemoryJobQueue} {job : Job} {errorMessage : String}
    {maxRetries : ℕ} {now : ℤ} {status : JobStatus}
    (hretry : (queue.retry job errorMessage maxRetries now).1 = .ok status) :
    status = .queued ∨ status = .failed := by
  simp only [retry, updateClaimed] at hretry
  cases hclaim : requireClaimToken job with
  | error err => simp [hclaim, Except.map] at hretry
  | ok token =>
      cases hget : queue.get job.id with
      | none => simp [hclaim, hget, Except.map] at hretry
      | some current =>
          simp only [hclaim, hget] at hretry
          split at hretry
          next => simp [Except.map] at hretry
          next =>
            simp only [Except.map, Job.retry, Except.ok.injEq] at hretry
            subst hretry
            split
            next => exact .inr rfl
            next => exact .inl rfl

end InMemoryJobQueue

/-! ## The trait -/

/-- The operations of the `JobQueue` trait by which a worker gives up a job, for
any implementation. A retry that is accepted requeues the job or fails it, as in
the in-memory queue and in `RETRY_JOB_SQL`. -/
structure JobQueue (Q : Type) where
  heartbeat : Q → Job → Except QueueError Unit × Q
  markFailed : Q → Job → String → Except QueueError Unit × Q
  retry : Q → Job → String → ℕ → Except QueueError JobStatus × Q
  retry_status : ∀ {queue job errorMessage maxRetries status},
    (retry queue job errorMessage maxRetries).1 = .ok status →
      status = .queued ∨ status = .failed

/-- An in-memory queue that other workers use too: `turns n` holds their calls
before the `n`-th operation of this worker, and the clock reading of it. -/
structure SharedQueue where
  queue : InMemoryJobQueue
  turns : ℕ → List QueueCall × ℤ
  served : ℕ := 0

namespace SharedQueue

/-- The queue that the next operation of this worker finds. -/
def current (shared : SharedQueue) : InMemoryJobQueue :=
  (shared.turns shared.served).1.foldl InMemoryJobQueue.step shared.queue

def now (shared : SharedQueue) : ℤ := (shared.turns shared.served).2

def answered {α : Type} (shared : SharedQueue) (answer : α × InMemoryJobQueue) : α × SharedQueue :=
  (answer.1, { shared with queue := answer.2, served := shared.served + 1 })

def jobQueue : JobQueue SharedQueue where
  heartbeat shared job := shared.answered (shared.current.heartbeat job shared.now)
  markFailed shared job errorMessage :=
    shared.answered (shared.current.markFailed job errorMessage shared.now)
  retry shared job errorMessage maxRetries :=
    shared.answered (shared.current.retry job errorMessage maxRetries shared.now)
  retry_status hretry := InMemoryJobQueue.retry_status hretry

end SharedQueue

end DiscordTranscript.Infrastructure
