import Mathlib.Data.List.Nodup
import DiscordTranscript.Foundation.Pointwise
import DiscordTranscript.Foundation.Runs
import DiscordTranscript.Infrastructure.Queue

/-! # Claims on jobs

Every operation of the queue changes each job by one of five moves, or adds a
fresh job at the end. The guarantees about tokens, leases, final statuses and
retry counts are read off these moves.
-/

namespace DiscordTranscript.Infrastructure

open Domain

/-! ## Moves of one job -/

/-- What a call can do to a job. -/
inductive Job.Moves (call : QueueCall) : Job → Job → Prop where
  | stay (job : Job) : Moves call job job
  | claim {job : Job} {token : String} (leasedUntil : ℤ) (htoken : call.token? = some token)
      (hqueued : job.status = .queued) : Moves call job (job.claim token leasedUntil)
  | extendLease {job : Job} (leasedUntil : ℤ) (hrunning : job.status = .running) :
      Moves call job (job.extendLease leasedUntil)
  | finish {job : Job} (status : JobStatus) (errorMessage : Option String)
      (hactive : job.status = .running ∨ job.status = .queued) (hstatus : status ≠ .running)
      (hcanceled : job.status = .queued → status = .canceled) :
      Moves call job (job.finish status errorMessage)
  | retry {job handle : Job} (errorMessage : String) (maxRetries : ℕ)
      (hcall : call.op = .claimant (.retry errorMessage maxRetries) handle)
      (hhandle : handle.id = job.id) (hrunning : job.status = .running) :
      Moves call job (job.retry errorMessage maxRetries call.now)

theorem find?_id {jobs : List Job} {jobId : String} {job : Job}
    (hfind : jobs.find? (·.id = jobId) = some job) : job.id = jobId := by
  simpa using List.find?_some hfind

/-- Changing the job that a lookup finds changes nothing else. -/
theorem updateFirst_forall₂ {related : Job → Job → Prop} (hrefl : ∀ job, related job job)
    {jobs : List Job} {jobId : String} {job : Job} {update : Job → Job}
    (hfind : jobs.find? (·.id = jobId) = some job) (hupdate : related job (update job)) :
    List.Forall₂ related jobs (updateFirst jobId update jobs) := by
  induction jobs with
  | nil => cases hfind
  | cons first rest ih =>
      unfold updateFirst
      -- `updateFirst` stops at the job that `find?` returns.
      split
      next hid =>
        rw [List.find?_cons_of_pos (by simpa using hid)] at hfind
        cases hfind
        exact .cons hupdate (List.forall₂_same.mpr fun other _ => hrefl other)
      next hid =>
        rw [List.find?_cons_of_neg (by simpa using hid)] at hfind
        exact .cons (hrefl first) (ih hfind)

theorem forall₂_stay (call : QueueCall) (jobs : List Job) :
    List.Forall₂ (Job.Moves call) jobs jobs :=
  List.forall₂_same.mpr fun job _ => .stay job

namespace InMemoryJobQueue

variable {queue : InMemoryJobQueue} {call : QueueCall}

section

variable {related : Job → Job → Prop} {token : String}

/-- A claim changes at most one job, a queued one. -/
theorem claimFirst_forall₂ (hrefl : ∀ job, related job job)
    (hclaim : ∀ (job : Job) leasedUntil, job.status = .queued →
      related job (job.claim token leasedUntil)) (jobType : JobType) (now : ℤ)
    (order : List String) :
    List.Forall₂ related queue.jobs (queue.claimFirst jobType token now order).2.jobs := by
  induction order with
  | nil => exact List.forall₂_same.mpr fun job _ => hrefl job
  | cons jobId rest ih =>
      unfold claimFirst
      split
      next => exact ih
      next job hget =>
        split
        next hready => exact updateFirst_forall₂ hrefl hget (hclaim job _ hready.2.1)
        next => exact ih

theorem claimById_forall₂ (hrefl : ∀ job, related job job)
    (hclaim : ∀ (job : Job) leasedUntil, job.status = .queued →
      related job (job.claim token leasedUntil)) (jobId : String) (now : ℤ) :
    List.Forall₂ related queue.jobs (queue.claimById jobId token now).2.jobs := by
  unfold claimById
  split
  next => exact List.forall₂_same.mpr fun job _ => hrefl job
  next job hget =>
    split
    next => exact List.forall₂_same.mpr fun job _ => hrefl job
    next hready =>
      have hqueued : job.status = .queued := by
        by_contra hother
        exact hready (.inl hother)
      exact updateFirst_forall₂ hrefl hget (hclaim job _ hqueued)

/-- What a claim hands out is the job of that id. -/
theorem claimFirst_eq_some {jobType : JobType} {now : ℤ} {order : List String} {claimed : Job}
    (hclaim : (queue.claimFirst jobType token now order).1 = some claimed) :
    ∃ job, queue.get claimed.id = some job ∧ claimed.meetingId = job.meetingId := by
  induction order with
  | nil => cases hclaim
  | cons jobId rest ih =>
      unfold claimFirst at hclaim
      split at hclaim
      next => exact ih hclaim
      next job hget =>
        split at hclaim
        next =>
          obtain rfl := Option.some.inj hclaim
          have hid : job.id = jobId := find?_id hget
          exact ⟨job, by rw [← hid] at hget; exact hget, rfl⟩
        next => exact ih hclaim

theorem claimById_eq_some {jobId : String} {now : ℤ} {claimed : Job}
    (hclaim : (queue.claimById jobId token now).1 = some claimed) :
    claimed.id = jobId ∧ ∃ job, queue.get jobId = some job ∧ claimed.meetingId = job.meetingId := by
  unfold claimById at hclaim
  split at hclaim
  next => cases hclaim
  next job hget =>
    split at hclaim
    next => cases hclaim
    next =>
      obtain rfl := Option.some.inj hclaim
      have hid : job.id = jobId := find?_id hget
      exact ⟨hid, job, hget, rfl⟩

end

theorem claimFirst_moves {jobType : JobType} {token : String}
    (htoken : call.token? = some token) (now : ℤ) (order : List String) :
    List.Forall₂ (Job.Moves call) queue.jobs
      (queue.claimFirst jobType token now order).2.jobs :=
  claimFirst_forall₂ .stay (fun _ _ hqueued => .claim _ htoken hqueued) jobType now order

theorem claimById_moves {jobId token : String} (htoken : call.token? = some token) (now : ℤ) :
    List.Forall₂ (Job.Moves call) queue.jobs (queue.claimById jobId token now).2.jobs :=
  claimById_forall₂ .stay (fun _ _ hqueued => .claim _ htoken hqueued) jobId now

/-- A claimant's operation is accepted, or it is an error and nothing changes. -/
theorem updateClaimed_cases (queue : InMemoryJobQueue) (job : Job) (now : ℤ)
    (update : Job → Job) :
    (∃ err, queue.updateClaimed job now update = (.error err, queue)) ∨
      ∃ current token, requireClaimToken job = .ok token ∧ queue.get job.id = some current ∧
        hasActiveClaim current token now = true ∧
        queue.updateClaimed job now update = (.ok (update current),
          { queue with jobs := updateFirst job.id update queue.jobs }) := by
  unfold updateClaimed
  cases htoken : requireClaimToken job with
  | error err => exact .inl ⟨err, rfl⟩
  | ok token =>
      cases hget : queue.get job.id with
      | none => exact .inl ⟨_, rfl⟩
      | some current =>
          cases hactive : hasActiveClaim current token now with
          | false => exact .inl ⟨_, by simp only [hactive]; rfl⟩
          | true => exact .inr ⟨current, token, rfl, rfl, hactive, by simp [hactive]⟩

theorem hasActiveClaim_iff {job : Job} {token : String} {now : ℤ} :
    hasActiveClaim job token now = true ↔ job.status = .running ∧
      job.claimToken = some token ∧ ∃ lease, job.leasedUntil = some lease ∧ now < lease := by
  unfold hasActiveClaim leaseExpired
  cases job.leasedUntil with
  | none => simp
  | some lease => simp [and_assoc]

theorem updateClaimed_moves (job : Job) (now : ℤ) {update : Job → Job}
    (hupdate : ∀ current, current.id = job.id → current.status = .running →
      Job.Moves call current (update current)) :
    List.Forall₂ (Job.Moves call) queue.jobs (queue.updateClaimed job now update).2.jobs := by
  rcases queue.updateClaimed_cases job now update with
    ⟨err, heq⟩ | ⟨current, token, -, hget, hactive, heq⟩
  · rw [heq]
    exact forall₂_stay call _
  · rw [heq]
    exact updateFirst_forall₂ .stay hget
      (hupdate current (find?_id hget) (hasActiveClaim_iff.mp hactive).1)

theorem cancel_moves (jobId : String) :
    List.Forall₂ (Job.Moves call) queue.jobs (queue.cancel jobId).2.jobs := by
  unfold cancel
  split
  next => exact forall₂_stay call _
  next job hget =>
    split
    next => exact forall₂_stay call _
    next hqueued =>
      exact updateFirst_forall₂ .stay hget
        (.finish .canceled none (.inr (not_not.mp hqueued)) (by decide) fun _ => rfl)

/-- The part of the moves that recovery uses; it can be repeated. -/
def Recovers (job next : Job) : Prop :=
  next = job ∨ job.status = .running ∧ next = job.finish .queued none

theorem Recovers.trans {job next last : Job} (hfirst : Recovers job next)
    (hsecond : Recovers next last) : Recovers job last := by
  rcases hfirst with rfl | ⟨hrunning, rfl⟩
  · exact hsecond
  · rcases hsecond with rfl | ⟨hagain, -⟩
    · exact .inr ⟨hrunning, rfl⟩
    · -- A recovered job is queued, so it is not recovered twice.
      cases hagain

theorem recoverLoop_recovers (queue : InMemoryJobQueue) (jobType : JobType) (limit : ℕ) (now : ℤ)
    (recovered order : List String) :
    List.Forall₂ Recovers queue.jobs
      (queue.recoverLoop jobType limit now recovered order).2.jobs := by
  have hstay : ∀ jobs : List Job, List.Forall₂ Recovers jobs jobs := fun jobs =>
    List.forall₂_same.mpr fun job _ => .inl rfl
  induction order generalizing queue recovered with
  | nil => exact hstay _
  | cons jobId rest ih =>
      unfold recoverLoop
      split
      next => exact hstay _
      next =>
        split
        next => exact ih queue recovered
        next job hget =>
          split
          next hstale =>
            have hupdate : List.Forall₂ Recovers queue.jobs
                (updateFirst jobId (Job.finish .queued none) queue.jobs) :=
              updateFirst_forall₂ (fun _ => .inl rfl) hget (.inr ⟨hstale.2.1, rfl⟩)
            have hrest := ih { queue with
              jobs := updateFirst jobId (Job.finish .queued none) queue.jobs }
              (recovered ++ [job.meetingId])
            exact hupdate.comp_of (fun _ _ _ => Recovers.trans) hrest
          next => exact ih queue recovered

theorem recoverStaleRunning_moves (jobType : JobType) (limit : ℕ) (now : ℤ) :
    List.Forall₂ (Job.Moves call) queue.jobs
      (queue.recoverStaleRunning jobType limit now).2.jobs := by
  unfold recoverStaleRunning
  split
  next => exact forall₂_stay call _
  next =>
    refine (recoverLoop_recovers queue jobType limit now [] queue.order).imp fun job next hjob => ?_
    rcases hjob with rfl | ⟨hrunning, rfl⟩
    · exact .stay _
    · refine .finish .queued none (.inl hrunning) (by decide) fun hqueued => ?_
      rw [hrunning] at hqueued
      cases hqueued

/-- Every call moves the jobs one by one or appends a fresh one. -/
theorem step_moves (queue : InMemoryJobQueue) (call : QueueCall) :
    List.Forall₂ (Job.Moves call) queue.jobs (queue.step call).jobs ∨
      ∃ fresh : FreshJob, (∀ job ∈ queue.jobs, job.id ≠ fresh.id) ∧
        (queue.step call).jobs = queue.jobs ++ [fresh.job] := by
  obtain ⟨now, op⟩ := call
  cases op with
  | enqueue fresh =>
      simp only [step, enqueue]
      split
      next => exact .inl (forall₂_stay _ _)
      next habsent =>
        refine .inr ⟨fresh, fun job hjob hid => habsent ?_, rfl⟩
        exact List.any_eq_true.mpr ⟨job, hjob, decide_eq_true hid⟩
  | claimNext jobType token => exact .inl (claimFirst_moves rfl _ _)
  | claimById jobId token => exact .inl (claimById_moves rfl _)
  | cancel jobId => exact .inl (cancel_moves _)
  | recoverStaleRunning jobType limit => exact .inl (recoverStaleRunning_moves _ _ _)
  | claimant op job =>
      left
      cases op with
      | heartbeat =>
          exact updateClaimed_moves job now fun _ _ hrunning => .extendLease _ hrunning
      | markDone =>
          refine updateClaimed_moves job now fun _ _ hrunning =>
            .finish .done none (.inl hrunning) (by decide) fun hqueued => ?_
          rw [hrunning] at hqueued
          cases hqueued
      | markFailed errorMessage =>
          refine updateClaimed_moves job now fun _ _ hrunning =>
            .finish .failed _ (.inl hrunning) (by decide) fun hqueued => ?_
          rw [hrunning] at hqueued
          cases hqueued
      | retry errorMessage maxRetries =>
          exact updateClaimed_moves job now fun _ hid hrunning =>
            .retry errorMessage maxRetries rfl hid.symm hrunning

/-- A property of jobs that fresh ones have and moves keep is kept by a call. -/
theorem step_forall (good : Job → Prop) {queue : InMemoryJobQueue} {call : QueueCall}
    (hmoves : ∀ job next, job.Moves call next → good job → good next)
    (hfresh : ∀ fresh : FreshJob, good fresh.job) (hqueue : ∀ job ∈ queue.jobs, good job) :
    ∀ job ∈ (queue.step call).jobs, good job := by
  rcases queue.step_moves call with hforall | ⟨fresh, -, heq⟩
  · intro next hnext
    obtain ⟨job, hjob, hmove⟩ := hforall.exists_of_mem_right hnext
    exact hmoves job next hmove (hqueue job hjob)
  · rw [heq]
    intro job hjob
    rcases List.mem_append.mp hjob with hjob | hjob
    · exact hqueue job hjob
    · rw [List.mem_singleton.mp hjob]
      exact hfresh fresh

/-- Every job is still there after a call, one move further. -/
theorem step_exists {queue : InMemoryJobQueue} (call : QueueCall) {job : Job}
    (hjob : job ∈ queue.jobs) : ∃ next ∈ (queue.step call).jobs, job.Moves call next := by
  rcases queue.step_moves call with hforall | ⟨fresh, -, heq⟩
  · exact hforall.exists_of_mem_left hjob
  · exact ⟨job, by rw [heq]; exact List.mem_append_left _ hjob, .stay job⟩

end InMemoryJobQueue

/-! ## Invariants of one job -/

/-- The claim fields say whether the job is running. -/
structure Job.ClaimConsistent (job : Job) : Prop where
  running : job.status = .running → job.claimToken.isSome ∧ job.leasedUntil.isSome
  idle : job.status ≠ .running → job.claimToken = none ∧ job.leasedUntil = none

/-- The count exceeds the limit only in a job that has failed for good. -/
structure Job.RetriesWithin (maxRetries : ℕ) (job : Job) : Prop where
  count_le : job.retryCount ≤ maxRetries + 1
  open_le : job.status = .queued ∨ job.status = .running → job.retryCount ≤ maxRetries

def Job.Terminal (job : Job) : Prop :=
  job.status = .done ∨ job.status = .failed ∨ job.status = .canceled

section

variable {call : QueueCall} {job next : Job}

theorem Job.retry_status (job : Job) (errorMessage : String) (maxRetries : ℕ) (now : ℤ) :
    (job.retry errorMessage maxRetries now).status =
      if job.retryCount + 1 > maxRetries then .failed else .queued := by
  unfold Job.retry
  simp only
  split <;> rfl

@[simp] theorem Job.retry_fields (job : Job) (errorMessage : String) (maxRetries : ℕ) (now : ℤ) :
    (job.retry errorMessage maxRetries now).id = job.id ∧
      (job.retry errorMessage maxRetries now).retryCount = job.retryCount + 1 ∧
      (job.retry errorMessage maxRetries now).claimToken = none ∧
      (job.retry errorMessage maxRetries now).leasedUntil = none := by
  unfold Job.retry
  simp only
  split <;> exact ⟨rfl, rfl, rfl, rfl⟩

theorem Job.Moves.claimConsistent (hmove : job.Moves call next) (hjob : job.ClaimConsistent) :
    next.ClaimConsistent := by
  cases hmove with
  | stay => exact hjob
  | claim leasedUntil htoken hqueued =>
      exact ⟨fun _ => ⟨rfl, rfl⟩, fun hidle => absurd rfl hidle⟩
  | extendLease leasedUntil hrunning =>
      exact ⟨fun _ => ⟨(hjob.running hrunning).1, rfl⟩, fun hidle => absurd hrunning hidle⟩
  | finish status errorMessage hactive hstatus hcanceled =>
      exact ⟨fun hrunning => absurd hrunning hstatus, fun _ => ⟨rfl, rfl⟩⟩
  | retry errorMessage maxRetries hcall hhandle hrunning =>
      obtain ⟨-, -, htoken, hlease⟩ := job.retry_fields errorMessage maxRetries call.now
      refine ⟨fun hagain => ?_, fun _ => ⟨htoken, hlease⟩⟩
      rw [Job.retry_status] at hagain
      split at hagain <;> cases hagain

theorem Job.Moves.retriesWithin {maxRetries : ℕ} (hmove : job.Moves call next)
    (hlimit : ∀ errorMessage limit handle,
      call.op = .claimant (.retry errorMessage limit) handle → handle.id = job.id →
        limit ≤ maxRetries)
    (hjob : job.RetriesWithin maxRetries) : next.RetriesWithin maxRetries := by
  cases hmove with
  | stay => exact hjob
  | claim leasedUntil htoken hqueued =>
      exact ⟨hjob.count_le, fun _ => hjob.open_le (.inl hqueued)⟩
  | extendLease leasedUntil hrunning =>
      exact ⟨hjob.count_le, fun _ => hjob.open_le (.inr hrunning)⟩
  | finish status errorMessage hactive hstatus hcanceled =>
      exact ⟨hjob.count_le, fun _ => hjob.open_le hactive.symm⟩
  | retry errorMessage limit hcall hhandle hrunning =>
      have hlimit := hlimit errorMessage limit _ hcall hhandle
      have hopen := hjob.open_le (.inr hrunning)
      obtain ⟨-, hcount, -⟩ := job.retry_fields errorMessage limit call.now
      refine ⟨by omega, fun hstatus => ?_⟩
      rw [Job.retry_status] at hstatus
      split at hstatus
      next => simp at hstatus
      next hwithin => omega

theorem Job.Moves.of_terminal (hmove : job.Moves call next) (hterminal : job.Terminal) :
    next = job := by
  cases hmove with
  | stay => rfl
  | claim leasedUntil htoken hqueued => simp [Job.Terminal, hqueued] at hterminal
  | extendLease leasedUntil hrunning => simp [Job.Terminal, hrunning] at hterminal
  | finish status errorMessage hactive hstatus hcanceled =>
      rcases hactive with hactive | hactive <;> simp [Job.Terminal, hactive] at hterminal
  | retry errorMessage maxRetries hcall hhandle hrunning =>
      simp [Job.Terminal, hrunning] at hterminal

theorem Job.Moves.id_eq (hmove : job.Moves call next) : next.id = job.id := by
  cases hmove with
  | retry errorMessage maxRetries hcall hhandle hrunning =>
      exact (job.retry_fields errorMessage maxRetries call.now).1
  | _ => rfl

/-- A job holds a token after a call only if it held it before or was issued it. -/
theorem Job.Moves.token_source {token : String} (hmove : job.Moves call next)
    (htoken : next.claimToken = some token) :
    job.claimToken = some token ∨ call.token? = some token := by
  cases hmove with
  | stay => exact .inl htoken
  | claim leasedUntil hissued hqueued => exact .inr (hissued.trans htoken)
  | extendLease leasedUntil hrunning => exact .inl htoken
  | finish status errorMessage hactive hstatus hcanceled => cases htoken
  | retry errorMessage maxRetries hcall hhandle hrunning =>
      rw [(job.retry_fields errorMessage maxRetries call.now).2.2.1] at htoken
      cases htoken

theorem Job.Moves.retryCount_cases (hmove : job.Moves call next) :
    next.retryCount = job.retryCount ∨ next.retryCount = job.retryCount + 1 ∧
      ∃ errorMessage maxRetries handle,
        call.op = .claimant (.retry errorMessage maxRetries) handle ∧ handle.id = job.id := by
  cases hmove with
  | retry errorMessage maxRetries hcall hhandle hrunning =>
      exact .inr ⟨(job.retry_fields errorMessage maxRetries call.now).2.1,
        errorMessage, maxRetries, _, hcall, hhandle⟩
  | _ => exact .inl rfl

end

/-! ## The job that a lookup finds -/

/-- The job found under an id moves as every job does. -/
theorem find?_of_forall₂ {related : Job → Job → Prop} {before after : List Job}
    (hforall : List.Forall₂ related before after)
    (hid : ∀ job next, related job next → next.id = job.id) {jobId : String} {job : Job}
    (hfind : before.find? (·.id = jobId) = some job) :
    ∃ next, after.find? (·.id = jobId) = some next ∧ related job next := by
  induction hforall with
  | nil => cases hfind
  | @cons first changed rest others hhead _ ih =>
      by_cases hwanted : first.id = jobId
      · rw [List.find?_cons_of_pos (by simpa using hwanted)] at hfind
        obtain rfl := Option.some.inj hfind
        refine ⟨changed, List.find?_cons_of_pos ?_, hhead⟩
        simpa [hid _ _ hhead] using hwanted
      · rw [List.find?_cons_of_neg (by simpa using hwanted)] at hfind
        obtain ⟨next, hnext, hrelated⟩ := ih hfind
        refine ⟨next, ?_, hrelated⟩
        rw [List.find?_cons_of_neg (by simpa [hid _ _ hhead] using hwanted)]
        exact hnext

theorem find?_updateFirst {jobs : List Job} {jobId : String} {job : Job} {update : Job → Job}
    (hfind : jobs.find? (·.id = jobId) = some job) (hid : (update job).id = job.id) :
    (updateFirst jobId update jobs).find? (·.id = jobId) = some (update job) := by
  induction jobs with
  | nil => cases hfind
  | cons first rest ih =>
      unfold updateFirst
      split
      next hwanted =>
        rw [List.find?_cons_of_pos (by simpa using hwanted)] at hfind
        obtain rfl := Option.some.inj hfind
        exact List.find?_cons_of_pos (by simpa [hid] using hwanted)
      next hwanted =>
        rw [List.find?_cons_of_neg (by simpa using hwanted)] at hfind ⊢
        exact ih hfind

/-! ## Guarantees of a run -/

namespace InMemoryJobQueue

theorem updateClaimed_leaseDuration (queue : InMemoryJobQueue) (job : Job) (now : ℤ)
    (update : Job → Job) :
    (queue.updateClaimed job now update).2.leaseDuration = queue.leaseDuration := by
  rcases queue.updateClaimed_cases job now update with ⟨err, heq⟩ | ⟨current, token, -, -, -, heq⟩
  · rw [heq]
  · rw [heq]

theorem claimFirst_leaseDuration (queue : InMemoryJobQueue) (jobType : JobType) (token : String)
    (now : ℤ) (order : List String) :
    (queue.claimFirst jobType token now order).2.leaseDuration = queue.leaseDuration := by
  induction order with
  | nil => rfl
  | cons jobId rest ih =>
      unfold claimFirst
      split
      next => exact ih
      next => split <;> first | rfl | exact ih

theorem recoverLoop_leaseDuration (queue : InMemoryJobQueue) (jobType : JobType) (limit : ℕ)
    (now : ℤ) (recovered order : List String) :
    (queue.recoverLoop jobType limit now recovered order).2.leaseDuration = queue.leaseDuration := by
  induction order generalizing queue recovered with
  | nil => rfl
  | cons jobId rest ih =>
      unfold recoverLoop
      split
      next => rfl
      next =>
        split
        next => exact ih queue recovered
        next =>
          split
          next => rw [ih]
          next => exact ih queue recovered

/-- The length of a lease is fixed. -/
theorem step_leaseDuration (queue : InMemoryJobQueue) (call : QueueCall) :
    (queue.step call).leaseDuration = queue.leaseDuration := by
  obtain ⟨now, op⟩ := call
  cases op with
  | enqueue fresh =>
      simp only [step, enqueue]
      split <;> rfl
  | claimNext jobType token => exact queue.claimFirst_leaseDuration jobType token now queue.order
  | claimById jobId token =>
      simp only [step, claimById]
      split
      next => rfl
      next => split <;> rfl
  | claimant op job => cases op <;> exact queue.updateClaimed_leaseDuration job now _
  | cancel jobId =>
      simp only [step, cancel]
      split
      next => rfl
      next => split <;> rfl
  | recoverStaleRunning jobType limit =>
      simp only [step, recoverStaleRunning]
      split
      next => rfl
      next => exact queue.recoverLoop_leaseDuration jobType limit now [] queue.order

/-- A claimant's operation on the job: refused, or applied to the running job. -/
theorem get_updateClaimed (queue : InMemoryJobQueue) {job current : Job} (now : ℤ)
    {update : Job → Job} (hget : queue.get job.id = some current)
    (hid : (update current).id = current.id) :
    (∃ err, queue.updateClaimed job now update = (.error err, queue)) ∨
      current.status = .running ∧
        (queue.updateClaimed job now update).1 = .ok (update current) ∧
        (queue.updateClaimed job now update).2.get job.id = some (update current) := by
  rcases queue.updateClaimed_cases job now update with
    hrefused | ⟨found, token, -, hfound, hactive, heq⟩
  · exact .inl hrefused
  · rw [hget] at hfound
    obtain rfl := Option.some.inj hfound
    refine .inr ⟨(hasActiveClaim_iff.mp hactive).1, by rw [heq], ?_⟩
    rw [heq]
    exact find?_updateFirst hget hid

/-- The worker's copy of the job carries the token of the running job, and the
lease has not run out. -/
def HoldsClaim (queue : InMemoryJobQueue) (job : Job) (now : ℤ) : Prop :=
  ∃ current token lease, job.claimToken = some token ∧ token ≠ "" ∧
    queue.get job.id = some current ∧ current.status = .running ∧
    current.claimToken = some token ∧ current.leasedUntil = some lease ∧ now < lease

/-- The token is not, or no longer, the one of the job. -/
def Stale (queue : InMemoryJobQueue) (jobId token : String) : Prop :=
  ∀ job ∈ queue.jobs, job.id = jobId → job.claimToken ≠ some token

theorem requireClaimToken_eq_ok {job : Job} {token : String} :
    requireClaimToken job = .ok token ↔ job.claimToken = some token ∧ token ≠ "" := by
  unfold requireClaimToken
  split
  next found hfound =>
    obtain ⟨htoken, hnonempty⟩ := Option.filter_eq_some_iff.mp hfound
    simp only [decide_eq_true_eq] at hnonempty
    simp only [Except.ok.injEq, htoken, Option.some.injEq]
    constructor
    · rintro rfl
      exact ⟨rfl, hnonempty⟩
    · exact And.left
  next hnone =>
    simp only [reduceCtorEq, false_iff, not_and, not_not]
    intro htoken
    rw [htoken] at hnone
    simpa using hnone

theorem holdsClaim_iff {queue : InMemoryJobQueue} {job : Job} {now : ℤ} :
    queue.HoldsClaim job now ↔ ∃ current token, requireClaimToken job = .ok token ∧
      queue.get job.id = some current ∧ hasActiveClaim current token now = true := by
  simp only [HoldsClaim, requireClaimToken_eq_ok, hasActiveClaim_iff]
  constructor
  · rintro ⟨current, token, lease, htoken, hnonempty, hget, hrunning, hcurrent, hlease, hnow⟩
    exact ⟨current, token, ⟨htoken, hnonempty⟩, hget, hrunning, hcurrent, lease, hlease, hnow⟩
  · rintro ⟨current, token, ⟨htoken, hnonempty⟩, hget, hrunning, hcurrent, lease, hlease, hnow⟩
    exact ⟨current, token, lease, htoken, hnonempty, hget, hrunning, hcurrent, hlease, hnow⟩

theorem updateClaimed_ok {queue : InMemoryJobQueue} {job : Job} {now : ℤ}
    (hholds : queue.HoldsClaim job now) (update : Job → Job) :
    ∃ current, (queue.updateClaimed job now update).1 = .ok current := by
  obtain ⟨current, token, htoken, hget, hactive⟩ := holdsClaim_iff.mp hholds
  exact ⟨update current, by simp [updateClaimed, htoken, hget, hactive]⟩

theorem HoldsClaim.updateClaimed_eq {queue : InMemoryJobQueue} {job : Job} {now : ℤ}
    (hholds : queue.HoldsClaim job now) :
    ∃ current, queue.get job.id = some current ∧ ∀ update, queue.updateClaimed job now update =
      (.ok (update current), { queue with jobs := updateFirst job.id update queue.jobs }) := by
  obtain ⟨current, token, htoken, hget, hactive⟩ := holdsClaim_iff.mp hholds
  refine ⟨current, hget, fun update => ?_⟩
  simp only [updateClaimed, htoken, hget, hactive]
  rfl

/-- A heartbeat in time keeps the claim. -/
theorem HoldsClaim.heartbeat {queue : InMemoryJobQueue} {job : Job} {now : ℤ}
    (hholds : queue.HoldsClaim job now) (hlease : 0 < queue.leaseDuration) :
    (queue.heartbeat job now).1 = .ok () ∧ (queue.heartbeat job now).2.HoldsClaim job now := by
  obtain ⟨found, hfound, heq⟩ := hholds.updateClaimed_eq
  obtain ⟨current, token, lease, htoken, hnonempty, hget, hrunning, hcurrent, -, -⟩ := hholds
  rw [hfound] at hget
  obtain rfl := Option.some.inj hget
  simp only [InMemoryJobQueue.heartbeat, heq, Except.map, true_and]
  refine ⟨_, token, queue.nextLeaseDeadline now, htoken, hnonempty, find?_updateFirst hfound rfl,
    hrunning, hcurrent, rfl, ?_⟩
  simp only [nextLeaseDeadline]
  omega

theorem updateClaimed_error {queue : InMemoryJobQueue} {job : Job} {now : ℤ}
    (hlost : ¬queue.HoldsClaim job now) (update : Job → Job) :
    ∃ err, queue.updateClaimed job now update = (.error err, queue) := by
  rcases queue.updateClaimed_cases job now update with
    herr | ⟨current, token, htoken, hget, hactive, -⟩
  · exact herr
  · exact absurd (holdsClaim_iff.mpr ⟨current, token, htoken, hget, hactive⟩) hlost

theorem claimantCall_ok {queue : InMemoryJobQueue} {job : Job} {now : ℤ}
    (hholds : queue.HoldsClaim job now) (op : ClaimantOp) :
    (queue.claimantCall op job now).1 = .ok () := by
  cases op with
  | heartbeat =>
      obtain ⟨current, hok⟩ := updateClaimed_ok hholds
        (Job.extendLease (queue.nextLeaseDeadline now))
      simp [claimantCall, heartbeat, hok, Except.map]
  | markDone =>
      obtain ⟨current, hok⟩ := updateClaimed_ok hholds (Job.finish .done none)
      simp [claimantCall, markDone, hok, Except.map]
  | markFailed errorMessage =>
      obtain ⟨current, hok⟩ := updateClaimed_ok hholds (Job.finish .failed (some errorMessage))
      simp [claimantCall, markFailed, hok, Except.map]
  | retry errorMessage maxRetries =>
      obtain ⟨current, hok⟩ := updateClaimed_ok hholds (Job.retry errorMessage maxRetries now)
      simp [claimantCall, retry, hok, Except.map]

theorem claimantCall_error {queue : InMemoryJobQueue} {job : Job} {now : ℤ}
    (hlost : ¬queue.HoldsClaim job now) (op : ClaimantOp) :
    ∃ err, queue.claimantCall op job now = (.error err, queue) := by
  cases op with
  | heartbeat =>
      obtain ⟨err, herr⟩ := updateClaimed_error hlost
        (Job.extendLease (queue.nextLeaseDeadline now))
      exact ⟨err, by simp [claimantCall, heartbeat, herr, Except.map]⟩
  | markDone =>
      obtain ⟨err, herr⟩ := updateClaimed_error hlost (Job.finish .done none)
      exact ⟨err, by simp [claimantCall, markDone, herr, Except.map]⟩
  | markFailed errorMessage =>
      obtain ⟨err, herr⟩ := updateClaimed_error hlost (Job.finish .failed (some errorMessage))
      exact ⟨err, by simp [claimantCall, markFailed, herr, Except.map]⟩
  | retry errorMessage maxRetries =>
      obtain ⟨err, herr⟩ := updateClaimed_error hlost (Job.retry errorMessage maxRetries now)
      exact ⟨err, by simp [claimantCall, retry, herr, Except.map]⟩

theorem Stale.not_holdsClaim {queue : InMemoryJobQueue} {job : Job} {token : String}
    (hstale : queue.Stale job.id token) (htoken : job.claimToken = some token) (now : ℤ) :
    ¬queue.HoldsClaim job now := by
  rintro ⟨current, held, -, hheld, -, hget, -, hcurrent, -⟩
  rw [htoken] at hheld
  cases hheld
  exact hstale current (List.mem_of_find?_eq_some hget) (find?_id hget) hcurrent

theorem HoldsClaim.token_unique {queue : InMemoryJobQueue} {left right : Job}
    {leftNow rightNow : ℤ} (hid : left.id = right.id) (hleft : queue.HoldsClaim left leftNow)
    (hright : queue.HoldsClaim right rightNow) : left.claimToken = right.claimToken := by
  obtain ⟨current, token, -, htoken, -, hget, -, hcurrent, -⟩ := hleft
  obtain ⟨other, otherToken, -, hotherToken, -, hotherGet, -, hother, -⟩ := hright
  rw [hid, hotherGet] at hget
  cases hget
  rw [htoken, hotherToken, ← hcurrent, hother]

/-- A token that is stale stays stale until it is issued again. -/
theorem Stale.step {queue : InMemoryJobQueue} {jobId token : String} {call : QueueCall}
    (hstale : queue.Stale jobId token) (hissued : call.token? ≠ some token) :
    (queue.step call).Stale jobId token := by
  refine step_forall (fun job => job.id = jobId → job.claimToken ≠ some token) ?_
    (fun _ _ => by simp [FreshJob.job]) hstale
  intro job next hmove hjob hid htoken
  rcases hmove.token_source htoken with hheld | hnew
  · exact hjob (hmove.id_eq.symm.trans hid) hheld
  · exact hissued hnew

/-- Jobs keep their ids, and a job is only enqueued under a new one. -/
theorem step_ids_nodup {queue : InMemoryJobQueue} (hqueue : (queue.jobs.map (·.id)).Nodup)
    (call : QueueCall) : ((queue.step call).jobs.map (·.id)).Nodup := by
  rcases queue.step_moves call with hforall | ⟨fresh, habsent, heq⟩
  · rwa [hforall.map_eq_of (·.id) fun _ _ hmove => hmove.id_eq]
  · rw [heq, List.map_append, List.map_singleton]
    refine List.nodup_append.mpr ⟨hqueue, List.nodup_singleton _, ?_⟩
    intro jobId hjobId other hother
    obtain ⟨job, hjob, rfl⟩ := List.mem_map.mp hjobId
    rw [List.mem_singleton.mp hother]
    exact habsent job hjob

theorem run_ids_nodup (calls : List QueueCall) :
    ((Machine.run step {} calls).jobs.map (·.id)).Nodup := by
  refine Machine.run_invariant step (fun queue => (queue.jobs.map (·.id)).Nodup) ?_ ?_ calls
  · intro queue call hqueue
    exact step_ids_nodup hqueue call
  · exact List.nodup_nil

theorem run_claimConsistent (calls : List QueueCall) :
    ∀ job ∈ (Machine.run step {} calls).jobs, job.ClaimConsistent := by
  refine Machine.run_invariant step (fun queue => ∀ job ∈ queue.jobs, job.ClaimConsistent)
    (fun queue call => step_forall Job.ClaimConsistent (fun _ _ => Job.Moves.claimConsistent) ?_)
    (by simp) calls
  intro fresh
  exact ⟨fun hrunning => absurd hrunning (by simp [FreshJob.job]), fun _ => ⟨rfl, rfl⟩⟩

/-- A job that is not running has no token, so all tokens are stale for it. -/
theorem run_stale_of_idle {calls : List QueueCall} {idle : Job}
    (hmem : idle ∈ (Machine.run step {} calls).jobs) (hidle : idle.status ≠ .running)
    (token : String) : (Machine.run step {} calls).Stale idle.id token := by
  intro job hjob hid htoken
  have hsame : job = idle := List.inj_on_of_nodup_map (run_ids_nodup calls) hjob hmem hid
  rw [hsame, ((run_claimConsistent calls idle hmem).idle hidle).1] at htoken
  cases htoken

theorem run_retriesWithin {calls : List QueueCall} {jobId : String} {maxRetries : ℕ}
    (hlimit : ∀ call ∈ calls, ∀ errorMessage limit handle,
      call.op = .claimant (.retry errorMessage limit) handle → handle.id = jobId →
        limit ≤ maxRetries) :
    ∀ job ∈ (Machine.run step {} calls).jobs, job.id = jobId → job.RetriesWithin maxRetries := by
  refine Machine.run_invariant_of_mem step
    (fun queue => ∀ job ∈ queue.jobs, job.id = jobId → job.RetriesWithin maxRetries) ?_ (by simp)
  intro queue call hcall
  refine step_forall (fun job => job.id = jobId → job.RetriesWithin maxRetries) ?_ ?_
  · intro job next hmove hjob hid
    have hbefore : job.id = jobId := hmove.id_eq.symm.trans hid
    refine hmove.retriesWithin (fun errorMessage limit handle hop hhandle => ?_) (hjob hbefore)
    exact hlimit call hcall errorMessage limit handle hop (hhandle.trans hbefore)
  · intro fresh _
    exact ⟨Nat.zero_le _, fun _ => Nat.zero_le _⟩

theorem run_stale {queue : InMemoryJobQueue} {calls : List QueueCall} {jobId token : String}
    (hstale : queue.Stale jobId token)
    (hissued : ∀ call ∈ calls, call.token? ≠ some token) :
    (Machine.run step queue calls).Stale jobId token :=
  Machine.run_invariant_of_mem step (Stale · jobId token)
    (fun _ call hcall hqueue => Stale.step hqueue (hissued call hcall)) hstale

theorem run_terminal {queue : InMemoryJobQueue} {job : Job} (hterminal : job.Terminal)
    (hjob : job ∈ queue.jobs) (calls : List QueueCall) :
    job ∈ (Machine.run step queue calls).jobs := by
  refine Machine.run_invariant step (job ∈ ·.jobs) (fun queue call hqueue => ?_) hjob calls
  obtain ⟨next, hnext, hmove⟩ := step_exists call hqueue
  rwa [hmove.of_terminal hterminal] at hnext

end InMemoryJobQueue

open InMemoryJobQueue Machine in
/-- What holds of the queue after the calls. -/
structure QueueGuarantees (calls : List QueueCall) : Prop where
  running_iff : ∀ job ∈ (run step {} calls).jobs, job.status = .running ↔
    job.claimToken.isSome ∧ job.leasedUntil.isSome
  idle_unclaimed : ∀ job ∈ (run step {} calls).jobs, job.status ≠ .running →
    job.claimToken = none ∧ job.leasedUntil = none
  oneClaimant : ∀ left right leftOp rightOp leftNow rightNow, left.id = right.id →
    ((run step {} calls).claimantCall leftOp left leftNow).1 = .ok () →
    ((run step {} calls).claimantCall rightOp right rightNow).1 = .ok () →
    left.claimToken = right.claimToken
  accepted_iff : ∀ op job now, ((run step {} calls).claimantCall op job now).1 = .ok () ↔
    (run step {} calls).HoldsClaim job now
  rejected_unchanged : ∀ op job now, ¬(run step {} calls).HoldsClaim job now →
    ∃ err, (run step {} calls).claimantCall op job now = (.error err, run step {} calls)
  staleRejected : ∀ earlier later, calls = earlier ++ later → ∀ jobId token,
    token ∈ earlier.filterMap QueueCall.token? → (run step {} earlier).Stale jobId token →
    ∀ op job now, job.id = jobId → job.claimToken = some token →
      ∃ err, (run step {} calls).claimantCall op job now = (.error err, run step {} calls)
  idleRejected : ∀ earlier later, calls = earlier ++ later →
    ∀ idle ∈ (run step {} earlier).jobs, idle.status ≠ .running →
    ∀ token ∈ earlier.filterMap QueueCall.token?,
    ∀ op job now, job.id = idle.id → job.claimToken = some token →
      ∃ err, (run step {} calls).claimantCall op job now = (.error err, run step {} calls)
  terminal_kept : ∀ earlier later, calls = earlier ++ later →
    ∀ job ∈ (run step {} earlier).jobs, job.Terminal → job ∈ (run step {} calls).jobs
  retryCount_step : ∀ call, ∀ job ∈ (run step {} calls).jobs,
    ∃ next ∈ ((run step {} calls).step call).jobs, next.id = job.id ∧
      (next.retryCount = job.retryCount ∨ next.retryCount = job.retryCount + 1 ∧
        ∃ errorMessage maxRetries handle,
          call.op = .claimant (.retry errorMessage maxRetries) handle ∧ handle.id = job.id)
  retryCount_le : ∀ jobId maxRetries, (∀ call ∈ calls, ∀ errorMessage limit handle,
      call.op = .claimant (.retry errorMessage limit) handle → handle.id = jobId →
        limit ≤ maxRetries) →
    ∀ job ∈ (run step {} calls).jobs, job.id = jobId → job.retryCount ≤ maxRetries + 1

open InMemoryJobQueue in
/-- Every run from the empty queue in which claim tokens are never repeated. -/
theorem queue_run_guarantees (calls : List QueueCall)
    (htokens : (calls.filterMap QueueCall.token?).Nodup) : QueueGuarantees calls := by
  have hconsistent := run_claimConsistent calls
  have haccepted : ∀ op job now, ((Machine.run step {} calls).claimantCall op job now).1 = .ok () ↔
      (Machine.run step {} calls).HoldsClaim job now := by
    intro op job now
    refine ⟨fun hok => ?_, fun hholds => claimantCall_ok hholds op⟩
    by_contra hlost
    obtain ⟨err, herr⟩ := claimantCall_error hlost op
    rw [herr] at hok
    cases hok
  have hstaleRejected : ∀ earlier later, calls = earlier ++ later → ∀ jobId token,
      token ∈ earlier.filterMap QueueCall.token? →
      (Machine.run step {} earlier).Stale jobId token →
      ∀ op job now, job.id = jobId → job.claimToken = some token →
        ∃ err, (Machine.run step {} calls).claimantCall op job now =
          (.error err, Machine.run step {} calls) := by
    rintro earlier later rfl jobId token hissued hstale op job now rfl htoken
    refine claimantCall_error (Stale.not_holdsClaim ?_ htoken now) op
    rw [Machine.run_append]
    rw [List.filterMap_append] at htokens
    -- The token was issued in the first part, so no call of the second issues it again.
    refine run_stale hstale fun call hcall hagain => ?_
    have hlater : token ∈ later.filterMap QueueCall.token? :=
      List.mem_filterMap.mpr ⟨call, hcall, hagain⟩
    exact (List.nodup_append.mp htokens).2.2 token hissued token hlater rfl
  refine ⟨?_, fun job hjob => (hconsistent job hjob).idle, ?_, haccepted, ?_, hstaleRejected, ?_,
    ?_, ?_, ?_⟩
  · intro job hjob
    refine ⟨(hconsistent job hjob).running, fun ⟨htoken, _⟩ => ?_⟩
    by_contra hidle
    rw [((hconsistent job hjob).idle hidle).1] at htoken
    cases htoken
  · intro left right leftOp rightOp leftNow rightNow hid hleft hright
    exact ((haccepted _ _ _).mp hleft).token_unique hid ((haccepted _ _ _).mp hright)
  · intro op job now hlost
    exact claimantCall_error hlost op
  · intro earlier later hcalls idle hmem hidle token hissued
    exact hstaleRejected earlier later hcalls idle.id token hissued
      (run_stale_of_idle hmem hidle token)
  · rintro earlier later rfl job hjob hterminal
    rw [Machine.run_append]
    exact run_terminal hterminal hjob later
  · intro call job hjob
    obtain ⟨next, hnext, hmove⟩ := step_exists call hjob
    exact ⟨next, hnext, hmove.id_eq, hmove.retryCount_cases⟩
  · intro jobId maxRetries hlimit job hjob hid
    exact (run_retriesWithin hlimit job hjob hid).count_le

/-- A worker loses its claim to recovery, and the next claimant retries the job. -/
theorem queue_guarantees_after_recovery :
    QueueGuarantees
      [⟨0, .enqueue { id := "j1", meetingId := "m1", jobType := .summarize }⟩,
        ⟨0, .claimNext .summarize "t1"⟩,
        ⟨100000, .recoverStaleRunning .summarize 10⟩,
        ⟨100000, .claimById "j1" "t2"⟩,
        ⟨100001, .claimant (.retry "engine failed" 3) {
          id := "j1", meetingId := "m1", jobType := .summarize, status := .running,
          retryCount := 0, errorMessage := none, claimToken := some "t2",
          leasedUntil := some 190000, nextRunAt := none }⟩] :=
  queue_run_guarantees _ (by decide)

end DiscordTranscript.Infrastructure
