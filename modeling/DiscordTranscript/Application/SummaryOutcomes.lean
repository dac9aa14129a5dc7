import DiscordTranscript.Application.SummaryCompletion

/-! # How a summary job ends

What holds in every interleaving of any number of workers on one job, with
leases that run out and claims that are taken over. A failed job can leave its
meeting behind in one way only: the last attempt to mark it as failed finds it
moved back to a status that was tried before.
-/

namespace DiscordTranscript.Application

open Domain Infrastructure Interleaving

namespace SummaryCase

variable {about : SummaryCase} {shared : SummaryShared}

/-! ## Claims and recoveries -/

/-- What claims and recoveries do to a job. -/
def HandedOn (job next : Job) : Prop :=
  next = job ∨ (job.status = .queued ∨ job.status = .running) ∧
    (next.status = .queued ∨ next.status = .running) ∧ next.id = job.id ∧
    next.meetingId = job.meetingId

theorem HandedOn.id_eq {job next : Job} (hhanded : HandedOn job next) : next.id = job.id := by
  rcases hhanded with rfl | ⟨-, -, hid, -⟩
  · rfl
  · exact hid

theorem handedOn_claim {token : String} (job : Job) (leasedUntil : ℤ) (hqueued : job.status = .queued) :
    HandedOn job (job.claim token leasedUntil) :=
  .inr ⟨.inl hqueued, .inr rfl, rfl, rfl⟩

theorem event_handedOn (queue : InMemoryJobQueue) (jobId : String) (event : SummaryEvent) :
    List.Forall₂ HandedOn queue.jobs (queue.step (event.queueCall jobId)).jobs := by
  have hstay : ∀ job, HandedOn job job := fun job => .inl rfl
  cases event with
  | claimNext options token now =>
      exact InMemoryJobQueue.claimFirst_forall₂ hstay handedOn_claim .summarize now queue.order
  | claimById options token now =>
      exact InMemoryJobQueue.claimById_forall₂ hstay handedOn_claim jobId now
  | recoverStaleRunning limit now =>
      simp only [SummaryEvent.queueCall, InMemoryJobQueue.step, InMemoryJobQueue.recoverStaleRunning]
      split
      next => exact List.forall₂_same.mpr fun job _ => hstay job
      next =>
        refine (InMemoryJobQueue.recoverLoop_recovers queue .summarize limit now [] queue.order).imp
          fun job next hrecovers => ?_
        rcases hrecovers with rfl | ⟨hrunning, rfl⟩
        · exact hstay _
        · exact .inr ⟨.inr hrunning, .inl rfl, rfl, rfl⟩

theorem environment_change (hinv : about.Inv shared) (kept : ℕ → Prop) (event : SummaryEvent) :
    about.Change kept shared (summaryEnvironment about.jobId shared event) := by
  obtain ⟨job, hget, -⟩ := id hinv.job
  obtain ⟨next, hnext, hhanded⟩ := find?_of_forall₂
    (event_handedOn shared.queue about.jobId event) (fun _ _ hhanded => hhanded.id_eq) hget
  refine hinv.change_job kept hget hnext (shared.queue.step_leaseDuration _) ?_ ?_ ?_
  · rcases hhanded with rfl | ⟨-, -, -, hmeeting⟩
    · rfl
    · exact hmeeting
  · rcases hhanded with rfl | ⟨hbefore | hbefore, hafter | hafter, -⟩
    · rfl
    all_goals simp [hbefore, hafter]
  · rcases hhanded with rfl | ⟨-, hafter | hafter, -⟩
    · exact .inl
    all_goals simp [hafter]

/-- A worker is started with the job of the case. -/
theorem spawned_job {event : SummaryEvent} {self : ℕ}
    {program : Program SummaryShared WorkerInput (Except WorkerError Unit)}
    (hinv : about.Inv shared)
    (hspawn : spawnSummaryWorker about.jobId shared event self = some program) :
    ∃ options job, job.id = about.jobId ∧ job.meetingId = about.meetingId ∧
      program = (summaryWorker options self job).run := by
  obtain ⟨current, hget, hmeeting⟩ := hinv.job
  cases event with
  | claimNext options token now =>
      obtain ⟨job, hclaimed, rfl⟩ := Option.map_eq_some_iff.mp hspawn
      obtain ⟨hclaimed, hid⟩ := Option.filter_eq_some_iff.mp hclaimed
      have hid : job.id = about.jobId := by simpa using hid
      obtain ⟨found, hfound, hsame⟩ := InMemoryJobQueue.claimFirst_eq_some hclaimed
      rw [hid, hget] at hfound
      obtain rfl := Option.some.inj hfound
      exact ⟨options, job, hid, hsame.trans hmeeting, rfl⟩
  | claimById options token now =>
      obtain ⟨job, hclaimed, rfl⟩ := Option.map_eq_some_iff.mp hspawn
      obtain ⟨hid, found, hfound, hsame⟩ := InMemoryJobQueue.claimById_eq_some hclaimed
      rw [hget] at hfound
      obtain rfl := Option.some.inj hfound
      exact ⟨options, job, hid, hsame.trans hmeeting, rfl⟩
  | recoverStaleRunning limit now => cases hspawn

/-- The worker has nothing to mark as failed. -/
def Unnoted (self : ℕ) (shared : SummaryShared) : Prop :=
  ∀ left, shared.exhausted ≠ some (self, left)

theorem rules (about : SummaryCase) : Threads.Rules about.Inv about.Rely about.Guarantee
    about.Allowed Unnoted (fun self _ => Unnoted self) (summaryEnvironment about.jobId)
    (spawnSummaryWorker about.jobId) where
  refl self state hinv := Change.refl _ hinv
  trans self _ _ _ hfirst hsecond := Change.trans hfirst hsecond
  guarantee_inv self _ _ hguarantee := hguarantee.inv
  guarantee_rely hne hguarantee := by
    refine ⟨hguarantee.inv, hguarantee.posted, hguarantee.failed, ?_⟩
    rintro worker rfl
    exact hguarantee.noted worker (Ne.symm hne)
  environment_rely self state event hinv := environment_change hinv _ event
  environment_inv state event hinv := (environment_change hinv (fun _ => True) event).inv
  fresh_rely hfresh hrely left hnoted := hfresh left ((hrely.noted _ rfl left).mp hnoted)
  spawned {self state event program} hinv hfresh hspawn := by
    obtain ⟨options, job, hid, hmeeting, rfl⟩ := spawned_job hinv hspawn
    have hchange := environment_change hinv (fun _ => True) event
    have hquiet : about.Quiet self (summaryEnvironment about.jobId state event) :=
      ⟨hchange.inv, fun left hnoted => hfresh left ((hchange.noted self trivial left).mp hnoted)⟩
    exact (keeps_summaryWorker hid hmeeting options _ hquiet).mono fun _ _ hpost => hpost.2

/-- What is kept of the system. -/
def Kept (about : SummaryCase) (system : SummarySystem) : Prop :=
  Threads.Kept about.Inv about.Rely about.Guarantee about.Allowed Unnoted (fun self _ => Unnoted self)
    system

/-! ## The guarantees -/

theorem Inv.open_of_queued (hinv : about.Inv shared)
    (hqueued : shared.jobStatus about.jobId = some .queued) :
    ∃ status, shared.meetingStatus about.meetingId = some status ∧
      (status ∈ summaryStatuses ∨ status = .posted) := by
  obtain ⟨status, hstatus, hopen | hposted | hfailed⟩ := hinv.status
  · exact ⟨status, hstatus, .inl hopen⟩
  · exact ⟨status, hstatus, .inr hposted⟩
  · have hjob := hinv.failed (hfailed ▸ hstatus)
    rw [hqueued] at hjob
    cases hjob

/-- A worker that claims a queued job finds a status it can go on from. -/
theorem Inv.ready_of_queued (hinv : about.Inv shared)
    (hqueued : shared.jobStatus about.jobId = some .queued) :
    ∃ status, shared.meetingStatus about.meetingId = some status ∧
      (status = .posted ∨ status = .stopping ∨
        about.enabled = true ∧ status ∈ summaryStatuses) := by
  obtain ⟨status, hstatus, hmember | hposted⟩ := hinv.open_of_queued hqueued
  · refine ⟨status, hstatus, ?_⟩
    by_cases henabled : about.enabled = true
    · exact .inr (.inr ⟨henabled, hmember⟩)
    · obtain ⟨htranscribing, hsummarizing⟩ := hinv.disabled (by simpa using henabled)
      rw [hstatus] at htranscribing hsummarizing
      simp only [summaryStatuses, List.mem_cons, List.not_mem_nil, or_false] at hmember
      rcases hmember with rfl | rfl | rfl
      · exact .inr (.inl rfl)
      · exact absurd rfl htranscribing
      · exact absurd rfl hsummarizing
  · exact ⟨status, hstatus, .inl hposted⟩

/-- A claim of a queued job that is due. -/
theorem claimById_of_queued {queue : InMemoryJobQueue} {jobId : String} {job : Job} {now : ℤ}
    (hget : queue.get jobId = some job) (hqueued : job.status = .queued)
    (hdue : dueForClaim job now = true) (hlease : 0 < queue.leaseDuration) {token : String}
    (htoken : token ≠ "") :
    ∃ claimed, (queue.claimById jobId token now).1 = some claimed ∧ claimed.id = jobId ∧
      claimed.meetingId = job.meetingId ∧
      (queue.claimById jobId token now).2.HoldsClaim claimed now := by
  have hid : job.id = jobId := find?_id hget
  have hclaim : queue.claimById jobId token now =
      (some (job.claim token (queue.nextLeaseDeadline now)), { queue with
        jobs := updateFirst jobId (Job.claim token (queue.nextLeaseDeadline now)) queue.jobs }) := by
    simp [InMemoryJobQueue.claimById, hget, hqueued, hdue]
  rw [hclaim]
  refine ⟨_, rfl, hid, rfl, job.claim token (queue.nextLeaseDeadline now), token,
    queue.nextLeaseDeadline now, rfl, htoken, ?_, rfl, rfl, rfl, ?_⟩
  · change List.find? (fun found : Job => decide (found.id = job.id)) _ = _
    rw [hid]
    exact find?_updateFirst hget rfl
  · simp only [InMemoryJobQueue.nextLeaseDeadline]
    omega

/-- A claim of the queued job by a worker that is left alone ends well. -/
theorem Kept.exists_completion {system : SummarySystem} (hkept : about.Kept system)
    (hqueued : system.shared.jobStatus about.jobId = some .queued) :
    ∃ events, about.Completed (Machine.run (SummarySystem.step about.jobId) system events).shared := by
  have hinv : about.Inv system.shared := hkept.shared
  obtain ⟨job, hget, hmeeting⟩ := id hinv.job
  have hstatus : job.status = .queued := by
    simpa [SummaryShared.jobStatus, hget] using hqueued
  -- The claim is made when the job is due.
  have hdue : dueForClaim job (job.nextRunAt.getD 0) = true := by
    unfold dueForClaim
    cases job.nextRunAt <;> simp
  generalize job.nextRunAt.getD 0 = now at hdue
  obtain ⟨claimed, hclaimed, hid, hsame, hheld⟩ :=
    claimById_of_queued hget hstatus hdue hinv.lease (show "claim" ≠ "" by decide)
  let event : SummaryEvent := .claimById { maxRetries := 0 } "claim" now
  have hchange := environment_change hinv (fun _ => True) event
  obtain ⟨status, hopen, hready⟩ := hinv.ready_of_queued hqueued
  have hsolo : about.Solo claimed now status (summaryEnvironment about.jobId system.shared event) :=
    ⟨hheld, hchange.inv.lease, hopen, hchange.inv.settings⟩
  obtain ⟨value, after, halone, hcompleted⟩ := finishes_summaryWorker hid (hsame.trans hmeeting)
    hready { maxRetries := 0 } system.threads.length _ hsolo
  have hspawned : (SummarySystem.step about.jobId system
      (.environment event)).threads[system.threads.length]? =
        some (summaryWorker { maxRetries := 0 } system.threads.length claimed).run := by
    simp [SummarySystem.step, Threads.step, spawnSummaryWorker, event, hclaimed]
  obtain ⟨count, hrun⟩ := Threads.exists_run_alone (summaryEnvironment about.jobId)
    (spawnSummaryWorker about.jobId) ({ now := now } : WorkerInput) hspawned
  refine ⟨.environment event :: List.replicate count (.thread system.threads.length { now := now }), ?_⟩
  have hafter : (Machine.run (SummarySystem.step about.jobId) (SummarySystem.step about.jobId system
      (.environment event)) (List.replicate count (.thread system.threads.length
        { now := now }))).shared = after := by
    refine (congrArg Threads.shared hrun).trans ?_
    exact congrArg Prod.snd halone
  change about.Completed (Machine.run _ (SummarySystem.step about.jobId system _) _).shared
  rw [hafter]
  exact hcompleted

end SummaryCase

/-- A queued job and its stopped meeting, before any worker. -/
structure SummaryStart (jobId meetingId : String) (system : SummarySystem) : Prop where
  job : (system.shared.queue.get jobId).any
    (fun job => job.meetingId = meetingId ∧ job.status = .queued) = true
  lease : system.shared.queue.leaseDuration = defaultLeaseDuration
  meeting : system.shared.meetingStatus meetingId = some .stopping
  unnoted : system.shared.exhausted = none
  idle : system.threads = []

/-- What holds in every state, whatever the workers do. -/
structure SummaryGuarantees (jobId meetingId : String) (system : SummarySystem) : Prop where
  finalStays : ∀ status, status = .posted ∨ status = .failed →
    system.shared.meetingStatus meetingId = some status → ∀ events,
      (Machine.run (SummarySystem.step jobId) system events).shared.meetingStatus meetingId =
        some status
  donePosted : system.shared.jobStatus jobId = some .done →
    system.shared.meetingStatus meetingId = some .posted
  failedFailed : system.shared.meetingStatus meetingId = some .failed →
    system.shared.jobStatus jobId = some .failed
  queuedOpen : system.shared.jobStatus jobId = some .queued → ∃ status,
    system.shared.meetingStatus meetingId = some status ∧
      (status ∈ summaryStatuses ∨ status = .posted)
  queuedFinishes : system.shared.jobStatus jobId = some .queued → ∃ events,
    let after := (Machine.run (SummarySystem.step jobId) system events).shared
    after.jobStatus jobId = some .done ∧ after.meetingStatus meetingId = some .posted

/-- Once every worker has returned, a failed job has settled its meeting. -/
def FailureSettled (jobId meetingId : String) (system : SummarySystem) : Prop :=
  system.AllDone → system.shared.jobStatus jobId = some .failed →
    system.shared.meetingStatus meetingId = some .failed ∨
      system.shared.meetingStatus meetingId = some .posted

/-- The condition on a step: if it is the last attempt to mark the meeting as
failed, the meeting is not back in a status that was tried before. -/
def LastAttemptsFind (meetingId : String) (system : SummarySystem) :
    Event WorkerInput SummaryEvent → Prop
  | .thread index _ => LastAttemptFinds meetingId index system.shared
  | .environment _ => True

namespace SummaryCase

variable {about : SummaryCase} {system : SummarySystem}

theorem kept_of_start (hstart : SummaryStart about.jobId about.meetingId system)
    (henabled : system.shared.summaryEnabled about.meetingId = about.enabled) :
    about.Kept system := by
  obtain ⟨hjob, hlease, hmeeting, hunnoted, hidle⟩ := hstart
  obtain ⟨job, hget, hfresh⟩ := (Option.any_eq_true _ _).mp hjob
  obtain ⟨hmeetingId, hqueued⟩ := of_decide_eq_true hfresh
  have hjob : system.shared.jobStatus about.jobId = some .queued := by
    rw [SummaryShared.jobStatus, hget, Option.map_some, hqueued]
  refine ⟨⟨⟨job, hget, hmeetingId⟩, ?_, ⟨.stopping, hmeeting, .inl (by simp [summaryStatuses])⟩,
    henabled, ?_, ?_, ?_, ?_, ?_⟩, ?_, ?_⟩
  · rw [hlease]
    decide
  · simp [hmeeting]
  · simp [hjob]
  · simp [hmeeting]
  · simp [hunnoted]
  · simp [hjob]
  · intro index program hprogram
    rw [hidle] at hprogram
    cases hprogram
  · intro index _ left
    simp [hunnoted]

/-- With a condition on the steps only where `strict` asks for one. -/
theorem Kept.always_of (hkept : about.Kept system) (events : List (Event WorkerInput SummaryEvent))
    (hallowed : about.strict → Machine.EveryStep (SummarySystem.step about.jobId)
      (LastAttemptsFind about.meetingId) system events) :
    Machine.EveryStep (SummarySystem.step about.jobId)
        (Threads.AllowedEvent about.Allowed) system events ∧
      Machine.Always (SummarySystem.step about.jobId) about.Kept system events := by
  have hevery : Machine.EveryStep (SummarySystem.step about.jobId)
      (Threads.AllowedEvent about.Allowed) system events := by
    by_cases hstrict : about.strict
    · refine Machine.EveryStep.mono _ (fun state event hevent => ?_) (hallowed hstrict)
      cases event with
      | thread index input => exact fun _ => hevent
      | environment event => trivial
    · refine Machine.everyStep_of_forall _ (fun state event => ?_) system events
      cases event with
      | thread index input => exact fun hother => absurd hother hstrict
      | environment event => trivial
  exact ⟨hevery, Threads.Kept.always about.rules hkept hevery⟩

theorem Kept.guarantees (hkept : about.Kept system) (hlax : ¬about.strict) :
    SummaryGuarantees about.jobId about.meetingId system := by
  have hinv : about.Inv system.shared := hkept.shared
  refine ⟨fun status hfinal hstatus events => ?_, hinv.done, hinv.failed,
    hinv.open_of_queued, hkept.exists_completion⟩
  have hevery := (hkept.always_of events fun hstrict => absurd hstrict hlax).1
  have hstays := Threads.Kept.run_related about.rules
    (fun before after => before.meetingStatus about.meetingId = some status →
      after.meetingStatus about.meetingId = some status)
    (fun _ => id) (fun hfirst hsecond => hsecond ∘ hfirst)
    (fun hguarantee => by
      rcases hfinal with rfl | rfl
      · exact hguarantee.posted
      · exact hguarantee.failed)
    (fun {state event} hinv => by
      have hchange := environment_change hinv (fun _ => True) event
      rcases hfinal with rfl | rfl
      · exact hchange.posted
      · exact hchange.failed) hkept hevery
  exact hstays hstatus

theorem Kept.failureSettled (hkept : about.Kept system) (hstrict : about.strict) :
    FailureSettled about.jobId about.meetingId system := by
  intro hdone hfailed
  have hinv : about.Inv system.shared := hkept.shared
  rcases hinv.settled hstrict hfailed with hmeeting | hposted | hnoted
  · exact .inl hmeeting
  · exact .inr hposted
  · -- Whoever is noted has returned, and has then nothing left to try.
    obtain ⟨⟨worker, left⟩, hworker⟩ := Option.isSome_iff_exists.mp hnoted
    rcases hkept.of_allDone hdone worker with hfresh | ⟨value, state, hrely, hpost⟩
    · exact absurd hworker (hfresh left)
    · exact absurd ((hrely.noted worker rfl left).mp hworker) (hpost left)

end SummaryCase

theorem summary_workers_outcomes {jobId meetingId : String} {system : SummarySystem}
    (hstart : SummaryStart jobId meetingId system)
    (events : List (Event WorkerInput SummaryEvent)) :
    Machine.Always (SummarySystem.step jobId) (SummaryGuarantees jobId meetingId) system events ∧
      (Machine.EveryStep (SummarySystem.step jobId) (LastAttemptsFind meetingId) system events →
        Machine.Always (SummarySystem.step jobId) (FailureSettled jobId meetingId) system events) := by
  constructor
  · let about : SummaryCase := ⟨jobId, meetingId, system.shared.summaryEnabled meetingId, False⟩
    have hkept : about.Kept system := SummaryCase.kept_of_start hstart rfl
    exact Machine.Always.mono _ (fun state hstate => hstate.guarantees id)
      (hkept.always_of events fun hstrict => hstrict.elim).2
  · intro hallowed
    let about : SummaryCase := ⟨jobId, meetingId, system.shared.summaryEnabled meetingId, True⟩
    have hkept : about.Kept system := SummaryCase.kept_of_start hstart rfl
    exact Machine.Always.mono _ (fun state hstate => hstate.failureSettled trivial)
      (hkept.always_of events fun _ => hallowed).2

/-- A stopped meeting with its job just enqueued. -/
def stoppedMeeting : SummarySystem where
  shared := {
    store := InMemoryMeetingStore.insert {} { id := "m1", status := .stopping }
    queue := (enqueueSummaryJob {} "summary-m1" "m1").2 }
  threads := []

theorem stoppedMeeting_start : SummaryStart "summary-m1" "m1" stoppedMeeting :=
  ⟨by decide, rfl, by decide, rfl, rfl⟩

/-- One worker whose audio cannot be prepared and that may not retry. -/
def failingWorker : List (Event WorkerInput SummaryEvent) :=
  [.environment (.claimById { maxRetries := 0 } "a" 0),
    .thread 0 { now := 1 }, .thread 0 { now := 2 },
    .thread 0 { now := 3, failure := some "no non-empty audio chunks" },
    .thread 0 { now := 4 }, .thread 0 { now := 5 }, .thread 0 { now := 6 }, .thread 0 { now := 7 }]

instance (meetingId : String) (self : ℕ) (shared : SummaryShared) :
    Decidable (LastAttemptFinds meetingId self shared) :=
  inferInstanceAs (Decidable (_ → _ ∧ _))

instance (meetingId : String) (system : SummarySystem) (event : Event WorkerInput SummaryEvent) :
    Decidable (LastAttemptsFind meetingId system event) :=
  match event with
  | .thread index _ => inferInstanceAs (Decidable (LastAttemptFinds meetingId index system.shared))
  | .environment _ => inferInstanceAs (Decidable True)

theorem failing_worker_settles :
    SummaryStart "summary-m1" "m1" stoppedMeeting ∧
      Machine.EveryStep (SummarySystem.step "summary-m1") (LastAttemptsFind "m1") stoppedMeeting
        failingWorker ∧
      Machine.Always (SummarySystem.step "summary-m1") (FailureSettled "summary-m1" "m1")
        stoppedMeeting failingWorker :=
  ⟨stoppedMeeting_start, by decide +kernel,
    (summary_workers_outcomes stoppedMeeting_start failingWorker).2 (by decide +kernel)⟩

/-- Worker 0 fails to transcribe and stops right before it reverts the meeting.
Worker 1 takes the job over and uses it up; between its first two attempts to mark
the meeting as failed, worker 0 moves it back to `Stopping`. -/
def staleRevert : List (Event WorkerInput SummaryEvent) :=
  [.environment (.claimById { maxRetries := 0 } "a" 0),
    .thread 0 { now := 0 }, .thread 0 { now := 0 }, .thread 0 { now := 0 }, .thread 0 { now := 0 },
    .thread 0 { now := 0 }, .thread 0 { now := 0, failure := some "whisper timed out" },
    .thread 0 { now := 0 },
    .environment (.recoverStaleRunning 1 100000),
    .environment (.claimById { maxRetries := 0 } "b" 100000),
    .thread 1 { now := 100000 }, .thread 1 { now := 100000 },
    .thread 1 { now := 100000, failure := some "no space left on device" },
    .thread 1 { now := 100000 }, .thread 1 { now := 100000 }, .thread 1 { now := 100000 },
    .thread 0 { now := 100000 },
    .thread 1 { now := 100000 }, .thread 1 { now := 100000 },
    .thread 0 { now := 100000 }]

theorem stale_revert_escapes_failure :
    SummaryStart "summary-m1" "m1" stoppedMeeting ∧
      let final := Machine.run (SummarySystem.step "summary-m1") stoppedMeeting staleRevert
      final.AllDone ∧ final.threads.length = 2 ∧
        final.shared.jobStatus "summary-m1" = some .failed ∧
        final.shared.meetingStatus "m1" = some .stopping ∧
        ¬FailureSettled "summary-m1" "m1" final := by
  have hdone : (Machine.run (SummarySystem.step "summary-m1") stoppedMeeting staleRevert).AllDone := by
    decide +kernel
  have hjob : (Machine.run (SummarySystem.step "summary-m1") stoppedMeeting
      staleRevert).shared.jobStatus "summary-m1" = some .failed := by
    decide +kernel
  have hmeeting : (Machine.run (SummarySystem.step "summary-m1") stoppedMeeting
      staleRevert).shared.meetingStatus "m1" = some .stopping := by
    decide +kernel
  refine ⟨stoppedMeeting_start, hdone, by decide +kernel, hjob, hmeeting, fun hsettled => ?_⟩
  rcases hsettled hdone hjob with hfailed | hposted
  · rw [hmeeting] at hfailed
    cases hfailed
  · rw [hmeeting] at hposted
    cases hposted

end DiscordTranscript.Application
