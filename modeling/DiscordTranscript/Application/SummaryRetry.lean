import DiscordTranscript.Infrastructure.Queue
import DiscordTranscript.Infrastructure.Storage

/-! # Giving a failed summary job back

The two functions of `application/runtime.rs` that requeue or fail a summary job
after an error, and `mark_summary_meeting_failed_from_summary_state` of
`application/worker.rs`. The meeting and the job live in different stores and
are updated one after the other, in opposite orders by the two functions.
-/

namespace DiscordTranscript.Application

open Domain Infrastructure

variable {S Q : Type}

/-! ## The calls -/

/-- An answer that a call got from the queue, or for the status of the meeting. -/
inductive RetryEvent where
  | heartbeat (result : Except QueueError Unit)
  | markFailed (result : Except QueueError Unit)
  | retry (result : Except QueueError JobStatus)
  | statusUpdate (result : Except StoreError Bool)
  deriving DecidableEq

/-- The two stores during a call. `events` only records what the call was
answered; nothing reads it. -/
structure RetryState (S Q : Type) where
  store : S
  queue : Q
  events : List RetryEvent := []

section

variable (meetings : MeetingStore S) (jobs : JobQueue Q)

/-- The loop of `mark_summary_meeting_failed_from_summary_state` over the
statuses that are left to try. -/
def failMeetingFrom (meetingId errorMessage : String) :
    List MeetingStatus → S → Except StoreError Bool × S
  | [], store => (.ok false, store)
  | expected :: rest, store =>
      match meetings.setMeetingStatus store meetingId .failed (some expected) with
      | (.ok (), store) =>
          match meetings.setErrorMessage store meetingId (some errorMessage) with
          | (.error err, store) => (.error err, store)
          | (.ok (), store) => (.ok true, store)
      | (.error (.casConflict _), store) => failMeetingFrom meetingId errorMessage rest store
      | (.error err, store) => (.error err, store)

def markSummaryMeetingFailedFromSummaryState (store : S) (meetingId errorMessage : String) :
    Except StoreError Bool × S :=
  failMeetingFrom meetings meetingId errorMessage [.stopping, .transcribing, .summarizing] store

namespace RetryState

def heartbeat (state : RetryState S Q) (job : Job) : Except QueueError Unit × RetryState S Q :=
  let (result, queue) := jobs.heartbeat state.queue job
  (result, { state with queue := queue, events := state.events ++ [.heartbeat result] })

def markFailed (state : RetryState S Q) (job : Job) (errorMessage : String) :
    Except QueueError Unit × RetryState S Q :=
  let (result, queue) := jobs.markFailed state.queue job errorMessage
  (result, { state with queue := queue, events := state.events ++ [.markFailed result] })

def retry (state : RetryState S Q) (job : Job) (errorMessage : String) (maxRetries : ℕ) :
    Except QueueError JobStatus × RetryState S Q :=
  let (result, queue) := jobs.retry state.queue job errorMessage maxRetries
  (result, { state with queue := queue, events := state.events ++ [.retry result] })

def setMeetingStatus (state : RetryState S Q) (meetingId : String) (status : MeetingStatus)
    (expectedCurrent : Option MeetingStatus) : Except StoreError Unit × RetryState S Q :=
  let (result, store) := meetings.setMeetingStatus state.store meetingId status expectedCurrent
  (result, { state with
    store := store
    events := state.events ++ [.statusUpdate (result.map fun _ => true)] })

def setErrorMessage (state : RetryState S Q) (meetingId : String) (errorMessage : Option String) :
    Except StoreError Unit × RetryState S Q :=
  let (result, store) := meetings.setErrorMessage state.store meetingId errorMessage
  (result, { state with store := store })

def markSummaryMeetingFailed (state : RetryState S Q) (meetingId errorMessage : String) :
    Except StoreError Bool × RetryState S Q :=
  let (result, store) :=
    markSummaryMeetingFailedFromSummaryState meetings state.store meetingId errorMessage
  (result, { state with store := store, events := state.events ++ [.statusUpdate result] })

end RetryState

def retrySummaryJobAfterPostingFailure (state : RetryState S Q) (meetingId : String) (job : Job)
    (errorMessage : String) (maxRetries : ℕ) : Except String Bool × RetryState S Q :=
  match state.retry jobs job errorMessage maxRetries with
  | (.ok .queued, state) =>
      match state.setMeetingStatus meetings meetingId .stopping (some .summarizing) with
      | (.error err, state) =>
          (.error s!"summary post retry queued but meeting status update failed: {err.display}",
            state)
      | (.ok (), state) =>
          match state.setErrorMessage meetings meetingId (some errorMessage) with
          | (.error err, state) =>
              (.error s!"summary post retry queued but error message update failed: {err.display}",
                state)
          | (.ok (), state) => (.ok false, state)
  | (.ok .failed, state) =>
      match state.markSummaryMeetingFailed meetings meetingId errorMessage with
      | (.error err, state) =>
          (.error
            s!"summary post retry exhausted but meeting failure update failed: {err.display}",
            state)
      | (.ok _, state) => (.ok true, state)
  | (.ok _, state) => (.ok false, state)
  | (.error (.backend _), state) =>
      (.ok false, (state.setErrorMessage meetings meetingId (some errorMessage)).2)
  | (.error _, state) => (.ok false, state)

/-- The part of `retry_summary_job_after_transcribing_phase_failure` after the
meeting went back to `Stopping`. -/
def retryAfterStatusRestore (state : RetryState S Q) (job : Job) (errorMessage : String)
    (maxRetries : ℕ) (phase : String) (retryFromStatus : MeetingStatus) :
    Except String Bool × RetryState S Q :=
  match state.retry jobs job errorMessage maxRetries with
  | (.ok .queued, state) =>
      (.ok false, (state.setErrorMessage meetings job.meetingId (some errorMessage)).2)
  | (.ok .failed, state) =>
      match state.markSummaryMeetingFailed meetings job.meetingId errorMessage with
      | (.error err, state) =>
          (.error s!"{phase} retry exhausted but meeting failure update failed: {err.display}",
            state)
      | (.ok _, state) => (.ok true, state)
  | (.ok status, state) =>
      match state.markSummaryMeetingFailed meetings job.meetingId errorMessage with
      | (.error err, state) =>
          (.error (s!"{phase} retry returned unexpected status {status.debug} and " ++
            s!"meeting failure update failed: {err.display}"), state)
      | (.ok _, state) => (.ok true, state)
  | (.error (.backend _), state) =>
      let (_, state) := state.setMeetingStatus meetings job.meetingId retryFromStatus
        (some .stopping)
      (.ok false, (state.setErrorMessage meetings job.meetingId (some errorMessage)).2)
  | (.error _, state) => (.ok false, state)

def retrySummaryJobAfterTranscribingPhaseFailure (state : RetryState S Q) (job : Job)
    (errorMessage : String) (maxRetries : ℕ) (phase : String) (retryFromStatus : MeetingStatus) :
    Except String Bool × RetryState S Q :=
  match state.heartbeat jobs job with
  | (.error _, state) => (.ok false, state)
  | (.ok (), state) =>
      match state.setMeetingStatus meetings job.meetingId .stopping (some retryFromStatus) with
      | (.ok (), state) =>
          retryAfterStatusRestore meetings jobs state job errorMessage maxRetries phase
            retryFromStatus
      | (.error (.casConflict _), state) => (.ok true, (state.markFailed jobs job errorMessage).2)
      | (.error err, state) =>
          let (_, state) := state.markFailed jobs job errorMessage
          match state.markSummaryMeetingFailed meetings job.meetingId errorMessage with
          | (.error storeErr, state) =>
              (.error (s!"{phase} retry status restore failed ({err.display}) and " ++
                s!"meeting failure update failed: {storeErr.display}"), state)
          | (.ok _, state) => (.ok true, state)

end

/-! ## The status of the meeting and the fate of the job -/

/-- Every status update that the call attempted was applied. -/
def StoreSucceeded (events : List RetryEvent) : Prop :=
  ∀ result, .statusUpdate result ∈ events → result = .ok true

def Requeued (events : List RetryEvent) : Prop := .retry (.ok .queued) ∈ events

/-- The job failed because its retries were used up. -/
def Exhausted (events : List RetryEvent) : Prop := .retry (.ok .failed) ∈ events

/-- The meeting moves only together with the job. -/
structure StatusFollowsJob (meetings : MeetingStore S) (meetingId : String)
    (before after : RetryState S Q) : Prop where
  stopping_of_requeued : StoreSucceeded after.events → Requeued after.events →
    meetings.statusOf after.store meetingId = some .stopping
  failed_of_exhausted : StoreSucceeded after.events → Exhausted after.events →
    meetings.statusOf after.store meetingId = some .failed
  unchanged_of_neither : ¬Requeued after.events → ¬Exhausted after.events →
    meetings.statusOf after.store meetingId = meetings.statusOf before.store meetingId

/-- The claim is lost after the heartbeat confirmed it: by the time the queue
refuses the retry, the meeting has been moved to `Stopping`. -/
def ClaimLostAfterRestore (meetings : MeetingStore S) (jobs : JobQueue Q) (store : S) (queue : Q)
    (job : Job) (errorMessage : String) (maxRetries : ℕ) (retryFromStatus : MeetingStatus) : Prop :=
  (jobs.heartbeat queue job).1 = .ok () ∧
    meetings.statusOf store job.meetingId = some retryFromStatus ∧
    retryFromStatus ≠ .stopping ∧
    ∃ err, (jobs.retry (jobs.heartbeat queue job).2 job errorMessage maxRetries).1 = .error err ∧
      ∀ message, err ≠ .backend message

section

variable (meetings : MeetingStore S) (jobs : JobQueue Q)

theorem failMeetingFrom_status_of_ok {meetingId errorMessage : String}
    {expected : List MeetingStatus} {store : S}
    (hok : (failMeetingFrom meetings meetingId errorMessage expected store).1 = .ok true) :
    meetings.statusOf (failMeetingFrom meetings meetingId errorMessage expected store).2
      meetingId = some .failed := by
  induction expected generalizing store with
  | nil => simp [failMeetingFrom] at hok
  | cons status rest ih =>
      simp only [failMeetingFrom] at hok ⊢
      split at hok
      next next hset =>
        have htext := meetings.setErrorMessage_status next meetingId errorMessage
        have hfailed := (MeetingStore.status_of_applied hset).2
        split at hok
        next => exact absurd hok (by simp)
        next final hfinal =>
          rw [hfinal] at htext
          exact htext.trans hfailed
      next => exact ih hok
      next => exact absurd hok (by simp)

theorem failMeetingFrom_status_of_none {meetingId errorMessage : String}
    {expected : List MeetingStatus} {store : S}
    (hnone : meetings.statusOf store meetingId = none) :
    meetings.statusOf (failMeetingFrom meetings meetingId errorMessage expected store).2
      meetingId = none := by
  induction expected generalizing store with
  | nil => exact hnone
  | cons status rest ih =>
      simp only [failMeetingFrom]
      split
      next hset => simp [(MeetingStore.status_of_applied hset).1] at hnone
      next hset => exact ih ((MeetingStore.status_of_refused hset).1.trans hnone)
      next hset => exact (MeetingStore.status_of_refused hset).1.trans hnone

namespace RetryState

variable {state next : RetryState S Q} {job : Job} {meetingId errorMessage : String}

theorem heartbeat_eq {result : Except QueueError Unit}
    (hcall : state.heartbeat jobs job = (result, next)) :
    jobs.heartbeat state.queue job = (result, next.queue) ∧ next.store = state.store ∧
      next.events = state.events ++ [.heartbeat result] := by
  obtain ⟨rfl, rfl⟩ := Prod.mk.inj hcall
  exact ⟨rfl, rfl, rfl⟩

theorem retry_eq {maxRetries : ℕ} {result : Except QueueError JobStatus}
    (hcall : state.retry jobs job errorMessage maxRetries = (result, next)) :
    (jobs.retry state.queue job errorMessage maxRetries).1 = result ∧ next.store = state.store ∧
      next.events = state.events ++ [.retry result] := by
  obtain ⟨rfl, rfl⟩ := Prod.mk.inj hcall
  exact ⟨rfl, rfl, rfl⟩

theorem setMeetingStatus_eq {status expected : MeetingStatus} {result : Except StoreError Unit}
    (hcall : state.setMeetingStatus meetings meetingId status (some expected) = (result, next)) :
    meetings.setMeetingStatus state.store meetingId status (some expected) =
        (result, next.store) ∧
      next.queue = state.queue ∧
      next.events = state.events ++ [.statusUpdate (result.map fun _ => true)] := by
  obtain ⟨rfl, rfl⟩ := Prod.mk.inj hcall
  exact ⟨rfl, rfl, rfl⟩

end RetryState

/-- The error text moves neither the meeting nor the job. -/
theorem StatusFollowsJob.setErrorMessage {meetingId : String} {before after : RetryState S Q}
    (hfollows : StatusFollowsJob meetings meetingId before after) (errorMessage : Option String) :
    StatusFollowsJob meetings meetingId before
      (after.setErrorMessage meetings meetingId errorMessage).2 := by
  have hstatus := meetings.setErrorMessage_status after.store meetingId errorMessage
  exact ⟨fun hstore hjob => hstatus.trans (hfollows.stopping_of_requeued hstore hjob),
    fun hstore hjob => hstatus.trans (hfollows.failed_of_exhausted hstore hjob),
    fun hnot hnot' => hstatus.trans (hfollows.unchanged_of_neither hnot hnot')⟩

theorem statusFollowsJob_of_untouched {meetingId : String} {before after : RetryState S Q}
    (hrequeued : ¬Requeued after.events) (hexhausted : ¬Exhausted after.events)
    (hstatus : meetings.statusOf after.store meetingId = meetings.statusOf before.store meetingId) :
    StatusFollowsJob meetings meetingId before after :=
  ⟨fun _ hjob => absurd hjob hrequeued, fun _ hjob => absurd hjob hexhausted, fun _ _ => hstatus⟩

theorem statusFollowsJob_of_requeued {meetingId : String} {before after : RetryState S Q}
    (hrequeued : Requeued after.events) (hexhausted : ¬Exhausted after.events)
    (hstatus : StoreSucceeded after.events →
      meetings.statusOf after.store meetingId = some .stopping) :
    StatusFollowsJob meetings meetingId before after :=
  ⟨fun hstore _ => hstatus hstore, fun _ hjob => absurd hjob hexhausted,
    fun hnot _ => absurd hrequeued hnot⟩

/-- A job that a retry failed, and then the meeting. -/
theorem markSummaryMeetingFailed_follows (meetingId errorMessage : String)
    (before state : RetryState S Q) (hrequeued : ¬Requeued state.events)
    (hexhausted : Exhausted state.events) :
    StatusFollowsJob meetings meetingId before
      (state.markSummaryMeetingFailed meetings meetingId errorMessage).2 := by
  have hevents : (state.markSummaryMeetingFailed meetings meetingId errorMessage).2.events =
      state.events ++ [.statusUpdate (markSummaryMeetingFailedFromSummaryState meetings
        state.store meetingId errorMessage).1] := rfl
  have hstore : (state.markSummaryMeetingFailed meetings meetingId errorMessage).2.store =
      (markSummaryMeetingFailedFromSummaryState meetings state.store meetingId errorMessage).2 :=
    rfl
  refine ⟨fun _ hjob => ?_, fun hsucceeded _ => ?_, fun _ hnot => ?_⟩
  · rw [hevents] at hjob
    simp only [Requeued, List.mem_append, List.mem_singleton, reduceCtorEq, or_false] at hjob
    exact absurd hjob hrequeued
  · rw [hstore]
    refine failMeetingFrom_status_of_ok meetings (hsucceeded _ ?_)
    rw [hevents]
    exact List.mem_append_right _ (List.mem_singleton.mpr rfl)
  · exact absurd (hevents ▸ List.mem_append_left _ hexhausted) hnot

/-- The queue refused the retry and the meeting stands as it did. -/
theorem statusFollowsJob_of_retry_error {meetingId : String} {before state : RetryState S Q}
    {earlier : List RetryEvent} {err : QueueError}
    (hearlier : ∀ result, .retry result ∉ earlier)
    (hevents : state.events = earlier ++ [.retry (.error err)])
    (hstatus : meetings.statusOf state.store meetingId = meetings.statusOf before.store meetingId) :
    StatusFollowsJob meetings meetingId before state := by
  refine statusFollowsJob_of_untouched meetings ?_ ?_ hstatus
  · simp [Requeued, hevents, hearlier]
  · simp [Exhausted, hevents, hearlier]

theorem posting_statusFollowsJob (store : S) (queue : Q) (meetingId : String) (job : Job)
    (errorMessage : String) (maxRetries : ℕ) :
    StatusFollowsJob meetings meetingId ⟨store, queue, []⟩
      (retrySummaryJobAfterPostingFailure meetings jobs ⟨store, queue, []⟩ meetingId job
        errorMessage maxRetries).2 := by
  unfold retrySummaryJobAfterPostingFailure
  split
  next state hretry =>
    obtain ⟨-, -, hevents⟩ := RetryState.retry_eq jobs hretry
    split
    next err refused hset =>
      -- The job is requeued but the meeting was elsewhere, so this update did not succeed.
      obtain ⟨-, -, hrefused⟩ := RetryState.setMeetingStatus_eq meetings hset
      rw [hevents] at hrefused
      refine statusFollowsJob_of_requeued meetings ?_ ?_ fun hsucceeded => ?_
      · simp [Requeued, hrefused]
      · simp [Exhausted, hrefused]
      · have hok := hsucceeded (.error err) (by simp [hrefused, Except.map])
        cases hok
    next moved hset =>
      obtain ⟨happlied, -, hmoved⟩ := RetryState.setMeetingStatus_eq meetings hset
      rw [hevents] at hmoved
      have hfollows : StatusFollowsJob meetings meetingId ⟨store, queue, []⟩ moved :=
        statusFollowsJob_of_requeued meetings (by simp [Requeued, hmoved])
          (by simp [Exhausted, hmoved]) fun _ => (MeetingStore.status_of_applied happlied).2
      have htext := hfollows.setErrorMessage meetings (some errorMessage)
      split
      next hcall => simpa only [hcall] using htext
      next hcall => simpa only [hcall] using htext
  next state hretry =>
    obtain ⟨-, -, hevents⟩ := RetryState.retry_eq jobs hretry
    have hfollows := markSummaryMeetingFailed_follows meetings meetingId errorMessage
      ⟨store, queue, []⟩ state (by simp [Requeued, hevents])
      (by simp [Exhausted, hevents])
    split
    next hcall => simpa only [hcall] using hfollows
    next hcall => simpa only [hcall] using hfollows
  next status state hqueued hfailed hretry =>
    -- The source has a branch for other answers, but no queue gives one.
    obtain ⟨hresult, -, -⟩ := RetryState.retry_eq jobs hretry
    rcases jobs.retry_status hresult with rfl | rfl
    · exact (hqueued rfl).elim
    · exact (hfailed rfl).elim
  next message state hretry =>
    obtain ⟨-, hstore, hevents⟩ := RetryState.retry_eq jobs hretry
    refine StatusFollowsJob.setErrorMessage meetings ?_ _
    exact statusFollowsJob_of_retry_error meetings (by simp) hevents (by rw [hstore])
  next err state hbackend hretry =>
    obtain ⟨-, hstore, hevents⟩ := RetryState.retry_eq jobs hretry
    exact statusFollowsJob_of_retry_error meetings (by simp) hevents (by rw [hstore])

/-- After the restore the meeting stands at `Stopping`. Every answer of the queue
is matched by the meeting, except the refusal of a lost claim. -/
theorem retryAfterStatusRestore_follows_iff {store : S} {queue : Q} {state : RetryState S Q}
    {job : Job} {retryFromStatus : MeetingStatus} (errorMessage : String) (maxRetries : ℕ)
    (phase : String)
    (hentry : meetings.statusOf store job.meetingId = some retryFromStatus)
    (hstopping : meetings.statusOf state.store job.meetingId = some .stopping)
    (hearlier : ∀ result, .retry result ∉ state.events) :
    StatusFollowsJob meetings job.meetingId ⟨store, queue, []⟩
        (retryAfterStatusRestore meetings jobs state job errorMessage maxRetries phase
          retryFromStatus).2 ↔
      ¬(retryFromStatus ≠ .stopping ∧
        ∃ err, (jobs.retry state.queue job errorMessage maxRetries).1 = .error err ∧
          ∀ message, err ≠ .backend message) := by
  unfold retryAfterStatusRestore
  split
  next next hretry =>
    obtain ⟨hresult, hstore, hevents⟩ := RetryState.retry_eq jobs hretry
    refine iff_of_true (StatusFollowsJob.setErrorMessage meetings ?_ _) (by simp [hresult])
    exact statusFollowsJob_of_requeued meetings (by simp [Requeued, hevents])
      (by simp [Exhausted, hevents, hearlier]) fun _ => by rw [hstore, hstopping]
  next next hretry =>
    obtain ⟨hresult, -, hevents⟩ := RetryState.retry_eq jobs hretry
    have hfollows := markSummaryMeetingFailed_follows meetings job.meetingId errorMessage
      ⟨store, queue, []⟩ next (by simp [Requeued, hevents, hearlier])
      (by simp [Exhausted, hevents])
    refine iff_of_true ?_ (by simp [hresult])
    split
    next hcall => simpa only [hcall] using hfollows
    next hcall => simpa only [hcall] using hfollows
  next status next hqueued hfailed hretry =>
    obtain ⟨hresult, -, -⟩ := RetryState.retry_eq jobs hretry
    rcases jobs.retry_status hresult with rfl | rfl
    · exact (hqueued rfl).elim
    · exact (hfailed rfl).elim
  next message next hretry =>
    obtain ⟨hresult, hstore, hevents⟩ := RetryState.retry_eq jobs hretry
    refine iff_of_true (StatusFollowsJob.setErrorMessage meetings ?_ _) (by simp [hresult])
    -- The compensation: the meeting goes back to the status it came from.
    have hrestored := meetings.compareAndSet_status next.store job.meetingId retryFromStatus
      .stopping
    rw [hstore, if_pos hstopping] at hrestored
    refine statusFollowsJob_of_untouched meetings ?_ ?_ ?_
    · simp [Requeued, RetryState.setMeetingStatus, hevents, hearlier]
    · simp [Exhausted, RetryState.setMeetingStatus, hevents, hearlier]
    · simpa [RetryState.setMeetingStatus, hstore, hentry] using hrestored
  next err next hbackend hretry =>
    obtain ⟨hresult, hstore, hevents⟩ := RetryState.retry_eq jobs hretry
    have hlost : ∃ err, (jobs.retry state.queue job errorMessage maxRetries).1 = .error err ∧
        ∀ message, err ≠ .backend message := ⟨err, hresult, fun message => hbackend message⟩
    by_cases hsame : retryFromStatus = .stopping
    · refine iff_of_true ?_ (fun hbad => hbad.1 hsame)
      exact statusFollowsJob_of_retry_error meetings hearlier hevents
        (by rw [hstore, hstopping, hentry, hsame])
    · -- Nothing restores the meeting, so it stays at `Stopping`.
      refine iff_of_false (fun hfollows => hsame ?_) (fun hgood => hgood ⟨hsame, hlost⟩)
      have hunchanged := hfollows.unchanged_of_neither
        (by simp [Requeued, hevents, hearlier]) (by simp [Exhausted, hevents, hearlier])
      rw [hstore, hstopping, hentry] at hunchanged
      exact (Option.some.inj hunchanged).symm

theorem transcribing_statusFollowsJob_iff (store : S) (queue : Q) (job : Job)
    (errorMessage : String) (maxRetries : ℕ) (phase : String) (retryFromStatus : MeetingStatus) :
    StatusFollowsJob meetings job.meetingId ⟨store, queue, []⟩
        (retrySummaryJobAfterTranscribingPhaseFailure meetings jobs ⟨store, queue, []⟩ job
          errorMessage maxRetries phase retryFromStatus).2 ↔
      ¬ClaimLostAfterRestore meetings jobs store queue job errorMessage maxRetries
        retryFromStatus := by
  unfold retrySummaryJobAfterTranscribingPhaseFailure ClaimLostAfterRestore
  split
  next err state hheartbeat =>
    obtain ⟨hresult, hstore, hevents⟩ := RetryState.heartbeat_eq jobs hheartbeat
    refine iff_of_true (statusFollowsJob_of_untouched meetings ?_ ?_ (by rw [hstore])) ?_
    · simp [Requeued, hevents]
    · simp [Exhausted, hevents]
    · simp [hresult]
  next state hheartbeat =>
    obtain ⟨hresult, hstore, hevents⟩ := RetryState.heartbeat_eq jobs hheartbeat
    rw [hresult]
    split
    next moved hset =>
      obtain ⟨happlied, hqueue, hmoved⟩ := RetryState.setMeetingStatus_eq meetings hset
      rw [hevents] at hmoved
      obtain ⟨hfrom, hstopping⟩ := MeetingStore.status_of_applied happlied
      rw [hstore] at hfrom
      rw [retryAfterStatusRestore_follows_iff meetings jobs errorMessage maxRetries phase hfrom
        hstopping (by simp [hmoved]), hqueue]
      simp [hfrom]
    next conflicting refused hset =>
      obtain ⟨hrefused, -, hsame⟩ := RetryState.setMeetingStatus_eq meetings hset
      rw [hevents] at hsame
      obtain ⟨hstatus, hdiffers, -⟩ := MeetingStore.status_of_refused hrefused
      rw [hstore] at hstatus hdiffers
      refine iff_of_true (statusFollowsJob_of_untouched meetings ?_ ?_ hstatus) ?_
      · simp [Requeued, RetryState.markFailed, hsame]
      · simp [Exhausted, RetryState.markFailed, hsame]
      · exact fun hlost => hdiffers hlost.2.1
    next err refused hother hset =>
      obtain ⟨hrefused, -, hsame⟩ := RetryState.setMeetingStatus_eq meetings hset
      rw [hevents] at hsame
      obtain ⟨hstatus, hdiffers, hkind⟩ := MeetingStore.status_of_refused hrefused
      rw [hstore] at hstatus hdiffers hkind
      have hmissing := hkind.resolve_left fun hconflict => hother _ hconflict
      -- There is no meeting to move, so marking it failed does nothing either.
      have hafter : meetings.statusOf (markSummaryMeetingFailedFromSummaryState meetings
          refused.store job.meetingId errorMessage).2 job.meetingId = none :=
        failMeetingFrom_status_of_none meetings (hstatus.trans hmissing)
      have hfollows : StatusFollowsJob meetings job.meetingId ⟨store, queue, []⟩
          ((refused.markFailed jobs job errorMessage).2.markSummaryMeetingFailed meetings
            job.meetingId errorMessage).2 := by
        refine statusFollowsJob_of_untouched meetings ?_ ?_ (hafter.trans hmissing.symm)
        · simp [Requeued, RetryState.markFailed, RetryState.markSummaryMeetingFailed, hsame]
        · simp [Exhausted, RetryState.markFailed, RetryState.markSummaryMeetingFailed, hsame]
      refine iff_of_true ?_ fun hlost => hdiffers hlost.2.1
      simp only
      split
      next hcall => simpa only [hcall] using hfollows
      next hcall => simpa only [hcall] using hfollows

/-- Both functions move the meeting only together with the job, whatever the
queue answers, unless the claim is lost between the ownership check and the
retry: then the meeting stays at `Stopping` although the job was not touched. -/
theorem summary_retry_status_follows_job_iff (store : S) (queue : Q) (meetingId : String)
    (job : Job) (errorMessage : String) (maxRetries : ℕ) (phase : String)
    (retryFromStatus : MeetingStatus) :
    (StatusFollowsJob meetings meetingId ⟨store, queue, []⟩
        (retrySummaryJobAfterPostingFailure meetings jobs ⟨store, queue, []⟩ meetingId job
          errorMessage maxRetries).2 ∧
      StatusFollowsJob meetings job.meetingId ⟨store, queue, []⟩
        (retrySummaryJobAfterTranscribingPhaseFailure meetings jobs ⟨store, queue, []⟩ job
          errorMessage maxRetries phase retryFromStatus).2) ↔
      ¬ClaimLostAfterRestore meetings jobs store queue job errorMessage maxRetries
        retryFromStatus := by
  rw [transcribing_statusFollowsJob_iff]
  exact and_iff_right (posting_statusFollowsJob meetings jobs store queue meetingId job
    errorMessage maxRetries)

end

/-! ## A claim lost in between -/

def claimedSummaryJob : Job where
  id := "job-1"
  meetingId := "m1"
  jobType := .summarize
  status := .running
  retryCount := 0
  errorMessage := none
  claimToken := some "token-1"
  leasedUntil := some 90000
  nextRunAt := none

/-- Another worker recovers the expired job after the heartbeat of this one. -/
def recoveredInBetween : SharedQueue where
  queue := { jobs := [claimedSummaryJob], order := ["job-1"] }
  turns
    | 0 => ([], 1000)
    | _ => ([⟨95000, .recoverStaleRunning .summarize 10⟩], 95001)

def transcribingMeeting : InMemoryMeetingStore :=
  ({} : InMemoryMeetingStore).insert { id := "m1", status := .transcribing }

theorem summary_retry_leaves_meeting_stopping :
    ¬StatusFollowsJob InMemoryMeetingStore.meetingStore "m1"
      ⟨transcribingMeeting, recoveredInBetween, []⟩
      (retrySummaryJobAfterTranscribingPhaseFailure InMemoryMeetingStore.meetingStore
        SharedQueue.jobQueue ⟨transcribingMeeting, recoveredInBetween, []⟩ claimedSummaryJob
        "failed to persist transcript segments: integer out of range" 2 "transcript_persist"
        .transcribing).2 := by
  intro hfollows
  have hunchanged := hfollows.unchanged_of_neither
    (by simp only [Requeued]; decide) (by simp only [Exhausted]; decide)
  exact absurd hunchanged (by decide)

end DiscordTranscript.Application
