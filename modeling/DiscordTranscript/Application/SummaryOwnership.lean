import DiscordTranscript.Application.SummaryWorker
import DiscordTranscript.Infrastructure.QueueClaims

/-! # One meeting, one job, several workers

A worker that has lost its lease can still move the meeting, so nothing is read
off who owns the job. What holds regardless: every conditional update expects one
of the three statuses of a summary in progress, a job is done only after the
meeting was posted, and the meeting fails only after the job has failed. The
converse of the last can be missed: the loop that marks the meeting as failed
tries the three statuses one after the other, and a stale worker can move the
meeting back to one already tried.
-/

namespace DiscordTranscript.Application

open Domain Infrastructure Interleaving

namespace SummaryShared

def meetingStatus (shared : SummaryShared) (meetingId : String) : Option MeetingStatus :=
  shared.store.statusOf meetingId

def jobStatus (shared : SummaryShared) (jobId : String) : Option JobStatus :=
  (shared.queue.get jobId).map (·.status)

def summaryEnabled (shared : SummaryShared) (meetingId : String) : Bool :=
  (shared.store.effectiveSettings.lookup meetingId).all (·.summaryEnabled)

end SummaryShared

/-- The last attempt to mark the meeting as failed does not find it back in a
status that was tried before. -/
def LastAttemptFinds (meetingId : String) (self : ℕ) (shared : SummaryShared) : Prop :=
  shared.exhausted = some (self, [.summarizing]) →
    shared.meetingStatus meetingId ≠ some .stopping ∧
      shared.meetingStatus meetingId ≠ some .transcribing

/-- The job and the meeting that a system is about, and whether the settings of
the meeting ask for a summary. With `strict` the invariant includes that a failed
job settles its meeting. -/
structure SummaryCase where
  jobId : String
  meetingId : String
  enabled : Bool
  strict : Prop

namespace SummaryCase

variable {about : SummaryCase} {shared before after : SummaryShared} {self : ℕ}

/-! ## The invariant and what a step may change -/

structure Inv (about : SummaryCase) (shared : SummaryShared) : Prop where
  job : ∃ job, shared.queue.get about.jobId = some job ∧ job.meetingId = about.meetingId
  lease : 0 < shared.queue.leaseDuration
  status : ∃ status, shared.meetingStatus about.meetingId = some status ∧
    (status ∈ summaryStatuses ∨ status = .posted ∨ status = .failed)
  settings : shared.summaryEnabled about.meetingId = about.enabled
  disabled : about.enabled = false →
    shared.meetingStatus about.meetingId ≠ some .transcribing ∧
      shared.meetingStatus about.meetingId ≠ some .summarizing
  done : shared.jobStatus about.jobId = some .done →
    shared.meetingStatus about.meetingId = some .posted
  failed : shared.meetingStatus about.meetingId = some .failed →
    shared.jobStatus about.jobId = some .failed
  exhausted : shared.exhausted.isSome → shared.jobStatus about.jobId = some .failed
  settled : about.strict → shared.jobStatus about.jobId = some .failed →
    shared.meetingStatus about.meetingId = some .failed ∨
      shared.meetingStatus about.meetingId = some .posted ∨ shared.exhausted.isSome

/-- Final statuses of the meeting stay, and so does what is noted of the workers
in `kept`. -/
structure Change (about : SummaryCase) (kept : ℕ → Prop) (before after : SummaryShared) : Prop where
  inv : about.Inv after
  posted : before.meetingStatus about.meetingId = some .posted →
    after.meetingStatus about.meetingId = some .posted
  failed : before.meetingStatus about.meetingId = some .failed →
    after.meetingStatus about.meetingId = some .failed
  noted : ∀ worker, kept worker → ∀ left,
    after.exhausted = some (worker, left) ↔ before.exhausted = some (worker, left)

/-- What a worker relies on, and what it guarantees to the others. -/
def Rely (about : SummaryCase) (self : ℕ) : SummaryShared → SummaryShared → Prop :=
  about.Change (· = self)

def Guarantee (about : SummaryCase) (self : ℕ) : SummaryShared → SummaryShared → Prop :=
  about.Change (· ≠ self)

theorem Change.refl (kept : ℕ → Prop) (hinv : about.Inv shared) :
    about.Change kept shared shared :=
  ⟨hinv, id, id, fun _ _ _ => Iff.rfl⟩

theorem Change.trans {kept : ℕ → Prop} {last : SummaryShared}
    (hfirst : about.Change kept before after) (hsecond : about.Change kept after last) :
    about.Change kept before last :=
  ⟨hsecond.inv, hsecond.posted ∘ hfirst.posted, hsecond.failed ∘ hfirst.failed,
    fun worker hworker left => (hsecond.noted worker hworker left).trans
      (hfirst.noted worker hworker left)⟩

/-- Changes of the job alone. -/
theorem Inv.change_job (hinv : about.Inv before) (kept : ℕ → Prop) {queue : InMemoryJobQueue}
    {job next : Job} (hget : before.queue.get about.jobId = some job)
    (hnext : queue.get about.jobId = some next)
    (hlease : queue.leaseDuration = before.queue.leaseDuration)
    (hmeeting : next.meetingId = job.meetingId)
    (hfailed : next.status = .failed ↔ job.status = .failed)
    (hdone : next.status = .done → job.status = .done ∨
      before.meetingStatus about.meetingId = some .posted) :
    about.Change kept before { before with queue := queue } := by
  obtain ⟨⟨found, hfound, hmeetingId⟩, hpositive, hstatus, hsettings, hdisabled, hposted,
    hjobFailed, hexhausted, hsettled⟩ := hinv
  rw [hget] at hfound
  obtain rfl := Option.some.inj hfound
  have hjob : before.jobStatus about.jobId = some job.status := by
    rw [SummaryShared.jobStatus, hget, Option.map_some]
  have hafter : SummaryShared.jobStatus { before with queue := queue } about.jobId =
      some next.status := by
    rw [SummaryShared.jobStatus, hnext, Option.map_some]
  rw [hjob, Option.some.injEq] at hposted hjobFailed hexhausted hsettled
  refine ⟨⟨⟨next, hnext, hmeeting.trans hmeetingId⟩, hlease ▸ hpositive, hstatus, hsettings,
    hdisabled, ?_, ?_, ?_, ?_⟩, id, id, fun _ _ _ => Iff.rfl⟩
  all_goals rw [hafter, Option.some.injEq]
  · intro hnow
    rcases hdone hnow with hbefore | hbefore
    · exact hposted hbefore
    · exact hbefore
  · exact fun hmeetingFailed => hfailed.mpr (hjobFailed hmeetingFailed)
  · exact fun hnoted => hfailed.mpr (hexhausted hnoted)
  · exact fun hstrict hnow => hsettled hstrict (hfailed.mp hnow)

/-- Changes of the meeting alone, between the statuses of a summary in progress
or on to `Posted`. -/
theorem Inv.change_meeting (hinv : about.Inv before) (kept : ℕ → Prop)
    {store : InMemoryMeetingStore}
    (hsettings : store.effectiveSettings = before.store.effectiveSettings)
    (hmoved : store.statusOf about.meetingId = before.meetingStatus about.meetingId ∨
      ∃ expected ∈ summaryStatuses, before.meetingStatus about.meetingId = some expected ∧
        ∃ status, store.statusOf about.meetingId = some status ∧
          (about.enabled = true ∧ status ∈ summaryStatuses ∨ status = .posted)) :
    about.Change kept before { before with store := store } := by
  have hsame : SummaryShared.summaryEnabled { before with store := store } about.meetingId =
      about.enabled := by
    rw [SummaryShared.summaryEnabled, hsettings]
    exact hinv.settings
  rcases hmoved with hstays | ⟨expected, hexpected, hbefore, status, hafter, hstatus⟩
  · refine ⟨⟨hinv.job, hinv.lease, ?_, hsame, ?_, ?_, ?_, hinv.exhausted, ?_⟩, ?_, ?_,
      fun _ _ _ => Iff.rfl⟩ <;>
      simp only [SummaryShared.meetingStatus, hstays]
    · exact hinv.status
    · exact hinv.disabled
    · exact hinv.done
    · exact hinv.failed
    · exact hinv.settled
    · exact id
    · exact id
  · -- From a status in progress, so neither final status was reached yet.
    have hnotPosted : expected ≠ .posted := by
      rintro rfl
      simp [summaryStatuses] at hexpected
    have hnotFailed : expected ≠ .failed := by
      rintro rfl
      simp [summaryStatuses] at hexpected
    have hstatusNotFailed : status ≠ .failed := by
      rintro rfl
      simp [summaryStatuses] at hstatus
    refine ⟨⟨hinv.job, hinv.lease, ⟨status, hafter, by tauto⟩, hsame, fun hdisabled => ?_, ?_, ?_,
      hinv.exhausted, ?_⟩, ?_, ?_, fun _ _ _ => Iff.rfl⟩
    · obtain rfl : status = .posted := by
        rcases hstatus with ⟨henabled, -⟩ | hposted
        · rw [henabled] at hdisabled
          cases hdisabled
        · exact hposted
      change store.statusOf about.meetingId ≠ _ ∧ store.statusOf about.meetingId ≠ _
      rw [hafter]
      simp
    · intro hdone
      have hposted := hinv.done hdone
      rw [hbefore] at hposted
      exact absurd (Option.some.inj hposted) hnotPosted
    · intro hfailed
      exact absurd (Option.some.inj (hafter.symm.trans hfailed)) hstatusNotFailed
    · intro hstrict hjob
      rcases hinv.settled hstrict hjob with hfailed | hposted | hnoted
      · exact absurd (Option.some.inj (hbefore.symm.trans hfailed)) hnotFailed
      · exact absurd (Option.some.inj (hbefore.symm.trans hposted)) hnotPosted
      · exact .inr (.inr hnoted)
    · intro hposted
      exact absurd (Option.some.inj (hbefore.symm.trans hposted)) hnotPosted
    · intro hfailed
      exact absurd (Option.some.inj (hbefore.symm.trans hfailed)) hnotFailed

/-! ## Programs of a worker -/

def Allowed (about : SummaryCase) (self : ℕ) (shared : SummaryShared) (_input : WorkerInput) :
    Prop :=
  about.strict → LastAttemptFinds about.meetingId self shared

/-- From states with `pre`, whatever the others do, the worker keeps its
guarantee and ends with `post`. -/
def Spec {α : Type} (about : SummaryCase) (self : ℕ) (pre : SummaryShared → Prop)
    (worker : Worker α) (post : Except WorkerError α → SummaryShared → Prop) : Prop :=
  ∀ shared, pre shared → worker.run.Meets (about.Rely self) (about.Guarantee self)
    (about.Allowed self) post shared

def Keeps {α : Type} (about : SummaryCase) (self : ℕ) (keep : SummaryShared → Prop)
    (worker : Worker α) : Prop :=
  about.Spec self keep worker fun _ => keep

/-- An assertion that the others do not disturb. -/
def Stable (about : SummaryCase) (self : ℕ) (keep : SummaryShared → Prop) : Prop :=
  ∀ before after, keep before → about.Rely self before after → keep after

/-- The worker is not the one that has to mark the meeting as failed. -/
def Quiet (about : SummaryCase) (self : ℕ) (shared : SummaryShared) : Prop :=
  about.Inv shared ∧ ∀ left, shared.exhausted ≠ some (self, left)

def QuietPosted (about : SummaryCase) (self : ℕ) (shared : SummaryShared) : Prop :=
  about.Quiet self shared ∧ shared.meetingStatus about.meetingId = some .posted

theorem quiet_stable : about.Stable self (about.Quiet self) := by
  intro before after hbefore hrely
  refine ⟨hrely.inv, fun left hnoted => ?_⟩
  exact hbefore.2 left ((hrely.noted self rfl left).mp hnoted)

theorem quietPosted_stable : about.Stable self (about.QuietPosted self) := by
  intro before after hbefore hrely
  exact ⟨quiet_stable before after hbefore.1 hrely, hrely.posted hbefore.2⟩

section

variable {α β : Type} {pre keep : SummaryShared → Prop}
  {post : Except WorkerError α → SummaryShared → Prop} {worker : Worker α}

theorem Spec.mono {post' : Except WorkerError α → SummaryShared → Prop}
    (hspec : about.Spec self pre worker post)
    (hpost : ∀ result shared, post result shared → post' result shared) :
    about.Spec self pre worker post' :=
  fun shared hpre => (hspec shared hpre).mono hpost

theorem Spec.bind (middle : α → SummaryShared → Prop) {rest : α → Worker β}
    {post : Except WorkerError β → SummaryShared → Prop}
    (hworker : about.Spec self pre worker fun result shared => match result with
      | .ok value => middle value shared
      | .error err => post (.error err) shared)
    (hrest : ∀ value, about.Spec self (middle value) (rest value) post) :
    about.Spec self pre (worker >>= rest) post := by
  intro shared hpre
  refine Program.Meets.exceptT_bind ((hworker shared hpre).mono fun result shared hresult => ?_)
  cases result with
  | ok value => exact hrest value shared hresult
  | error err => exact hresult

/-- The error of a closure is a value for its caller. -/
theorem Spec.lift (hworker : about.Spec self pre worker post) :
    about.Spec self pre (ExceptT.lift worker.run) fun result shared => match result with
      | .ok value => post value shared
      | .error _ => False := by
  intro shared hpre
  exact Program.Meets.bind ((hworker shared hpre).mono fun result shared hresult => hresult)

theorem Spec.pure {value : α} (hpost : ∀ shared, pre shared → post (.ok value) shared) :
    about.Spec self pre (Pure.pure value) post := hpost

theorem Spec.throw {err : WorkerError} (hpost : ∀ shared, pre shared → post (.error err) shared) :
    about.Spec self pre (MonadExcept.throw err) post := hpost

theorem Keeps.pure (value : α) : about.Keeps self keep (Pure.pure value : Worker α) :=
  fun _ => id

theorem Keeps.throw (err : WorkerError) : about.Keeps self keep (MonadExcept.throw err : Worker α) :=
  fun _ => id

theorem Keeps.bind {rest : α → Worker β} (hworker : about.Keeps self keep worker)
    (hrest : ∀ value, about.Keeps self keep (rest value)) :
    about.Keeps self keep (worker >>= rest) := by
  refine Spec.bind (fun _ => keep) (hworker.mono fun result shared hkeep => ?_) hrest
  cases result with
  | ok value => exact hkeep
  | error err => exact hkeep

/-- One action. -/
theorem Spec.atomic (hstable : about.Stable self pre)
    {run : SummaryShared → WorkerInput → Except WorkerError α × SummaryShared}
    (hrun : ∀ shared input, pre shared → about.Inv shared → about.Allowed self shared input →
      about.Guarantee self shared (run shared input).2 ∧
        post (run shared input).1 (run shared input).2) :
    about.Spec self pre (ExceptT.mk (Program.atomic run)) post := by
  intro shared hpre
  refine Program.Meets.atomic fun seen input hrely hallowed => ?_
  exact hrun seen input (hstable shared seen hpre hrely) hrely.inv hallowed

/-- One action that leaves the notes alone keeps every stable assertion. -/
theorem Keeps.atomic (hstable : about.Stable self keep)
    {run : SummaryShared → WorkerInput → Except WorkerError α × SummaryShared}
    (hrun : ∀ shared input, keep shared → about.Inv shared →
      about.Change (fun _ => True) shared (run shared input).2) :
    about.Keeps self keep (ExceptT.mk (Program.atomic run)) := by
  refine Spec.atomic hstable fun shared input hkeep hinv _ => ?_
  obtain ⟨hinv', hposted, hfailed, hnoted⟩ := hrun shared input hkeep hinv
  refine ⟨⟨hinv', hposted, hfailed, fun worker _ => hnoted worker trivial⟩, ?_⟩
  exact hstable shared _ hkeep ⟨hinv', hposted, hfailed, fun worker _ => hnoted worker trivial⟩

end

/-! ## Calls of the queue -/

section

variable {keep : SummaryShared → Prop} {job : Job}

/-- An operation of a claimant on the job keeps its status or ends it as done
once the meeting is posted. -/
theorem keeps_queueCall (update : ℤ → InMemoryJobQueue → Job → Job)
    (hstable : about.Stable self keep) (hid : job.id = about.jobId)
    (hkeepsId : ∀ now queue current, (update now queue current).id = current.id ∧
      (update now queue current).meetingId = current.meetingId)
    (hstatus : ∀ shared now current, keep shared → current.status = .running →
      (update now shared.queue current).status = .running ∨
        (update now shared.queue current).status = .done ∧
          shared.meetingStatus about.meetingId = some .posted) :
    about.Keeps self keep (queueCall fun queue now =>
      let (result, next) := queue.updateClaimed job now (update now queue)
      (result.map fun _ => (), next)) := by
  refine Keeps.atomic hstable fun shared input hkeep hinv => ?_
  obtain ⟨current, hget, -⟩ := id hinv.job
  have hcurrent : shared.queue.get job.id = some current := by rw [hid, hget]
  rcases shared.queue.get_updateClaimed input.now hcurrent
    (hkeepsId input.now shared.queue current).1 with ⟨err, heq⟩ | ⟨hrunning, -, hnext⟩
  · simp only [heq]
    exact Change.refl _ hinv
  · rw [hid] at hnext
    have hnew := hstatus shared input.now current hkeep hrunning
    refine hinv.change_job _ hget hnext (shared.queue.updateClaimed_leaseDuration _ _ _)
      (hkeepsId input.now shared.queue current).2 ?_ ?_
    · rw [hrunning]
      rcases hnew with hnew | ⟨hnew, -⟩ <;> simp [hnew]
    · intro hdone
      rcases hnew with hnew | ⟨-, hposted⟩
      · rw [hnew] at hdone
        cases hdone
      · exact .inr hposted

theorem keeps_heartbeat (hstable : about.Stable self keep) (hid : job.id = about.jobId) :
    about.Keeps self keep (heartbeat job) := by
  refine keeps_queueCall (fun now queue => Job.extendLease (queue.nextLeaseDeadline now))
    hstable hid (fun _ _ _ => ⟨rfl, rfl⟩) fun shared now current _ hrunning => .inl hrunning

theorem keeps_markDone (hid : job.id = about.jobId) :
    about.Keeps self (about.QuietPosted self) (markDone job) := by
  refine keeps_queueCall (fun _ _ => Job.finish .done none) quietPosted_stable hid
    (fun _ _ _ => ⟨rfl, rfl⟩) fun shared now current hkeep _ => .inr ⟨rfl, hkeep.2⟩

end

/-! ## Calls of the store -/

section

variable {α : Type} {keep : SummaryShared → Prop}

/-- A call that leaves the status of the meeting alone. -/
theorem keeps_storeCall (hstable : about.Stable self keep)
    {call : InMemoryMeetingStore → ℤ → Except StoreError α × InMemoryMeetingStore}
    (hcall : ∀ store now, (call store now).2.statusOf about.meetingId =
      store.statusOf about.meetingId)
    (hsettings : ∀ store now, (call store now).2.effectiveSettings = store.effectiveSettings) :
    about.Keeps self keep (storeCall call) :=
  Keeps.atomic hstable fun shared input _ hinv =>
    hinv.change_meeting _ (hsettings shared.store input.now) (.inl (hcall shared.store input.now))

theorem keeps_outside (hstable : about.Stable self keep) : about.Keeps self keep outside :=
  Keeps.atomic hstable fun _ _ _ hinv => Change.refl _ hinv

theorem keeps_orFail (result : Except StoreError α) : about.Keeps self keep (orFail result) := by
  cases result with
  | ok value => exact Keeps.pure value
  | error err => exact Keeps.throw _

theorem keeps_setErrorMessage (hstable : about.Stable self keep) (errorMessage : Option String) :
    about.Keeps self keep (setErrorMessage about.meetingId errorMessage) := by
  refine keeps_storeCall hstable (fun store _ =>
    InMemoryMeetingStore.meetingStore.setErrorMessage_status store about.meetingId errorMessage)
    fun store _ => ?_
  unfold InMemoryMeetingStore.setErrorMessage
  split <;> rfl

theorem setMeetingTitle_status (store : InMemoryMeetingStore) (meetingId title : String) :
    (store.setMeetingTitle meetingId title).2.statusOf meetingId = store.statusOf meetingId := by
  unfold InMemoryMeetingStore.setMeetingTitle InMemoryMeetingStore.statusOf
  cases hget : store.get meetingId with
  | none => simp [hget]
  | some meeting => simp

theorem keeps_setMeetingTitle (hstable : about.Stable self keep) (title : String) :
    about.Keeps self keep (setMeetingTitle about.meetingId title) := by
  refine keeps_storeCall hstable (fun store _ => setMeetingTitle_status store about.meetingId title)
    fun store _ => ?_
  unfold InMemoryMeetingStore.setMeetingTitle
  split <;> rfl

theorem keeps_recordUsageEvent (hstable : about.Stable self keep) (event : ℤ → UsageEvent) :
    about.Keeps self keep (recordUsageEvent event) := by
  refine Keeps.bind (keeps_storeCall hstable (fun store now => ?_) fun store now => ?_)
    fun _ => Keeps.pure _
  · unfold InMemoryMeetingStore.appendUsageEvent
    split <;> rfl
  · unfold InMemoryMeetingStore.appendUsageEvent
    split <;> rfl

/-- The effect of a conditional update on the status of the meeting. -/
theorem compareAndSet_cases (store : InMemoryMeetingStore) (meetingId : String)
    (status expected : MeetingStatus) :
    (∃ err, store.setMeetingStatus meetingId status (some expected) = (.error err, store) ∧
        store.statusOf meetingId ≠ some expected ∧
        (store.statusOf meetingId ≠ none → err = .casConflict meetingId)) ∨
      (store.setMeetingStatus meetingId status (some expected)).1 = .ok () ∧
        store.statusOf meetingId = some expected ∧
        (store.setMeetingStatus meetingId status (some expected)).2.statusOf meetingId =
          some status := by
  unfold InMemoryMeetingStore.setMeetingStatus InMemoryMeetingStore.statusOf
  cases hget : store.get meetingId with
  | none => exact .inl ⟨_, rfl, by simp, fun hsome => absurd rfl hsome⟩
  | some meeting =>
      by_cases hexpected : meeting.status = expected
      · simp [hexpected]
      · simp [hexpected]

theorem setMeetingStatus_settings (store : InMemoryMeetingStore) (meetingId : String)
    (status : MeetingStatus) (expected : Option MeetingStatus) :
    (store.setMeetingStatus meetingId status expected).2.effectiveSettings =
      store.effectiveSettings := by
  unfold InMemoryMeetingStore.setMeetingStatus
  split
  next => rfl
  next => split <;> rfl

/-- Moving the meeting between the statuses of a summary, or on to `Posted`. -/
theorem spec_setMeetingStatus (hstable : about.Stable self keep) {status expected : MeetingStatus}
    (hexpected : expected ∈ summaryStatuses)
    (hstatus : about.enabled = true ∧ status ∈ summaryStatuses ∨ status = .posted) :
    about.Spec self keep (setMeetingStatus about.meetingId status expected)
      fun result shared => keep shared ∧
        (result = .ok (.ok ()) → shared.meetingStatus about.meetingId = some status) := by
  refine Spec.atomic hstable fun shared input hkeep hinv _ => ?_
  have hchange : ∀ kept : ℕ → Prop, about.Change kept shared { shared with
      store := (shared.store.setMeetingStatus about.meetingId status (some expected)).2 } := by
    intro kept
    refine hinv.change_meeting kept (setMeetingStatus_settings _ _ _ _) ?_
    rcases compareAndSet_cases shared.store about.meetingId status expected with
      ⟨err, heq, -⟩ | ⟨-, hbefore, hafter⟩
    · rw [heq]
      exact .inl rfl
    · exact .inr ⟨expected, hexpected, hbefore, status, hafter, hstatus⟩
  refine ⟨hchange _, hstable _ _ hkeep (hchange _), fun hok => ?_⟩
  rcases compareAndSet_cases shared.store about.meetingId status expected with
    ⟨err, heq, -⟩ | ⟨-, -, hafter⟩
  · simp only [heq] at hok
    cases hok
  · exact hafter

theorem keeps_setMeetingStatus (hstable : about.Stable self keep) {status expected : MeetingStatus}
    (hexpected : expected ∈ summaryStatuses)
    (hstatus : about.enabled = true ∧ status ∈ summaryStatuses ∨ status = .posted) :
    about.Keeps self keep (setMeetingStatus about.meetingId status expected) :=
  (spec_setMeetingStatus hstable hexpected hstatus).mono fun _ _ hpost => hpost.1

/-- Posting: what follows runs with the meeting posted. -/
theorem spec_post {expected : MeetingStatus} (hexpected : expected ∈ summaryStatuses) {β : Type}
    {rest : Worker β} (hrest : about.Keeps self (about.QuietPosted self) rest) :
    about.Keeps self (about.Quiet self) (do
      orFail (← setMeetingStatus about.meetingId .posted expected)
      rest) := by
  refine Spec.bind (fun result shared => about.Quiet self shared ∧
      (result = .ok () → shared.meetingStatus about.meetingId = some .posted))
    ((spec_setMeetingStatus quiet_stable hexpected (.inr rfl)).mono
      fun result shared hpost => ?_) fun result => ?_
  · cases result with
    | ok value => exact ⟨hpost.1, fun hok => hpost.2 (by rw [hok])⟩
    | error err => exact hpost.1
  · cases result with
    | ok value =>
        intro shared hpre
        exact (hrest shared ⟨hpre.1, hpre.2 rfl⟩).mono fun _ _ hkeep => hkeep.1
    | error err => exact fun shared hpre => hpre.1

end

/-! ## The steps that are left: retries used up, the meeting marked as failed -/

/-- The worker has `left` to try. -/
def Owes (about : SummaryCase) (self : ℕ) (left : List MeetingStatus) (shared : SummaryShared) :
    Prop :=
  about.Inv shared ∧ if left = [] then ∀ other, shared.exhausted ≠ some (self, other)
    else shared.exhausted = some (self, left)

theorem owes_stable (left : List MeetingStatus) : about.Stable self (about.Owes self left) := by
  intro before after hbefore hrely
  refine ⟨hrely.inv, ?_⟩
  have hnoted := hrely.noted self rfl
  have howes := hbefore.2
  split
  next hnil =>
    rw [if_pos hnil] at howes
    exact fun other hother => howes other ((hnoted other).mp hother)
  next hmore =>
    rw [if_neg hmore] at howes
    exact (hnoted left).mpr howes

/-- A retry gives the job back, or notes that this worker used it up. -/
theorem spec_retryJob {job : Job} (hid : job.id = about.jobId) (errorMessage : String)
    (maxRetries : ℕ) :
    about.Spec self (about.Quiet self) (retryJob self job errorMessage maxRetries)
      fun result => match result with
        | .ok .failed => about.Owes self summaryStatuses
        | _ => about.Quiet self := by
  refine Spec.atomic quiet_stable fun shared input hquiet hinv _ => ?_
  obtain ⟨current, hget, hmeeting⟩ := id hinv.job
  have hcurrent : shared.queue.get job.id = some current := by rw [hid, hget]
  have hkeepsId : (current.retry errorMessage maxRetries input.now).id = current.id :=
    (current.retry_fields errorMessage maxRetries input.now).1
  rcases shared.queue.get_updateClaimed input.now hcurrent hkeepsId with
    ⟨err, heq⟩ | ⟨hrunning, hok, hnext⟩
  · simp only [InMemoryJobQueue.retry, heq, Except.map, Except.mapError]
    exact ⟨Change.refl _ hinv, hquiet⟩
  · rw [hid] at hnext
    simp only [InMemoryJobQueue.retry, hok, Except.map, Except.mapError, Job.retry_status]
    have hnotFailed : shared.jobStatus about.jobId ≠ some .failed := by
      rw [SummaryShared.jobStatus, hget, Option.map_some, hrunning]
      simp
    have hnone : shared.exhausted = none := by
      by_contra hsome
      exact hnotFailed (hinv.exhausted (Option.isSome_iff_ne_none.mpr hsome))
    have hmoved : (current.retry errorMessage maxRetries input.now).meetingId =
        current.meetingId := by
      unfold Job.retry
      simp only
      split <;> rfl
    by_cases hover : current.retryCount + 1 > maxRetries
    · -- The job fails now, so the meeting has not failed before.
      simp only [hover, if_true]
      have hstatus : (current.retry errorMessage maxRetries input.now).status = .failed := by
        rw [Job.retry_status, if_pos hover]
      have hinv' : about.Inv { shared with
          queue := (shared.queue.updateClaimed job input.now
            (Job.retry errorMessage maxRetries input.now)).2
          exhausted := some (self, summaryStatuses) } := by
        have hfailed : ((shared.queue.updateClaimed job input.now
            (Job.retry errorMessage maxRetries input.now)).2.get about.jobId).map (·.status) =
              some .failed := by
          rw [hnext, Option.map_some, hstatus]
        refine ⟨⟨_, hnext, hmoved.trans hmeeting⟩, ?_, hinv.status, hinv.settings, hinv.disabled,
          fun hdone => ?_, fun _ => hfailed, fun _ => hfailed, fun _ _ => .inr (.inr rfl)⟩
        · rw [show _ = shared.queue.leaseDuration from
            shared.queue.updateClaimed_leaseDuration _ _ _]
          exact hinv.lease
        · cases hfailed.symm.trans hdone
      refine ⟨⟨hinv', id, id, fun worker hworker left => ?_⟩, hinv', ?_⟩
      · rw [hnone]
        simp [Ne.symm hworker]
      · simp [summaryStatuses]
    · simp only [hover, if_false]
      have hstatus : (current.retry errorMessage maxRetries input.now).status = .queued := by
        rw [Job.retry_status, if_neg hover]
      have hchange : ∀ kept : ℕ → Prop, about.Change kept shared { shared with
          queue := (shared.queue.updateClaimed job input.now
            (Job.retry errorMessage maxRetries input.now)).2 } := by
        intro kept
        refine hinv.change_job kept hget hnext (shared.queue.updateClaimed_leaseDuration _ _ _)
          hmoved ?_ ?_
        · simp [hstatus, hrunning]
        · simp [hstatus]
      exact ⟨hchange _, quiet_stable _ _ hquiet (hchange _)⟩

/-- One round of the loop that marks the meeting as failed. -/
theorem spec_attemptFailed {expected : MeetingStatus} {rest : List MeetingStatus}
    (hexpected : expected ∈ summaryStatuses) (hlast : rest = [] → expected = .summarizing) :
    about.Spec self (about.Owes self (expected :: rest))
      (attemptFailed self about.meetingId expected rest) fun result => match result with
        | .ok (.error (.casConflict _)) => about.Owes self rest
        | _ => about.Quiet self := by
  refine Spec.atomic (owes_stable _) fun shared input howes hinv hallowed => ?_
  have hnoted : shared.exhausted = some (self, expected :: rest) := by
    simpa using howes.2
  have hjob := hinv.exhausted (by rw [hnoted]; rfl)
  have hothers : ∀ {store : InMemoryMeetingStore} {left : List MeetingStatus} (worker : ℕ),
      worker ≠ self → ∀ other, ({ shared with
        store := store
        exhausted := if left = [] then none else some (self, left) } : SummaryShared).exhausted =
          some (worker, other) ↔ shared.exhausted = some (worker, other) := by
    intro store left worker hworker other
    rw [hnoted]
    by_cases hleft : left = []
    · simp [hleft, Ne.symm hworker]
    · simp [hleft, Ne.symm hworker]
  rcases compareAndSet_cases shared.store about.meetingId .failed expected with
    ⟨err, heq, hdiffers, hconflict⟩ | ⟨hok, hbefore, hafter⟩
  · -- A conflict: the meeting has another status.
    obtain rfl : err = .casConflict about.meetingId := by
      refine hconflict ?_
      obtain ⟨status, hstatus, -⟩ := hinv.status
      rw [show shared.store.statusOf about.meetingId = some status from hstatus]
      simp
    simp only [heq]
    have hinv' : about.Inv { shared with
        store := shared.store
        exhausted := if rest = [] then none else some (self, rest) } := by
      refine ⟨hinv.job, hinv.lease, hinv.status, hinv.settings, hinv.disabled, hinv.done, hinv.failed,
        fun _ => hjob, fun hstrict _ => ?_⟩
      by_cases hrest : rest = []
      · -- After the last attempt the meeting is in none of the three statuses.
        obtain rfl := hlast hrest
        subst hrest
        obtain ⟨hstopping, htranscribing⟩ := hallowed hstrict hnoted
        obtain ⟨status, hstatus, hkind⟩ := hinv.status
        change shared.meetingStatus about.meetingId ≠ some .summarizing at hdiffers
        change shared.meetingStatus about.meetingId = some .failed ∨
          shared.meetingStatus about.meetingId = some .posted ∨ _
        rw [hstatus] at hstopping htranscribing hdiffers ⊢
        rcases hkind with hopen | rfl | rfl
        · simp only [summaryStatuses, List.mem_cons, List.not_mem_nil, or_false] at hopen
          rcases hopen with rfl | rfl | rfl
          · exact absurd rfl hstopping
          · exact absurd rfl htranscribing
          · exact absurd rfl hdiffers
        · exact .inr (.inl rfl)
        · exact .inl rfl
      · exact .inr (.inr (by simp [hrest]))
    refine ⟨⟨hinv', id, id, hothers⟩, hinv', ?_⟩
    by_cases hrest : rest = []
    · simp [hrest]
    · simp [hrest]
  · -- The meeting is marked as failed, as the job has.
    have hset : shared.store.setMeetingStatus about.meetingId .failed (some expected) =
        (.ok (), (shared.store.setMeetingStatus about.meetingId .failed (some expected)).2) := by
      rw [← hok]
    rw [hset]
    simp only [if_true]
    have hnotFinal : expected ≠ .posted ∧ expected ≠ .failed := by
      constructor
      · rintro rfl
        simp [summaryStatuses] at hexpected
      · rintro rfl
        simp [summaryStatuses] at hexpected
    have hinv' : about.Inv { shared with
        store := (shared.store.setMeetingStatus about.meetingId .failed (some expected)).2
        exhausted := none } := by
      refine ⟨hinv.job, hinv.lease, ⟨.failed, hafter, .inr (.inr rfl)⟩, ?_, fun _ => ?_, fun hdone => ?_,
        fun _ => hjob, fun hnone => ?_, fun _ _ => .inl hafter⟩
      · rw [SummaryShared.summaryEnabled, setMeetingStatus_settings]
        exact hinv.settings
      · simp [SummaryShared.meetingStatus, hafter]
      · rw [show shared.jobStatus about.jobId = some .done from hdone] at hjob
        cases hjob
      · cases hnone
    refine ⟨⟨hinv', fun hposted => ?_, fun _ => hafter, fun worker hworker other => ?_⟩, hinv',
      fun other hother => ?_⟩
    · exact absurd (Option.some.inj (hbefore.symm.trans hposted)) hnotFinal.1
    · rw [hnoted]
      simp [Ne.symm hworker]
    · cases hother

/-- Only a lost race leaves the meeting to be marked from the other statuses. -/
def OwesAfterConflict (about : SummaryCase) (self : ℕ) (rest : List MeetingStatus) {α : Type}
    (result : Except StoreError α) (shared : SummaryShared) : Prop :=
  match result with
  | .error (.casConflict _) => about.Owes self rest shared
  | _ => about.Quiet self shared

theorem spec_markFailedFrom {left : List MeetingStatus} (hleft : ∀ status ∈ left, status ∈ summaryStatuses)
    (hlast : left.getLast? = some .summarizing ∨ left = []) (errorMessage : String) :
    about.Spec self (about.Owes self left)
      (markFailedFrom self about.meetingId errorMessage left) fun _ => about.Quiet self := by
  induction left with
  | nil => exact Spec.pure fun shared howes => ⟨howes.1, by simpa using howes.2⟩
  | cons expected rest ih =>
      have hrest : rest.getLast? = some .summarizing ∨ rest = [] := by
        cases rest with
        | nil => exact .inr rfl
        | cons next others => simpa [List.getLast?_cons_cons] using hlast
      have hexpected : rest = [] → expected = .summarizing := by
        rintro rfl
        simpa using hlast
      refine Spec.bind (about.OwesAfterConflict self rest)
        ((spec_attemptFailed (hleft expected List.mem_cons_self) hexpected).mono
          fun result shared hpost => ?_) fun result => ?_
      · cases result with
        | error err => exact hpost
        | ok answer =>
            cases answer with
            | ok value => exact hpost
            | error err => cases err <;> exact hpost
      · cases result with
        | ok value =>
            exact Keeps.bind (keeps_setErrorMessage quiet_stable _) fun answer =>
              Keeps.bind (keeps_orFail answer) fun _ => Keeps.pure true
        | error err =>
            cases err with
            | casConflict conflicting =>
                exact ih (fun status hstatus => hleft status (List.mem_cons_of_mem _ hstatus)) hrest
            | _ => exact Keeps.throw _

/-! ## The pipeline -/

section

variable {keep : SummaryShared → Prop} {job : Job}

theorem keeps_advanceFrom (henabled : about.enabled = true) {left : List MeetingStatus}
    (hleft : ∀ status ∈ left, status ∈ summaryStatuses) :
    about.Keeps self (about.Quiet self) (advanceFrom about.meetingId left) := by
  induction left with
  | nil => exact Keeps.throw _
  | cons expected rest ih =>
      refine Keeps.bind (keeps_setMeetingStatus quiet_stable (hleft expected List.mem_cons_self)
        (.inl ⟨henabled, by simp [summaryStatuses]⟩)) fun result => ?_
      cases result with
      | ok value => exact Keeps.pure _
      | error err =>
          cases err with
          | casConflict conflicting =>
              exact ih fun status hstatus => hleft status (List.mem_cons_of_mem _ hstatus)
          | _ => exact Keeps.throw _

theorem keeps_revertOnFailure (henabled : about.enabled = true) {fromStatus : MeetingStatus}
    (hfrom : fromStatus ∈ summaryStatuses) (result : WorkerInput) :
    about.Keeps self (about.Quiet self) (revertOnFailure about.meetingId fromStatus result) := by
  unfold revertOnFailure
  split
  next => exact Keeps.pure _
  next =>
    refine Keeps.bind (Keeps.bind (keeps_setMeetingStatus quiet_stable hfrom
      (.inl ⟨henabled, by simp [summaryStatuses]⟩)) fun _ => Keeps.pure _) fun _ => Keeps.throw _

theorem keeps_recordAsrUsage (hstable : about.Stable self keep) (meeting : StoredMeeting) :
    about.Keeps self keep (recordAsrUsage job meeting) := by
  refine Keeps.bind (keeps_outside hstable) fun result => ?_
  cases result.failure with
  | some err => exact Keeps.pure _
  | none => exact keeps_recordUsageEvent hstable _

theorem keeps_correctTranscript (hstable : about.Stable self keep) (hid : job.id = about.jobId)
    (options : SummaryJobOptions) : about.Keeps self keep (correctTranscript options job) := by
  unfold correctTranscript
  split
  next =>
    exact Keeps.bind (keeps_heartbeat hstable hid) fun _ =>
      Keeps.bind (keeps_outside hstable) fun _ => Keeps.pure _
  next => exact Keeps.pure _

theorem keeps_processMeetingSummary (henabled : about.enabled = true) (hid : job.id = about.jobId)
    (hmeeting : job.meetingId = about.meetingId) (options : SummaryJobOptions)
    (meeting : StoredMeeting) :
    about.Keeps self (about.Quiet self) (processMeetingSummary options job meeting) := by
  have hbeat : about.Keeps self (about.Quiet self) (heartbeat job) :=
    keeps_heartbeat quiet_stable hid
  have houtside : about.Keeps self (about.Quiet self) outside := keeps_outside quiet_stable
  have hrevert : ∀ result, about.Keeps self (about.Quiet self)
      (revertOnFailure about.meetingId .summarizing result) :=
    keeps_revertOnFailure henabled (by simp [summaryStatuses])
  have hadvance : about.Keeps self (about.Quiet self) (advanceToTranscribing about.meetingId) :=
    keeps_advanceFrom henabled fun _ => id
  unfold processMeetingSummary
  rw [hmeeting]
  refine hbeat.bind fun _ => hadvance.bind fun _ => houtside.bind fun transcription =>
    hbeat.bind fun _ => (keeps_revertOnFailure henabled (by simp [summaryStatuses])
    transcription).bind fun _ => (keeps_recordAsrUsage quiet_stable meeting).bind fun _ => hbeat.bind fun _ =>
    houtside.bind fun _ => hbeat.bind fun _ => ?_
  refine (keeps_setMeetingStatus quiet_stable (by simp [summaryStatuses])
    (.inl ⟨henabled, by simp [summaryStatuses]⟩)).bind fun answer =>
    (keeps_orFail answer).bind fun _ => ?_
  refine hbeat.bind fun _ => houtside.bind fun contextManifest => hbeat.bind fun _ =>
    (hrevert contextManifest).bind fun _ => ?_
  refine (keeps_correctTranscript quiet_stable hid options).bind fun _ => hbeat.bind fun _ =>
    houtside.bind fun manifest => hbeat.bind fun _ => (hrevert manifest).bind fun _ => ?_
  refine houtside.bind fun workspaceSupported => (hrevert workspaceSupported).bind fun _ =>
    hbeat.bind fun _ => houtside.bind fun _ => hbeat.bind fun _ => ?_
  refine houtside.bind fun agentWorkspace => hbeat.bind fun _ => (hrevert agentWorkspace).bind
    fun _ => houtside.bind fun markdown => hbeat.bind fun _ => (hrevert markdown).bind fun _ => ?_
  refine houtside.bind fun contextLeak => (hrevert contextLeak).bind fun _ => hbeat.bind fun _ =>
    houtside.bind fun persisted => (hrevert persisted).bind fun _ => hbeat.bind fun _ => ?_
  refine houtside.bind fun title => hbeat.bind fun _ =>
    (keeps_setMeetingTitle quiet_stable title.text).bind fun answer =>
    (keeps_orFail answer).bind fun _ => hbeat.bind fun _ => houtside.bind fun _ => ?_
  exact hbeat.bind fun _ => Keeps.pure _

/-! ## A claimed job -/

theorem keeps_recordSummaryCompletionUsage (hstable : about.Stable self keep) :
    about.Keeps self keep (recordSummaryCompletionUsage about.meetingId) := by
  refine Keeps.bind (keeps_storeCall hstable (fun _ _ => rfl) fun _ _ => rfl) fun found => ?_
  split
  next meeting => exact keeps_recordUsageEvent hstable _
  next => exact Keeps.pure _

theorem keeps_completePosted (hid : job.id = about.jobId) (hmeeting : job.meetingId = about.meetingId)
    (summaryEnabled : Bool) :
    about.Keeps self (about.QuietPosted self) (completePosted job summaryEnabled) := by
  unfold completePosted
  rw [hmeeting]
  refine (keeps_heartbeat quietPosted_stable hid).bind fun _ => (keeps_markDone hid).bind fun _ => ?_
  split
  next =>
    exact (keeps_recordSummaryCompletionUsage quietPosted_stable).bind fun _ => Keeps.pure _
  next => exact Keeps.pure _

theorem keeps_suppressDisabled (hid : job.id = about.jobId)
    (hmeeting : job.meetingId = about.meetingId) (meeting : StoredMeeting) :
    about.Keeps self (about.Quiet self) (suppressDisabled job meeting) := by
  unfold suppressDisabled
  rw [hmeeting]
  split
  next =>
    refine (keeps_heartbeat quiet_stable hid).bind fun _ => ?_
    refine spec_post (by simp [summaryStatuses]) ?_
    exact (keeps_heartbeat quietPosted_stable hid).bind fun _ =>
      (keeps_markDone hid).bind fun _ => Keeps.pure _
  next => exact Keeps.throw _

/-- A meeting found posted is posted from then on. -/
theorem spec_getMeeting :
    about.Spec self (about.Quiet self) (getMeeting about.meetingId) fun result shared =>
      about.Quiet self shared ∧ ∀ meeting, result = .ok (.ok (some meeting)) →
        meeting.status = .posted → shared.meetingStatus about.meetingId = some .posted := by
  refine Spec.atomic quiet_stable fun shared input hquiet hinv _ => ?_
  refine ⟨Change.refl _ hinv, hquiet, fun meeting hfound hposted => ?_⟩
  have hget : shared.store.get about.meetingId = some meeting := by
    simpa using hfound
  change (shared.store.get about.meetingId).map (·.status) = some .posted
  rw [hget, Option.map_some, hposted]

/-- The settings are those of the case. -/
theorem spec_getEffectiveMeetingSettings (hstable : about.Stable self keep) :
    about.Spec self keep (getEffectiveMeetingSettings about.meetingId) fun result shared =>
      keep shared ∧ ∀ settings, result = .ok (.ok settings) →
        settings.all (·.summaryEnabled) = about.enabled := by
  refine Spec.atomic hstable fun shared input hkeep hinv _ => ?_
  refine ⟨Change.refl _ hinv, hkeep, fun settings hfound => ?_⟩
  rw [← hinv.settings, SummaryShared.summaryEnabled]
  rw [show shared.store.effectiveSettings.lookup about.meetingId = settings by simpa using hfound]

/-- The closure after the meeting was found; with a stable assertion under which
each of its three ways out works. -/
theorem keeps_withSettings {α : Type} (hstable : about.Stable self keep)
    {rest : Option EffectiveMeetingSettings → Worker α}
    (hrest : ∀ settings, settings.all (·.summaryEnabled) = about.enabled →
      about.Keeps self keep (rest settings)) :
    about.Keeps self keep (do
      let settings ← orFail (← getEffectiveMeetingSettings about.meetingId)
      rest settings) := by
  refine Spec.bind (fun answer shared => keep shared ∧ ∀ settings, answer = .ok settings →
      settings.all (·.summaryEnabled) = about.enabled)
    ((spec_getEffectiveMeetingSettings hstable).mono fun result shared hpost => ?_) fun answer => ?_
  · cases result with
    | ok answer => exact ⟨hpost.1, fun settings hanswer => hpost.2 settings (by rw [hanswer])⟩
    | error err => exact hpost.1
  · cases answer with
    | error err => exact fun shared hpre => hpre.1
    | ok settings =>
        exact fun shared hpre => hrest settings (hpre.2 settings rfl) shared hpre.1

theorem keeps_attemptSummaryJob (hid : job.id = about.jobId)
    (hmeeting : job.meetingId = about.meetingId) (options : SummaryJobOptions) :
    about.Keeps self (about.Quiet self) (attemptSummaryJob options job) := by
  unfold attemptSummaryJob
  rw [hmeeting]
  refine Spec.bind (fun result shared => about.Quiet self shared ∧ ∀ meeting,
    result = .ok (some meeting) → meeting.status = .posted →
      shared.meetingStatus about.meetingId = some .posted)
    (spec_getMeeting.mono fun result shared hpost => ?_) fun answer => ?_
  · cases result with
    | ok answer => exact ⟨hpost.1, fun meeting hanswer => hpost.2 meeting (by rw [hanswer])⟩
    | error err => exact hpost.1
  cases answer with
  | error err => exact fun shared hpre => hpre.1
  | ok found =>
      cases found with
      | none => exact fun shared hpre => hpre.1
      | some meeting =>
          intro shared hpre
          by_cases hposted : meeting.status = .posted
          · have hready : about.QuietPosted self shared := ⟨hpre.1, hpre.2 meeting rfl hposted⟩
            refine (keeps_withSettings quietPosted_stable ?_ shared hready).mono
              fun _ _ hkeep => hkeep.1
            intro settings _
            rw [if_pos hposted]
            exact keeps_completePosted hid hmeeting _
          · refine keeps_withSettings quiet_stable (fun settings hsettings => ?_) shared hpre.1
            rw [if_neg hposted]
            split
            next => exact keeps_suppressDisabled hid hmeeting meeting
            next henabled =>
              have henabled : about.enabled = true := by
                rw [← hsettings]
                simpa using henabled
              refine Keeps.bind ((keeps_outside quiet_stable).bind fun result => ?_) fun _ =>
                (keeps_processMeetingSummary henabled hid hmeeting options meeting).bind
                  fun _ => Keeps.pure _
              cases result.failure with
              | none => exact Keeps.pure _
              | some err => exact Keeps.throw _

/-- Ends quietly, and hands on only the job it was called with. -/
def Returned (about : SummaryCase) (self : ℕ) (job : Job)
    (result : Except WorkerError (Option ProcessJobResult)) (shared : SummaryShared) : Prop :=
  about.Quiet self shared ∧ ∀ generated, result = .ok (some generated) → generated.job = job

/-- Goes on quietly, or returns an error quietly. -/
def QuietOrReturned (about : SummaryCase) (self : ℕ) (job : Job) {α : Type}
    (result : Except WorkerError α) (shared : SummaryShared) : Prop :=
  match result with
  | .ok _ => about.Quiet self shared
  | .error err => about.Returned self job (.error err) shared

/-- A job that has failed for good leaves its meeting to be marked. -/
def OwesIfFailed (about : SummaryCase) (self : ℕ) (status : JobStatus)
    (shared : SummaryShared) : Prop :=
  match status with
  | .failed => about.Owes self summaryStatuses shared
  | _ => about.Quiet self shared

theorem spec_processClaimedSummaryJob (hid : job.id = about.jobId)
    (hmeeting : job.meetingId = about.meetingId) (options : SummaryJobOptions) :
    about.Spec self (about.Quiet self) (processClaimedSummaryJob options self job)
      (about.Returned self job) := by
  -- An error is returned quietly, whatever was tried before.
  have hquietly : ∀ {α : Type} {worker : Worker α}, about.Keeps self (about.Quiet self) worker →
      about.Spec self (about.Quiet self) worker (about.QuietOrReturned self job) := by
    intro α worker hkeeps
    refine hkeeps.mono fun result shared hquiet => ?_
    cases result with
    | ok value => exact hquiet
    | error err => exact ⟨hquiet, fun generated hok => by cases hok⟩
  have hthrow : ∀ err, about.Spec self (about.Quiet self) (throw err) (about.Returned self job) :=
    fun err => Spec.throw fun shared hquiet => ⟨hquiet, fun generated hok => by cases hok⟩
  have hkeepsBeat : about.Keeps self (about.Quiet self) (heartbeat job) :=
    keeps_heartbeat quiet_stable hid
  have hbeat := hquietly hkeepsBeat
  unfold processClaimedSummaryJob
  refine Spec.bind (fun _ => about.Quiet self)
    ((keeps_attemptSummaryJob hid hmeeting options).lift.mono fun result shared hpost => ?_)
    fun result => ?_
  · cases result with
    | ok value => exact hpost
    | error err => exact hpost.elim
  cases result with
  | ok output =>
      cases output with
      | none => exact Spec.pure fun shared hquiet => ⟨hquiet, fun generated hok => by cases hok⟩
      | some output =>
          refine Spec.bind (fun _ => about.Quiet self) hbeat fun _ => Spec.pure fun shared hquiet =>
            ⟨hquiet, fun generated hok => ?_⟩
          obtain rfl := Option.some.inj (Except.ok.inj hok)
          rfl
  | error err =>
      refine Spec.bind (fun _ => about.Quiet self) hbeat fun _ => ?_
      refine Spec.bind (about.OwesIfFailed self) ((spec_retryJob hid _ _).mono fun result shared hpost => ?_)
        fun status => ?_
      · cases result with
        | error err => exact ⟨hpost, fun generated hok => by cases hok⟩
        | ok status => cases status <;> exact hpost
      by_cases hfailed : status = .failed
      · subst hfailed
        rw [if_pos rfl, hmeeting]
        refine Spec.bind (fun _ => about.Quiet self)
          ((spec_markFailedFrom (fun _ => id) (.inl rfl) _).mono fun result shared hpost => ?_)
          fun _ => hthrow err
        cases result with
        | ok value => exact hpost
        | error err => exact ⟨hpost, fun generated hok => by cases hok⟩
      · rw [if_neg hfailed]
        intro shared hpre
        refine hthrow err shared ?_
        cases status with
        | failed => exact absurd rfl hfailed
        | _ => exact hpre

theorem keeps_completeSummaryJobAfterNotification (hid : job.id = about.jobId)
    (hmeeting : job.meetingId = about.meetingId) :
    about.Keeps self (about.Quiet self) (completeSummaryJobAfterNotification job) := by
  unfold completeSummaryJobAfterNotification
  rw [hmeeting]
  refine (keeps_heartbeat quiet_stable hid).bind fun _ => spec_post (by simp [summaryStatuses]) ?_
  refine (keeps_setErrorMessage quietPosted_stable none).bind fun answer =>
    (keeps_orFail answer).bind fun _ => ?_
  refine Spec.bind (fun _ => about.QuietPosted self)
    ((keeps_markDone hid).lift.mono fun result shared hpost => ?_) fun result => ?_
  · cases result with
    | ok value => exact hpost
    | error err => exact hpost.elim
  · cases result <;> exact Keeps.pure _

theorem keeps_summaryWorker (hid : job.id = about.jobId) (hmeeting : job.meetingId = about.meetingId)
    (options : SummaryJobOptions) :
    about.Keeps self (about.Quiet self) (summaryWorker options self job) := by
  unfold summaryWorker
  refine Spec.bind (fun result shared => about.Returned self job (.ok result) shared)
    ((spec_processClaimedSummaryJob hid hmeeting options).mono fun result shared hpost => ?_)
    fun result => ?_
  · cases result with
    | ok value => exact hpost
    | error err => exact hpost.1
  cases result with
  | none => exact fun shared hpre => hpre.1
  | some generated =>
      by_cases hjob : generated.job = job
      · have hnotify : about.Keeps self (about.Quiet self) (notifyAndComplete generated.job) := by
          unfold notifyAndComplete
          refine (keeps_outside quiet_stable).bind fun notified => ?_
          cases notified.failure with
          | some err => exact Keeps.throw _
          | none =>
              rw [hjob]
              exact (keeps_completeSummaryJobAfterNotification hid hmeeting).bind fun _ =>
                Keeps.pure _
        exact fun shared hpre => hnotify shared hpre.1
      · exact fun shared hpre => absurd (hpre.2 generated rfl) hjob

end

end SummaryCase

end DiscordTranscript.Application
