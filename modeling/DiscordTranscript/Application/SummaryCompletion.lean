import DiscordTranscript.Application.SummaryOwnership

/-! # A summary worker on its own

A worker that claims the job, is not disturbed and meets no failure outside ends
with the job done and the meeting posted, from every status that the meeting of a
queued job can have.
-/

namespace DiscordTranscript.Application

open Domain Infrastructure Interleaving

namespace SummaryCase

variable {about : SummaryCase}

/-- Alone, with the clock at `now` and nothing failing outside, the worker
returns from states with `pre` and leaves one with `post`. -/
def Finishes {α : Type} (now : ℤ) (pre : SummaryShared → Prop) (worker : Worker α)
    (post : α → SummaryShared → Prop) : Prop :=
  ∀ shared, pre shared → ∃ value after,
    worker.run.alone { now := now } shared = (.ok value, after) ∧ post value after

section

variable {α β : Type} {now : ℤ} {pre : SummaryShared → Prop} {worker : Worker α}
  {post : α → SummaryShared → Prop}

theorem Finishes.pure {value : α} (hpost : ∀ shared, pre shared → post value shared) :
    Finishes now pre (Pure.pure value : Worker α) post :=
  fun shared hpre => ⟨value, shared, rfl, hpost shared hpre⟩

theorem Finishes.bind {rest : α → Worker β} {post' : β → SummaryShared → Prop}
    (hworker : Finishes now pre worker post)
    (hrest : ∀ value, Finishes now (post value) (rest value) post') :
    Finishes now pre (worker >>= rest) post' := by
  intro shared hpre
  obtain ⟨value, middle, hfirst, hmiddle⟩ := hworker shared hpre
  obtain ⟨result, after, hsecond, hafter⟩ := hrest value middle hmiddle
  refine ⟨result, after, ?_, hafter⟩
  change (worker.run >>= ExceptT.bindCont rest).alone _ _ = _
  rw [Program.alone_bind, hfirst]
  exact hsecond

theorem Finishes.lift (hworker : Finishes now pre worker post) :
    Finishes now pre (ExceptT.lift worker.run)
      (fun result shared => ∃ value, result = .ok value ∧ post value shared) := by
  intro shared hpre
  obtain ⟨value, after, hrun, hafter⟩ := hworker shared hpre
  refine ⟨.ok value, after, ?_, value, rfl, hafter⟩
  change (worker.run >>= fun result => Pure.pure (Except.ok result)).alone _ _ = _
  rw [Program.alone_bind, hrun]
  rfl

end

/-- The job is claimed with time left, and the meeting has the status. -/
structure Solo (about : SummaryCase) (job : Job) (now : ℤ) (status : MeetingStatus)
    (shared : SummaryShared) : Prop where
  held : shared.queue.HoldsClaim job now
  lease : 0 < shared.queue.leaseDuration
  status : shared.meetingStatus about.meetingId = some status
  settings : shared.summaryEnabled about.meetingId = about.enabled

/-- The job is done and the meeting posted. -/
def Completed (about : SummaryCase) (shared : SummaryShared) : Prop :=
  shared.jobStatus about.jobId = some .done ∧
    shared.meetingStatus about.meetingId = some .posted

section

variable {job : Job} {now : ℤ} {status : MeetingStatus}

theorem finishes_heartbeat :
    Finishes now (about.Solo job now status) (heartbeat job) fun _ => about.Solo job now status := by
  intro shared hsolo
  obtain ⟨hok, hheld⟩ := hsolo.held.heartbeat hsolo.lease
  refine ⟨(), { shared with queue := (shared.queue.heartbeat job now).2 }, ?_, hheld, ?_,
    hsolo.status, hsolo.settings⟩
  · change ((shared.queue.heartbeat job now).1.mapError _, _) = _
    rw [hok]
    rfl
  · exact (shared.queue.updateClaimed_leaseDuration job now _).symm ▸ hsolo.lease

theorem finishes_markDone (hid : job.id = about.jobId) :
    Finishes now (about.Solo job now .posted) (markDone job) fun _ => about.Completed := by
  intro shared hsolo
  obtain ⟨current, hget, heq⟩ := hsolo.held.updateClaimed_eq
  have hok : (shared.queue.markDone job now).1 = .ok () := by
    simp only [InMemoryJobQueue.markDone, heq, Except.map]
  have hdone : (shared.queue.markDone job now).2.get job.id = some (current.finish .done none) := by
    simp only [InMemoryJobQueue.markDone, heq]
    exact find?_updateFirst hget rfl
  refine ⟨(), { shared with queue := (shared.queue.markDone job now).2 }, ?_, ?_, hsolo.status⟩
  · change ((shared.queue.markDone job now).1.mapError _, _) = _
    rw [hok]
    rfl
  · rw [SummaryShared.jobStatus, ← hid, hdone]
    rfl

theorem finishes_outside :
    Finishes now (about.Solo job now status) outside fun input shared =>
      input.failure = none ∧ about.Solo job now status shared :=
  fun shared hsolo => ⟨{ now := now }, shared, rfl, rfl, hsolo⟩

/-- A call to the outside with what follows when nothing fails. -/
theorem finishes_outside_bind {α : Type} {rest : WorkerInput → Worker α}
    {post : α → SummaryShared → Prop}
    (hrest : ∀ input, input.failure = none →
      Finishes now (about.Solo job now status) (rest input) post) :
    Finishes now (about.Solo job now status) (outside >>= rest) post := by
  refine finishes_outside.bind fun input shared hpre => ?_
  exact hrest input hpre.1 shared hpre.2

/-- A call of the store that leaves the status and the settings alone. -/
theorem finishes_storeCall {α : Type}
    {call : InMemoryMeetingStore → ℤ → Except StoreError α × InMemoryMeetingStore}
    (answers : Except StoreError α → Prop)
    (hcall : ∀ store, store.statusOf about.meetingId = some status →
      (call store now).2.statusOf about.meetingId = some status ∧
      (call store now).2.effectiveSettings = store.effectiveSettings ∧ answers (call store now).1) :
    Finishes now (about.Solo job now status) (storeCall call) fun answer shared =>
      answers answer ∧ about.Solo job now status shared := by
  intro shared hsolo
  obtain ⟨hstatus, hsettings, hanswer⟩ := hcall shared.store hsolo.status
  refine ⟨(call shared.store now).1, { shared with store := (call shared.store now).2 }, rfl,
    hanswer, hsolo.held, hsolo.lease, hstatus, ?_⟩
  rw [SummaryShared.summaryEnabled, hsettings]
  exact hsolo.settings

/-- The expected status is there, so the update is applied. -/
theorem finishes_setMeetingStatus (next : MeetingStatus) :
    Finishes now (about.Solo job now status) (setMeetingStatus about.meetingId next status)
      fun answer shared => answer = .ok () ∧ about.Solo job now next shared := by
  intro shared hsolo
  rcases compareAndSet_cases shared.store about.meetingId next status with
    ⟨err, -, hdiffers, -⟩ | ⟨hok, -, hafter⟩
  · exact absurd hsolo.status hdiffers
  · refine ⟨_, _, rfl, hok, hsolo.held, hsolo.lease, hafter, ?_⟩
    rw [SummaryShared.summaryEnabled]
    simp only [setMeetingStatus_settings]
    exact hsolo.settings

/-- Another status is there, so the update is refused. -/
theorem refuses_setMeetingStatus {expected : MeetingStatus} (next : MeetingStatus)
    (hother : expected ≠ status) :
    Finishes now (about.Solo job now status) (setMeetingStatus about.meetingId next expected)
      fun answer shared => answer = .error (.casConflict about.meetingId) ∧
        about.Solo job now status shared := by
  intro shared hsolo
  rcases compareAndSet_cases shared.store about.meetingId next expected with
    ⟨err, heq, -, hconflict⟩ | ⟨-, hbefore, -⟩
  · have herr := hconflict (by rw [show shared.store.statusOf _ = _ from hsolo.status]; simp)
    refine ⟨.error err, shared, ?_, by rw [herr], hsolo⟩
    change (Except.ok (shared.store.setMeetingStatus about.meetingId next (some expected)).1,
      { shared with store :=
        (shared.store.setMeetingStatus about.meetingId next (some expected)).2 }) = _
    rw [heq]
  · exact absurd (Option.some.inj (hbefore.symm.trans hsolo.status)) hother

/-- From each status of a summary in progress the meeting gets to `Transcribing`. -/
theorem finishes_advanceToTranscribing (hstatus : status ∈ summaryStatuses) :
    Finishes now (about.Solo job now status) (advanceToTranscribing about.meetingId)
      fun _ => about.Solo job now .transcribing := by
  have hloop : ∀ left : List MeetingStatus, status ∈ left →
      Finishes now (about.Solo job now status) (advanceFrom about.meetingId left)
        fun _ => about.Solo job now .transcribing := by
    intro left hleft
    induction left with
    | nil => cases hleft
    | cons expected rest ih =>
        by_cases hexpected : expected = status
        · subst hexpected
          refine (finishes_setMeetingStatus .transcribing).bind fun answer shared hpre => ?_
          obtain ⟨rfl, hsolo⟩ := hpre
          exact ⟨(), shared, rfl, hsolo⟩
        · refine (refuses_setMeetingStatus .transcribing hexpected).bind fun answer shared hpre => ?_
          obtain ⟨rfl, hsolo⟩ := hpre
          rcases List.mem_cons.mp hleft with heq | hrest
          · exact absurd heq.symm hexpected
          · exact ih hrest shared hsolo
  exact hloop summaryStatuses hstatus

theorem finishes_revertOnFailure {input : WorkerInput} (hok : input.failure = none)
    (fromStatus : MeetingStatus) {pre : SummaryShared → Prop} :
    Finishes now pre (revertOnFailure about.meetingId fromStatus input) fun _ => pre := by
  unfold revertOnFailure
  rw [hok]
  exact Finishes.pure fun _ => id

theorem finishes_recordUsageEvent (event : ℤ → UsageEvent) :
    Finishes now (about.Solo job now status) (recordUsageEvent event)
      fun _ => about.Solo job now status := by
  refine (finishes_storeCall (fun _ => True) fun store hstatus => ?_).bind fun _ =>
    Finishes.pure fun _ hpre => hpre.2
  refine ⟨?_, ?_, trivial⟩
  · unfold InMemoryMeetingStore.appendUsageEvent
    split <;> exact hstatus
  · unfold InMemoryMeetingStore.appendUsageEvent
    split <;> rfl

theorem finishes_recordAsrUsage (meeting : StoredMeeting) :
    Finishes now (about.Solo job now status) (recordAsrUsage job meeting)
      fun _ => about.Solo job now status := by
  refine finishes_outside_bind fun input hok => ?_
  rw [hok]
  exact finishes_recordUsageEvent _

theorem finishes_correctTranscript (options : SummaryJobOptions) :
    Finishes now (about.Solo job now status) (correctTranscript options job)
      fun _ => about.Solo job now status := by
  unfold correctTranscript
  split
  next =>
    exact finishes_heartbeat.bind fun _ => finishes_outside_bind fun _ _ => Finishes.pure fun _ => id
  next => exact Finishes.pure fun _ => id

/-- An update that is applied, with the `?` after it. -/
theorem finishes_update {α : Type} {next : MeetingStatus} {rest : Worker α}
    {post : α → SummaryShared → Prop}
    (hrest : Finishes now (about.Solo job now next) rest post) :
    Finishes now (about.Solo job now status) (do
      orFail (← setMeetingStatus about.meetingId next status)
      rest) post := by
  refine (finishes_setMeetingStatus next).bind fun answer shared hpre => ?_
  obtain ⟨rfl, hsolo⟩ := hpre
  exact hrest shared hsolo

theorem finishes_setMeetingTitle (title : String) :
    Finishes now (about.Solo job now status) (setMeetingTitle about.meetingId title)
      fun answer shared => answer = .ok () ∧ about.Solo job now status shared := by
  refine finishes_storeCall (· = .ok ()) fun store hstatus => ?_
  have hsame := setMeetingTitle_status store about.meetingId title
  refine ⟨hsame.trans hstatus, ?_, ?_⟩
  · unfold InMemoryMeetingStore.setMeetingTitle
    split <;> rfl
  · obtain ⟨meeting, hget, -⟩ := Option.map_eq_some_iff.mp hstatus
    simp only [InMemoryMeetingStore.setMeetingTitle, hget]

theorem finishes_setErrorMessage (errorMessage : Option String) :
    Finishes now (about.Solo job now status) (setErrorMessage about.meetingId errorMessage)
      fun answer shared => answer = .ok () ∧ about.Solo job now status shared := by
  refine finishes_storeCall (· = .ok ()) fun store hstatus => ?_
  have hsame := InMemoryMeetingStore.meetingStore.setErrorMessage_status store about.meetingId
    errorMessage
  refine ⟨Eq.trans hsame hstatus, ?_, ?_⟩
  · unfold InMemoryMeetingStore.setErrorMessage
    split <;> rfl
  · obtain ⟨meeting, hget, -⟩ := Option.map_eq_some_iff.mp hstatus
    simp only [InMemoryMeetingStore.setErrorMessage, hget]

theorem finishes_processMeetingSummary (hmeeting : job.meetingId = about.meetingId)
    (hstatus : status ∈ summaryStatuses) (options : SummaryJobOptions) (meeting : StoredMeeting) :
    Finishes now (about.Solo job now status) (processMeetingSummary options job meeting)
      fun _ => about.Solo job now .summarizing := by
  unfold processMeetingSummary
  rw [hmeeting]
  refine finishes_heartbeat.bind fun _ => (finishes_advanceToTranscribing hstatus).bind fun _ =>
    finishes_outside_bind fun transcription htranscription => finishes_heartbeat.bind fun _ =>
    (finishes_revertOnFailure htranscription _).bind fun _ => ?_
  refine (finishes_recordAsrUsage meeting).bind fun _ => finishes_heartbeat.bind fun _ =>
    finishes_outside_bind fun _ _ => finishes_heartbeat.bind fun _ => finishes_update ?_
  refine finishes_heartbeat.bind fun _ => finishes_outside_bind fun contextManifest hcontext =>
    finishes_heartbeat.bind fun _ => (finishes_revertOnFailure hcontext _).bind fun _ => ?_
  refine (finishes_correctTranscript options).bind fun _ => finishes_heartbeat.bind fun _ =>
    finishes_outside_bind fun manifest hmanifest => finishes_heartbeat.bind fun _ =>
    (finishes_revertOnFailure hmanifest _).bind fun _ => ?_
  refine finishes_outside_bind fun supported hsupported =>
    (finishes_revertOnFailure hsupported _).bind fun _ => finishes_heartbeat.bind fun _ =>
    finishes_outside_bind fun _ _ => finishes_heartbeat.bind fun _ => ?_
  refine finishes_outside_bind fun workspace hworkspace => finishes_heartbeat.bind fun _ =>
    (finishes_revertOnFailure hworkspace _).bind fun _ => ?_
  refine finishes_outside_bind fun markdown hmarkdown => finishes_heartbeat.bind fun _ =>
    (finishes_revertOnFailure hmarkdown _).bind fun _ => ?_
  refine finishes_outside_bind fun leak hleak => (finishes_revertOnFailure hleak _).bind fun _ =>
    finishes_heartbeat.bind fun _ => finishes_outside_bind fun persisted hpersisted =>
    (finishes_revertOnFailure hpersisted _).bind fun _ => ?_
  refine finishes_heartbeat.bind fun _ => finishes_outside_bind fun title _ =>
    finishes_heartbeat.bind fun _ => (finishes_setMeetingTitle title.text).bind
      fun answer shared hpre => ?_
  obtain ⟨rfl, hsolo⟩ := hpre
  have hend : Finishes now (about.Solo job now .summarizing) (do
      heartbeat job
      let _titleArtifact ← outside
      heartbeat job
      return ({ meetingId := about.meetingId, title := title.text, markdown := markdown.text } :
        ProcessMeetingOutput)) fun _ => about.Solo job now .summarizing :=
    finishes_heartbeat.bind fun _ => finishes_outside_bind fun _ _ => finishes_heartbeat.bind
      fun _ => Finishes.pure fun _ => id
  exact hend shared hsolo

theorem finishes_getMeeting {α : Type} {rest : Option StoredMeeting → Worker α}
    {post : α → SummaryShared → Prop}
    (hrest : ∀ meeting, meeting.status = status →
      Finishes now (about.Solo job now status) (rest (some meeting)) post) :
    Finishes now (about.Solo job now status) (do
      let found ← orFail (← getMeeting about.meetingId)
      rest found) post := by
  refine (finishes_storeCall (fun answer => ∃ meeting, answer = .ok (some meeting) ∧
    meeting.status = status) fun store hstatus => ?_).bind fun answer shared hpre => ?_
  · obtain ⟨meeting, hget, hmeeting⟩ := Option.map_eq_some_iff.mp hstatus
    exact ⟨hstatus, rfl, meeting, by rw [hget], hmeeting⟩
  · obtain ⟨⟨meeting, rfl, hmeeting⟩, hsolo⟩ := hpre
    exact hrest meeting hmeeting shared hsolo

theorem finishes_getEffectiveMeetingSettings {α : Type}
    {rest : Option EffectiveMeetingSettings → Worker α} {post : α → SummaryShared → Prop}
    (hrest : ∀ settings, settings.all (·.summaryEnabled) = about.enabled →
      Finishes now (about.Solo job now status) (rest settings) post) :
    Finishes now (about.Solo job now status) (do
      let settings ← orFail (← getEffectiveMeetingSettings about.meetingId)
      rest settings) post := by
  intro shared hsolo
  exact hrest (shared.store.effectiveSettings.lookup about.meetingId) hsolo.settings shared hsolo

/-- A posted meeting only needs its job marked. -/
theorem finishes_completePosted (hid : job.id = about.jobId)
    (hmeeting : job.meetingId = about.meetingId) (summaryEnabled : Bool) :
    Finishes now (about.Solo job now .posted) (completePosted job summaryEnabled)
      fun output shared => output = none ∧ about.Completed shared := by
  have husage : Finishes now about.Completed (recordSummaryCompletionUsage about.meetingId)
      fun _ => about.Completed := by
    have hread : Finishes now about.Completed (getMeeting about.meetingId) fun _ => about.Completed :=
      fun shared hcompleted => ⟨_, shared, rfl, hcompleted⟩
    refine hread.bind fun answer => ?_
    split
    next meeting =>
      intro shared hcompleted
      refine ⟨(), _, rfl, hcompleted.1, ?_⟩
      simp only [SummaryShared.meetingStatus, InMemoryMeetingStore.appendUsageEvent]
      split <;> exact hcompleted.2
    next => exact Finishes.pure fun _ => id
  unfold completePosted
  rw [hmeeting]
  refine finishes_heartbeat.bind fun _ => (finishes_markDone hid).bind fun _ => ?_
  split
  next => exact husage.bind fun _ => Finishes.pure fun _ hcompleted => ⟨rfl, hcompleted⟩
  next => exact Finishes.pure fun _ hcompleted => ⟨rfl, hcompleted⟩

theorem finishes_suppressDisabled (hid : job.id = about.jobId)
    (hmeeting : job.meetingId = about.meetingId) {meeting : StoredMeeting}
    (hstopping : meeting.status = .stopping) :
    Finishes now (about.Solo job now .stopping) (suppressDisabled job meeting)
      fun output shared => output = none ∧ about.Completed shared := by
  unfold suppressDisabled
  rw [hstopping, hmeeting]
  exact finishes_heartbeat.bind fun _ => finishes_update (finishes_heartbeat.bind fun _ =>
    (finishes_markDone hid).bind fun _ => Finishes.pure fun _ hcompleted => ⟨rfl, hcompleted⟩)

/-- What the closure answers: the job is done, or a summary was generated. -/
def Generated (about : SummaryCase) (job : Job) (now : ℤ) (generated : Bool)
    (shared : SummaryShared) : Prop :=
  if generated then about.Solo job now .summarizing shared else about.Completed shared

theorem finishes_attemptSummaryJob (hid : job.id = about.jobId)
    (hmeeting : job.meetingId = about.meetingId)
    (hstatus : status = .posted ∨ status = .stopping ∨
      about.enabled = true ∧ status ∈ summaryStatuses) (options : SummaryJobOptions) :
    Finishes now (about.Solo job now status) (attemptSummaryJob options job)
      fun output => about.Generated job now output.isSome := by
  unfold attemptSummaryJob
  rw [hmeeting]
  refine finishes_getMeeting fun meeting hfound => finishes_getEffectiveMeetingSettings
    fun settings hsettings => ?_
  by_cases hposted : meeting.status = .posted
  · obtain rfl : status = .posted := hfound.symm.trans hposted
    rw [if_pos hposted]
    intro shared hsolo
    obtain ⟨output, after, hrun, rfl, hcompleted⟩ :=
      finishes_completePosted hid hmeeting _ shared hsolo
    exact ⟨none, after, hrun, hcompleted⟩
  · rw [if_neg hposted]
    split
    next hdisabled =>
      have hstopping : status = .stopping := by
        rcases hstatus with hother | hother | ⟨henabled, -⟩
        · exact absurd (hfound.trans hother) hposted
        · exact hother
        · rw [← hsettings] at henabled
          simp [henabled] at hdisabled
      subst hstopping
      intro shared hsolo
      obtain ⟨output, after, hrun, rfl, hcompleted⟩ :=
        finishes_suppressDisabled hid hmeeting hfound shared hsolo
      exact ⟨none, after, hrun, hcompleted⟩
    next =>
      have hopen : status ∈ summaryStatuses := by
        rcases hstatus with hother | hother | ⟨-, hopen⟩
        · exact absurd (hfound.trans hother) hposted
        · simp [hother, summaryStatuses]
        · exact hopen
      have hprepare : Finishes now (about.Solo job now status) prepareAudio
          fun _ => about.Solo job now status := by
        refine finishes_outside_bind fun input hok => ?_
        rw [hok]
        exact Finishes.pure fun _ => id
      exact hprepare.bind fun _ =>
        (finishes_processMeetingSummary hmeeting hopen options meeting).bind fun _ =>
        Finishes.pure fun _ => id

theorem finishes_completeSummaryJobAfterNotification (hid : job.id = about.jobId)
    (hmeeting : job.meetingId = about.meetingId) :
    Finishes now (about.Solo job now .summarizing) (completeSummaryJobAfterNotification job)
      fun _ => about.Completed := by
  have hdone : Finishes now (about.Solo job now .posted) (markCompleted job)
      fun _ => about.Completed := by
    unfold markCompleted
    refine (finishes_markDone hid).lift.bind fun result shared hpre => ?_
    obtain ⟨value, rfl, hcompleted⟩ := hpre
    exact ⟨true, shared, rfl, hcompleted⟩
  unfold completeSummaryJobAfterNotification
  rw [hmeeting]
  refine finishes_heartbeat.bind fun _ => finishes_update ?_
  refine (finishes_setErrorMessage none).bind fun answer shared hpre => ?_
  obtain ⟨rfl, hsolo⟩ := hpre
  exact hdone shared hsolo

theorem finishes_processClaimedSummaryJob (hid : job.id = about.jobId)
    (hmeeting : job.meetingId = about.meetingId)
    (hstatus : status = .posted ∨ status = .stopping ∨
      about.enabled = true ∧ status ∈ summaryStatuses) (options : SummaryJobOptions) (self : ℕ) :
    Finishes now (about.Solo job now status) (processClaimedSummaryJob options self job)
      fun result shared => (∀ generated, result = some generated → generated.job = job) ∧
        about.Generated job now result.isSome shared := by
  unfold processClaimedSummaryJob
  refine (finishes_attemptSummaryJob hid hmeeting hstatus options).lift.bind
    fun result shared hpre => ?_
  obtain ⟨output, rfl, hgenerated⟩ := hpre
  cases output with
  | none => exact ⟨none, shared, rfl, by simp, hgenerated⟩
  | some output =>
      have hbeat : Finishes now (about.Solo job now .summarizing) (do
          heartbeat job
          return some ({ jobId := job.id, job := job, output := output } : ProcessJobResult))
          fun result shared => (∀ generated, result = some generated → generated.job = job) ∧
            about.Generated job now result.isSome shared := by
        refine finishes_heartbeat.bind fun _ => Finishes.pure fun _ hsolo => ⟨?_, hsolo⟩
        rintro generated hsome
        obtain rfl := Option.some.inj hsome
        rfl
      exact hbeat shared hgenerated

theorem finishes_summaryWorker (hid : job.id = about.jobId)
    (hmeeting : job.meetingId = about.meetingId)
    (hstatus : status = .posted ∨ status = .stopping ∨
      about.enabled = true ∧ status ∈ summaryStatuses) (options : SummaryJobOptions) (self : ℕ) :
    Finishes now (about.Solo job now status) (summaryWorker options self job)
      fun _ => about.Completed := by
  unfold summaryWorker
  refine (finishes_processClaimedSummaryJob hid hmeeting hstatus options self).bind
    fun result shared hpre => ?_
  obtain ⟨hsame, hgenerated⟩ := hpre
  cases result with
  | none => exact ⟨(), shared, rfl, hgenerated⟩
  | some generated =>
      obtain rfl := hsame generated rfl
      have hnotify : Finishes now (about.Solo generated.job now .summarizing)
          (notifyAndComplete generated.job) fun _ => about.Completed := by
        unfold notifyAndComplete
        refine finishes_outside_bind fun input hok => ?_
        rw [hok]
        exact (finishes_completeSummaryJobAfterNotification hid hmeeting).bind fun _ =>
          Finishes.pure fun _ => id
      exact hnotify shared hgenerated

end

end SummaryCase

end DiscordTranscript.Application
