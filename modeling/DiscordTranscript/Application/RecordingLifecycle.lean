import Mathlib.Data.List.Nodup
import DiscordTranscript.Foundation.Runs
import DiscordTranscript.Application.RecordingCommands

/-! # One recording, one owner, one job

What any sequence of starts and stops leaves behind: a guild records one meeting
at a time, one call owns the stop of a meeting, and the meeting is handed to the
summary worker at most once. A bare `record_stop` stops the meeting without
handing it over; that is left to a later teardown.
-/

namespace DiscordTranscript.Application

open Domain Infrastructure

/-! ## What a call answered -/

namespace RecordingEntry

/-- The meeting that the call stopped itself. -/
def owned? (entry : RecordingEntry) : Option String :=
  match entry.result with
  | .recordStop (.ok ⟨meetingId, .owner⟩) => some meetingId
  | .teardown (.ok ⟨⟨meetingId, .owner, _⟩, _, _⟩) => some meetingId
  | _ => none

/-- The meeting whose summary job the call reported as enqueued. -/
def enqueued? (entry : RecordingEntry) : Option String :=
  match entry.result with
  | .teardown (.ok ⟨stopResult, true, _⟩) => some stopResult.meetingId
  | _ => none

/-- The meeting whose summary job the call left to its caller. -/
def deferred? (entry : RecordingEntry) : Option String :=
  match entry.result with
  | .teardown (.ok ⟨stopResult, _, true⟩) => some stopResult.meetingId
  | _ => none

/-- The meeting that a teardown was about. -/
def tornDown? (entry : RecordingEntry) : Option String :=
  match entry.result with
  | .teardown (.ok result) => some result.stopResult.meetingId
  | _ => none

def reason? (entry : RecordingEntry) : Option StopReason :=
  match entry.call with
  | .recordStart _ _ => none
  | .recordStop request _ => some request.reason
  | .teardown request _ => some request.reason

/-- The meeting that a bare `record_stop` stopped. -/
def stoppedOnly? (entry : RecordingEntry) : Option String :=
  match entry.result with
  | .recordStop (.ok ⟨meetingId, .owner⟩) => some meetingId
  | _ => none

end RecordingEntry

def HasSummaryJob (queue : InMemoryJobQueue) (meetingId : String) : Prop :=
  ∃ job ∈ queue.jobs, job.id = summaryJobId meetingId ∧ job.meetingId = meetingId

/-- The meeting has its summary job, needs none, or was left to a caller. -/
def HandedOver (run : RecordingRun) (meetingId : String) (meeting : StoredMeeting) : Prop :=
  HasSummaryJob run.service.queue meetingId ∨
    (meeting.status = .posted ∧
      (run.service.store.effectiveSettings.lookup meetingId).any (!·.summaryEnabled) = true) ∨
    ∃ entry ∈ run.history, entry.deferred? = some meetingId

/-- Stopped by a bare `record_stop`, and no teardown has been about it since. -/
def AwaitsTeardown (run : RecordingRun) (meetingId : String) (meeting : StoredMeeting) : Prop :=
  meeting.status = .stopping ∧ (∃ entry ∈ run.history, entry.stoppedOnly? = some meetingId) ∧
    ∀ entry ∈ run.history, entry.tornDown? ≠ some meetingId

theorem findMeeting_eq_some {store : InMemoryMeetingStore} {order : List String}
    {wanted : StoredMeeting → Bool} {meeting : StoredMeeting}
    (hfind : store.findMeeting order wanted = some meeting) :
    (∃ id, store.get id = some meeting) ∧ wanted meeting = true := by
  have hmem := List.mem_of_find?_eq_some hfind
  obtain ⟨id, -, hget⟩ := List.mem_filterMap.mp hmem
  exact ⟨⟨id, hget⟩, List.find?_some hfind⟩

theorem findMeeting_eq_none {store : InMemoryMeetingStore} {order : List String}
    {wanted : StoredMeeting → Bool} (hfind : store.findMeeting order wanted = none)
    {id : String} {meeting : StoredMeeting} (hget : store.get id = some meeting) :
    wanted meeting = false := by
  have hkey : id ∈ store.meetings.iterKeys order := by
    rw [AList.mem_iterKeys]
    exact AList.lookup_isSome.mp (by rw [show store.meetings.lookup id = some meeting from hget]; rfl)
  have hnone := List.find?_eq_none.mp hfind meeting (List.mem_filterMap.mpr ⟨id, hkey, hget⟩)
  simpa using hnone

/-- One meeting was written; the settings are as they were. -/
structure MeetingWritten (before after : InMemoryMeetingStore) (id : String)
    (meeting : StoredMeeting) : Prop where
  get_eq : ∀ other, after.get other = if other = id then some meeting else before.get other
  settings_eq : after.effectiveSettings = before.effectiveSettings

theorem meetingWritten_put (store : InMemoryMeetingStore) (id : String)
    (meeting : StoredMeeting) : MeetingWritten store (store.put id meeting) id meeting := by
  refine ⟨fun other => ?_, rfl⟩
  by_cases hother : other = id
  · subst hother
    simp
  · rw [store.get_put_of_ne meeting hother, if_neg hother]

theorem meetingWritten_of_same {store after : InMemoryMeetingStore} {id : String}
    {meeting : StoredMeeting} (hget : store.get id = some meeting)
    (hsame : ∀ other, after.get other = store.get other)
    (hsettings : after.effectiveSettings = store.effectiveSettings) :
    MeetingWritten store after id meeting := by
  refine ⟨fun other => ?_, hsettings⟩
  rw [hsame]
  split
  next heq => rw [heq, hget]
  next => rfl

theorem MeetingWritten.trans {first second third : InMemoryMeetingStore} {id : String}
    {written meeting : StoredMeeting} (hfirst : MeetingWritten first second id written)
    (hsecond : MeetingWritten second third id meeting) : MeetingWritten first third id meeting := by
  refine ⟨fun other => ?_, hsecond.settings_eq.trans hfirst.settings_eq⟩
  rw [hsecond.get_eq, hfirst.get_eq]
  split
  next => rfl
  next => rfl

/-- The invariant of the service behind the guarantees. -/
structure RecordingInvariant (run : RecordingRun) : Prop where
  id_eq : ∀ id meeting, run.service.store.get id = some meeting → meeting.id = id
  known : ∀ id meeting, run.service.store.get id = some meeting →
    meeting.status = .recording ∨ meeting.status = .stopping ∨ meeting.status = .posted
  oneRecording : ∀ id meeting id' meeting', run.service.store.get id = some meeting →
    run.service.store.get id' = some meeting' → meeting.guildId = meeting'.guildId →
    meeting.status = .recording → meeting'.status = .recording → id = id'
  owners_nodup : (run.history.filterMap RecordingEntry.owned?).Nodup
  owned : ∀ entry ∈ run.history, ∀ id, entry.owned? = some id →
    ∃ meeting, run.service.store.get id = some meeting ∧ meeting.status ≠ .recording ∧
      meeting.stopReason = entry.reason? ∧ meeting.stoppedAt = some entry.now
  job_id : ∀ job ∈ run.service.queue.jobs, job.id = summaryJobId job.meetingId
  jobs_nodup : (run.service.queue.jobs.map (·.id)).Nodup
  enqueued : ∀ entry ∈ run.history, ∀ id, entry.enqueued? = some id →
    HasSummaryJob run.service.queue id
  handedOver : ∀ id meeting, run.service.store.get id = some meeting →
    meeting.status ≠ .recording → HandedOver run id meeting ∨ AwaitsTeardown run id meeting
  tornDown : ∀ entry ∈ run.history, ∀ id, entry.tornDown? = some id →
    ∃ meeting, run.service.store.get id = some meeting ∧ meeting.status ≠ .recording

section

variable {store : InMemoryMeetingStore}

/-- A stop finds the meeting already stopping, stops it, or changes nothing. -/
theorem recordStop_cases (hid : ∀ id meeting, store.get id = some meeting → meeting.id = id)
    (hknown : ∀ id meeting, store.get id = some meeting → meeting.status = .recording ∨
      meeting.status = .stopping ∨ meeting.status = .posted)
    (request : RecordStopRequest) (order : List String) (now : ℤ) :
    (∃ err, recordStop store request order now = (.error err, store)) ∨
      ∃ id meeting, store.get id = some meeting ∧
        ((meeting.status = .recording ∧ recordStop store request order now =
            (.ok ⟨id, .owner⟩, store.put id (meeting.stop request.reason now))) ∨
          (meeting.status = .stopping ∧
            recordStop store request order now = (.ok ⟨id, .alreadyHandled⟩, store))) := by
  unfold recordStop
  cases hfind : store.findActiveMeetingByGuild order request.guildId with
  | none => exact .inl ⟨_, rfl⟩
  | some meeting =>
      obtain ⟨⟨id, hget⟩, hwanted⟩ := findMeeting_eq_some hfind
      have hmeetingId := hid id meeting hget
      cases hauth : authorizeRecordStopForMeeting meeting request.callerUserId
          request.callerRole with
      | error err => exact .inl ⟨err, by simp [hauth]⟩
      | ok _ =>
          refine .inr ⟨id, meeting, hget, ?_⟩
          rcases hknown id meeting hget with hstatus | hstatus | hstatus
          · refine .inl ⟨hstatus, ?_⟩
            simp [hauth, hstatus, stopMeeting, InMemoryMeetingStore.markStoppingIfRecording,
              hmeetingId, hget]
          · refine .inr ⟨hstatus, ?_⟩
            simp [hauth, hstatus, stopMeeting, InMemoryMeetingStore.markStoppingIfRecording,
              hmeetingId, hget]
          · simp [InMemoryMeetingStore.isActive, hstatus] at hwanted

/-- The two ways in which the queue can answer a summary job. -/
theorem enqueueSummaryJob_cases (queue : InMemoryJobQueue) (meetingId : String) :
    (enqueueSummaryJob queue (summaryJobId meetingId) meetingId = (.error .alreadyExists, queue) ∧
        ∃ job ∈ queue.jobs, job.id = summaryJobId meetingId) ∨
      ∃ next job, enqueueSummaryJob queue (summaryJobId meetingId) meetingId = (.ok (), next) ∧
        next.jobs = queue.jobs ++ [job] ∧ job.id = summaryJobId meetingId ∧
        job.meetingId = meetingId ∧ ∀ other ∈ queue.jobs, other.id ≠ job.id := by
  let fresh : FreshJob :=
    { id := summaryJobId meetingId, meetingId := meetingId, jobType := .summarize }
  by_cases hany : queue.jobs.any (·.id = summaryJobId meetingId) = true
  · have hanswer : queue.enqueue fresh.job =
        (.error (.alreadyExists (summaryJobId meetingId)), queue) := if_pos hany
    refine .inl ⟨?_, by simpa using hany⟩
    unfold enqueueSummaryJob
    simp only [fresh] at hanswer
    simp only [hanswer]
  · have hanswer : queue.enqueue fresh.job = (.ok (), { queue with
        order := queue.order ++ [summaryJobId meetingId], jobs := queue.jobs ++ [fresh.job] }) :=
      if_neg hany
    refine .inr ⟨(queue.enqueue fresh.job).2, fresh.job, ?_, by rw [hanswer], rfl, rfl, ?_⟩
    · unfold enqueueSummaryJob
      simp only [fresh] at hanswer
      simp only [hanswer, fresh]
    · intro other hother heq
      exact hany (List.any_eq_true.mpr ⟨other, hother, decide_eq_true heq⟩)

theorem recordRecordingDurationUsage_meetings (store : InMemoryMeetingStore) (id : String)
    (now : ℤ) :
    (recordRecordingDurationUsage store id now).meetings = store.meetings ∧
      (recordRecordingDurationUsage store id now).effectiveSettings =
        store.effectiveSettings := by
  unfold recordRecordingDurationUsage InMemoryMeetingStore.appendUsageEvent
  split
  next => exact ⟨rfl, rfl⟩
  next =>
    split
    next => exact ⟨rfl, rfl⟩
    next =>
      split
      next => exact ⟨rfl, rfl⟩
      next => exact ⟨rfl, rfl⟩

end

/-! ## The invariant -/

theorem HasSummaryJob.of_subset {queue next : InMemoryJobQueue} {id : String}
    (hjob : HasSummaryJob queue id) (hsubset : ∀ job ∈ queue.jobs, job ∈ next.jobs) :
    HasSummaryJob next id := by
  obtain ⟨job, hmem, hid⟩ := hjob
  exact ⟨job, hsubset job hmem, hid⟩

/-- What a stop must bring along for the meeting it is about: a meeting that was
recording gets its owner, any other keeps the values of its stop. -/
structure StopEffect (before : StoredMeeting) (entry : RecordingEntry) (id : String)
    (after : StoredMeeting) : Prop where
  id_eq : after.id = before.id
  guild_eq : after.guildId = before.guildId
  stopped : after.status = .stopping ∨ after.status = .posted
  owner : entry.owned? = (if before.status = .recording then some id else none)
  acquired : before.status = .recording →
    after.stopReason = entry.reason? ∧ after.stoppedAt = some entry.now
  kept : before.status ≠ .recording →
    after.stopReason = before.stopReason ∧ after.stoppedAt = before.stoppedAt

variable {run : RecordingRun}

/-- The queue after a call: unchanged, or with the job of one meeting added. -/
structure JobsKept (before after : InMemoryJobQueue) : Prop where
  subset : ∀ job ∈ before.jobs, job ∈ after.jobs
  job_id : (∀ job ∈ before.jobs, job.id = summaryJobId job.meetingId) →
    ∀ job ∈ after.jobs, job.id = summaryJobId job.meetingId
  nodup : (before.jobs.map (·.id)).Nodup → (after.jobs.map (·.id)).Nodup

theorem JobsKept.refl (queue : InMemoryJobQueue) : JobsKept queue queue :=
  ⟨fun _ hjob => hjob, id, id⟩

theorem jobsKept_of_added {before after : InMemoryJobQueue} {job : Job} {id : String}
    (hjobs : after.jobs = before.jobs ++ [job]) (hid : job.id = summaryJobId id)
    (hmeeting : job.meetingId = id) (hfresh : ∀ other ∈ before.jobs, other.id ≠ job.id) :
    JobsKept before after := by
  refine ⟨fun other hother => ?_, fun hids other hother => ?_, fun hnodup => ?_⟩
  · rw [hjobs]
    exact List.mem_append_left _ hother
  · rw [hjobs, List.mem_append, List.mem_singleton] at hother
    rcases hother with hother | rfl
    · exact hids other hother
    · rw [hid, hmeeting]
  · rw [hjobs, List.map_append, List.map_singleton, List.nodup_append_comm, List.singleton_append,
      List.nodup_cons]
    refine ⟨fun hmem => ?_, hnodup⟩
    obtain ⟨other, hother, heq⟩ := List.mem_map.mp hmem
    exact hfresh other hother heq

/-- A call about a meeting that exists keeps the invariant, if it leaves that
meeting handed over or waiting for a teardown. -/
theorem RecordingInvariant.write (hinv : RecordingInvariant run) {entry : RecordingEntry}
    {service : RecordingService} {id : String} {before after : StoredMeeting}
    (hget : run.service.store.get id = some before)
    (hwritten : MeetingWritten run.service.store service.store id after)
    (heffect : StopEffect before entry id after)
    (hjobs : JobsKept run.service.queue service.queue)
    (henqueued : ∀ other, entry.enqueued? = some other → HasSummaryJob service.queue other)
    (htorn : ∀ other, entry.tornDown? = some other → other = id)
    (hhanded : HandedOver ⟨service, entry :: run.history⟩ id after ∨
      AwaitsTeardown ⟨service, entry :: run.history⟩ id after) :
    RecordingInvariant ⟨service, entry :: run.history⟩ := by
  have hafter : service.store.get id = some after := by simp [hwritten.get_eq]
  have hothers : ∀ other meeting, service.store.get other = some meeting →
      (other = id ∧ meeting = after) ∨
        (other ≠ id ∧ run.service.store.get other = some meeting) := by
    intro other meeting hother
    rw [hwritten.get_eq] at hother
    split at hother
    next heq => exact .inl ⟨heq, (Option.some.inj hother).symm⟩
    next hne => exact .inr ⟨hne, hother⟩
  have hnotRecording : after.status ≠ .recording := by
    rcases heffect.stopped with hstatus | hstatus <;> simp [hstatus]
  refine ⟨?_, ?_, ?_, ?_, ?_, hjobs.job_id hinv.job_id, hjobs.nodup hinv.jobs_nodup, ?_, ?_, ?_⟩
  · intro other meeting hother
    rcases hothers other meeting hother with ⟨rfl, rfl⟩ | ⟨-, hold⟩
    · rw [heffect.id_eq, hinv.id_eq _ _ hget]
    · exact hinv.id_eq _ _ hold
  · intro other meeting hother
    rcases hothers other meeting hother with ⟨-, rfl⟩ | ⟨-, hold⟩
    · exact .inr heffect.stopped
    · exact hinv.known _ _ hold
  · intro left leftMeeting right rightMeeting hleft hright hguild hleftLive hrightLive
    rcases hothers left leftMeeting hleft with ⟨-, rfl⟩ | ⟨-, hleftOld⟩
    · exact absurd hleftLive hnotRecording
    · rcases hothers right rightMeeting hright with ⟨-, rfl⟩ | ⟨-, hrightOld⟩
      · exact absurd hrightLive hnotRecording
      · exact hinv.oneRecording _ _ _ _ hleftOld hrightOld hguild hleftLive hrightLive
  · -- The meeting was recording when this call stopped it, so nobody owned it before.
    by_cases hrecording : before.status = .recording
    · rw [List.filterMap_cons_some (heffect.owner.trans (if_pos hrecording)), List.nodup_cons]
      refine ⟨fun hmem => ?_, hinv.owners_nodup⟩
      obtain ⟨earlier, hearlier, howned⟩ := List.mem_filterMap.mp hmem
      obtain ⟨meeting, hmeeting, hstopped, -⟩ := hinv.owned earlier hearlier id howned
      rw [hget] at hmeeting
      cases hmeeting
      exact hstopped hrecording
    · rw [List.filterMap_cons_none (heffect.owner.trans (if_neg hrecording))]
      exact hinv.owners_nodup
  · intro other hother owned howned
    rcases List.mem_cons.mp hother with rfl | hearlier
    · rw [heffect.owner] at howned
      split at howned
      next hrecording =>
        cases howned
        exact ⟨after, hafter, hnotRecording, heffect.acquired hrecording⟩
      next => cases howned
    · obtain ⟨meeting, hmeeting, hstopped, hreason, hat⟩ := hinv.owned other hearlier owned howned
      by_cases heq : owned = id
      · subst heq
        rw [hget] at hmeeting
        cases hmeeting
        obtain ⟨hkeptReason, hkeptAt⟩ := heffect.kept hstopped
        exact ⟨after, hafter, hnotRecording, hkeptReason.trans hreason, hkeptAt.trans hat⟩
      · exact ⟨meeting, by rw [hwritten.get_eq, if_neg heq, hmeeting], hstopped, hreason, hat⟩
  · intro other hother enqueued henq
    rcases List.mem_cons.mp hother with rfl | hearlier
    · exact henqueued enqueued henq
    · exact (hinv.enqueued other hearlier enqueued henq).of_subset hjobs.subset
  · intro other meeting hother hstopped
    rcases hothers other meeting hother with ⟨rfl, rfl⟩ | ⟨hne, hold⟩
    · exact hhanded
    · rcases hinv.handedOver other meeting hold hstopped with hover | hwaits
      · refine .inl ?_
        rcases hover with hjob | ⟨hposted, hdisabled⟩ | ⟨earlier, hearlier, hdeferred⟩
        · exact .inl (hjob.of_subset hjobs.subset)
        · exact .inr (.inl ⟨hposted, by rw [hwritten.settings_eq]; exact hdisabled⟩)
        · exact .inr (.inr ⟨earlier, List.mem_cons_of_mem _ hearlier, hdeferred⟩)
      · obtain ⟨hstatus, ⟨stopper, hstopper, hid⟩, hnone⟩ := hwaits
        refine .inr ⟨hstatus, ⟨stopper, List.mem_cons_of_mem _ hstopper, hid⟩, ?_⟩
        intro later hlater
        rcases List.mem_cons.mp hlater with rfl | hearlier
        · exact fun htorn' => hne (htorn other htorn')
        · exact hnone later hearlier
  · intro other hother torn htorn'
    rcases List.mem_cons.mp hother with rfl | hearlier
    · rw [htorn torn htorn']
      exact ⟨after, hafter, hnotRecording⟩
    · obtain ⟨meeting, hmeeting, hstopped⟩ := hinv.tornDown other hearlier torn htorn'
      by_cases heq : torn = id
      · rw [heq]
        exact ⟨after, hafter, hnotRecording⟩
      · exact ⟨meeting, by rw [hwritten.get_eq, if_neg heq, hmeeting], hstopped⟩

/-- A call that changes nothing and promises nothing. -/
theorem RecordingInvariant.unchanged (hinv : RecordingInvariant run) {entry : RecordingEntry}
    (howned : entry.owned? = none) (henqueued : entry.enqueued? = none)
    (htorn : entry.tornDown? = none) :
    RecordingInvariant ⟨run.service, entry :: run.history⟩ := by
  refine ⟨hinv.id_eq, hinv.known, hinv.oneRecording, ?_, ?_, hinv.job_id, hinv.jobs_nodup, ?_, ?_,
    ?_⟩
  · rw [List.filterMap_cons_none howned]
    exact hinv.owners_nodup
  · intro other hother id hid
    rcases List.mem_cons.mp hother with rfl | hearlier
    · rw [howned] at hid
      cases hid
    · exact hinv.owned other hearlier id hid
  · intro other hother id hid
    rcases List.mem_cons.mp hother with rfl | hearlier
    · rw [henqueued] at hid
      cases hid
    · exact hinv.enqueued other hearlier id hid
  · intro id meeting hget hstopped
    rcases hinv.handedOver id meeting hget hstopped with hover | hwaits
    · refine .inl ?_
      rcases hover with hjob | hposted | ⟨earlier, hearlier, hdeferred⟩
      · exact .inl hjob
      · exact .inr (.inl hposted)
      · exact .inr (.inr ⟨earlier, List.mem_cons_of_mem _ hearlier, hdeferred⟩)
    · obtain ⟨hstatus, ⟨stopper, hstopper, hid⟩, hnone⟩ := hwaits
      refine .inr ⟨hstatus, ⟨stopper, List.mem_cons_of_mem _ hstopper, hid⟩, ?_⟩
      intro later hlater
      rcases List.mem_cons.mp hlater with rfl | hearlier
      · rw [htorn]
        simp
      · exact hnone later hearlier
  · intro other hother id hid
    rcases List.mem_cons.mp hother with rfl | hearlier
    · rw [htorn] at hid
      cases hid
    · exact hinv.tornDown other hearlier id hid

/-- A start creates a meeting in a guild that records none, or changes nothing. -/
structure MeetingCreated (before after : InMemoryMeetingStore) (meeting : StoredMeeting) :
    Prop where
  absent : before.get meeting.id = none
  recording : meeting.status = .recording
  guildFree : ∀ id other, before.get id = some other → other.guildId = meeting.guildId →
    other.status ≠ .recording
  get_eq : ∀ id, after.get id = if id = meeting.id then some meeting else before.get id
  settings_eq : ∀ id, id ≠ meeting.id →
    after.effectiveSettings.lookup id = before.effectiveSettings.lookup id

theorem createMeetingAsRecording_cases (store : InMemoryMeetingStore)
    (request : CreateMeetingRequest) (order : List String) (now : ℤ) :
    (∃ err, store.createMeetingAsRecording request order now = (.error err, store)) ∨
      ∃ after, store.createMeetingAsRecording request order now = (.ok (), after) ∧
        MeetingCreated store after (request.recordingMeeting now) := by
  unfold InMemoryMeetingStore.createMeetingAsRecording
  split
  next => exact .inl ⟨_, rfl⟩
  next habsent =>
    split
    next => exact .inl ⟨_, rfl⟩
    next hblocker =>
      refine .inr ⟨_, rfl, Option.not_isSome_iff_eq_none.mp habsent, rfl, ?_, ?_, ?_⟩
      · intro id other hget hguild hrecording
        have hfree := findMeeting_eq_none hblocker hget
        simp only [hrecording, decide_true, Bool.or_true, Bool.and_true] at hfree
        exact of_decide_eq_false hfree hguild
      · intro id
        have hput := (meetingWritten_put store request.id (request.recordingMeeting now)).get_eq id
        cases request.effectiveSettings with
        | none => exact hput
        | some settings => exact hput
      · intro id hne
        cases request.effectiveSettings with
        | none => rfl
        | some settings => exact AList.lookup_insert_ne hne

theorem recordStart_cases (store : InMemoryMeetingStore) (request : RecordStartRequest)
    (orders : StartOrders) (now : ℤ) :
    (∃ err, recordStart store request orders now = (.error err, store)) ∨
      ∃ result meeting after, recordStart store request orders now = (.ok result, after) ∧
        MeetingCreated store after meeting := by
  unfold recordStart
  split
  next => exact .inl ⟨_, rfl⟩
  next preflight _ =>
    unfold recordStartAfterPreflight
    split
    next => exact .inl ⟨_, rfl⟩
    next =>
      split
      next => exact .inl ⟨_, rfl⟩
      next =>
        split
        next hcreate =>
          rcases createMeetingAsRecording_cases store _ orders.blocker now with
            ⟨_, heq⟩ | ⟨_, heq, -⟩
          · rw [heq] at hcreate
            cases hcreate
            exact .inl ⟨_, rfl⟩
          · rw [heq] at hcreate
            cases hcreate
        next hcreate =>
          rcases createMeetingAsRecording_cases store _ orders.blocker now with
            ⟨_, heq⟩ | ⟨_, heq, hcreated⟩
          · rw [heq] at hcreate
            cases hcreate
          · rw [heq] at hcreate
            cases hcreate
            exact .inr ⟨_, _, _, rfl, hcreated⟩

theorem RecordingInvariant.create (hinv : RecordingInvariant run) {entry : RecordingEntry}
    {after : InMemoryMeetingStore} {meeting : StoredMeeting}
    (hcreated : MeetingCreated run.service.store after meeting)
    (howned : entry.owned? = none) (henqueued : entry.enqueued? = none)
    (htorn : entry.tornDown? = none) :
    RecordingInvariant ⟨{ run.service with store := after }, entry :: run.history⟩ := by
  have hold := hinv.unchanged howned henqueued htorn
  have hothers : ∀ id other, after.get id = some other → (id = meeting.id ∧ other = meeting) ∨
      (id ≠ meeting.id ∧ run.service.store.get id = some other) := by
    intro id other hget
    rw [hcreated.get_eq] at hget
    split at hget
    next heq => exact .inl ⟨heq, (Option.some.inj hget).symm⟩
    next hne => exact .inr ⟨hne, hget⟩
  have hkept : ∀ id other, run.service.store.get id = some other → after.get id = some other := by
    intro id other hget
    rw [hcreated.get_eq, if_neg, hget]
    rintro rfl
    rw [hcreated.absent] at hget
    cases hget
  refine ⟨?_, ?_, ?_, hold.owners_nodup, ?_, hold.job_id, hold.jobs_nodup, hold.enqueued, ?_, ?_⟩
  · intro id other hget
    rcases hothers id other hget with ⟨rfl, rfl⟩ | ⟨-, hget⟩
    · rfl
    · exact hinv.id_eq id other hget
  · intro id other hget
    rcases hothers id other hget with ⟨-, rfl⟩ | ⟨-, hget⟩
    · exact .inl hcreated.recording
    · exact hinv.known id other hget
  · intro left leftMeeting right rightMeeting hleft hright hguild hleftLive hrightLive
    rcases hothers left leftMeeting hleft with ⟨rfl, rfl⟩ | ⟨-, hleft⟩
    · rcases hothers right rightMeeting hright with ⟨rfl, -⟩ | ⟨-, hright⟩
      · rfl
      · exact absurd hrightLive (hcreated.guildFree right rightMeeting hright hguild.symm)
    · rcases hothers right rightMeeting hright with ⟨-, rfl⟩ | ⟨-, hright⟩
      · exact absurd hleftLive (hcreated.guildFree left leftMeeting hleft hguild)
      · exact hinv.oneRecording _ _ _ _ hleft hright hguild hleftLive hrightLive
  · intro other hother id hid
    obtain ⟨stopped, hget, hfacts⟩ := hold.owned other hother id hid
    exact ⟨stopped, hkept id stopped hget, hfacts⟩
  · intro id other hget hstopped
    rcases hothers id other hget with ⟨-, rfl⟩ | ⟨hne, hget⟩
    · exact absurd hcreated.recording hstopped
    · rcases hold.handedOver id other hget hstopped with hover | hwaits
      · refine .inl ?_
        rcases hover with hjob | ⟨hposted, hdisabled⟩ | hdeferred
        · exact .inl hjob
        · exact .inr (.inl ⟨hposted, by simpa [hcreated.settings_eq id hne] using hdisabled⟩)
        · exact .inr (.inr hdeferred)
      · exact .inr hwaits
  · intro other hother id hid
    obtain ⟨stopped, hget, hstopped⟩ := hold.tornDown other hother id hid
    exact ⟨stopped, hkept id stopped hget, hstopped⟩

/-! ## Handing over -/

theorem summaryJobId_inj {id other : String} (heq : summaryJobId id = summaryJobId other) :
    id = other := by
  have hlists := congrArg String.toList heq
  simp only [summaryJobId, String.toList_append] at hlists
  exact String.toList_inj.mp (List.append_cancel_left hlists)

/-- A stopped meeting is posted without a summary, left to the caller, or queued. -/
structure HandOver (before after : RecordingService) (meeting : StoredMeeting)
    (result : RecordingStopTeardownResult) (next : StoredMeeting) : Prop where
  written : MeetingWritten before.store after.store result.stopResult.meetingId next
  id_eq : next.id = meeting.id
  guild_eq : next.guildId = meeting.guildId
  stop_eq : next.stopReason = meeting.stopReason ∧ next.stoppedAt = meeting.stoppedAt
  status : next.status = .stopping ∨ next.status = .posted
  jobs : JobsKept before.queue after.queue
  enqueued : result.summaryJobEnqueued = true →
    ∃ job ∈ after.queue.jobs, job.id = summaryJobId result.stopResult.meetingId
  handed : result.summaryJobEnqueued = true ∨ result.summaryJobDeferred = true ∨
    (next.status = .posted ∧ (after.store.effectiveSettings.lookup
      result.stopResult.meetingId).any (!·.summaryEnabled) = true)

theorem handOverSummary_spec (service : RecordingService) (stopResult : StopCommandResult)
    (deferSummaryEnqueue : Bool) {meeting : StoredMeeting}
    (hget : service.store.get stopResult.meetingId = some meeting)
    (hstatus : meeting.status = .stopping) :
    ∃ result after next,
      handOverSummary service stopResult deferSummaryEnqueue = (.ok result, after) ∧
      result.stopResult = stopResult ∧ HandOver service after meeting result next := by
  have hsame : MeetingWritten service.store service.store stopResult.meetingId meeting :=
    meetingWritten_of_same hget (fun _ => rfl) rfl
  unfold handOverSummary
  split
  next hdisabled =>
    let posted : StoredMeeting := { meeting with status := .posted }
    let cleared : StoredMeeting := { posted with errorMessage := none }
    have hwritten : MeetingWritten service.store
        ((service.store.put stopResult.meetingId posted).put stopResult.meetingId cleared)
        stopResult.meetingId cleared :=
      (meetingWritten_put _ _ _).trans (meetingWritten_put _ _ _)
    refine ⟨⟨stopResult, false, false⟩, { service with
      store := (service.store.put stopResult.meetingId posted).put stopResult.meetingId cleared },
      cleared, ?_, rfl, ?_⟩
    · simp [InMemoryMeetingStore.setMeetingStatus, InMemoryMeetingStore.setErrorMessage, hget,
        hstatus, posted, cleared]
    · refine ⟨hwritten, rfl, rfl, ⟨rfl, rfl⟩, .inr rfl, .refl _, by simp, .inr (.inr ⟨rfl, ?_⟩)⟩
      rw [hwritten.settings_eq]
      exact hdisabled
  next =>
    split
    next =>
      exact ⟨⟨stopResult, false, true⟩, service, meeting, rfl, rfl, hsame, rfl, rfl, ⟨rfl, rfl⟩,
        .inl hstatus, .refl _, by simp, .inr (.inl rfl)⟩
    next =>
      rcases enqueueSummaryJob_cases service.queue stopResult.meetingId with
        ⟨heq, hexists⟩ | ⟨next, job, heq, hjobs, hid, hmeeting, hfresh⟩
      · exact ⟨⟨stopResult, true, false⟩, service, meeting, by simp [heq], rfl, hsame, rfl, rfl,
          ⟨rfl, rfl⟩, .inl hstatus, .refl _, fun _ => hexists, .inl rfl⟩
      · refine ⟨⟨stopResult, true, false⟩, { service with queue := next }, meeting,
          by simp [heq], rfl, hsame, rfl, rfl, ⟨rfl, rfl⟩, .inl hstatus,
          jobsKept_of_added hjobs hid hmeeting hfresh, fun _ => ⟨job, ?_, hid⟩, .inl rfl⟩
        rw [hjobs]
        exact List.mem_append_right _ (List.mem_singleton.mpr rfl)

/-- A teardown that succeeds is about one meeting, which it stops or finds
stopping, and then hands over. -/
structure TornDown (before after : RecordingService) (request : TeardownRequest) (now : ℤ)
    (result : RecordingStopTeardownResult) (meeting next : StoredMeeting) : Prop where
  get_eq : before.store.get result.stopResult.meetingId = some meeting
  written : MeetingWritten before.store after.store result.stopResult.meetingId next
  id_eq : next.id = meeting.id
  guild_eq : next.guildId = meeting.guildId
  stopped :
    (meeting.status = .recording ∧ result.stopResult.outcome = .owner ∧
        next.stopReason = some request.reason ∧ next.stoppedAt = some now) ∨
      (meeting.status = .stopping ∧ result.stopResult.outcome = .alreadyHandled ∧
        next.stopReason = meeting.stopReason ∧ next.stoppedAt = meeting.stoppedAt)
  status : next.status = .stopping ∨ next.status = .posted
  jobs : JobsKept before.queue after.queue
  enqueued : result.summaryJobEnqueued = true →
    ∃ job ∈ after.queue.jobs, job.id = summaryJobId result.stopResult.meetingId
  handed : result.summaryJobEnqueued = true ∨ result.summaryJobDeferred = true ∨
    (next.status = .posted ∧ (after.store.effectiveSettings.lookup
      result.stopResult.meetingId).any (!·.summaryEnabled) = true)

theorem teardown_cases (hinv : RecordingInvariant run) (request : TeardownRequest)
    (orders : TeardownOrders) (now : ℤ) :
    (∃ err, stopAndEnqueueSummaryJobForTeardown run.service request orders now =
        (.error err, run.service)) ∨
      ∃ result after meeting next,
        stopAndEnqueueSummaryJobForTeardown run.service request orders now = (.ok result, after) ∧
        TornDown run.service after request now result meeting next := by
  unfold stopAndEnqueueSummaryJobForTeardown
  split
  next => exact .inl ⟨_, rfl⟩
  next =>
    unfold handleRecordStopResult
    rcases recordStop_cases hinv.id_eq hinv.known
      ⟨request.guildId, request.userId, request.callerRole, request.reason⟩ orders.stop now with
      ⟨err, heq⟩ | ⟨id, meeting, hget, ⟨hstatus, heq⟩ | ⟨hstatus, heq⟩⟩
    · refine .inl ?_
      simp only [heq]
      split
      next hcommand =>
        cases hcommand
        exact ⟨_, rfl⟩
      next hcommand =>
        cases hcommand
        exact ⟨_, rfl⟩
      next hcommand => cases hcommand
    · refine .inr ?_
      simp only [heq]
      let counted := recordRecordingDurationUsage
        (run.service.store.put id (meeting.stop request.reason now)) id now
      -- The usage event leaves the meetings alone.
      have hcounted : MeetingWritten run.service.store counted id
          (meeting.stop request.reason now) := by
        obtain ⟨hmeetings, hsettings⟩ := recordRecordingDurationUsage_meetings
          (run.service.store.put id (meeting.stop request.reason now)) id now
        have hput := meetingWritten_put run.service.store id (meeting.stop request.reason now)
        refine ⟨fun other => ?_, hsettings.trans hput.settings_eq⟩
        rw [← hput.get_eq other]
        exact congrArg (AList.lookup other) hmeetings
      have hstopping : counted.get id = some (meeting.stop request.reason now) := by
        rw [hcounted.get_eq, if_pos rfl]
      obtain ⟨result, after, next, hcall, hresult, hover⟩ := handOverSummary_spec
        ⟨counted, run.service.queue⟩
        ⟨id, .owner, "停止要求を受け付けました: meeting_id=" ++ id ++ ", outcome=" ++
          StopOutcome.owner.debug⟩ request.deferSummaryEnqueue hstopping rfl
      refine ⟨result, after, meeting, next, hcall, ?_⟩
      have hid : result.stopResult.meetingId = id := by rw [hresult]
      refine ⟨by rw [hid, hget], ?_, hover.id_eq, hover.guild_eq, .inl ⟨hstatus, by rw [hresult],
        hover.stop_eq⟩, hover.status, hover.jobs, hover.enqueued, hover.handed⟩
      have hwritten := hover.written
      rw [hid] at hwritten ⊢
      exact hcounted.trans hwritten
    · refine .inr ?_
      simp only [heq]
      rw [if_pos (by simp [hget, hstatus])]
      obtain ⟨result, after, next, hcall, hresult, hover⟩ := handOverSummary_spec
        run.service ⟨id, .alreadyHandled, "停止要求を受け付けました: meeting_id=" ++ id ++
          ", outcome=" ++ StopOutcome.alreadyHandled.debug⟩ request.deferSummaryEnqueue hget hstatus
      refine ⟨result, after, meeting, next, hcall, ?_⟩
      have hid : result.stopResult.meetingId = id := by rw [hresult]
      exact ⟨by rw [hid, hget], hover.written, hover.id_eq, hover.guild_eq,
        .inr ⟨hstatus, by rw [hresult], hover.stop_eq⟩, hover.status, hover.jobs, hover.enqueued,
        hover.handed⟩

theorem RecordingInvariant.recordStart (hinv : RecordingInvariant run)
    (request : RecordStartRequest) (orders : StartOrders) (now : ℤ) :
    RecordingInvariant (run.step (.recordStart request orders, now)) := by
  rcases recordStart_cases run.service.store request orders now with
    ⟨err, heq⟩ | ⟨result, meeting, after, heq, hcreated⟩
  · simp only [RecordingRun.step, RecordingService.call, heq]
    exact hinv.unchanged rfl rfl rfl
  · simp only [RecordingRun.step, RecordingService.call, heq]
    exact hinv.create hcreated rfl rfl rfl

theorem RecordingInvariant.recordStop (hinv : RecordingInvariant run)
    (request : RecordStopRequest) (order : List String) (now : ℤ) :
    RecordingInvariant (run.step (.recordStop request order, now)) := by
  rcases recordStop_cases hinv.id_eq hinv.known request order now with
    ⟨err, heq⟩ | ⟨id, meeting, hget, ⟨hstatus, heq⟩ | ⟨hstatus, heq⟩⟩
  · simp only [RecordingRun.step, RecordingService.call, heq]
    exact hinv.unchanged rfl rfl rfl
  · simp only [RecordingRun.step, RecordingService.call, heq]
    have heffect : StopEffect meeting
        ⟨.recordStop request order, now, .recordStop (.ok ⟨id, .owner⟩)⟩ id
        (meeting.stop request.reason now) :=
      ⟨rfl, rfl, .inl rfl, by rw [if_pos hstatus]; rfl, fun _ => ⟨rfl, rfl⟩,
        fun hother => absurd hstatus hother⟩
    refine hinv.write hget (meetingWritten_put _ _ _) heffect (.refl _) ?_ ?_ (.inr ⟨rfl, ?_, ?_⟩)
    · intro other henqueued
      cases henqueued
    · intro other htorn
      cases htorn
    · exact ⟨_, List.mem_cons_self, rfl⟩
    · -- A teardown would have found the meeting stopping or stopped.
      intro entry hentry htorn
      rcases List.mem_cons.mp hentry with rfl | hearlier
      · cases htorn
      · obtain ⟨stopped, hstopped, hnot⟩ := hinv.tornDown entry hearlier id htorn
        rw [hget] at hstopped
        cases hstopped
        exact hnot hstatus
  · simp only [RecordingRun.step, RecordingService.call, heq]
    exact hinv.unchanged rfl rfl rfl

theorem RecordingInvariant.teardown (hinv : RecordingInvariant run) (request : TeardownRequest)
    (orders : TeardownOrders) (now : ℤ) :
    RecordingInvariant (run.step (.teardown request orders, now)) := by
  rcases teardown_cases hinv request orders now with
    ⟨err, heq⟩ | ⟨result, after, meeting, next, heq, htorn⟩
  · simp only [RecordingRun.step, RecordingService.call, heq]
    exact hinv.unchanged rfl rfl rfl
  · simp only [RecordingRun.step, RecordingService.call, heq]
    let entry : RecordingEntry := ⟨.teardown request orders, now, .teardown (.ok result)⟩
    have howner : entry.owned? =
        if result.stopResult.outcome = .owner then some result.stopResult.meetingId else none := by
      obtain ⟨⟨id, outcome, message⟩, enqueued, deferred⟩ := result
      cases outcome <;> rfl
    have heffect : StopEffect meeting entry result.stopResult.meetingId next := by
      rcases htorn.stopped with ⟨hstatus, houtcome, hkept⟩ | ⟨hstatus, houtcome, hkept⟩
      · exact ⟨htorn.id_eq, htorn.guild_eq, htorn.status,
          by rw [howner, if_pos houtcome, if_pos hstatus], fun _ => hkept,
          fun hother => absurd hstatus hother⟩
      · have hnot : meeting.status ≠ .recording := by simp [hstatus]
        exact ⟨htorn.id_eq, htorn.guild_eq, htorn.status,
          by rw [howner, if_neg (by simp [houtcome]), if_neg hnot],
          fun hrecording => absurd hrecording hnot, fun _ => hkept⟩
    have hjob : result.summaryJobEnqueued = true →
        HasSummaryJob after.queue result.stopResult.meetingId := by
      intro henqueued
      obtain ⟨job, hmem, hid⟩ := htorn.enqueued henqueued
      refine ⟨job, hmem, hid, summaryJobId_inj ?_⟩
      rw [← htorn.jobs.job_id hinv.job_id job hmem, hid]
    have henqueued : entry.enqueued? =
        if result.summaryJobEnqueued = true then some result.stopResult.meetingId else none := by
      obtain ⟨stopResult, enqueued, deferred⟩ := result
      cases enqueued <;> rfl
    refine hinv.write htorn.get_eq htorn.written heffect htorn.jobs ?_ ?_ (.inl ?_)
    · intro other hother
      rw [show RecordingEntry.enqueued? _ = _ from henqueued] at hother
      split at hother
      next hflag =>
        cases hother
        exact hjob hflag
      next => cases hother
    · intro other hother
      exact (Option.some.inj hother).symm
    · rcases htorn.handed with hflag | hflag | hposted
      · exact .inl (hjob hflag)
      · refine .inr (.inr ⟨entry, List.mem_cons_self, ?_⟩)
        obtain ⟨stopResult, enqueued, deferred⟩ := result
        cases hflag
        rfl
      · exact .inr (.inl hposted)

theorem RecordingInvariant.step (hinv : RecordingInvariant run) (input : RecordingCall × ℤ) :
    RecordingInvariant (run.step input) := by
  obtain ⟨call, now⟩ := input
  cases call with
  | recordStart request orders => exact hinv.recordStart request orders now
  | recordStop request order => exact hinv.recordStop request order now
  | teardown request orders => exact hinv.teardown request orders now

end DiscordTranscript.Application
