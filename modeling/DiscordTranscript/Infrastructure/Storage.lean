import DiscordTranscript.Domain.Model
import DiscordTranscript.Foundation.AssocSum

/-! # The meeting store

The part of `infrastructure/storage.rs` through which a meeting is created,
found, stopped and moved by a worker. A meeting carries the fields that these
operations read or write; of its settings only the switch for summaries is read.
Times are integers of milliseconds, and the clock reading of an operation is an
input.
-/

namespace DiscordTranscript.Infrastructure

open Domain

inductive StoreError where
  | alreadyExists (meetingId : String)
  | activeMeetingExists (meetingId : String)
  | backend (message : String)
  | notFound (meetingId : String)
  | casConflict (meetingId : String)
  deriving DecidableEq, Repr

def StoreError.display : StoreError → String
  | .alreadyExists meetingId => s!"meeting already exists: {meetingId}"
  | .activeMeetingExists meetingId => s!"an active meeting already exists: {meetingId}"
  | .backend err => s!"store backend error: {err}"
  | .notFound meetingId => s!"meeting not found: {meetingId}"
  | .casConflict meetingId => s!"meeting status does not match expected value: {meetingId}"

structure StoredMeeting where
  id : String
  status : MeetingStatus
  errorMessage : Option String := none
  guildId : String := ""
  voiceChannelId : String := ""
  voiceChannelName : Option String := none
  reportChannelId : String := ""
  statusMessageChannelId : Option String := none
  statusMessageId : Option String := none
  startedByUserId : String := ""
  title : Option String := none
  stopReason : Option StopReason := none
  startedAt : Option ℤ := none
  stoppedAt : Option ℤ := none
  durationSeconds : Option ℕ := none
  deriving DecidableEq, Repr

structure EffectiveMeetingSettings where
  summaryEnabled : Bool
  deriving DecidableEq, Repr

structure CreateMeetingRequest where
  id : String
  guildId : String
  voiceChannelId : String
  voiceChannelName : Option String
  reportChannelId : String
  statusMessageChannelId : Option String
  statusMessageId : Option String
  startedByUserId : String
  effectiveSettings : Option EffectiveMeetingSettings
  deriving DecidableEq, Repr

/-- The meeting that `create_meeting_as_recording` inserts. -/
def CreateMeetingRequest.recordingMeeting (request : CreateMeetingRequest) (now : ℤ) :
    StoredMeeting where
  id := request.id
  guildId := request.guildId
  voiceChannelId := request.voiceChannelId
  voiceChannelName := request.voiceChannelName
  reportChannelId := request.reportChannelId
  statusMessageChannelId := request.statusMessageChannelId
  statusMessageId := request.statusMessageId
  startedByUserId := request.startedByUserId
  status := .recording
  startedAt := some now

/-- The usage event of a recording, with the fields that differ between events. -/
structure UsageEvent where
  id : String
  guildId : String
  meetingId : Option String
  quantity : ℕ
  observedAt : ℤ
  deriving DecidableEq, Repr

inductive StopTransition where
  | acquired
  | alreadyStoppingOrStopped
  deriving DecidableEq, Repr

structure InMemoryMeetingStore where
  meetings : AList fun _ : String => StoredMeeting := ∅
  effectiveSettings : AList fun _ : String => EffectiveMeetingSettings := ∅
  usageEvents : AList fun _ : String => UsageEvent := ∅

namespace InMemoryMeetingStore

def get (store : InMemoryMeetingStore) (meetingId : String) : Option StoredMeeting :=
  store.meetings.lookup meetingId

/-- Writing the meeting through `get_mut`. -/
def put (store : InMemoryMeetingStore) (meetingId : String) (meeting : StoredMeeting) :
    InMemoryMeetingStore :=
  { store with meetings := store.meetings.insert meetingId meeting }

@[simp]
theorem get_put (store : InMemoryMeetingStore) (meetingId : String) (meeting : StoredMeeting) :
    (store.put meetingId meeting).get meetingId = some meeting :=
  AList.lookup_insert store.meetings

theorem get_put_of_ne (store : InMemoryMeetingStore) {meetingId other : String}
    (meeting : StoredMeeting) (hother : other ≠ meetingId) :
    (store.put meetingId meeting).get other = store.get other :=
  AList.lookup_insert_ne hother

def insert (store : InMemoryMeetingStore) (meeting : StoredMeeting) : InMemoryMeetingStore :=
  store.put meeting.id meeting

def isActive (status : MeetingStatus) : Bool :=
  status = .scheduled || status = .recording || status = .stopping

/-- `meetings.values().find(..)` when the map is iterated in the given order. -/
def findMeeting (store : InMemoryMeetingStore) (order : List String)
    (wanted : StoredMeeting → Bool) : Option StoredMeeting :=
  ((store.meetings.iterKeys order).filterMap store.get).find? wanted

def activeRecordingBlocker (store : InMemoryMeetingStore) (order : List String)
    (guildId : String) : Option StoredMeeting :=
  store.findMeeting order fun meeting =>
    meeting.guildId = guildId && (meeting.status = .scheduled || meeting.status = .recording)

def findActiveMeetingByGuild (store : InMemoryMeetingStore) (order : List String)
    (guildId : String) : Option StoredMeeting :=
  store.findMeeting order fun meeting => meeting.guildId = guildId && isActive meeting.status

/-- Whole seconds between two times, rounded toward zero, and zero when they are
the wrong way round. -/
def secondsBetween (startedAt stoppedAt : ℤ) : ℕ := ((stoppedAt - startedAt) / 1000).toNat

end InMemoryMeetingStore

/-- What the first stop writes. -/
def StoredMeeting.stop (meeting : StoredMeeting) (reason : StopReason) (now : ℤ) :
    StoredMeeting :=
  { meeting with
    status := .stopping
    stopReason := some reason
    stoppedAt := some now
    durationSeconds := meeting.startedAt.map (InMemoryMeetingStore.secondsBetween · now) }

namespace InMemoryMeetingStore

def markStoppingIfRecording (store : InMemoryMeetingStore) (meetingId : String)
    (reason : StopReason) (now : ℤ) : Except StoreError StopTransition × InMemoryMeetingStore :=
  match store.get meetingId with
  | none => (.error (.notFound meetingId), store)
  | some meeting =>
      if meeting.status = .recording then
        (.ok .acquired, store.put meetingId (meeting.stop reason now))
      else (.ok .alreadyStoppingOrStopped, store)

def createMeetingAsRecording (store : InMemoryMeetingStore) (request : CreateMeetingRequest)
    (order : List String) (now : ℤ) : Except StoreError Unit × InMemoryMeetingStore :=
  if (store.get request.id).isSome then (.error (.alreadyExists request.id), store)
  else match store.activeRecordingBlocker order request.guildId with
  | some active => (.error (.activeMeetingExists active.id), store)
  | none =>
      let created := store.put request.id (request.recordingMeeting now)
      (.ok (), match request.effectiveSettings with
        | none => created
        | some settings =>
            { created with
              effectiveSettings := created.effectiveSettings.insert request.id settings })

/-- Events are immutable: a second one with the same id is dropped. -/
def appendUsageEvent (store : InMemoryMeetingStore) (event : UsageEvent) : InMemoryMeetingStore :=
  if event.id ∈ store.usageEvents then store
  else { store with usageEvents := store.usageEvents.insert event.id event }

def setMeetingStatus (store : InMemoryMeetingStore) (meetingId : String) (status : MeetingStatus)
    (expectedCurrent : Option MeetingStatus) : Except StoreError Unit × InMemoryMeetingStore :=
  match store.get meetingId with
  | none => (.error (.notFound meetingId), store)
  | some meeting =>
      if expectedCurrent.any (meeting.status ≠ ·) then (.error (.casConflict meetingId), store)
      else (.ok (), store.put meetingId { meeting with status := status })

def setErrorMessage (store : InMemoryMeetingStore) (meetingId : String)
    (errorMessage : Option String) : Except StoreError Unit × InMemoryMeetingStore :=
  match store.get meetingId with
  | none => (.error (.notFound meetingId), store)
  | some meeting => (.ok (), store.put meetingId { meeting with errorMessage := errorMessage })

def setMeetingTitle (store : InMemoryMeetingStore) (meetingId title : String) :
    Except StoreError Unit × InMemoryMeetingStore :=
  match store.get meetingId with
  | none => (.error (.notFound meetingId), store)
  | some meeting => (.ok (), store.put meetingId { meeting with title := some title })

def statusOf (store : InMemoryMeetingStore) (meetingId : String) : Option MeetingStatus :=
  (store.get meetingId).map (·.status)

end InMemoryMeetingStore

/-! ## The trait -/

/-- What a conditional update answers when the meeting has status `current`. -/
def compareAndSetResult (meetingId : String) (current : Option MeetingStatus)
    (expected : MeetingStatus) : Except StoreError Unit :=
  match current with
  | none => .error (.notFound meetingId)
  | some status => if status = expected then .ok () else .error (.casConflict meetingId)

/-- The status operations of the `MeetingStore` trait, for any implementation
whose operations do not break down: a conditional update is applied exactly when
the meeting has the expected status, and the error text is independent of it. -/
structure MeetingStore (S : Type) where
  statusOf : S → String → Option MeetingStatus
  setMeetingStatus :
    S → String → MeetingStatus → Option MeetingStatus → Except StoreError Unit × S
  setErrorMessage : S → String → Option String → Except StoreError Unit × S
  compareAndSet_result : ∀ store meetingId status expected,
    (setMeetingStatus store meetingId status (some expected)).1 =
      compareAndSetResult meetingId (statusOf store meetingId) expected
  compareAndSet_status : ∀ store meetingId status expected,
    statusOf (setMeetingStatus store meetingId status (some expected)).2 meetingId =
      if statusOf store meetingId = some expected then some status
      else statusOf store meetingId
  setErrorMessage_status : ∀ store meetingId errorMessage,
    statusOf (setErrorMessage store meetingId errorMessage).2 meetingId =
      statusOf store meetingId

namespace MeetingStore

variable {S : Type} {meetings : MeetingStore S} {store next : S} {meetingId : String}
  {status expected : MeetingStatus}

theorem status_of_applied
    (hset : meetings.setMeetingStatus store meetingId status (some expected) = (.ok (), next)) :
    meetings.statusOf store meetingId = some expected ∧
      meetings.statusOf next meetingId = some status := by
  have hresult := meetings.compareAndSet_result store meetingId status expected
  have hstatus := meetings.compareAndSet_status store meetingId status expected
  rw [hset] at hresult hstatus
  unfold compareAndSetResult at hresult
  split at hresult
  next => cases hresult
  next current hcurrent =>
    split at hresult
    next hmatch =>
      subst hmatch
      exact ⟨hcurrent, by simpa [hcurrent] using hstatus⟩
    next => cases hresult

theorem status_of_refused {err : StoreError}
    (hset : meetings.setMeetingStatus store meetingId status (some expected) = (.error err, next)) :
    meetings.statusOf next meetingId = meetings.statusOf store meetingId ∧
      meetings.statusOf store meetingId ≠ some expected ∧
      (err = .casConflict meetingId ∨ meetings.statusOf store meetingId = none) := by
  have hresult := meetings.compareAndSet_result store meetingId status expected
  have hstatus := meetings.compareAndSet_status store meetingId status expected
  rw [hset] at hresult hstatus
  unfold compareAndSetResult at hresult
  split at hresult
  next hcurrent => exact ⟨by simpa [hcurrent] using hstatus, by simp [hcurrent], .inr hcurrent⟩
  next current hcurrent =>
    split at hresult
    next => cases hresult
    next hdiffers =>
      exact ⟨by simpa [hcurrent, hdiffers] using hstatus, by simpa [hcurrent] using hdiffers,
        .inl (Except.error.inj hresult)⟩

end MeetingStore

def InMemoryMeetingStore.meetingStore : MeetingStore InMemoryMeetingStore where
  statusOf := statusOf
  setMeetingStatus := setMeetingStatus
  setErrorMessage := setErrorMessage
  compareAndSet_result store meetingId status expected := by
    cases hget : store.get meetingId with
    | none => simp [setMeetingStatus, statusOf, hget, compareAndSetResult]
    | some meeting =>
        by_cases hstatus : meeting.status = expected
        · simp [setMeetingStatus, statusOf, hget, compareAndSetResult, hstatus]
        · simp [setMeetingStatus, statusOf, hget, compareAndSetResult, hstatus]
  compareAndSet_status store meetingId status expected := by
    cases hget : store.get meetingId with
    | none => simp [setMeetingStatus, statusOf, hget]
    | some meeting =>
        by_cases hstatus : meeting.status = expected
        · simp [setMeetingStatus, statusOf, hget, hstatus]
        · simp [setMeetingStatus, statusOf, hget, hstatus]
  setErrorMessage_status store meetingId errorMessage := by
    cases hget : store.get meetingId with
    | none => simp [setErrorMessage, statusOf, hget]
    | some meeting => simp [setErrorMessage, statusOf, hget]

end DiscordTranscript.Infrastructure
