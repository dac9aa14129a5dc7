import DiscordTranscript.Application.SummaryWorker

/-! # Starting and stopping a recording

The model of `application/command.rs`, `application/stop.rs`, the stop handler
of `application/bot.rs` and `stop_and_enqueue_summary_job_for_teardown` of
`application/runtime.rs`, on the in-memory store and queue. Each lookup of the
active meeting is given the order in which it iterates the map, and each call
the reading of the clock.
-/

namespace DiscordTranscript.Application

open Domain Infrastructure

inductive StopOutcome where
  | owner
  | alreadyHandled
  deriving DecidableEq, Repr

def StopOutcome.debug : StopOutcome → String
  | .owner => "Owner"
  | .alreadyHandled => "AlreadyHandled"

structure PermissionSet where
  canConnectVoice : Bool
  canSendMessages : Bool
  deriving DecidableEq, Repr

structure RecordStartRequest where
  meetingId : String
  guildId : String
  startedByUserId : String
  commandChannelId : String
  userVoiceChannelId : Option String
  userVoiceChannelName : Option String
  permissions : PermissionSet
  callerRole : UserRole
  effectiveSettings : Option EffectiveMeetingSettings
  deriving DecidableEq, Repr

structure RecordStartResult where
  meetingId : String
  guildId : String
  voiceChannelId : String
  reportChannelId : String
  deriving DecidableEq, Repr

structure RecordStopRequest where
  guildId : String
  callerUserId : String
  callerRole : UserRole
  reason : StopReason
  deriving DecidableEq, Repr

structure RecordStopResult where
  meetingId : String
  outcome : StopOutcome
  deriving DecidableEq, Repr

inductive CommandError where
  | userNotInVoice
  | missingPermission (kind : String)
  | unauthorized (action : String)
  | activeMeetingExists (meetingId : String)
  | alreadyExists (meetingId : String)
  | preflightMismatch
  | noActiveMeeting
  | store (err : String)
  | stop (err : String)
  deriving DecidableEq, Repr

def CommandError.display : CommandError → String
  | .userNotInVoice => "user is not connected to a voice channel"
  | .missingPermission kind => s!"missing required permission: {kind}"
  | .unauthorized action => s!"not authorized to {action}"
  | .activeMeetingExists meetingId => s!"an active meeting already exists: {meetingId}"
  | .alreadyExists meetingId => s!"meeting already exists: {meetingId}"
  | .preflightMismatch => "record-start preflight does not match request"
  | .noActiveMeeting => "no active meeting found"
  | .store err => err
  | .stop err => err

def CommandError.ofStoreError : StoreError → CommandError
  | .alreadyExists meetingId => .alreadyExists meetingId
  | .activeMeetingExists meetingId => .activeMeetingExists meetingId
  | other => .store other.display

/-! ## Starting -/

/-- The orders in which a start iterates the map of meetings: for its own check
and for the check of the store. -/
structure StartOrders where
  preflight : List String := []
  blocker : List String := []

/-- The voice channel that the recording would join, if every check passes. -/
def validateRecordStartPreconditions (store : InMemoryMeetingStore)
    (request : RecordStartRequest) (order : List String) : Except CommandError String :=
  match request.userVoiceChannelId with
  | none => .error .userNotInVoice
  | some voiceChannelId =>
      if !request.permissions.canConnectVoice then .error (.missingPermission "connect_voice")
      else if !request.permissions.canSendMessages then
        .error (.missingPermission "send_messages")
      else if !isAllowed request.callerRole .startRecording then
        .error (.unauthorized "start recording")
      else match store.findActiveMeetingByGuild order request.guildId with
      | some active =>
          -- A meeting that is already stopping has released the voice channel.
          if active.status = .scheduled ∨ active.status = .recording then
            .error (.activeMeetingExists active.id)
          else .ok voiceChannelId
      | none => .ok voiceChannelId

def recordStartAfterPreflight (store : InMemoryMeetingStore) (request : RecordStartRequest)
    (preflight : String) (order : List String) (now : ℤ) :
    Except CommandError RecordStartResult × InMemoryMeetingStore :=
  match request.userVoiceChannelId with
  | none => (.error .userNotInVoice, store)
  | some requestVoiceChannelId =>
      if requestVoiceChannelId ≠ preflight then (.error .preflightMismatch, store)
      else match store.createMeetingAsRecording {
          id := request.meetingId
          guildId := request.guildId
          voiceChannelId := preflight
          voiceChannelName := request.userVoiceChannelName
          reportChannelId := request.commandChannelId
          statusMessageChannelId := none
          statusMessageId := none
          startedByUserId := request.startedByUserId
          effectiveSettings := request.effectiveSettings } order now with
      | (.error err, store) => (.error (.ofStoreError err), store)
      | (.ok (), store) => (.ok {
          meetingId := request.meetingId
          guildId := request.guildId
          voiceChannelId := preflight
          reportChannelId := request.commandChannelId }, store)

def recordStart (store : InMemoryMeetingStore) (request : RecordStartRequest)
    (orders : StartOrders) (now : ℤ) :
    Except CommandError RecordStartResult × InMemoryMeetingStore :=
  match validateRecordStartPreconditions store request orders.preflight with
  | .error err => (.error err, store)
  | .ok preflight => recordStartAfterPreflight store request preflight orders.blocker now

/-! ## Stopping -/

def stopMeeting (store : InMemoryMeetingStore) (meetingId : String) (reason : StopReason)
    (now : ℤ) : Except StoreError StopOutcome × InMemoryMeetingStore :=
  match store.markStoppingIfRecording meetingId reason now with
  | (.error err, store) => (.error err, store)
  | (.ok .acquired, store) => (.ok .owner, store)
  | (.ok .alreadyStoppingOrStopped, store) => (.ok .alreadyHandled, store)

/-- A member who started the meeting may stop it; the claimed role is not
trusted for that. -/
def authorizeRecordStopForMeeting (meeting : StoredMeeting) (callerUserId : String)
    (callerRole : UserRole) : Except CommandError Unit :=
  let effectiveRole := match callerRole with
    | .botAdmin | .guildAdmin => callerRole
    | .member | .startedMeeting =>
        if meeting.startedByUserId = callerUserId then .startedMeeting else .member
  if isAllowed effectiveRole .stopRecording then .ok ()
  else .error (.unauthorized "stop recording")

def recordStop (store : InMemoryMeetingStore) (request : RecordStopRequest)
    (order : List String) (now : ℤ) :
    Except CommandError RecordStopResult × InMemoryMeetingStore :=
  match store.findActiveMeetingByGuild order request.guildId with
  | none => (.error .noActiveMeeting, store)
  | some meeting =>
      match authorizeRecordStopForMeeting meeting request.callerUserId request.callerRole with
      | .error err => (.error err, store)
      | .ok () =>
          if meeting.status = .scheduled then
            match store.setMeetingStatus meeting.id .aborted (some .scheduled) with
            | (.error err, store) => (.error (.ofStoreError err), store)
            | (.ok (), store) => (.ok ⟨meeting.id, .alreadyHandled⟩, store)
          else
            match stopMeeting store meeting.id request.reason now with
            | (.error err, store) => (.error (.stop err.display), store)
            | (.ok outcome, store) => (.ok ⟨meeting.id, outcome⟩, store)

/-! ## Stopping and handing over to the summary worker -/

structure StopCommandResult where
  meetingId : String
  outcome : StopOutcome
  message : String
  deriving DecidableEq, Repr

def handleRecordStopResult (store : InMemoryMeetingStore) (request : RecordStopRequest)
    (order : List String) (now : ℤ) :
    Except CommandError StopCommandResult × InMemoryMeetingStore :=
  match recordStop store request order now with
  | (.error err, store) => (.error err, store)
  | (.ok result, store) => (.ok {
      meetingId := result.meetingId
      outcome := result.outcome
      message := "停止要求を受け付けました: meeting_id=" ++ result.meetingId ++ ", outcome=" ++
        result.outcome.debug }, store)

structure RecordingStopTeardownResult where
  stopResult : StopCommandResult
  summaryJobEnqueued : Bool
  summaryJobDeferred : Bool
  deriving DecidableEq, Repr

inductive TeardownStopError where
  | targetAbsent (message : String)
  | other (message : String)
  deriving DecidableEq, Repr

def recordingMinutesFromSeconds (seconds : ℕ) : ℕ := min ((seconds + 59) / 60) (2 ^ 63 - 1)

def recordingDurationSeconds (meeting : StoredMeeting) : Option ℕ :=
  match meeting.durationSeconds with
  | some seconds => some seconds
  | none => do
      let startedAt ← meeting.startedAt
      let stoppedAt ← meeting.stoppedAt
      return InMemoryMeetingStore.secondsBetween startedAt stoppedAt

def recordRecordingDurationUsage (store : InMemoryMeetingStore) (meetingId : String) (now : ℤ) :
    InMemoryMeetingStore :=
  match store.get meetingId with
  | none => store
  | some meeting =>
      match recordingDurationSeconds meeting with
      | none => store
      | some seconds => store.appendUsageEvent {
          id := s!"usage:recording_minutes:{meetingId}"
          guildId := meeting.guildId
          meetingId := some meetingId
          quantity := recordingMinutesFromSeconds seconds
          observedAt := now }

/-- The two stores of the bot. -/
structure RecordingService where
  store : InMemoryMeetingStore := {}
  queue : InMemoryJobQueue := {}

structure TeardownRequest where
  guildId : String
  userId : String
  callerRole : UserRole
  expectedMeetingId : Option String
  reason : StopReason
  deferSummaryEnqueue : Bool
  deriving DecidableEq, Repr

/-- The orders in which a teardown iterates the map: for the expected meeting
and for the stop. -/
structure TeardownOrders where
  expected : List String := []
  stop : List String := []

def checkExpectedMeeting (store : InMemoryMeetingStore) (request : TeardownRequest)
    (order : List String) : Except TeardownStopError Unit :=
  match request.expectedMeetingId with
  | none => .ok ()
  | some expectedMeetingId =>
      match store.findActiveMeetingByGuild order request.guildId with
      | none => .error (.targetAbsent CommandError.noActiveMeeting.display)
      | some active =>
          if active.id ≠ expectedMeetingId then
            .error (.targetAbsent ("active meeting changed before stop: expected=" ++
              expectedMeetingId ++ ", actual=" ++ active.id))
          else .ok ()

def summaryJobId (meetingId : String) : String := "summary-" ++ meetingId

/-- The part of the teardown after the meeting is stopped, when its summary is
this call's to hand over. -/
def handOverSummary (service : RecordingService) (stopResult : StopCommandResult)
    (deferSummaryEnqueue : Bool) :
    Except TeardownStopError RecordingStopTeardownResult × RecordingService :=
  if (service.store.effectiveSettings.lookup stopResult.meetingId).any (!·.summaryEnabled) then
    match service.store.setMeetingStatus stopResult.meetingId .posted (some .stopping) with
    | (.error err, store) => (.error (.other err.display), { service with store := store })
    | (.ok (), store) =>
        match store.setErrorMessage stopResult.meetingId none with
        | (.error err, store) => (.error (.other err.display), { service with store := store })
        | (.ok (), store) => (.ok ⟨stopResult, false, false⟩, { service with store := store })
  else if deferSummaryEnqueue then (.ok ⟨stopResult, false, true⟩, service)
  else
    match enqueueSummaryJob service.queue (summaryJobId stopResult.meetingId)
        stopResult.meetingId with
    | (.ok (), queue) => (.ok ⟨stopResult, true, false⟩, { service with queue := queue })
    | (.error .alreadyExists, queue) =>
        (.ok ⟨stopResult, true, false⟩, { service with queue := queue })
    | (.error err, queue) => (.error (.other err.display), { service with queue := queue })

def stopAndEnqueueSummaryJobForTeardown (service : RecordingService) (request : TeardownRequest)
    (orders : TeardownOrders) (now : ℤ) :
    Except TeardownStopError RecordingStopTeardownResult × RecordingService :=
  match checkExpectedMeeting service.store request orders.expected with
  | .error err => (.error err, service)
  | .ok () =>
      let stopRequest : RecordStopRequest :=
        ⟨request.guildId, request.userId, request.callerRole, request.reason⟩
      match handleRecordStopResult service.store stopRequest orders.stop now with
      | (.error .noActiveMeeting, store) =>
          (.error (.targetAbsent CommandError.noActiveMeeting.display),
            { service with store := store })
      | (.error err, store) => (.error (.other err.display), { service with store := store })
      | (.ok stopResult, store) =>
          match stopResult.outcome with
          | .owner =>
              handOverSummary
                { service with
                  store := recordRecordingDurationUsage store stopResult.meetingId now }
                stopResult request.deferSummaryEnqueue
          | .alreadyHandled =>
              -- A meeting that some other call stopped may still wait for its job.
              if (store.get stopResult.meetingId).any (·.status = .stopping) then
                handOverSummary { service with store := store } stopResult
                  request.deferSummaryEnqueue
              else (.ok ⟨stopResult, false, false⟩, { service with store := store })

/-! ## Runs -/

inductive RecordingCall where
  | recordStart (request : RecordStartRequest) (orders : StartOrders)
  | recordStop (request : RecordStopRequest) (order : List String)
  | teardown (request : TeardownRequest) (orders : TeardownOrders)

inductive RecordingResult where
  | recordStart (result : Except CommandError RecordStartResult)
  | recordStop (result : Except CommandError RecordStopResult)
  | teardown (result : Except TeardownStopError RecordingStopTeardownResult)

def RecordingService.call (service : RecordingService) (call : RecordingCall) (now : ℤ) :
    RecordingResult × RecordingService :=
  match call with
  | .recordStart request orders =>
      let (result, store) := recordStart service.store request orders now
      (.recordStart result, { service with store := store })
  | .recordStop request order =>
      let (result, store) := recordStop service.store request order now
      (.recordStop result, { service with store := store })
  | .teardown request orders =>
      let (result, service) := stopAndEnqueueSummaryJobForTeardown service request orders now
      (.teardown result, service)

/-- What a call was asked and what it answered. -/
structure RecordingEntry where
  call : RecordingCall
  now : ℤ
  result : RecordingResult

/-- The service with the calls so far, latest first; nothing reads `history`. -/
structure RecordingRun where
  service : RecordingService := {}
  history : List RecordingEntry := []

def RecordingRun.step (run : RecordingRun) (input : RecordingCall × ℤ) : RecordingRun :=
  let (result, service) := run.service.call input.1 input.2
  { service := service, history := ⟨input.1, input.2, result⟩ :: run.history }

end DiscordTranscript.Application
