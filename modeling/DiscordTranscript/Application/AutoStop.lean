import DiscordTranscript.Foundation.MachineInt
import DiscordTranscript.Foundation.Runs

/-! # Automatic stop of an abandoned recording

The state machine of `application/auto_stop.rs` and the tasks of `application/runtime.rs` that
drive it. A voice-state event updates the state under the `auto_stop_states` lock and may
start a timer task. A timer that wakes takes the lifecycle permit, verifies the meeting, reads
the member count again and only then takes the lock; it holds the permit until it sleeps or
returns, so that one timer at a time is awake. Times are those of the monotonic clock.
-/

namespace DiscordTranscript.Application

open MachineInt

inductive AutoStopSignal where
  | idle
  | startTimer
  | alreadyWaiting
  | cancelled
  | trigger
  deriving DecidableEq, Repr

structure AutoStopState where
  gracePeriod : ℕ
  meetingId : Option String
  emptySince : Option ℕ := none
  timerActive : Bool := false
  timerGeneration : ℕ := 0
  deriving DecidableEq, Repr

namespace AutoStopState

def newForMeeting (gracePeriod : ℕ) (meetingId : Option String) : AutoStopState :=
  { gracePeriod, meetingId }

def belongsToMeeting (state : AutoStopState) (meetingId : String) : Bool :=
  state.meetingId = some meetingId

def shouldRemoveForMeetingCleanup (state : AutoStopState) (meetingId : String) : Bool :=
  state.meetingId.all (· = meetingId)

def refreshForMeeting (state : AutoStopState) (gracePeriod : ℕ) (meetingId : String) :
    AutoStopState :=
  if state.meetingId = some meetingId then state
  else { newForMeeting gracePeriod (some meetingId) with timerGeneration := state.timerGeneration }

def onNonBotMemberCountChanged (state : AutoStopState) (now nonBotMemberCount : ℕ) :
    AutoStopSignal × AutoStopState :=
  if nonBotMemberCount = 0 then
    let waiting := { state with emptySince := some (state.emptySince.getD now) }
    if state.timerActive then (.alreadyWaiting, waiting)
    else (.startTimer, { waiting with
      timerActive := true
      timerGeneration := min (state.timerGeneration + 1) u64Max })
  else
    (if state.emptySince.isSome then .cancelled else .idle,
      { state with timerActive := false, emptySince := none })

def clearTimerActiveForGeneration (state : AutoStopState) (generation : ℕ) : AutoStopState :=
  if state.timerGeneration = generation then { state with timerActive := false } else state

def retryAfterFailedStop (state : AutoStopState) (now : ℕ) : AutoStopState :=
  { state with emptySince := some now, timerActive := true }

def tick (state : AutoStopState) (now : ℕ) : AutoStopSignal × AutoStopState :=
  match state.emptySince with
  | none => (.idle, state)
  | some emptySince =>
      if state.gracePeriod ≤ now - emptySince then (.trigger, { state with emptySince := none })
      else (.idle, state)

end AutoStopState

/-! ## Decisions and retry counters -/

inductive GraceExpiryDecision where
  | stop
  | cancel
  | reschedule
  deriving DecidableEq, Repr

def decideAutoStopGraceExpiry : Option ℕ → GraceExpiryDecision
  | none => .reschedule
  | some 0 => .stop
  | some _ => .cancel

/-- A cache miss is treated as possibly empty. -/
def autoStopEventMemberCount (cachedCount : Option ℕ) : ℕ := cachedCount.getD 0

def autoStopGraceMaxCacheMissChecks : ℕ := 10
def recordingStopMaxRetries : ℕ := 10
def recordingLookupMaxRetries : ℕ := 10
def recordingTerminalCleanupMaxRetries : ℕ := 3

def saturatingSucc (count : ℕ) : ℕ := min (count + 1) u32Max

/-- A timer task with its counters, which are independent of each other. -/
structure TimerTask where
  generation : ℕ
  grace : ℕ
  graceCacheMisses : ℕ := 0
  lookupFailures : ℕ := 0
  stopFailures : ℕ := 0
  terminalCleanupFailures : ℕ := 0
  deriving DecidableEq, Repr

/-- What the store answers when a timer gives up and marks the recording failed: the first
attempt, and the second one that follows once the cleanup retry limit is reached. -/
structure MarkFailed where
  marked : Bool
  persisted : Bool
  deriving DecidableEq, Repr

/-- `none` once the recording is marked failed; else the task retries after another sleep. -/
def TimerTask.markRecordingFailed (task : TimerTask) (mark : MarkFailed) : Option TimerTask :=
  if mark.marked then none
  else
    let failures := saturatingSucc task.terminalCleanupFailures
    if failures < recordingTerminalCleanupMaxRetries then
      some { task with terminalCleanupFailures := failures }
    else if mark.persisted then none
    else some { task with terminalCleanupFailures := 0 }

/-! ## The system -/

/-- Where a timer that holds the lifecycle permit stands. -/
inductive TimerPhase where
  /-- The meeting was found active, the member count is about to be read. -/
  | verified
  /-- The count was read, the section under the lock is outstanding. -/
  | fired (count : Option ℕ)
  /-- The tick was idle, the timer is about to clear its reservation. -/
  | clearing
  /-- The tick triggered, the stop attempt is in progress. -/
  | stopping
  deriving DecidableEq, Repr

/-- A member count as an event or a fire-time read saw it, `none` on a cache miss. -/
structure Observation where
  time : ℕ
  count : Option ℕ
  byEvent : Bool
  deriving DecidableEq, Repr

def Observation.positive (observation : Observation) : Bool :=
  observation.count.any (0 < ·)

inductive RecordingPhase where
  | recording
  | stopped
  | failed
  deriving DecidableEq, Repr

/-- The auto-stop of one meeting: the guild's entry of `auto_stop_states`, the timers that
sleep with the time they fell asleep, the timer that is awake, and the observations made so
far, newest first. -/
structure AutoStopRuntime where
  meetingId : String
  now : ℕ := 0
  phase : RecordingPhase := .recording
  entry : Option AutoStopState := none
  sleeping : List (TimerTask × ℕ) := []
  awake : Option (TimerTask × TimerPhase) := none
  observed : List Observation := []
  deriving DecidableEq, Repr

inductive StopAttempt where
  | stopped
  | targetAbsent
  | failed (mark : MarkFailed)
  deriving DecidableEq, Repr

/-- What happens next. A voice-state event carries the cached count and the grace period that
its settings lookup returned. -/
inductive AutoStopStep where
  | elapse (ms : ℕ)
  | voiceStateUpdate (count : Option ℕ) (grace : ℕ)
  | wake (index : ℕ) (meetingFound : Bool) (mark : MarkFailed)
  | readCount (count : Option ℕ)
  | fireSection (mark : MarkFailed)
  | clearReservation
  | finishStop (attempt : StopAttempt)
  deriving DecidableEq, Repr

namespace AutoStopRuntime

def observe (runtime : AutoStopRuntime) (count : Option ℕ) (byEvent : Bool) : AutoStopRuntime :=
  { runtime with observed := ⟨runtime.now, count, byEvent⟩ :: runtime.observed }

/-- The timer gives the permit back and sleeps. -/
def sleep (runtime : AutoStopRuntime) (task : TimerTask) : AutoStopRuntime :=
  { runtime with awake := none, sleeping := runtime.sleeping ++ [(task, runtime.now)] }

def timerReturns (runtime : AutoStopRuntime) : AutoStopRuntime :=
  { runtime with awake := none }

/-- The entry when it is the one of this meeting. -/
def ownEntry (runtime : AutoStopRuntime) : Option AutoStopState :=
  runtime.entry.filter (·.belongsToMeeting runtime.meetingId)

def giveUp (runtime : AutoStopRuntime) (task : TimerTask) (mark : MarkFailed) :
    AutoStopRuntime :=
  match task.markRecordingFailed mark with
  | none => { runtime with phase := .failed, entry := none, awake := none }
  | some task => runtime.sleep task

def rearmAutoStopStateForRetry (runtime : AutoStopRuntime) : Option AutoStopRuntime :=
  runtime.ownEntry.map fun state =>
    { runtime with entry := some (state.retryAfterFailedStop runtime.now) }

def voiceStateUpdate (runtime : AutoStopRuntime) (count : Option ℕ) (grace : ℕ) :
    AutoStopRuntime :=
  let state := (runtime.entry.getD
    (.newForMeeting grace (some runtime.meetingId))).refreshForMeeting grace runtime.meetingId
  let (signal, state) :=
    state.onNonBotMemberCountChanged runtime.now (autoStopEventMemberCount count)
  let seen := { runtime.observe count true with entry := some state }
  if signal = .startTimer then
    { seen with sleeping := seen.sleeping ++
        [({ generation := state.timerGeneration, grace }, runtime.now)] }
  else seen

def wake (runtime : AutoStopRuntime) (index : ℕ) (meetingFound : Bool) (mark : MarkFailed) :
    AutoStopRuntime :=
  match runtime.awake, runtime.sleeping[index]? with
  | none, some (task, since) =>
      if runtime.now < since + task.grace then runtime
      else
        let risen := { runtime with sleeping := runtime.sleeping.eraseIdx index }
        if meetingFound then
          { risen with awake := some ({ task with lookupFailures := 0 }, .verified) }
        else
          let task := { task with lookupFailures := saturatingSucc task.lookupFailures }
          if task.lookupFailures < recordingLookupMaxRetries then risen.sleep task
          else risen.giveUp task mark
  | _, _ => runtime

def readCount (runtime : AutoStopRuntime) (count : Option ℕ) : AutoStopRuntime :=
  match runtime.awake with
  | some (task, .verified) =>
      { runtime.observe count false with awake := some (task, .fired count) }
  | _ => runtime

def rescheduleSection (runtime : AutoStopRuntime) (task : TimerTask) (mark : MarkFailed) :
    AutoStopRuntime :=
  let task := { task with graceCacheMisses := saturatingSucc task.graceCacheMisses }
  if task.graceCacheMisses < autoStopGraceMaxCacheMissChecks then
    match runtime.rearmAutoStopStateForRetry with
    | some rearmed => rearmed.sleep task
    | none => runtime.timerReturns
  else runtime.giveUp task mark

def cancelSection (runtime : AutoStopRuntime) (count : ℕ) : AutoStopRuntime :=
  match runtime.ownEntry with
  | some state =>
      { runtime.timerReturns with
        entry := some (state.onNonBotMemberCountChanged runtime.now count).2 }
  | none => runtime.timerReturns

def tickSection (runtime : AutoStopRuntime) (task : TimerTask) : AutoStopRuntime :=
  let task := { task with graceCacheMisses := 0 }
  match runtime.entry with
  | some state =>
      if state.belongsToMeeting runtime.meetingId then
        let (signal, state) := state.tick runtime.now
        { runtime with
          entry := some state
          awake := some (task, if signal = .trigger then .stopping else .clearing) }
      else
        { runtime.timerReturns with
          entry := runtime.entry.filter fun state =>
            !state.shouldRemoveForMeetingCleanup runtime.meetingId }
  | none => { runtime with awake := some (task, .stopping) }

def fireSection (runtime : AutoStopRuntime) (mark : MarkFailed) : AutoStopRuntime :=
  match runtime.awake with
  | some (task, .fired count) =>
      match decideAutoStopGraceExpiry count with
      | .reschedule => runtime.rescheduleSection task mark
      | .cancel => runtime.cancelSection (count.getD 0)
      | .stop => runtime.tickSection task
  | _ => runtime

def clearReservation (runtime : AutoStopRuntime) : AutoStopRuntime :=
  match runtime.awake with
  | some (task, .clearing) =>
      { runtime.timerReturns with
        entry := runtime.entry.map fun state =>
          if state.belongsToMeeting runtime.meetingId then
            state.clearTimerActiveForGeneration task.generation
          else state }
  | _ => runtime

/-- A failed attempt is re-armed, except once its retry limit is reached. -/
def stopFailed (runtime : AutoStopRuntime) (task : TimerTask) (mark : MarkFailed) :
    AutoStopRuntime :=
  let task := { task with stopFailures := saturatingSucc task.stopFailures }
  if task.stopFailures < recordingStopMaxRetries then
    match runtime.rearmAutoStopStateForRetry with
    | some rearmed => rearmed.sleep task
    | none => runtime.giveUp task mark
  else runtime.giveUp task mark

def finishStop (runtime : AutoStopRuntime) (attempt : StopAttempt) : AutoStopRuntime :=
  match runtime.awake with
  | some (task, .stopping) =>
      match attempt with
      | .failed mark => runtime.stopFailed task mark
      | _ => { runtime with phase := .stopped, entry := none, awake := none }
  | _ => runtime

/-- One step of the meeting's auto-stop; nothing happens any more once the recording ended. -/
def step (runtime : AutoStopRuntime) (input : AutoStopStep) : AutoStopRuntime :=
  if runtime.phase = .recording then
    match input with
    | .elapse ms => { runtime with now := runtime.now + ms }
    | .voiceStateUpdate count grace => runtime.voiceStateUpdate count grace
    | .wake index meetingFound mark => runtime.wake index meetingFound mark
    | .readCount count => runtime.readCount count
    | .fireSection mark => runtime.fireSection mark
    | .clearReservation => runtime.clearReservation
    | .finishStop attempt => runtime.finishStop attempt
  else runtime

end AutoStopRuntime

end DiscordTranscript.Application
