import DiscordTranscript.Foundation.MachineInt
import DiscordTranscript.Foundation.Text
import DiscordTranscript.Infrastructure.ScheduleTable
import DiscordTranscript.Infrastructure.SqlJobs

/-! # Meeting schedules

The model of `domain/schedule.rs`, of the ways to create and cancel a schedule in
`interfaces/web.rs` and `application/runtime.rs`, and of the loop in `runtime.rs` that
starts the recordings. Any number of processes run the loop and serve requests. The
page creates a schedule in two statements while it holds the advisory lock of the
guild; the command does it in one statement that takes the same lock. What Discord
answers (the channels, the permissions, who is in the channel) is an input.
-/

namespace DiscordTranscript.Application

open Infrastructure MachineInt Text

/-- `split(':')` of the local time, both parts numbers of eight bits. -/
def parseLocalTime (localStartTime : String) : Option (ℕ × ℕ) :=
  match localStartTime.toList.splitOn ':' with
  | [hour, minute] => do
      let hour ← parseUnsigned 255 (String.ofList hour)
      let minute ← parseUnsigned 255 (String.ofList minute)
      return (hour, minute)
  | _ => none

def validateScheduleWindow (timezone localStartTime : String) (nextStartAt : ℤ)
    (durationSeconds now : ℕ) : Except String Unit :=
  if (trim timezone.toList).isEmpty || 100 < timezone.utf8ByteSize then
    .error "timezone is invalid"
  else if !(parseLocalTime localStartTime).any (fun time => time.1 ≤ 23 && time.2 ≤ 59) then
    .error "local start time must use HH:MM"
  else if durationSeconds < 60 || 86400 < durationSeconds then
    .error "duration must be between 60 seconds and 24 hours"
  else if nextStartAt ≤ now then .error "first occurrence must be in the future"
  else .ok ()

def isDiscordSnowflakeShaped (value : String) : Bool :=
  17 ≤ value.utf8ByteSize && value.utf8ByteSize ≤ 20 && value.toList.all Char.isDigit &&
    (parseUnsigned (2 ^ 64 - 1) value).isSome

/-! ## Requests -/

/-- What a schedule is created from, with the id that is generated for it. -/
structure ScheduleRequest where
  id : String
  guildId : String
  voiceChannelId : String
  reportChannelId : String
  createdByUserId : String
  timezone : String
  localStartTime : String
  startAt : ℤ
  durationSeconds : ℕ

/-- The row of an `INSERT`, if it meets the `CHECK`. -/
def ScheduleRequest.row (request : ScheduleRequest) : Option ScheduleRow :=
  if hduration : 60 ≤ request.durationSeconds ∧ request.durationSeconds ≤ 86400 then
    some
      { id := request.id
        guildId := request.guildId
        voiceChannelId := request.voiceChannelId
        reportChannelId := request.reportChannelId
        createdByUserId := request.createdByUserId
        timezone := request.timezone
        localStartTime := request.localStartTime
        durationSeconds := ⟨request.durationSeconds, hduration⟩
        nextStartAt := request.startAt.toNat }
  else none

inductive ScheduleRefusal where
  | badRequest
  | forbidden
  | conflict
  | internalServerError
  deriving DecidableEq, Repr

/-- `api_create_guild_schedule` up to its `INSERT`: the role is checked first, then the
request, the channels and the overlap. -/
def checkGuildSchedule (table : SchedulesTable) (request : ScheduleRequest)
    (permitted visible : Bool) (now : ℕ) : Except ScheduleRefusal ScheduleRow :=
  if !permitted then .error .forbidden
  else if (validateScheduleWindow request.timezone request.localStartTime request.startAt
      request.durationSeconds now).toOption.isNone then .error .badRequest
  else if !isDiscordSnowflakeShaped request.voiceChannelId ||
      !isDiscordSnowflakeShaped request.reportChannelId then .error .badRequest
  else if !visible then .error .forbidden
  else if table.overlaps request.guildId request.startAt.toNat request.durationSeconds then
    .error .conflict
  else match request.row with
  | some row => .ok row
  | none => .error .internalServerError

def twoDigits (n : ℕ) : String := if n < 10 then "0" ++ toString n else toString n

/-- `start_at.format("%H:%M")`. -/
def hourMinute (startAt : ℤ) : String :=
  let minutes := (startAt / (60 * secondMicros)) % (24 * 60)
  twoDigits (minutes / 60).toNat ++ ":" ++ twoDigits (minutes % 60).toNat

/-- The options of the command. -/
structure ScheduleCommand where
  id : String
  guildId : String
  voiceChannelId : String
  reportChannelId : String
  userId : String
  startAt : ℤ
  durationMinutes : ℤ

def ScheduleCommand.request (command : ScheduleCommand) : ScheduleRequest where
  id := command.id
  guildId := command.guildId
  voiceChannelId := command.voiceChannelId
  reportChannelId := command.reportChannelId
  createdByUserId := command.userId
  timezone := "UTC"
  localStartTime := hourMinute command.startAt
  startAt := command.startAt
  durationSeconds := command.durationMinutes.toNat * 60

/-- `handle_schedule_create` up to its statement; `denied` is why the role may not do it. -/
def checkScheduleCommand (command : ScheduleCommand) (permitted : Bool)
    (denied : Option String) (now : ℕ) :
    Except String ScheduleRequest :=
  if command.durationMinutes < 1 ∨ 1440 < command.durationMinutes then
    .error "duration_minutes must be between 1 and 1440"
  else if !permitted then
    .error ("bot needs connect permission in the voice channel and send-message permission " ++
      "in the report channel")
  else match validateScheduleWindow "UTC" command.request.localStartTime command.startAt
      command.request.durationSeconds now with
  | .error reason => .error reason
  | .ok () =>
      match denied with
      | some reason => .error reason
      | none => .ok command.request

/-- The statement of the command, which inserts when nothing overlaps. -/
def insertUnlessOverlapping (table : SchedulesTable) (request : ScheduleRequest) :
    Option SchedulesTable :=
  if table.overlaps request.guildId request.startAt.toNat request.durationSeconds then none
  else request.row.bind table.insertSchedule

/-! ## The processes -/

/-- Where an evaluation of the schedules is. -/
inductive SchedulePass where
  | idle
  | caughtUp (guildId : String)
  | turns (guildId : String) (rows : List ScheduleRow)

/-- An occurrence that was claimed, and whether its recording was then started; it is
not when the answer to the claim was lost. -/
structure ScheduleClaim where
  row : ScheduleRow
  started : Bool

structure ScheduleState where
  schedules : SchedulesTable
  /-- The schedules that are about to be inserted, under the locks of their guilds. -/
  creating : List ScheduleRow
  passes : ℕ → SchedulePass
  claims : List ScheduleClaim

/-- How the turn of a due schedule goes: an error ends the evaluation, a channel that is
not valid or not attended or a meeting that is active passes it by. -/
inductive ScheduleTurn where
  | aborted
  | passed
  | claimed (reply : Reply)

inductive ScheduleEvent where
  | check (request : ScheduleRequest) (permitted visible : Bool) (now : ℕ)
  | insert (guildId : String) (reply : Reply)
  | abandon (guildId : String)
  | command (command : ScheduleCommand) (permitted : Bool) (denied : Option String) (now : ℕ)
      (reply : Reply)
  | cancel (id guildId : String) (creator : Option String) (reply : Reply)
  | catchUp (worker : ℕ) (guildId : String) (now : ℕ) (reply : Reply)
  | query (worker : ℕ) (now : ℕ) (answered : Bool)
  | turn (worker : ℕ) (outcome : ScheduleTurn)

namespace ScheduleState

variable (state : ScheduleState)

def withPass (worker : ℕ) (pass : SchedulePass) : ScheduleState :=
  { state with passes := Function.update state.passes worker pass }

/-- Whether the lock of the guild is held. -/
def locked (guildId : String) : Bool := state.creating.any fun row => row.guildId = guildId

/-- A claim, and what the evaluation then goes on with. -/
def claim (worker : ℕ) (guildId : String) (row : ScheduleRow) (rest : List ScheduleRow)
    (reply : Reply) : ScheduleState :=
  let advanced := state.schedules.advance row.id guildId row.nextStartAt
  let (answer, schedules) := reply.execute state.schedules advanced
  let claimed := if reply.committed && advanced.1.isSome then
      [{ row := row, started := answer.toOption.isSome }]
    else []
  let pass := match answer with
    | .ok _ => .turns guildId rest
    | .error _ => .idle
  { state.withPass worker pass with
    schedules := schedules
    claims := state.claims ++ claimed }

def step (event : ScheduleEvent) : ScheduleState :=
  match event with
  | .check request permitted visible now =>
      if state.locked request.guildId then state
      else match checkGuildSchedule state.schedules request permitted visible now with
        | .ok row => { state with creating := row :: state.creating }
        | .error _ => state
  | .insert guildId reply =>
      match state.creating.find? fun row => row.guildId = guildId with
      | none => state
      | some row =>
          { state with
            schedules := if reply.committed then
                (state.schedules.insertSchedule row).getD state.schedules
              else state.schedules
            creating := state.creating.filter fun row => row.guildId ≠ guildId }
  | .abandon guildId =>
      { state with creating := state.creating.filter fun row => row.guildId ≠ guildId }
  | .command command permitted denied now reply =>
      if state.locked command.guildId then state
      else match checkScheduleCommand command permitted denied now with
        | .ok request =>
            { state with
              schedules := if reply.committed then
                  (insertUnlessOverlapping state.schedules request).getD state.schedules
                else state.schedules }
        | .error _ => state
  | .cancel id guildId creator reply =>
      { state with
        schedules :=
          (reply.execute state.schedules (state.schedules.cancel id guildId creator)).2 }
  | .catchUp worker guildId now reply =>
      let (answer, schedules) :=
        reply.execute state.schedules ((), state.schedules.catchUp guildId now)
      let pass := match answer with
        | .ok () => .caughtUp guildId
        | .error _ => .idle
      { state.withPass worker pass with schedules := schedules }
  | .query worker now answered =>
      match state.passes worker with
      | .caughtUp guildId => state.withPass worker
          (if answered then .turns guildId (state.schedules.due guildId now) else .idle)
      | _ => state
  | .turn worker outcome =>
      match state.passes worker with
      | .turns guildId (row :: rest) =>
          match outcome with
          | .aborted => state.withPass worker .idle
          | .passed => state.withPass worker (.turns guildId rest)
          | .claimed reply => state.claim worker guildId row rest reply
      | _ => state

end ScheduleState

end DiscordTranscript.Application
