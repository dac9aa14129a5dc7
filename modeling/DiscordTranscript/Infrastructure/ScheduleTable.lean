import Mathlib.Data.List.Sort
import DiscordTranscript.Foundation.Recurrence
import DiscordTranscript.Foundation.Table

/-! # The table of meeting schedules

The table of `migrations/0036_meeting_schedules.sql` and the statements that
`interfaces/web.rs` and `application/runtime.rs` run on it. Times are microseconds
since the epoch, the precision of the column. The session of the database is in UTC,
so seven days are always of the same length.
-/

namespace DiscordTranscript.Infrastructure

def weekSeconds : ℕ := 604800

def secondMicros : ℕ := 1000000

def weekMicros : ℕ := weekSeconds * secondMicros

/-- `CHECK (duration_seconds BETWEEN 60 AND 86400)`. -/
abbrev ScheduleDuration := { seconds : ℕ // 60 ≤ seconds ∧ seconds ≤ 86400 }

structure ScheduleRow where
  id : String
  guildId : String
  voiceChannelId : String
  reportChannelId : String
  createdByUserId : String
  timezone : String
  localStartTime : String
  durationSeconds : ScheduleDuration
  nextStartAt : ℕ
  active : Bool := true
  deriving DecidableEq

/-- `id` is the primary key. -/
abbrev SchedulesTable := Table ScheduleRow fun row => row.id

/-- `extract(epoch FROM ..)::bigint`, which rounds to the nearest second. -/
def roundedSeconds (time : ℕ) : ℕ := (time + 500000) / secondMicros

/-- `(mod(left - right,604800)+604800)%604800`; both remainders have the sign of what is
divided. -/
def weekOffset (left right : ℕ) : ℤ :=
  (((left : ℤ) - right).tmod weekSeconds + weekSeconds).tmod weekSeconds

namespace ScheduleRow

/-- `next_start_at + make_interval(secs => duration_seconds)`. -/
def endAt (row : ScheduleRow) : ℕ := row.nextStartAt + row.durationSeconds * secondMicros

/-- A weekly window that overlaps that of the row. -/
def overlapsWindow (startAt durationSeconds : ℕ) (row : ScheduleRow) : Bool :=
  weekOffset (roundedSeconds startAt) (roundedSeconds row.nextStartAt) < row.durationSeconds ||
    weekOffset (roundedSeconds row.nextStartAt) (roundedSeconds startAt) < durationSeconds

def isDue (guildId : String) (now : ℕ) (row : ScheduleRow) : Bool :=
  row.guildId = guildId && row.active && row.nextStartAt ≤ now && now < row.endAt

/-- `next_start_at + weeks * INTERVAL '7 days'`. -/
def later (weeks : ℕ) (row : ScheduleRow) : ScheduleRow :=
  { row with nextStartAt := row.nextStartAt + weeks * weekMicros }

/-- To the next window that has not ended. -/
def skipPast (now : ℕ) (row : ScheduleRow) : ScheduleRow :=
  row.later (Recurrence.periodsPast weekMicros row.endAt now)

/-- The record is taken apart, since comparing it with the one it was made from would
count up to a week of microseconds. -/
@[simp] theorem id_later (weeks : ℕ) (row : ScheduleRow) : (row.later weeks).id = row.id := by
  cases row
  rfl

@[simp] theorem id_skipPast (now : ℕ) (row : ScheduleRow) : (row.skipPast now).id = row.id :=
  id_later _ row

def deactivate (row : ScheduleRow) : ScheduleRow := { row with active := false }

end ScheduleRow

namespace SchedulesTable

variable (table : SchedulesTable)

/-- The `EXISTS` of both statements that create a schedule. -/
def overlaps (guildId : String) (startAt durationSeconds : ℕ) : Bool :=
  table.rows.any fun row => row.guildId = guildId && row.active &&
    row.overlapsWindow startAt durationSeconds

/-- An `INSERT`, which fails when the id is taken. -/
def insertSchedule (row : ScheduleRow) : Option SchedulesTable :=
  if hfresh : row.id ∉ table.rows.map fun row => row.id then some (table.insert row hfresh)
  else none

/-- The update with which an evaluation begins. -/
def catchUp (guildId : String) (now : ℕ) : SchedulesTable :=
  table.update (fun row => row.guildId = guildId && row.active && row.endAt ≤ now)
    (ScheduleRow.skipPast now) (ScheduleRow.id_skipPast now)

/-- `ORDER BY next_start_at LIMIT 10`. -/
def due (guildId : String) (now : ℕ) : List ScheduleRow :=
  ((table.rows.filter (ScheduleRow.isDue guildId now)).insertionSort
    fun left right => left.nextStartAt ≤ right.nextStartAt).take 10

/-- The update that claims an occurrence, if it is still the next one. -/
def advance (id guildId : String) (startAt : ℕ) : Option ScheduleRow × SchedulesTable :=
  table.updateKey id (fun row => row.guildId = guildId && row.active && row.nextStartAt = startAt)
    (ScheduleRow.later 1) (ScheduleRow.id_later 1)

/-- The updates of the page and of the command; only the command of one who is no
administrator asks for the creator. -/
def cancel (id guildId : String) (creator : Option String) : Option ScheduleRow × SchedulesTable :=
  table.updateKey id (fun row => row.guildId = guildId && row.active &&
      creator.all (· = row.createdByUserId))
    ScheduleRow.deactivate fun _ => rfl

end SchedulesTable

end DiscordTranscript.Infrastructure
