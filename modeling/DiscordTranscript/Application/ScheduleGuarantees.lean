import DiscordTranscript.Foundation.Runs
import DiscordTranscript.Application.MeetingSchedules

/-! # What the schedules of a guild guarantee

Nothing but a creation brings a window to a place that was not checked: every other
statement moves a schedule by whole weeks or ends it. So the windows of the active
schedules of a guild never overlap, whatever runs between the check of a creation and
its insertion.
-/

namespace DiscordTranscript.Infrastructure

open Recurrence

/-! ## Weeks -/

theorem roundedSeconds_add_weeks (time weeks : ℕ) :
    roundedSeconds (time + weeks * weekMicros) = roundedSeconds time + weeks * weekSeconds := by
  unfold roundedSeconds weekMicros weekSeconds secondMicros
  omega

theorem weekOffset_eq (left right : ℕ) :
    weekOffset left right = ((left : ℤ) - right) % weekSeconds := by
  have hweek : (0 : ℤ) < weekSeconds := by decide
  have hsmall := Int.lt_tmod_of_pos ((left : ℤ) - right) hweek
  have hsplit := Int.tmod_add_mul_tdiv ((left : ℤ) - right) weekSeconds
  unfold weekOffset
  rw [Int.tmod_eq_emod_of_nonneg (by omega), Int.add_emod_right]
  conv_rhs => rw [← hsplit, Int.add_mul_emod_self_left]

namespace ScheduleRow

/-- The weekly windows of two schedules do not overlap, in whole seconds. -/
def Apart (left right : ScheduleRow) : Prop :=
  Recurrence.Apart weekSeconds (roundedSeconds left.nextStartAt) left.durationSeconds
    (roundedSeconds right.nextStartAt) right.durationSeconds

theorem overlapsWindow_eq_false_iff (startAt durationSeconds : ℕ) (row : ScheduleRow) :
    row.overlapsWindow startAt durationSeconds = false ↔
      Recurrence.Apart weekSeconds (roundedSeconds row.nextStartAt) row.durationSeconds
        (roundedSeconds startAt) durationSeconds := by
  simp only [overlapsWindow, weekOffset_eq, Bool.or_eq_false_iff, decide_eq_false_iff_not, not_lt,
    Recurrence.Apart]

/-- The test of the statements is exact, in whole seconds. -/
theorem overlapsWindow_eq_false_iff_disjoint {startAt durationSeconds : ℕ}
    (hduration : 0 < durationSeconds) (row : ScheduleRow) :
    row.overlapsWindow startAt durationSeconds = false ↔
      ∀ week week',
        opening weekSeconds (roundedSeconds row.nextStartAt) week + row.durationSeconds ≤
            opening weekSeconds (roundedSeconds startAt) week' ∨
          opening weekSeconds (roundedSeconds startAt) week' + durationSeconds ≤
            opening weekSeconds (roundedSeconds row.nextStartAt) week := by
  have hlength : 0 < (row.durationSeconds : ℕ) := lt_of_lt_of_le (by decide) row.durationSeconds.2.1
  rw [overlapsWindow_eq_false_iff]
  exact apart_iff (by decide) (by exact_mod_cast hlength) (by exact_mod_cast hduration)

/-- The same schedule some weeks later, active only if it was. -/
structure Weekly (before after : ScheduleRow) : Prop where
  id : after.id = before.id
  guildId : after.guildId = before.guildId
  duration : after.durationSeconds = before.durationSeconds
  weeks : ∃ weeks, after.nextStartAt = before.nextStartAt + weeks * weekMicros
  active : after.active = true → before.active = true

theorem Weekly.refl (row : ScheduleRow) : row.Weekly row :=
  ⟨rfl, rfl, rfl, ⟨0, by simp⟩, fun hactive => hactive⟩

theorem Weekly.trans {first second third : ScheduleRow} (hleft : first.Weekly second)
    (hright : second.Weekly third) : first.Weekly third := by
  obtain ⟨weeks, hweeks⟩ := hleft.weeks
  obtain ⟨more, hmore⟩ := hright.weeks
  refine ⟨hright.id.trans hleft.id, hright.guildId.trans hleft.guildId,
    hright.duration.trans hleft.duration, ⟨weeks + more, ?_⟩, fun hactive =>
      hleft.active (hright.active hactive)⟩
  rw [hmore, hweeks, Nat.add_mul, Nat.add_assoc]

theorem weekly_later (weeks : ℕ) (row : ScheduleRow) : row.Weekly (row.later weeks) := by
  cases row
  exact ⟨rfl, rfl, rfl, ⟨weeks, rfl⟩, fun hactive => hactive⟩

theorem nextStartAt_later (weeks : ℕ) (row : ScheduleRow) :
    (row.later weeks).nextStartAt = row.nextStartAt + weeks * weekMicros := by
  cases row
  rfl

theorem endAt_later (weeks : ℕ) (row : ScheduleRow) :
    (row.later weeks).endAt = row.endAt + weeks * weekMicros := by
  have hduration : (row.later weeks).durationSeconds = row.durationSeconds :=
    (weekly_later weeks row).duration
  unfold endAt
  rw [nextStartAt_later, hduration]
  omega

theorem weekly_deactivate (row : ScheduleRow) : row.Weekly row.deactivate :=
  ⟨rfl, rfl, rfl, ⟨0, by simp [deactivate]⟩, fun hactive => by cases hactive⟩

theorem Apart.symm {left right : ScheduleRow} (hapart : left.Apart right) : right.Apart left :=
  Recurrence.Apart.symm hapart

/-- Weeks do not bring windows together. -/
theorem Apart.weekly {left right left' right' : ScheduleRow} (hapart : left.Apart right)
    (hleft : left.Weekly left') (hright : right.Weekly right') : left'.Apart right' := by
  obtain ⟨weeks, hweeks⟩ := hleft.weeks
  obtain ⟨weeks', hweeks'⟩ := hright.weeks
  have hshift : Recurrence.Apart weekSeconds
      (opening weekSeconds (roundedSeconds left.nextStartAt) weeks) left.durationSeconds
      (roundedSeconds right.nextStartAt) right.durationSeconds :=
    (apart_opening (weeks : ℤ)).mpr hapart
  have hshift' := ((apart_opening (weeks' : ℤ)).mpr hshift.symm).symm
  unfold Apart
  rw [hweeks, hweeks', roundedSeconds_add_weeks, roundedSeconds_add_weeks, hleft.duration,
    hright.duration]
  simpa [opening] using hshift'

/-- Where the windows of a schedule are open, in microseconds. -/
def length (row : ScheduleRow) : ℤ := row.durationSeconds * secondMicros

/-- At most a second of the windows is common, and nothing when they begin at whole
seconds. -/
theorem Apart.windows {left right : ScheduleRow} (hapart : left.Apart right) (week week' : ℤ) :
    (opening weekMicros left.nextStartAt week + left.length ≤
        opening weekMicros right.nextStartAt week' + secondMicros ∨
      opening weekMicros right.nextStartAt week' + right.length ≤
        opening weekMicros left.nextStartAt week + secondMicros) ∧
      (left.nextStartAt % secondMicros = 0 → right.nextStartAt % secondMicros = 0 →
        opening weekMicros left.nextStartAt week + left.length ≤
            opening weekMicros right.nextStartAt week' ∨
          opening weekMicros right.nextStartAt week' + right.length ≤
            opening weekMicros left.nextStartAt week) := by
  have hdisjoint := disjoint_of_apart (by decide) hapart week week'
  simp only [opening, roundedSeconds, weekMicros, weekSeconds, secondMicros, length] at hdisjoint ⊢
  push_cast at hdisjoint ⊢
  constructor
  · omega
  · intro hleft hright
    omega

end ScheduleRow

/-! ## Tables -/

namespace SchedulesTable

/-- The rows are those of before, some weeks later. -/
structure Moves (before after : SchedulesTable) : Prop where
  old : ∀ row ∈ after.rows, ∃ old ∈ before.rows, old.Weekly row
  kept : ∀ row ∈ before.rows, ∃ next ∈ after.rows, row.Weekly next

theorem Moves.refl (table : SchedulesTable) : Moves table table :=
  ⟨fun row hrow => ⟨row, hrow, .refl row⟩, fun row hrow => ⟨row, hrow, .refl row⟩⟩

theorem moves_update (table : SchedulesTable) (selected : ScheduleRow → Bool)
    {change : ScheduleRow → ScheduleRow}
    (hchange : ∀ row : ScheduleRow, row.Weekly (change row))
    (hkey : ∀ row, (change row).id = row.id) :
    Moves table (table.update selected change hkey) := by
  have hchanged (row : ScheduleRow) : row.Weekly (Table.changed selected change row) := by
    unfold Table.changed
    split
    · exact hchange row
    · exact .refl row
  constructor
  · intro row hrow
    obtain ⟨old, hold, rfl⟩ := Table.mem_update.mp hrow
    exact ⟨old, hold, hchanged old⟩
  · intro row hrow
    exact ⟨Table.changed selected change row, Table.mem_update.mpr ⟨row, hrow, rfl⟩, hchanged row⟩

theorem moves_catchUp (table : SchedulesTable) (guildId : String) (now : ℕ) :
    Moves table (table.catchUp guildId now) :=
  moves_update table _ (fun row => ScheduleRow.weekly_later _ row) (ScheduleRow.id_skipPast now)

/-- After it no active schedule of the guild is left at a window that has ended. -/
theorem lt_endAt_catchUp {table : SchedulesTable} {guildId : String} {now : ℕ} {row : ScheduleRow}
    (hrow : row ∈ (table.catchUp guildId now).rows) (hguild : row.guildId = guildId)
    (hactive : row.active = true) : now < row.endAt := by
  obtain ⟨old, -, rfl⟩ := Table.mem_update.mp hrow
  unfold Table.changed at hguild hactive ⊢
  split at hguild
  next hselected =>
    rw [if_pos hselected, ScheduleRow.skipPast, ScheduleRow.endAt_later]
    exact lt_close_of_periodsPast (by decide) old.endAt now
  next hselected =>
    rw [if_neg hselected] at hactive ⊢
    simpa [hguild, hactive] using hselected

theorem moves_advance (table : SchedulesTable) (id guildId : String) (startAt : ℕ) :
    Moves table (table.advance id guildId startAt).2 :=
  moves_update table _ (ScheduleRow.weekly_later 1) (ScheduleRow.id_later 1)

theorem moves_cancel (table : SchedulesTable) (id guildId : String) (creator : Option String) :
    Moves table (table.cancel id guildId creator).2 :=
  moves_update table _ ScheduleRow.weekly_deactivate fun _ => rfl

/-- The active schedules of each guild are apart. -/
def Apart (table : SchedulesTable) : Prop :=
  ∀ left ∈ table.rows, ∀ right ∈ table.rows, left.active = true → right.active = true →
    left.guildId = right.guildId → left.id ≠ right.id → left.Apart right

theorem Apart.moves {before after : SchedulesTable} (hapart : before.Apart)
    (hmoves : Moves before after) : after.Apart := by
  intro left hleft right hright hactive hactive' hguild hid
  obtain ⟨old, hold, hweekly⟩ := hmoves.old left hleft
  obtain ⟨old', hold', hweekly'⟩ := hmoves.old right hright
  have hsame : old.guildId = old'.guildId := by
    rw [← hweekly.guildId, ← hweekly'.guildId, hguild]
  have hdiffer : old.id ≠ old'.id := by
    rw [← hweekly.id, ← hweekly'.id]
    exact hid
  exact (hapart old hold old' hold' (hweekly.active hactive) (hweekly'.active hactive') hsame
    hdiffer).weekly hweekly hweekly'

/-- A row that is apart from the active schedules of its guild. -/
def Fits (table : SchedulesTable) (row : ScheduleRow) : Prop :=
  ∀ other ∈ table.rows, other.active = true → other.guildId = row.guildId → other.Apart row

theorem Fits.moves {before after : SchedulesTable} {row : ScheduleRow} (hfits : before.Fits row)
    (hmoves : Moves before after) : after.Fits row := by
  intro other hother hactive hguild
  obtain ⟨old, hold, hweekly⟩ := hmoves.old other hother
  exact (hfits old hold (hweekly.active hactive) (hweekly.guildId.symm.trans hguild)).weekly
    hweekly (.refl row)

theorem fits_of_overlaps {table : SchedulesTable} {row : ScheduleRow}
    (hoverlaps : table.overlaps row.guildId row.nextStartAt row.durationSeconds = false) :
    table.Fits row := by
  intro other hother hactive hguild
  have hnone := List.any_eq_false.mp hoverlaps other hother
  rw [hactive, Bool.and_true, Bool.and_eq_true, not_and, Bool.not_eq_true] at hnone
  exact (ScheduleRow.overlapsWindow_eq_false_iff _ _ _).mp (hnone (by simpa using hguild))

theorem insertSchedule_cases (table : SchedulesTable) (row : ScheduleRow) :
    (∃ next, table.insertSchedule row = some next ∧ next.rows = table.rows ++ [row]) ∨
      table.insertSchedule row = none := by
  unfold insertSchedule
  split
  · exact .inl ⟨_, rfl, rfl⟩
  · exact .inr rfl

theorem Apart.insert {table next : SchedulesTable} {row : ScheduleRow} (hapart : table.Apart)
    (hfits : table.Fits row) (hrows : next.rows = table.rows ++ [row]) : next.Apart := by
  intro left hleft right hright hactive hactive' hguild hid
  rw [hrows, List.mem_append, List.mem_singleton] at hleft hright
  rcases hleft with hleft | rfl
  · rcases hright with hright | rfl
    · exact hapart left hleft right hright hactive hactive' hguild hid
    · exact hfits left hleft hactive hguild
  · rcases hright with hright | rfl
    · exact (hfits right hright hactive' hguild.symm).symm
    · exact absurd rfl hid

end SchedulesTable

end DiscordTranscript.Infrastructure

namespace DiscordTranscript.Application

open Infrastructure Recurrence

/-! ## Creations -/

theorem ScheduleRequest.row_eq_some {request : ScheduleRequest} {row : ScheduleRow}
    (hrow : request.row = some row) :
    row.guildId = request.guildId ∧ row.nextStartAt = request.startAt.toNat ∧
      (row.durationSeconds : ℕ) = request.durationSeconds := by
  unfold ScheduleRequest.row at hrow
  split at hrow
  · cases hrow
    exact ⟨rfl, rfl, rfl⟩
  · cases hrow

/-- A row that the check lets through does not overlap. -/
theorem fits_of_check {table : SchedulesTable} {request : ScheduleRequest} {row : ScheduleRow}
    {permitted visible : Bool} {now : ℕ}
    (hcheck : checkGuildSchedule table request permitted visible now = .ok row) :
    table.Fits row ∧ row.guildId = request.guildId := by
  have hpassed : table.overlaps request.guildId request.startAt.toNat
      request.durationSeconds = false ∧ request.row = some row := by
    unfold checkGuildSchedule at hcheck
    grind
  obtain ⟨hoverlaps, hrow⟩ := hpassed
  obtain ⟨hguild, hstart, hduration⟩ := ScheduleRequest.row_eq_some hrow
  rw [← hguild, ← hstart, ← hduration] at hoverlaps
  exact ⟨SchedulesTable.fits_of_overlaps hoverlaps, hguild⟩

theorem insertUnlessOverlapping_cases (table : SchedulesTable) (request : ScheduleRequest) :
    (∃ row next, table.Fits row ∧ row.guildId = request.guildId ∧
        insertUnlessOverlapping table request = some next ∧ next.rows = table.rows ++ [row]) ∨
      insertUnlessOverlapping table request = none := by
  unfold insertUnlessOverlapping
  split
  next => exact .inr rfl
  next hoverlaps =>
    cases hrow : request.row with
    | none => exact .inr rfl
    | some row =>
        obtain ⟨hguild, hstart, hduration⟩ := ScheduleRequest.row_eq_some hrow
        rw [Bool.not_eq_true, ← hguild, ← hstart, ← hduration] at hoverlaps
        rcases table.insertSchedule_cases row with ⟨next, hnext, hrows⟩ | hnone
        · exact .inl ⟨row, next, SchedulesTable.fits_of_overlaps hoverlaps, hguild, hnext, hrows⟩
        · exact .inr hnone

/-! ## Runs -/

/-- The schedules are apart, and what is about to be inserted under the lock of its
guild still fits. -/
structure ScheduleState.Sound (state : ScheduleState) : Prop where
  apart : state.schedules.Apart
  fits : ∀ row ∈ state.creating, state.schedules.Fits row
  locks : (state.creating.map fun row => row.guildId).Nodup

section

variable {state : ScheduleState}

/-- Statements that only move schedules. -/
theorem ScheduleState.Sound.moves (hsound : state.Sound) {next : ScheduleState}
    (hmoves : state.schedules.Moves next.schedules) (hcreating : next.creating = state.creating) :
    next.Sound := by
  refine ⟨hsound.apart.moves hmoves, ?_, hcreating ▸ hsound.locks⟩
  rw [hcreating]
  exact fun row hrow => (hsound.fits row hrow).moves hmoves

theorem moves_execute {α : Type} {table : SchedulesTable} (reply : Reply)
    {statement : α × SchedulesTable} (hmoves : table.Moves statement.2) :
    table.Moves (reply.execute table statement).2 := by
  rw [Reply.execute_state]
  split
  · exact hmoves
  · exact .refl table

/-- A row of a guild for which nothing else is about to be inserted. -/
theorem ScheduleState.Sound.insert (hsound : state.Sound) {row : ScheduleRow}
    {table : SchedulesTable} (hfits : state.schedules.Fits row)
    (hrows : table.rows = state.schedules.rows ++ [row]) {creating : List ScheduleRow}
    (hsublist : creating.Sublist state.creating)
    (hothers : ∀ other ∈ creating, other.guildId ≠ row.guildId) :
    ScheduleState.Sound { state with schedules := table, creating := creating } := by
  refine ⟨hsound.apart.insert hfits hrows, ?_, hsound.locks.sublist (hsublist.map _)⟩
  intro other hother present hpresent hactive hguild
  rw [hrows] at hpresent
  rcases List.mem_append.mp hpresent with hpresent | hpresent
  · exact hsound.fits other (hsublist.subset hother) present hpresent hactive hguild
  · obtain rfl := List.mem_singleton.mp hpresent
    exact absurd hguild.symm (hothers other hother)

theorem ScheduleState.Sound.creating (hsound : state.Sound) {creating : List ScheduleRow}
    (hsublist : creating.Sublist state.creating) :
    ScheduleState.Sound { state with creating := creating } :=
  ⟨hsound.apart, fun row hrow => hsound.fits row (hsublist.subset hrow),
    hsound.locks.sublist (hsublist.map _)⟩

theorem ScheduleState.locked_eq_false {guildId : String} (hfree : state.locked guildId = false) :
    ∀ row ∈ state.creating, row.guildId ≠ guildId := by
  intro row hrow
  simpa using List.any_eq_false.mp hfree row hrow

theorem request_of_checkScheduleCommand {command : ScheduleCommand} {permitted : Bool}
    {denied : Option String} {now : ℕ} {request : ScheduleRequest}
    (hcheck : checkScheduleCommand command permitted denied now = .ok request) :
    request.guildId = command.guildId := by
  unfold checkScheduleCommand at hcheck
  split at hcheck
  · cases hcheck
  · split at hcheck
    · cases hcheck
    · split at hcheck
      · cases hcheck
      · split at hcheck
        · cases hcheck
        · cases hcheck
          rfl

end

section

variable {state : ScheduleState} (hsound : state.Sound)

include hsound

theorem ScheduleState.Sound.check (request : ScheduleRequest) (permitted visible : Bool)
    (now : ℕ) : (state.step (.check request permitted visible now)).Sound := by
  unfold ScheduleState.step
  dsimp only
  split
  next => exact hsound
  next hfree =>
    rw [Bool.not_eq_true] at hfree
    cases hcheck : checkGuildSchedule state.schedules request permitted visible now with
    | error refusal => exact hsound
    | ok row =>
        obtain ⟨hfits, hguild⟩ := fits_of_check hcheck
        refine ⟨hsound.apart, ?_, List.nodup_cons.mpr ⟨fun hmem => ?_, hsound.locks⟩⟩
        · intro other hother
          rcases List.mem_cons.mp hother with rfl | hother
          · exact hfits
          · exact hsound.fits other hother
        · obtain ⟨other, hother, hsame⟩ := List.mem_map.mp hmem
          exact ScheduleState.locked_eq_false hfree other hother (hsame.trans hguild)

theorem ScheduleState.Sound.insertion (guildId : String) (reply : Reply) :
    (state.step (.insert guildId reply)).Sound := by
  unfold ScheduleState.step
  dsimp only
  cases hfind : state.creating.find? fun row => row.guildId = guildId with
  | none => exact hsound
  | some row =>
      have hrow := List.mem_of_find?_eq_some hfind
      have hguild : row.guildId = guildId := by simpa using List.find?_some hfind
      have hsublist : (state.creating.filter fun row => row.guildId ≠ guildId).Sublist
          state.creating := List.filter_sublist
      have hunchanged := hsound.creating hsublist
      dsimp only
      cases reply.committed with
      | false => exact hunchanged
      | true =>
          rcases state.schedules.insertSchedule_cases row with ⟨next, hnext, hrows⟩ | hnone
          · rw [hnext]
            refine hsound.insert (hsound.fits row hrow) hrows hsublist fun other hother => ?_
            rw [hguild]
            simpa using (List.mem_filter.mp hother).2
          · rw [hnone]
            exact hunchanged

theorem ScheduleState.Sound.command (command : ScheduleCommand) (permitted : Bool)
    (denied : Option String) (now : ℕ) (reply : Reply) :
    (state.step (.command command permitted denied now reply)).Sound := by
  unfold ScheduleState.step
  dsimp only
  split
  next => exact hsound
  next hfree =>
    rw [Bool.not_eq_true] at hfree
    cases hcheck : checkScheduleCommand command permitted denied now with
    | error reason => exact hsound
    | ok request =>
        dsimp only
        cases reply.committed with
        | false => exact hsound
        | true =>
            rcases insertUnlessOverlapping_cases state.schedules request with
              ⟨row, next, hfits, hguild, hnext, hrows⟩ | hnone
            · rw [hnext]
              refine hsound.insert hfits hrows (List.Sublist.refl _) fun other hother => ?_
              rw [hguild, request_of_checkScheduleCommand hcheck]
              exact ScheduleState.locked_eq_false hfree other hother
            · rw [hnone]
              exact hsound

end

theorem ScheduleState.Sound.step {state : ScheduleState} (hsound : state.Sound)
    (event : ScheduleEvent) : (state.step event).Sound := by
  cases event with
  | check request permitted visible now => exact hsound.check request permitted visible now
  | insert guildId reply => exact hsound.insertion guildId reply
  | abandon guildId => exact hsound.creating List.filter_sublist
  | command command permitted denied now reply =>
      exact hsound.command command permitted denied now reply
  | cancel id guildId creator reply =>
      exact hsound.moves
        (moves_execute reply (SchedulesTable.moves_cancel state.schedules id guildId creator)) rfl
  | catchUp worker guildId now reply =>
      have hmoves : state.schedules.Moves
          (reply.execute state.schedules ((), state.schedules.catchUp guildId now)).2 :=
        moves_execute reply (SchedulesTable.moves_catchUp state.schedules guildId now)
      exact hsound.moves hmoves rfl
  | query worker now answered =>
      unfold ScheduleState.step
      dsimp only
      split
      · exact hsound.moves (.refl _) rfl
      · exact hsound
  | turn worker outcome =>
      unfold ScheduleState.step
      dsimp only
      split
      next guildId row rest _ =>
        cases outcome with
        | aborted => exact hsound.moves (.refl _) rfl
        | passed => exact hsound.moves (.refl _) rfl
        | claimed reply =>
            exact hsound.moves (moves_execute reply (SchedulesTable.moves_advance state.schedules
              row.id guildId row.nextStartAt)) rfl
      next => exact hsound

/-- In every state that a run reaches, whatever comes between a check and its insertion,
the weekly windows of two active schedules of a guild have at most a second in common,
which is what rounding allows, and nothing when both begin at whole seconds. -/
theorem schedules_never_overlap {start : ScheduleState} (hstart : start.Sound)
    (events : List ScheduleEvent) {left right : ScheduleRow}
    (hleft : left ∈ (Machine.run ScheduleState.step start events).schedules.rows)
    (hright : right ∈ (Machine.run ScheduleState.step start events).schedules.rows)
    (hactive : left.active = true) (hactive' : right.active = true)
    (hguild : left.guildId = right.guildId) (hid : left.id ≠ right.id) (week week' : ℤ) :
    (opening weekMicros left.nextStartAt week + left.length ≤
        opening weekMicros right.nextStartAt week' + secondMicros ∨
      opening weekMicros right.nextStartAt week' + right.length ≤
        opening weekMicros left.nextStartAt week + secondMicros) ∧
      (left.nextStartAt % secondMicros = 0 → right.nextStartAt % secondMicros = 0 →
        opening weekMicros left.nextStartAt week + left.length ≤
            opening weekMicros right.nextStartAt week' ∨
          opening weekMicros right.nextStartAt week' + right.length ≤
            opening weekMicros left.nextStartAt week) := by
  have hsound := Machine.run_invariant ScheduleState.step ScheduleState.Sound
    (fun _ event hsound => hsound.step event) hstart events
  exact (hsound.apart left hleft right hright hactive hactive' hguild hid).windows week week'

/-- Two meetings on Mondays, one when the other ends. -/
def standup : ScheduleRow where
  id := "standup"
  guildId := "guild"
  voiceChannelId := "10000000000000001"
  reportChannelId := "10000000000000002"
  createdByUserId := "10000000000000003"
  timezone := "UTC"
  localStartTime := "09:00"
  durationSeconds := ⟨900, by decide⟩
  nextStartAt := 1767603600000000

def planning : ScheduleRow :=
  { standup with
    id := "planning"
    localStartTime := "09:15"
    durationSeconds := ⟨3600, by decide⟩
    nextStartAt := 1767604500000000 }

def mondays : SchedulesTable where
  rows := [standup, planning]
  nodup := by decide

def mondayState : ScheduleState where
  schedules := mondays
  creating := []
  passes := fun _ => .idle
  claims := []

theorem standup_apart_planning : standup.Apart planning := by
  unfold ScheduleRow.Apart Recurrence.Apart
  decide

theorem sound_mondayState : mondayState.Sound := by
  refine ⟨?_, fun row hrow => absurd hrow List.not_mem_nil, List.nodup_nil⟩
  intro left hleft right hright _ _ _ hid
  simp only [mondayState, mondays, List.mem_cons, List.not_mem_nil, or_false] at hleft hright
  rcases hleft with rfl | rfl <;> rcases hright with rfl | rfl
  · exact absurd rfl hid
  · exact standup_apart_planning
  · exact standup_apart_planning.symm
  · exact absurd rfl hid

/-- A third meeting, asked for on the page. -/
def reviewRequest : ScheduleRequest where
  id := "review"
  guildId := "guild"
  voiceChannelId := "10000000000000001"
  reportChannelId := "10000000000000002"
  createdByUserId := "10000000000000003"
  timezone := "UTC"
  localStartTime := "10:15"
  startAt := 1767608100000000
  durationSeconds := 1800

/-- A fourth one, asked for with the command. -/
def retroCommand : ScheduleCommand where
  id := "retro"
  guildId := "guild"
  voiceChannelId := "10000000000000001"
  reportChannelId := "10000000000000002"
  userId := "10000000000000003"
  startAt := 1769425200000000
  durationMinutes := 30

/-- The schedules are caught up with while the third one is created. The fourth one follows, and
then a claim whose answer is lost. -/
def fuller : List ScheduleEvent :=
  [.check reviewRequest true true 1767603000000000,
    .catchUp 0 "guild" 1769418100000000 .answered, .insert "guild" .answered,
    .command retroCommand true none 1769418200000000 .answered,
    .catchUp 1 "guild" 1769418300000000 .answered, .query 1 1769418300000000 true,
    .turn 1 (.claimed (.failed "closed" true))]

def review : ScheduleRow :=
  { standup with
    id := "review"
    localStartTime := "10:15"
    durationSeconds := ⟨1800, by decide⟩
    nextStartAt := 1769422500000000 }

def retro : ScheduleRow :=
  { review with
    id := "retro"
    localStartTime := "11:00"
    nextStartAt := 1769425200000000 }

theorem mondays_never_overlap :
    (Machine.run ScheduleState.step mondayState fuller).schedules.rows.map (·.id) =
        ["standup", "planning", "review", "retro"] ∧
      (opening weekMicros review.nextStartAt 3 + review.length ≤
          opening weekMicros retro.nextStartAt 3 ∨
        opening weekMicros retro.nextStartAt 3 + retro.length ≤
          opening weekMicros review.nextStartAt 3) := by
  have hreview : review ∈ (Machine.run ScheduleState.step mondayState fuller).schedules.rows := by
    decide +kernel
  have hretro : retro ∈ (Machine.run ScheduleState.step mondayState fuller).schedules.rows := by
    decide +kernel
  exact ⟨by decide +kernel, (schedules_never_overlap sound_mondayState fuller hreview hretro rfl rfl
    rfl (by decide) 3 3).2 (by decide) (by decide)⟩

end DiscordTranscript.Application
