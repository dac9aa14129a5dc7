import DiscordTranscript.Application.ScheduleGuarantees

/-! # What becomes of the occurrences of a schedule

An occurrence is passed when an evaluation claims it, in order to start its recording,
or when it has ended before any did. Each is claimed at most once, and only one that
was open when the evaluation looked.
-/

namespace DiscordTranscript.Application

open Infrastructure Recurrence

/-! ## Steps -/

/-- A claim of the occurrence of a schedule that begins at a time. -/
def ScheduleState.Claimed (state : ScheduleState) (id : String) (startAt : ℕ) : Prop :=
  ∃ claim ∈ state.claims, claim.row.id = id ∧ claim.row.nextStartAt = startAt

/-- How an event moves a schedule on: not at all, past an occurrence that is claimed, or
past those that have ended. -/
inductive ScheduleState.Passes (event : ScheduleEvent) (after : ScheduleState)
    (row next : ScheduleRow) : Prop where
  | still (same : next.nextStartAt = row.nextStartAt)
  | claimed (claimed : after.Claimed row.id row.nextStartAt)
      (week : next.nextStartAt = row.nextStartAt + weekMicros)
  | expired (worker now : ℕ) (reply : Reply)
      (catchUp : event = .catchUp worker row.guildId now reply) (ended : row.endAt ≤ now)
      (weeks : next.nextStartAt =
        row.nextStartAt + periodsPast weekMicros row.endAt now * weekMicros)

/-- What an event does to the schedules and to the claims. -/
structure ScheduleState.Goes (event : ScheduleEvent) (before after : ScheduleState) : Prop where
  claims : after.claims = before.claims ∨
    ∃ claim, after.claims = before.claims ++ [claim] ∧
      ∃ row ∈ before.schedules.rows, row.id = claim.row.id ∧
        row.nextStartAt = claim.row.nextStartAt ∧
        ∃ next ∈ after.schedules.rows, row.Weekly next ∧ row.nextStartAt < next.nextStartAt
  kept : ∀ row ∈ before.schedules.rows, ∃ next ∈ after.schedules.rows, row.Weekly next ∧
    after.Passes event row next

section

variable {event : ScheduleEvent} {before after : ScheduleState}

/-- Rows that stay where they are. -/
theorem ScheduleState.goes_of_still (hclaims : after.claims = before.claims)
    (hkept : ∀ row ∈ before.schedules.rows, ∃ next ∈ after.schedules.rows, row.Weekly next ∧
      next.nextStartAt = row.nextStartAt) : before.Goes event after := by
  refine ⟨.inl hclaims, fun row hrow => ?_⟩
  obtain ⟨next, hnext, hweekly, hsame⟩ := hkept row hrow
  exact ⟨next, hnext, hweekly, .still hsame⟩

theorem ScheduleState.goes_of_rows (hclaims : after.claims = before.claims)
    (hrows : before.schedules.rows ⊆ after.schedules.rows) : before.Goes event after :=
  goes_of_still hclaims fun row hrow => ⟨row, hrows hrow, .refl row, rfl⟩

end

theorem weekMicros_pos : 0 < weekMicros := by decide

theorem subset_of_append {table next : SchedulesTable} {row : ScheduleRow}
    (hrows : next.rows = table.rows ++ [row]) : table.rows ⊆ next.rows := by
  rw [hrows]
  exact List.subset_append_left _ _

/-- What an update does to a row of before. -/
theorem mem_rows_update {table : SchedulesTable} (selected : ScheduleRow → Bool)
    {change : ScheduleRow → ScheduleRow} (hkey : ∀ row, (change row).id = row.id)
    {row : ScheduleRow} (hrow : row ∈ table.rows) :
    Table.changed selected change row ∈ (table.update selected change hkey).rows :=
  List.mem_map_of_mem hrow

theorem insertUnlessOverlapping_rows (table : SchedulesTable) (request : ScheduleRequest) :
    table.rows ⊆ ((insertUnlessOverlapping table request).getD table).rows := by
  rcases insertUnlessOverlapping_cases table request with ⟨row, next, -, -, hnext, hrows⟩ | hnone
  · rw [hnext]
    exact subset_of_append hrows
  · rw [hnone]
    exact List.Subset.refl _

theorem insertSchedule_rows (table : SchedulesTable) (row : ScheduleRow) :
    table.rows ⊆ ((table.insertSchedule row).getD table).rows := by
  rcases table.insertSchedule_cases row with ⟨next, hnext, hrows⟩ | hnone
  · rw [hnext]
    exact subset_of_append hrows
  · rw [hnone]
    exact List.Subset.refl _

namespace ScheduleState

variable (state : ScheduleState)

theorem goes_refl (event : ScheduleEvent) : state.Goes event state :=
  goes_of_rows rfl (List.Subset.refl _)

theorem goes_cancel (id guildId : String) (creator : Option String) (reply : Reply) :
    state.Goes (.cancel id guildId creator reply)
      (state.step (.cancel id guildId creator reply)) := by
  have hschedules : (state.step (.cancel id guildId creator reply)).schedules =
      (reply.execute state.schedules (state.schedules.cancel id guildId creator)).2 := rfl
  refine goes_of_still rfl fun row hrow => ?_
  rw [hschedules, Reply.execute_state]
  cases reply.committed with
  | false => exact ⟨row, hrow, .refl row, rfl⟩
  | true =>
      have hkey (row : ScheduleRow) : row.deactivate.id = row.id := rfl
      refine ⟨_, mem_rows_update _ hkey hrow, ?_⟩
      unfold Table.changed
      split
      · exact ⟨ScheduleRow.weekly_deactivate row, rfl⟩
      · exact ⟨.refl row, rfl⟩

theorem goes_catchUp (worker : ℕ) (guildId : String) (now : ℕ) (reply : Reply) :
    state.Goes (.catchUp worker guildId now reply)
      (state.step (.catchUp worker guildId now reply)) := by
  have hschedules : (state.step (.catchUp worker guildId now reply)).schedules =
      (reply.execute state.schedules ((), state.schedules.catchUp guildId now)).2 := rfl
  refine ⟨.inl rfl, fun row hrow => ?_⟩
  rw [hschedules, Reply.execute_state]
  cases reply.committed with
  | false => exact ⟨row, hrow, .refl row, .still rfl⟩
  | true =>
      refine ⟨_, mem_rows_update _ (ScheduleRow.id_skipPast now) hrow, ?_⟩
      unfold Table.changed
      split
      next hselected =>
        simp only [Bool.and_eq_true, decide_eq_true_eq] at hselected
        obtain ⟨⟨rfl, -⟩, hended⟩ := hselected
        exact ⟨ScheduleRow.weekly_later _ row,
          .expired worker now reply rfl hended (ScheduleRow.nextStartAt_later _ row)⟩
      next => exact ⟨.refl row, .still rfl⟩

/-- A claim moves the row that is still where it was read, or does nothing. -/
theorem claim_cases (worker : ℕ) (guildId : String) (row : ScheduleRow) (rest : List ScheduleRow)
    (reply : Reply) :
    ((state.claim worker guildId row rest reply).schedules = state.schedules ∧
        (state.claim worker guildId row rest reply).claims = state.claims) ∨
      ∃ found ∈ state.schedules.rows, found.id = row.id ∧ found.nextStartAt = row.nextStartAt ∧
        (state.claim worker guildId row rest reply).schedules = state.schedules.update
          (fun other => other.id = row.id) (ScheduleRow.later 1) (ScheduleRow.id_later 1) ∧
        ∃ started, (state.claim worker guildId row rest reply).claims =
          state.claims ++ [{ row := row, started := started }] := by
  have hschedules : (state.claim worker guildId row rest reply).schedules =
      (reply.execute state.schedules
        (state.schedules.advance row.id guildId row.nextStartAt)).2 := rfl
  have hclaims : (state.claim worker guildId row rest reply).claims = state.claims ++
      if reply.committed && (state.schedules.advance row.id guildId row.nextStartAt).1.isSome then
        [{ row := row
           started := (reply.execute state.schedules (state.schedules.advance row.id guildId
            row.nextStartAt)).1.toOption.isSome }]
      else [] := rfl
  rw [Reply.execute_state] at hschedules
  cases hcommitted : reply.committed with
  | false =>
      rw [hcommitted] at hschedules hclaims
      exact .inl ⟨hschedules, by simpa using hclaims⟩
  | true =>
      rw [hcommitted] at hschedules hclaims
      rcases state.schedules.updateKey_cases row.id (fun other => other.guildId = guildId &&
          other.active && other.nextStartAt = row.nextStartAt) (ScheduleRow.later 1)
          (ScheduleRow.id_later 1) with ⟨found, hget, halso, hadvance⟩ | ⟨-, hadvance⟩
      · have hadvanced : state.schedules.advance row.id guildId row.nextStartAt = _ := hadvance
        rw [hadvanced] at hschedules hclaims
        obtain ⟨hfound, hid⟩ := Table.get_eq_some.mp hget
        simp only [Bool.and_eq_true, decide_eq_true_eq] at halso
        exact .inr ⟨found, hfound, hid, halso.2, hschedules, _, hclaims⟩
      · have hadvanced : state.schedules.advance row.id guildId row.nextStartAt = _ := hadvance
        rw [hadvanced] at hschedules hclaims
        exact .inl ⟨hschedules, by simpa using hclaims⟩

theorem goes_claim (event : ScheduleEvent) (worker : ℕ) (guildId : String) (row : ScheduleRow)
    (rest : List ScheduleRow) (reply : Reply) :
    state.Goes event (state.claim worker guildId row rest reply) := by
  rcases state.claim_cases worker guildId row rest reply with ⟨hschedules, hclaims⟩ |
    ⟨found, hfound, hid, hstart, hschedules, started, hclaims⟩
  · refine goes_of_rows hclaims ?_
    rw [hschedules]
    exact List.Subset.refl _
  · have hchanged {other : ScheduleRow} (hother : other ∈ state.schedules.rows) :
        Table.changed (fun other => decide (other.id = row.id)) (ScheduleRow.later 1) other ∈
          (state.claim worker guildId row rest reply).schedules.rows := by
      rw [hschedules]
      exact mem_rows_update _ (ScheduleRow.id_later 1) hother
    have hmoved := hchanged hfound
    rw [Table.changed, if_pos (by simpa using hid)] at hmoved
    refine ⟨.inr ⟨_, hclaims, found, hfound, hid, hstart, found.later 1, hmoved,
      ScheduleRow.weekly_later 1 found, ?_⟩, fun other hother => ?_⟩
    · rw [ScheduleRow.nextStartAt_later, Nat.one_mul]
      exact Nat.lt_add_of_pos_right weekMicros_pos
    · by_cases hsame : other.id = row.id
      · obtain rfl := state.schedules.eq_of_key_eq hother hfound (hsame.trans hid.symm)
        refine ⟨other.later 1, hmoved, ScheduleRow.weekly_later 1 other, .claimed ?_ ?_⟩
        · rw [hsame, hstart, Claimed, hclaims]
          exact ⟨_, List.mem_append_right _ (List.mem_singleton_self _), rfl, rfl⟩
        · rw [ScheduleRow.nextStartAt_later, Nat.one_mul]
      · have hkept := hchanged hother
        rw [Table.changed, if_neg (by simpa using hsame)] at hkept
        exact ⟨other, hkept, .refl other, .still rfl⟩

theorem goes_step (event : ScheduleEvent) : state.Goes event (state.step event) := by
  cases event with
  | check request permitted visible now =>
      unfold step
      dsimp only
      split
      next => exact state.goes_refl _
      next =>
        cases checkGuildSchedule state.schedules request permitted visible now with
        | error refusal => exact state.goes_refl _
        | ok row => exact goes_of_rows rfl (List.Subset.refl _)
  | insert guildId reply =>
      unfold step
      dsimp only
      cases state.creating.find? fun row => row.guildId = guildId with
      | none => exact state.goes_refl _
      | some row =>
          refine goes_of_rows rfl ?_
          dsimp only
          split
          · exact insertSchedule_rows state.schedules row
          · exact List.Subset.refl _
  | abandon guildId => exact goes_of_rows rfl (List.Subset.refl _)
  | command command permitted denied now reply =>
      unfold step
      dsimp only
      split
      next => exact state.goes_refl _
      next =>
        cases checkScheduleCommand command permitted denied now with
        | error reason => exact state.goes_refl _
        | ok request =>
            refine goes_of_rows rfl ?_
            dsimp only
            split
            · exact insertUnlessOverlapping_rows state.schedules request
            · exact List.Subset.refl _
  | cancel id guildId creator reply => exact state.goes_cancel id guildId creator reply
  | catchUp worker guildId now reply => exact state.goes_catchUp worker guildId now reply
  | query worker now answered =>
      unfold step
      dsimp only
      split
      · exact goes_of_rows rfl (List.Subset.refl _)
      · exact state.goes_refl _
  | turn worker outcome =>
      unfold step
      dsimp only
      split
      next guildId row rest _ =>
        cases outcome with
        | aborted => exact goes_of_rows rfl (List.Subset.refl _)
        | passed => exact goes_of_rows rfl (List.Subset.refl _)
        | claimed reply => exact state.goes_claim _ worker guildId row rest reply
      next => exact state.goes_refl _

end ScheduleState

/-! ## An occurrence is claimed once -/

/-- Schedules only move on. -/
theorem le_of_weekly {row next : ScheduleRow} (hweekly : row.Weekly next) :
    row.nextStartAt ≤ next.nextStartAt := by
  obtain ⟨weeks, hweeks⟩ := hweekly.weeks
  omega

/-- No occurrence is claimed twice, and the schedules have gone past those claimed. -/
structure ScheduleState.ClaimsSound (state : ScheduleState) : Prop where
  once : (state.claims.map fun claim => (claim.row.id, claim.row.nextStartAt)).Nodup
  past : ∀ claim ∈ state.claims, ∃ row ∈ state.schedules.rows, row.id = claim.row.id ∧
    claim.row.nextStartAt < row.nextStartAt

theorem ScheduleState.ClaimsSound.goes {event : ScheduleEvent} {before after : ScheduleState}
    (hsound : before.ClaimsSound) (hgoes : before.Goes event after) : after.ClaimsSound := by
  have hpast : ∀ claim ∈ before.claims, ∃ row ∈ after.schedules.rows, row.id = claim.row.id ∧
      claim.row.nextStartAt < row.nextStartAt := by
    intro claim hclaim
    obtain ⟨row, hrow, hid, hless⟩ := hsound.past claim hclaim
    obtain ⟨next, hnext, hweekly, -⟩ := hgoes.kept row hrow
    exact ⟨next, hnext, hweekly.id.trans hid, hless.trans_le (le_of_weekly hweekly)⟩
  rcases hgoes.claims with hclaims | ⟨claim, hclaims, row, hrow, hid, hstart, next, hnext,
    hweekly, hless⟩
  · exact ⟨hclaims ▸ hsound.once, by rwa [hclaims]⟩
  · constructor
    · rw [hclaims, List.map_append, List.map_singleton, List.nodup_append]
      refine ⟨hsound.once, List.nodup_singleton _, ?_⟩
      rintro earlier hearlier latest hlatest rfl
      obtain ⟨other, hother, hsame⟩ := List.mem_map.mp hearlier
      obtain ⟨hother_id, hother_start⟩ :=
        Prod.mk.inj (hsame.trans (List.mem_singleton.mp hlatest))
      -- the schedule would have gone past the occurrence that is claimed
      obtain ⟨found, hfound, hfound_id, hfound_past⟩ := hsound.past other hother
      obtain rfl := before.schedules.eq_of_key_eq hfound hrow
        (hfound_id.trans (hother_id.trans hid.symm))
      omega
    · intro other hother
      rw [hclaims] at hother
      rcases List.mem_append.mp hother with hother | hother
      · exact hpast other hother
      · obtain rfl := List.mem_singleton.mp hother
        exact ⟨next, hnext, hweekly.id.trans hid, hstart ▸ hless⟩

/-- Nothing is evaluated yet and nothing claimed. -/
def ScheduleState.initial (schedules : SchedulesTable) (creating : List ScheduleRow) :
    ScheduleState where
  schedules := schedules
  creating := creating
  passes := fun _ => .idle
  claims := []

/-- In every run, whatever processes evaluate the schedules, an occurrence of a schedule
is claimed at most once. -/
theorem occurrence_claimed_once (schedules : SchedulesTable) (creating : List ScheduleRow)
    (events : List ScheduleEvent) :
    ((Machine.run ScheduleState.step (.initial schedules creating) events).claims.map
      fun claim => (claim.row.id, claim.row.nextStartAt)).Nodup := by
  have hnone : (ScheduleState.initial schedules creating).ClaimsSound :=
    ⟨List.nodup_nil, fun claim hclaim => absurd hclaim List.not_mem_nil⟩
  exact (Machine.run_invariant ScheduleState.step ScheduleState.ClaimsSound
    (fun state event hsound => hsound.goes (state.goes_step event)) hnone events).once

/-! ## No occurrence is lost -/

/-- An evaluation moves the schedules of a guild past what has ended. -/
def CatchesUp (guildId : String) (ended : ℕ) (event : ScheduleEvent) : Prop :=
  ∃ worker now reply, event = .catchUp worker guildId now reply ∧ ended ≤ now

/-- The occurrences between two rows of a schedule. -/
def Accounted (events : List ScheduleEvent) (state : ScheduleState) (row next : ScheduleRow) :
    Prop :=
  ∀ week, row.nextStartAt + week * weekMicros < next.nextStartAt →
    state.Claimed row.id (row.nextStartAt + week * weekMicros) ∨
      ∃ event ∈ events, CatchesUp row.guildId (row.endAt + week * weekMicros) event

theorem ScheduleState.Claimed.goes {event : ScheduleEvent} {before after : ScheduleState}
    {id : String} {startAt : ℕ} (hclaimed : before.Claimed id startAt)
    (hgoes : before.Goes event after) : after.Claimed id startAt := by
  obtain ⟨claim, hclaim, hid, hstart⟩ := hclaimed
  refine ⟨claim, ?_, hid, hstart⟩
  rcases hgoes.claims with hclaims | ⟨latest, hclaims, -⟩
  · rwa [hclaims]
  · rw [hclaims]
    exact List.mem_append_left _ hclaim

/-- The occurrences that an event passes. -/
theorem accounted_of_passes {event : ScheduleEvent} {after : ScheduleState}
    {row next : ScheduleRow} (hpasses : after.Passes event row next) :
    Accounted [event] after row next := by
  intro week hweek
  cases hpasses with
  | still same => omega
  | claimed claimed moved =>
      rw [moved] at hweek
      have hfirst : week = 0 := by
        by_contra hlater
        have := Nat.mul_le_mul_right weekMicros (show 1 ≤ week by omega)
        omega
      subst hfirst
      rw [Nat.zero_mul, Nat.add_zero]
      exact .inl claimed
  | expired worker now reply catchUp ended weeks =>
      rw [weeks] at hweek
      have hcount : week < periodsPast weekMicros row.endAt now :=
        Nat.lt_of_mul_lt_mul_right (Nat.lt_of_add_lt_add_left hweek)
      exact .inr ⟨event, List.mem_singleton_self _, worker, now, reply, catchUp,
        close_le_of_lt_periodsPast ended hcount⟩

theorem endAt_weekly {row next : ScheduleRow} (hweekly : row.Weekly next) {weeks : ℕ}
    (hweeks : next.nextStartAt = row.nextStartAt + weeks * weekMicros) :
    next.endAt = row.endAt + weeks * weekMicros := by
  unfold ScheduleRow.endAt
  rw [hweeks, hweekly.duration]
  omega

theorem Accounted.trans {events : List ScheduleEvent} {event : ScheduleEvent}
    {before after : ScheduleState} {row next last : ScheduleRow}
    (haccounted : Accounted events before row next) (hweekly : row.Weekly next)
    (hgoes : before.Goes event after) (hlast : Accounted [event] after next last) :
    Accounted (events ++ [event]) after row last := by
  intro week hweek
  obtain ⟨weeks, hweeks⟩ := hweekly.weeks
  by_cases hearlier : week < weeks
  · have hless : row.nextStartAt + week * weekMicros < next.nextStartAt := by
      have := Nat.mul_lt_mul_of_pos_right hearlier weekMicros_pos
      omega
    rcases haccounted week hless with hclaimed | ⟨earlier, hmem, hcatchesUp⟩
    · exact .inl (hclaimed.goes hgoes)
    · exact .inr ⟨earlier, List.mem_append_left _ hmem, hcatchesUp⟩
  · -- the week is one of those that the event passes
    obtain ⟨more, rfl⟩ := Nat.exists_eq_add_of_le (Nat.le_of_not_lt hearlier)
    have hstart : row.nextStartAt + (weeks + more) * weekMicros =
        next.nextStartAt + more * weekMicros := by
      rw [hweeks, Nat.add_mul, Nat.add_assoc]
    have hend : row.endAt + (weeks + more) * weekMicros = next.endAt + more * weekMicros := by
      rw [endAt_weekly hweekly hweeks, Nat.add_mul, Nat.add_assoc]
    rw [hstart] at hweek ⊢
    rw [hend, ← hweekly.id, ← hweekly.guildId]
    rcases hlast more hweek with hclaimed | ⟨latest, hmem, hcatchesUp⟩
    · exact .inl hclaimed
    · exact .inr ⟨latest, List.mem_append_right _ hmem, hcatchesUp⟩

/-- In every run a schedule stays in the table, at one of its weeks, and each occurrence
that it has gone past was claimed, or had ended when an evaluation went past it. -/
theorem occurrence_passed_only_when_claimed_or_over (start : ScheduleState)
    (events : List ScheduleEvent) {row : ScheduleRow} (hrow : row ∈ start.schedules.rows) :
    ∃ next ∈ (Machine.run ScheduleState.step start events).schedules.rows, row.Weekly next ∧
      Accounted events (Machine.run ScheduleState.step start events) row next := by
  induction events using List.reverseRecOn with
  | nil => exact ⟨row, hrow, .refl row, fun week hweek => by simp at hweek⟩
  | append_singleton events event ih =>
      obtain ⟨next, hnext, hweekly, haccounted⟩ := ih
      have hgoes := (Machine.run ScheduleState.step start events).goes_step event
      obtain ⟨last, hlast, hmore, hpasses⟩ := hgoes.kept next hnext
      rw [Machine.run_append]
      exact ⟨last, hlast, hweekly.trans hmore,
        haccounted.trans hweekly hgoes (accounted_of_passes hpasses)⟩

/-- An evaluation that finds the standup open and starts its recording, and another one
three weeks later. -/
def mondayEvents : List ScheduleEvent :=
  [.catchUp 0 "guild" 1767603700000000 .answered, .query 0 1767603700000000 true,
    .turn 0 (.claimed .answered), .catchUp 1 "guild" 1769418100000000 .answered]

theorem standup_passed_only_when_claimed_or_over :
    ∃ next ∈ (Machine.run ScheduleState.step mondayState mondayEvents).schedules.rows,
      standup.Weekly next ∧
        Accounted mondayEvents (Machine.run ScheduleState.step mondayState mondayEvents)
          standup next :=
  occurrence_passed_only_when_claimed_or_over mondayState mondayEvents List.mem_cons_self

/-! ## A claim is of an occurrence that was open -/

/-- The schedules that an evaluation has yet to come to. -/
def SchedulePass.pending : SchedulePass → List ScheduleRow
  | .turns _ rows => rows
  | _ => []

/-- The event is the query of an evaluation, which answers with the schedule among those of its
guild that are active and whose window is open. -/
def ScheduleState.Finds (state : ScheduleState) (event : ScheduleEvent) (row : ScheduleRow) :
    Prop :=
  ∃ worker guildId now, event = .query worker now true ∧
    state.passes worker = .caughtUp guildId ∧ row ∈ state.schedules.due guildId now ∧
    row.active = true ∧ row.nextStartAt ≤ now ∧ now < row.endAt

/-- An evaluation in the run found the schedule. -/
def FoundOpen (start : ScheduleState) (events : List ScheduleEvent) (row : ScheduleRow) : Prop :=
  ∃ front event back, events = front ++ event :: back ∧
    (Machine.run ScheduleState.step start front).Finds event row

section

variable {start : ScheduleState} {events : List ScheduleEvent} {event : ScheduleEvent}
  {row : ScheduleRow}

theorem FoundOpen.concat (hopen : FoundOpen start events row) (event : ScheduleEvent) :
    FoundOpen start (events ++ [event]) row := by
  obtain ⟨front, query, back, rfl, hfinds⟩ := hopen
  exact ⟨front, query, back ++ [event], by simp, hfinds⟩

theorem ScheduleState.Finds.foundOpen
    (hfinds : (Machine.run ScheduleState.step start events).Finds event row) :
    FoundOpen start (events ++ [event]) row := ⟨events, event, [], rfl, hfinds⟩

end

theorem finds_of_due {state : ScheduleState} {guildId : String} {worker now : ℕ}
    {row : ScheduleRow} (hpass : state.passes worker = .caughtUp guildId)
    (hdue : row ∈ state.schedules.due guildId now) :
    state.Finds (.query worker now true) row := by
  have hfiltered := (List.mem_insertionSort _).mp (List.mem_of_mem_take hdue)
  have hisDue := (List.mem_filter.mp hfiltered).2
  simp only [ScheduleRow.isDue, Bool.and_eq_true, decide_eq_true_eq] at hisDue
  exact ⟨worker, guildId, now, rfl, hpass, hdue, hisDue.1.1.2, hisDue.1.2, hisDue.2⟩

/-- Where the schedules that are evaluated and the claims come from. -/
structure ScheduleState.Takes (event : ScheduleEvent) (before after : ScheduleState) : Prop where
  pending : ∀ worker, ∀ row ∈ (after.passes worker).pending,
    row ∈ (before.passes worker).pending ∨ before.Finds event row
  claims : ∀ claim ∈ after.claims, claim ∈ before.claims ∨
    ∃ worker, claim.row ∈ (before.passes worker).pending

namespace ScheduleState

variable (state : ScheduleState)

theorem takes_of_same {event : ScheduleEvent} {before after : ScheduleState}
    (hpasses : after.passes = before.passes) (hclaims : after.claims = before.claims) :
    before.Takes event after :=
  ⟨fun _ _ hrow => .inl (hpasses ▸ hrow), fun _ hclaim => .inl (hclaims ▸ hclaim)⟩

@[simp] theorem passes_withPass_self (worker : ℕ) (pass : SchedulePass) :
    (state.withPass worker pass).passes worker = pass :=
  Function.update_self ..

theorem passes_withPass_of_ne {worker other : ℕ} (hother : other ≠ worker)
    (pass : SchedulePass) : (state.withPass worker pass).passes other = state.passes other :=
  Function.update_of_ne hother ..

/-- One evaluation goes on, with less or with what its query finds. -/
theorem takes_withPass {event : ScheduleEvent} (worker : ℕ) {pass : SchedulePass}
    (hpass : ∀ row ∈ pass.pending,
      row ∈ (state.passes worker).pending ∨ state.Finds event row) :
    ∀ other, ∀ row ∈ ((state.withPass worker pass).passes other).pending,
      row ∈ (state.passes other).pending ∨ state.Finds event row := by
  intro other row hrow
  by_cases hsame : other = worker
  · subst hsame
    rw [passes_withPass_self] at hrow
    exact hpass row hrow
  · rw [passes_withPass_of_ne _ hsame] at hrow
    exact .inl hrow

theorem takes_claim (event : ScheduleEvent) (worker : ℕ) (guildId : String) (row : ScheduleRow)
    (rest : List ScheduleRow) (reply : Reply)
    (hpass : state.passes worker = .turns guildId (row :: rest)) :
    state.Takes event (state.claim worker guildId row rest reply) := by
  constructor
  · refine state.takes_withPass worker fun other hother => .inl ?_
    rw [hpass]
    split at hother
    · exact List.mem_cons_of_mem row hother
    · cases hother
  · intro claim hclaim
    rcases List.mem_append.mp hclaim with hclaim | hclaim
    · exact .inl hclaim
    · split at hclaim
      · obtain rfl := List.mem_singleton.mp hclaim
        refine .inr ⟨worker, ?_⟩
        rw [hpass]
        exact List.mem_cons_self
      · cases hclaim

theorem takes_step (event : ScheduleEvent) : state.Takes event (state.step event) := by
  cases event with
  | check request permitted visible now =>
      unfold step
      dsimp only
      split
      next => exact takes_of_same rfl rfl
      next =>
        cases checkGuildSchedule state.schedules request permitted visible now with
        | error refusal => exact takes_of_same rfl rfl
        | ok row => exact takes_of_same rfl rfl
  | insert guildId reply =>
      unfold step
      dsimp only
      cases state.creating.find? fun row => row.guildId = guildId with
      | none => exact takes_of_same rfl rfl
      | some row => exact takes_of_same rfl rfl
  | abandon guildId => exact takes_of_same rfl rfl
  | command command permitted denied now reply =>
      unfold step
      dsimp only
      split
      next => exact takes_of_same rfl rfl
      next =>
        cases checkScheduleCommand command permitted denied now with
        | error reason => exact takes_of_same rfl rfl
        | ok request => exact takes_of_same rfl rfl
  | cancel id guildId creator reply => exact takes_of_same rfl rfl
  | catchUp worker guildId now reply =>
      refine ⟨state.takes_withPass worker fun row hrow => ?_, fun claim hclaim => .inl hclaim⟩
      split at hrow
      · cases hrow
      · cases hrow
  | query worker now answered =>
      cases hpass : state.passes worker with
      | caughtUp guildId =>
          have hstep : state.step (.query worker now answered) = state.withPass worker
              (if answered then .turns guildId (state.schedules.due guildId now) else .idle) := by
            simp [step, hpass]
          rw [hstep]
          refine ⟨state.takes_withPass worker fun row hrow => ?_, fun _ hclaim => .inl hclaim⟩
          cases answered with
          | false => cases hrow
          | true => exact .inr (finds_of_due hpass hrow)
      | idle =>
          have hstep : state.step (.query worker now answered) = state := by simp [step, hpass]
          rw [hstep]
          exact takes_of_same rfl rfl
      | turns guildId rows =>
          have hstep : state.step (.query worker now answered) = state := by simp [step, hpass]
          rw [hstep]
          exact takes_of_same rfl rfl
  | turn worker outcome =>
      unfold step
      dsimp only
      split
      next guildId row rest hpass =>
        cases outcome with
        | aborted =>
            refine ⟨state.takes_withPass worker fun row hrow => ?_, fun claim hclaim => .inl hclaim⟩
            cases hrow
        | passed =>
            refine ⟨state.takes_withPass worker fun other hother => .inl ?_,
              fun claim hclaim => .inl hclaim⟩
            rw [hpass]
            exact List.mem_cons_of_mem row hother
        | claimed reply => exact state.takes_claim _ worker guildId row rest reply hpass
      next => exact takes_of_same rfl rfl

end ScheduleState

/-- What is evaluated and what was claimed was found open. -/
structure FoundAllOpen (start : ScheduleState) (events : List ScheduleEvent)
    (state : ScheduleState) : Prop where
  pending : ∀ worker, ∀ row ∈ (state.passes worker).pending, FoundOpen start events row
  claims : ∀ claim ∈ state.claims, FoundOpen start events claim.row

theorem FoundAllOpen.takes {start after : ScheduleState} {events : List ScheduleEvent}
    {event : ScheduleEvent}
    (hopen : FoundAllOpen start events (Machine.run ScheduleState.step start events))
    (htakes : (Machine.run ScheduleState.step start events).Takes event after) :
    FoundAllOpen start (events ++ [event]) after := by
  constructor
  · intro worker row hrow
    rcases htakes.pending worker row hrow with hpending | hfinds
    · exact (hopen.pending worker row hpending).concat event
    · exact hfinds.foundOpen
  · intro claim hclaim
    rcases htakes.claims claim hclaim with hclaimed | ⟨worker, hpending⟩
    · exact (hopen.claims claim hclaimed).concat event
    · exact (hopen.pending worker claim.row hpending).concat event

/-- What is claimed in a run was, when an evaluation looked, an active schedule whose
window was open: nothing starts early, and no occurrence that was over is made up for. -/
theorem claim_was_open (schedules : SchedulesTable) (creating : List ScheduleRow)
    (events : List ScheduleEvent) :
    ∀ claim ∈ (Machine.run ScheduleState.step (.initial schedules creating) events).claims,
      FoundOpen (.initial schedules creating) events claim.row := by
  suffices hopen : FoundAllOpen (.initial schedules creating) events
      (Machine.run ScheduleState.step (.initial schedules creating) events) from hopen.claims
  induction events using List.reverseRecOn with
  | nil =>
      exact ⟨fun worker row hrow => absurd hrow List.not_mem_nil,
        fun claim hclaim => absurd hclaim List.not_mem_nil⟩
  | append_singleton events event ih =>
      have htakes := ih.takes (ScheduleState.takes_step _ event)
      rw [Machine.run_append]
      exact htakes

theorem standup_claim_was_open : FoundOpen (.initial mondays []) mondayEvents standup := by
  have hclaimed : ((Machine.run ScheduleState.step (.initial mondays [])
      mondayEvents).claims.map fun claim => claim.row) = [standup] := by decide +kernel
  obtain ⟨claim, hclaim, hrow⟩ := List.mem_map.mp
    (hclaimed ▸ List.mem_singleton_self standup)
  rw [← hrow]
  exact claim_was_open mondays [] mondayEvents claim hclaim

end DiscordTranscript.Application
