import DiscordTranscript.Application.AutoStopGuarantees

/-! # An abandoned channel keeps its timer

As long as an episode lasts some timer is bound to tick after the grace period: it fell asleep
after the episode began, or has slept long enough already, or is stopping the recording. Three
steps can break this. A timer that has read a positive count cancels although an event has
begun a new episode meanwhile; a timer gives its last stop attempt up and cannot record it;
and an event starts a timer with a shorter grace period than the state's.
-/

namespace DiscordTranscript.Application

/-- The latest event reported zero or a cache miss, and no read since then was positive. -/
def abandoned : List Observation → Bool
  | [] => false
  | observation :: earlier =>
      !observation.positive && (observation.byEvent || abandoned earlier)

namespace AutoStopView

def InFlight (view : AutoStopView) : Prop := view.sleeping ≠ [] ∨ view.awake.isSome

def Stopping (view : AutoStopView) : Prop := ∃ task, view.awake = some (task, .stopping)

def Waiting (view : AutoStopView) : Prop :=
  ∃ state since, view.state = some state ∧ state.emptySince = some since

/-- Some timer will tick after the grace period of this episode, or is stopping. -/
def Watched (view : AutoStopView) (state : AutoStopState) (since : ℕ) : Prop :=
  (∃ timer ∈ view.sleeping, since ≤ timer.2) ∨
    (since + state.gracePeriod ≤ view.now ∧ ∃ task phase, view.awake = some (task, phase) ∧
      (phase = .verified ∨ ∃ count, phase = .fired count)) ∨ view.Stopping

structure Armed (view : AutoStopView) : Prop where
  owned : view.Owned
  begun : view.Begun
  sleeping_grace : ∀ state, view.state = some state → ∀ timer ∈ view.sleeping,
    state.gracePeriod ≤ timer.1.grace
  awake_grace : ∀ state, view.state = some state → ∀ task phase, view.awake = some (task, phase) →
    state.gracePeriod ≤ task.grace
  watched : ∀ state since, view.state = some state → state.emptySince = some since →
    view.Watched state since
  reserved : ∀ state, view.state = some state → state.timerActive = true →
    state.emptySince = none → view.Stopping
  standing : abandoned view.observed = true → view.Waiting ∨ view.Stopping

/-- The condition under which a step leaves the timer its place. -/
def Steady (view : AutoStopView) (input : AutoStopStep) : Prop :=
  (∀ count grace, input = .voiceStateUpdate count grace → autoStopEventMemberCount count = 0 →
    ∀ state, view.state = some state → state.timerActive = false → state.gracePeriod ≤ grace) ∧
  (∀ mark, input = .fireSection mark → view.Cancelling → abandoned view.observed = false) ∧
  (view.GivesUp input → view.Waiting ∨ abandoned view.observed = false ∧
    ∀ state, view.state = some state → state.timerActive = false)

instance decidableCancelling (view : AutoStopView) : Decidable view.Cancelling :=
  match hawake : view.awake with
  | some (task, .fired (some (count + 1))) => isTrue ⟨task, count, hawake⟩
  | none | some (_, .verified) | some (_, .fired none) | some (_, .fired (some 0))
  | some (_, .clearing) | some (_, .stopping) => isFalse (by simp [Cancelling, hawake])

instance decidableWaiting (view : AutoStopView) : Decidable view.Waiting :=
  match hstate : view.state with
  | none => isFalse (by simp [Waiting, hstate])
  | some state =>
      match hsince : state.emptySince with
      | some since => isTrue ⟨state, since, hstate, hsince⟩
      | none => isFalse (by simp [Waiting, hstate, hsince])

instance decidableSteady (view : AutoStopView) (input : AutoStopStep) :
    Decidable (view.Steady input) :=
  match input with
  | .voiceStateUpdate count grace =>
      decidable_of_iff (autoStopEventMemberCount count = 0 → ∀ state ∈ view.state,
        state.timerActive = false → state.gracePeriod ≤ grace) (by simp [Steady, GivesUp])
  | .fireSection _ =>
      decidable_of_iff (view.Cancelling → abandoned view.observed = false)
        (by simp [Steady, GivesUp])
  | .finishStop (.failed mark) =>
      decidable_of_iff (view.GivesUp (.finishStop (.failed mark)) →
        view.Waiting ∨ abandoned view.observed = false ∧
          ∀ state ∈ view.state, state.timerActive = false) (by simp [Steady])
  | .finishStop .stopped | .finishStop .targetAbsent | .elapse _ | .wake _ _ _ | .readCount _
  | .clearReservation => isTrue (by simp [Steady, GivesUp])

theorem Watched.inFlight {view : AutoStopView} {state : AutoStopState} {since : ℕ}
    (hwatched : view.Watched state since) : view.InFlight := by
  rcases hwatched with ⟨timer, htimer, -⟩ | ⟨-, task, phase, hawake, -⟩ | ⟨task, hawake⟩
  · exact Or.inl (List.ne_nil_of_mem htimer)
  · exact Or.inr (by simp [hawake])
  · exact Or.inr (by simp [hawake])

theorem Armed.inFlight {view : AutoStopView} (harmed : view.Armed)
    (habandoned : abandoned view.observed = true) :
    view.InFlight ∧ (view.Waiting ∨ view.Stopping) := by
  have hstanding := harmed.standing habandoned
  refine ⟨?_, hstanding⟩
  rcases hstanding with ⟨state, since, hstate, hsince⟩ | ⟨task, hawake⟩
  · exact (harmed.watched state since hstate hsince).inFlight
  · exact Or.inr (by simp [hawake])

/-! ## Events -/

theorem abandoned_event {view : AutoStopView} {count : Option ℕ} :
    abandoned (view.observe count true).observed = decide (autoStopEventMemberCount count = 0) := by
  unfold observe
  simp only [abandoned, Bool.true_or, Bool.and_true, Observation.positive]
  cases count with
  | none => rfl
  | some count => cases count <;> rfl

theorem Armed.event {view : AutoStopView} {count : Option ℕ} {grace since : ℕ}
    {state next : AutoStopState} {sleeping : List (TimerTask × ℕ)} (harmed : view.Armed)
    (hfinds : view.Finds grace state) (howned : Owned { view.observe count true with
      state := some next, sleeping := sleeping })
    (hbegun : Begun { view.observe count true with state := some next, sleeping := sleeping })
    (hgrace : next.gracePeriod = state.gracePeriod) (hsince : next.emptySince = some since)
    (hkept : view.sleeping ⊆ sleeping)
    (hsleeping : ∀ timer ∈ sleeping, timer ∈ view.sleeping ∨ state.gracePeriod ≤ timer.1.grace)
    (hwatched : state.emptySince = some since ∨ view.Stopping ∨
      ∃ timer ∈ sleeping, since ≤ timer.2) :
    Armed { view.observe count true with state := some next, sleeping := sleeping } where
  owned := howned
  begun := hbegun
  sleeping_grace := by
    intro found hfound timer htimer
    cases hfound
    rw [hgrace]
    rcases hsleeping timer htimer with hold | hnew
    · rcases hfinds with hown | ⟨hnone, -⟩
      · exact harmed.sleeping_grace state hown timer hold
      · rw [(harmed.owned hnone).1] at hold
        cases hold
    · exact hnew
  awake_grace := by
    intro found hfound task phase hawake
    cases hfound
    rw [hgrace]
    rcases hfinds with hown | ⟨hnone, -⟩
    · exact harmed.awake_grace state hown task phase hawake
    · have hnot := (harmed.owned hnone).2
      rw [show view.awake = some (task, phase) from hawake] at hnot
      cases hnot
  watched := by
    intro found begun hfound hbegins
    cases hfound
    rw [hsince] at hbegins
    cases hbegins
    rcases hwatched with hsame | hstopping | hnew
    · rcases hfinds with hown | ⟨-, hnone, -⟩
      · rcases harmed.watched state since hown hsame with ⟨timer, htimer, hle⟩ | hawake | hstopping
        · exact Or.inl ⟨timer, hkept htimer, hle⟩
        · refine Or.inr (Or.inl ?_)
          rw [hgrace]
          exact hawake
        · exact Or.inr (Or.inr hstopping)
      · rw [hsame] at hnone
        cases hnone
    · exact Or.inr (Or.inr hstopping)
    · exact Or.inl hnew
  reserved := by
    intro found hfound hactive hnone
    cases hfound
    rw [hsince] at hnone
    cases hnone
  standing := fun _ => Or.inl ⟨next, since, rfl, hsince⟩

/-! ## Timers -/

theorem not_stopping {view : AutoStopView} {task : TimerTask} {phase : TimerPhase}
    (hawake : view.awake = some (task, phase)) (hphase : phase ≠ .stopping) : ¬ view.Stopping := by
  rintro ⟨other, hstopping⟩
  rw [hawake, Option.some.injEq, Prod.mk.injEq] at hstopping
  exact hphase hstopping.2

/-- A step of the timers alone. -/
theorem Armed.timers {view : AutoStopView} {sleeping : List (TimerTask × ℕ)}
    {awake : Option (TimerTask × TimerPhase)} (harmed : view.Armed)
    (howned : Owned { view with sleeping := sleeping, awake := awake })
    (hsleeping : ∀ state, view.state = some state → ∀ timer ∈ sleeping,
      state.gracePeriod ≤ timer.1.grace)
    (hawake : ∀ state, view.state = some state → ∀ task phase, awake = some (task, phase) →
      state.gracePeriod ≤ task.grace)
    (hwatched : ∀ state since, view.state = some state → state.emptySince = some since →
      view.Watched state since → Watched { view with sleeping := sleeping, awake := awake } state since)
    (hstopping : view.Stopping → view.Waiting ∨ abandoned view.observed = false ∧
      ∀ state, view.state = some state → state.timerActive = false) :
    Armed { view with sleeping := sleeping, awake := awake } where
  owned := howned
  begun := harmed.begun
  sleeping_grace := hsleeping
  awake_grace := hawake
  watched := by
    intro state since hstate hsince
    exact hwatched state since hstate hsince (harmed.watched state since hstate hsince)
  reserved := by
    intro state hstate hactive hnone
    rcases hstopping (harmed.reserved state hstate hactive hnone) with
      ⟨other, since, hother, hsince⟩ | ⟨-, hidle⟩
    · rw [show view.state = some state from hstate] at hother
      cases hother
      rw [hnone] at hsince
      cases hsince
    · rw [hidle state hstate] at hactive
      cases hactive
  standing := by
    intro habandoned
    rcases harmed.standing habandoned with hwaiting | hstop
    · exact Or.inl hwaiting
    · rcases hstopping hstop with hwaiting | ⟨hoccupied, -⟩
      · exact Or.inl hwaiting
      · rw [show abandoned view.observed = true from habandoned] at hoccupied
        cases hoccupied

/-- The awake timer sleeps again. -/
theorem Armed.sleep {view : AutoStopView} {task task' : TimerTask} {phase : TimerPhase}
    (harmed : view.Armed) (hawake : view.awake = some (task, phase))
    (hgrace : task'.grace = task.grace)
    (hstopping : view.Stopping → view.Waiting ∨ abandoned view.observed = false ∧
      ∀ state, view.state = some state → state.timerActive = false) :
    (view.sleep task').Armed := by
  apply harmed.timers _ _ (by simp) _ hstopping
  · intro hnone
    have hnot := (harmed.owned hnone).2
    rw [hawake] at hnot
    cases hnot
  · intro state hstate timer htimer
    rcases List.mem_append.mp htimer with htimer | htimer
    · exact harmed.sleeping_grace state hstate timer htimer
    · rw [List.mem_singleton.mp htimer, hgrace]
      exact harmed.awake_grace state hstate task phase hawake
  · intro state since hstate hsince _
    exact Or.inl ⟨(task', view.now), by simp, harmed.begun state since hstate hsince⟩

theorem Armed.unverified {view : AutoStopView} {index since : ℕ} {task task' : TimerTask}
    (harmed : view.Armed) (hawake : view.awake = none)
    (hindex : view.sleeping[index]? = some (task, since)) (hgrace : task'.grace = task.grace) :
    (AutoStopView.sleep { view with sleeping := view.sleeping.eraseIdx index } task').Armed := by
  have hmem : (task, since) ∈ view.sleeping := List.mem_of_getElem? hindex
  apply harmed.timers _ _ (by simp) _
  · rintro ⟨other, hstopping⟩
    rw [hawake] at hstopping
    cases hstopping
  · intro hnone
    rw [(harmed.owned hnone).1] at hmem
    cases hmem
  · intro state hstate timer htimer
    rcases List.mem_append.mp htimer with htimer | htimer
    · exact harmed.sleeping_grace state hstate timer (List.mem_of_mem_eraseIdx htimer)
    · rw [List.mem_singleton.mp htimer, hgrace]
      exact harmed.sleeping_grace state hstate (task, since) hmem
  · intro state begun hstate hbegins _
    exact Or.inl ⟨(task', view.now), by simp, harmed.begun state begun hstate hbegins⟩

theorem Armed.risen {view : AutoStopView} {index since : ℕ} {task task' : TimerTask}
    (harmed : view.Armed) (hawake : view.awake = none)
    (hindex : view.sleeping[index]? = some (task, since))
    (hslept : since + task.grace ≤ view.now) (hgrace : task'.grace = task.grace) :
    Armed { view with
      sleeping := view.sleeping.eraseIdx index, awake := some (task', .verified) } := by
  have hmem : (task, since) ∈ view.sleeping := List.mem_of_getElem? hindex
  apply harmed.timers
  · intro hnone
    rw [(harmed.owned hnone).1] at hmem
    cases hmem
  · intro state hstate timer htimer
    exact harmed.sleeping_grace state hstate timer (List.mem_of_mem_eraseIdx htimer)
  · intro state hstate other phase hother
    cases hother
    rw [hgrace]
    exact harmed.sleeping_grace state hstate (task, since) hmem
  · intro state begun hstate hbegins hwatched
    have htask := harmed.sleeping_grace state hstate (task, since) hmem
    rcases hwatched with ⟨timer, htimer, hle⟩ | ⟨-, other, phase, hother, -⟩ | ⟨other, hother⟩
    · -- The watching timer is the one that woke, or it still sleeps.
      rcases List.mem_iff_getElem?.mp htimer with ⟨position, hposition⟩
      by_cases hsame : position = index
      · rw [hsame, hindex, Option.some.injEq] at hposition
        subst hposition
        refine Or.inr (Or.inl ⟨?_, task', .verified, rfl, Or.inl rfl⟩)
        dsimp only at htask hle ⊢
        omega
      · refine Or.inl ⟨timer, ?_, hle⟩
        exact List.mem_eraseIdx_iff_getElem?.mpr ⟨position, hsame, hposition⟩
    · rw [hawake] at hother
      cases hother
    · rw [hawake] at hother
      cases hother
  · rintro ⟨other, hstopping⟩
    rw [hawake] at hstopping
    cases hstopping

theorem Armed.notYet {view : AutoStopView} {task task' : TimerTask} {state : AutoStopState}
    (harmed : view.Armed) (hawake : view.awake = some (task, .fired (some 0)))
    (hstate : view.state = some state)
    (helapsed : ∀ since, state.emptySince = some since → view.now - since < state.gracePeriod)
    (hgrace : task'.grace = task.grace) :
    Armed { view with awake := some (task', .clearing) } := by
  have hnot := not_stopping hawake (by simp)
  apply harmed.timers _ harmed.sleeping_grace
  · intro found hfound other phase hother
    cases hother
    rw [hgrace]
    exact harmed.awake_grace found hfound task _ hawake
  · intro found since hfound hsince hwatched
    rw [hstate] at hfound
    cases hfound
    have hwait := helapsed since hsince
    -- This timer ticks too early to be the one that watches.
    rcases hwatched with hasleep | ⟨hpassed, -⟩ | hstopping
    · exact Or.inl hasleep
    · omega
    · exact absurd hstopping hnot
  · exact fun hstopping => absurd hstopping hnot
  · intro hnone
    rw [show view.state = none from hnone] at hstate
    cases hstate

theorem Armed.read {view : AutoStopView} {task : TimerTask} {count : Option ℕ}
    (harmed : view.Armed) (hawake : view.awake = some (task, .verified)) :
    Armed { view.observe count false with awake := some (task, .fired count) } := by
  have hnot := not_stopping hawake (by simp)
  refine ⟨harmed.owned.moves (.read hawake), harmed.begun, harmed.sleeping_grace, ?_, ?_, ?_, ?_⟩
  · intro state hstate other phase hother
    cases hother
    exact harmed.awake_grace state hstate task _ hawake
  · intro state since hstate hsince
    rcases harmed.watched state since hstate hsince with hasleep | ⟨hpassed, -⟩ | hstopping
    · exact Or.inl hasleep
    · exact Or.inr (Or.inl ⟨hpassed, task, .fired count, rfl, Or.inr ⟨count, rfl⟩⟩)
    · exact absurd hstopping hnot
  · intro state hstate hactive hnone
    exact absurd (harmed.reserved state hstate hactive hnone) hnot
  · intro habandoned
    have hearlier : abandoned view.observed = true := by
      simp only [observe, abandoned, Bool.false_or, Bool.and_eq_true] at habandoned
      exact habandoned.2
    rcases harmed.standing hearlier with hwaiting | hstopping
    · exact Or.inl hwaiting
    · exact absurd hstopping hnot

theorem Armed.rearmed {view : AutoStopView} {task task' : TimerTask} {phase : TimerPhase}
    {state : AutoStopState} (harmed : view.Armed) (hawake : view.awake = some (task, phase))
    (hstate : view.state = some state) (hgrace : task'.grace = task.grace) :
    (AutoStopView.sleep
      { view with state := some (state.retryAfterFailedStop view.now) } task').Armed where
  owned := by
    intro hnone
    cases hnone
  begun := by
    intro found since hfound hsince
    cases hfound
    cases hsince
    exact le_rfl
  sleeping_grace := by
    intro found hfound timer htimer
    cases hfound
    rcases List.mem_append.mp htimer with htimer | htimer
    · exact harmed.sleeping_grace state hstate timer htimer
    · rw [List.mem_singleton.mp htimer, hgrace]
      exact harmed.awake_grace state hstate task phase hawake
  awake_grace := by
    intro found hfound other otherPhase hother
    cases hother
  watched := by
    intro found since hfound hsince
    cases hfound
    cases hsince
    exact Or.inl ⟨(task', view.now), by simp [AutoStopView.sleep], le_rfl⟩
  reserved := by
    intro found hfound hactive hnone
    cases hfound
    cases hnone
  standing := fun _ => Or.inl ⟨_, view.now, rfl, rfl⟩

/-- The episode is over, or its stop attempt has begun. -/
theorem Armed.unset {view next : AutoStopView} {input : AutoStopStep} {grace : ℕ}
    {state found : AutoStopState} (harmed : view.Armed) (hmoves : view.Moves input next)
    (hfinds : view.Finds grace state) (hfound : next.state = some found)
    (hgrace : found.gracePeriod = state.gracePeriod) (hnone : found.emptySince = none)
    (hsleeping : next.sleeping = view.sleeping)
    (hawake : ∀ task phase, next.awake = some (task, phase) → ∃ task' phase',
      view.awake = some (task', phase') ∧ task.grace = task'.grace)
    (hreserved : found.timerActive = true → next.Stopping)
    (hstanding : abandoned next.observed = true → next.Stopping) : next.Armed where
  owned := harmed.owned.moves hmoves
  begun := harmed.begun.moves hmoves
  sleeping_grace := by
    intro other hother timer htimer
    rw [hfound, Option.some.injEq] at hother
    rw [hsleeping] at htimer
    rw [← hother, hgrace]
    rcases hfinds with hown | ⟨hnothing, -⟩
    · exact harmed.sleeping_grace state hown timer htimer
    · rw [(harmed.owned hnothing).1] at htimer
      cases htimer
  awake_grace := by
    intro other hother task phase hphase
    rw [hfound, Option.some.injEq] at hother
    rw [← hother, hgrace]
    obtain ⟨task', phase', hwas, hsame⟩ := hawake task phase hphase
    rw [hsame]
    rcases hfinds with hown | ⟨hnothing, -⟩
    · exact harmed.awake_grace state hown task' phase' hwas
    · rw [(harmed.owned hnothing).2] at hwas
      cases hwas
  watched := by
    intro other since hother hsince
    rw [hfound, Option.some.injEq] at hother
    rw [← hother, hnone] at hsince
    cases hsince
  reserved := by
    intro other hother hactive _
    rw [hfound, Option.some.injEq] at hother
    rw [← hother] at hactive
    exact hreserved hactive
  standing := fun habandoned => Or.inr (hstanding habandoned)

theorem Armed.cleared {view : AutoStopView} {task : TimerTask} {state : AutoStopState}
    {timerActive : Bool} (harmed : view.Armed) (hawake : view.awake = some (task, .clearing))
    (hstate : view.state = some state) (hactive : timerActive = true → state.timerActive = true) :
    Armed { view with awake := none, state := some { state with timerActive } } := by
  have hnot := not_stopping hawake (by simp)
  have hmoves := Moves.cleared hawake hstate hactive
  refine ⟨harmed.owned.moves hmoves, harmed.begun.moves hmoves, ?_, ?_, ?_, ?_, ?_⟩
  · intro found hfound timer htimer
    cases hfound
    exact harmed.sleeping_grace state hstate timer htimer
  · intro found hfound other phase hother
    cases hother
  · intro found since hfound hsince
    cases hfound
    rcases harmed.watched state since hstate hsince with hasleep | ⟨-, other, phase, hother, hphase⟩ |
      hstopping
    · exact Or.inl hasleep
    · rw [hawake, Option.some.injEq, Prod.mk.injEq] at hother
      rw [← hother.2] at hphase
      simp at hphase
    · exact absurd hstopping hnot
  · intro found hfound hreserved hnone
    cases hfound
    exact absurd (harmed.reserved state hstate (hactive hreserved) hnone) hnot
  · intro habandoned
    rcases harmed.standing habandoned with ⟨found, since, hfound, hsince⟩ | hstopping
    · rw [hstate] at hfound
      cases hfound
      exact Or.inl ⟨_, since, rfl, hsince⟩
    · exact absurd hstopping hnot

/-! ## Runs -/

theorem Armed.moves {view next : AutoStopView} {input : AutoStopStep} (harmed : view.Armed)
    (hsteady : view.Steady input) (hmoves : view.Moves input next) : next.Armed := by
  have hmoved := hmoves
  cases hmoves with
  | elapse ms =>
      refine ⟨harmed.owned, harmed.begun.moves hmoved, harmed.sleeping_grace, harmed.awake_grace,
        ?_, harmed.reserved, harmed.standing⟩
      intro state since hstate hsince
      rcases harmed.watched state since hstate hsince with hasleep | ⟨hpassed, hawake⟩ | hstopping
      · exact Or.inl hasleep
      · exact Or.inr (Or.inl ⟨le_trans hpassed (Nat.le_add_right _ _), hawake⟩)
      · exact Or.inr (Or.inr hstopping)
  | nothing => exact harmed
  | occupied hfinds hcount =>
      apply harmed.unset hmoved hfinds rfl rfl rfl rfl
      · intro task phase hawake
        exact ⟨task, phase, hawake, rfl⟩
      · intro hactive
        cases hactive
      · intro habandoned
        rw [show abandoned _ = _ from abandoned_event, decide_eq_true_eq] at habandoned
        omega
  | @stillWaiting count grace state hfinds hcount hactive =>
      apply harmed.event hfinds (harmed.owned.moves hmoved) (harmed.begun.moves hmoved) rfl rfl
        (List.Subset.refl _) (fun timer htimer => Or.inl htimer)
      cases hsince : state.emptySince with
      | some since => exact Or.inl rfl
      | none =>
          rcases hfinds with hown | ⟨-, -, hidle, -⟩
          · exact Or.inr (Or.inl (harmed.reserved state hown hactive hsince))
          · rw [hidle] at hactive
            cases hactive
  | @armed count grace generation state hfinds hcount hactive =>
      have hgrace : state.gracePeriod ≤ grace := by
        rcases hfinds with hown | ⟨-, -, -, hsame⟩
        · exact hsteady.1 count grace rfl hcount state hown hactive
        · exact hsame.le
      apply harmed.event hfinds (harmed.owned.moves hmoved) (harmed.begun.moves hmoved) rfl rfl
        (List.subset_append_left _ _)
      · intro timer htimer
        rcases List.mem_append.mp htimer with htimer | htimer
        · exact Or.inl htimer
        · rw [List.mem_singleton.mp htimer]
          exact Or.inr hgrace
      · refine Or.inr (Or.inr ⟨({ generation, grace }, view.now), by simp, ?_⟩)
        exact harmed.begun.moves hmoved _ _ rfl rfl
  | risen hawake hindex hslept hgrace => exact harmed.risen hawake hindex hslept hgrace
  | unverified hawake hindex hgrace => exact harmed.unverified hawake hindex hgrace
  | read hawake => exact harmed.read hawake
  | rearmed hrearms hawake hstate hgrace => exact harmed.rearmed hawake hstate hgrace
  | missDeferred hawake hgrace =>
      exact harmed.sleep hawake hgrace fun hstopping =>
        absurd hstopping (not_stopping hawake (by simp))
  | stopDeferred hgivesUp hawake hgrace =>
      exact harmed.sleep hawake hgrace fun _ => hsteady.2.2 hgivesUp
  | @cancelled task count mark state hawake hcount hstate =>
      have hfinds : view.Finds state.gracePeriod state := Or.inl hstate
      apply harmed.unset hmoved hfinds rfl rfl rfl rfl
      · intro other phase hother
        cases hother
      · intro hactive
        cases hactive
      · intro habandoned
        obtain ⟨previous, rfl⟩ := Nat.exists_eq_succ_of_ne_zero (Nat.ne_of_gt hcount)
        have hoccupied := hsteady.2.1 mark rfl ⟨task, previous, hawake⟩
        rw [show abandoned view.observed = true from habandoned] at hoccupied
        cases hoccupied
  | @triggered task task' mark state since hawake hstate hsince helapsed hgrace =>
      have hfinds : view.Finds state.gracePeriod state := Or.inl hstate
      apply harmed.unset hmoved hfinds rfl rfl rfl rfl
      · intro other phase hother
        cases hother
        exact ⟨task, _, hawake, hgrace⟩
      · exact fun _ => ⟨task', rfl⟩
      · exact fun _ => ⟨task', rfl⟩
  | notYet hawake hstate helapsed hgrace => exact harmed.notYet hawake hstate helapsed hgrace
  | cleared hawake hstate hactive => exact harmed.cleared hawake hstate hactive

end AutoStopView

namespace AutoStopRuntime

/-- An abandoned channel has a timer in flight, which waits for the end of the grace period or
is stopping the recording. -/
def Vigilant (runtime : AutoStopRuntime) : Prop :=
  runtime.phase = .recording → abandoned runtime.observed = true →
    runtime.view.InFlight ∧ (runtime.view.Waiting ∨ runtime.view.Stopping)

theorem Fresh.armed {start : AutoStopRuntime} (hstart : start.Fresh) : start.view.Armed := by
  have hstate : start.view.state = none := hstart.entry
  have hquiet := hstart.sinceEmpty fun _ _ => True
  refine ⟨hquiet.owned, hquiet.begun, ?_, ?_, ?_, ?_, ?_⟩
  · simp [hstate]
  · simp [hstate]
  · simp [hstate]
  · simp [hstate]
  · intro habandoned
    rw [show start.view.observed = [] from hstart.observed] at habandoned
    cases habandoned

theorem abandoned_channel_keeps_timer {start : AutoStopRuntime} (hstart : start.Fresh)
    {inputs : List AutoStopStep}
    (hsteps : Machine.EveryStep step (fun runtime input => runtime.view.Steady input)
      start inputs) : Machine.Always step Vigilant start inputs := by
  have harmed := view_of_everyStep (fun view harmed => AutoStopView.Armed.owned harmed)
    (fun runtime input next harmed hsteady hmoves =>
      AutoStopView.Armed.moves harmed hsteady hmoves) hstart.armed hsteps
  apply harmed.mono
  intro runtime hruntime hphase habandoned
  exact (hruntime hphase).inFlight habandoned

/-- The channel empties and the first timer meets a cache miss, which re-arms it, and then a
member, who cancels it. The channel empties again; the next timer stops the recording, and the
attempt fails. -/
def emptiedTwice : List AutoStopStep :=
  [.voiceStateUpdate (some 0) 60, .elapse 60, .wake 0 true ⟨true, true⟩, .readCount none,
    .fireSection ⟨true, true⟩, .elapse 60, .wake 0 true ⟨true, true⟩, .readCount (some 1),
    .fireSection ⟨true, true⟩, .voiceStateUpdate (some 0) 60, .elapse 60,
    .wake 0 true ⟨true, true⟩, .readCount (some 0), .fireSection ⟨true, true⟩,
    .finishStop (.failed ⟨true, true⟩)]

theorem emptied_channel_keeps_timer :
    (Machine.run step { meetingId := "m" } emptiedTwice).phase = .recording ∧
    abandoned (Machine.run step { meetingId := "m" } emptiedTwice).observed = true ∧
    Machine.Always step Vigilant { meetingId := "m" } emptiedTwice := by
  refine ⟨rfl, rfl, ?_⟩
  apply abandoned_channel_keeps_timer ⟨rfl, rfl, rfl, rfl⟩
  decide

/-- A timer of an earlier episode reads a positive count; before it takes the lock the last
member leaves and a new timer starts. The old timer cancels the new episode. -/
def overtakenByEvent : List AutoStopStep :=
  [.voiceStateUpdate (some 0) 60, .voiceStateUpdate (some 1) 60, .elapse 60,
    .wake 0 true ⟨true, true⟩, .readCount (some 1), .voiceStateUpdate (some 0) 60,
    .fireSection ⟨true, true⟩, .elapse 60, .wake 0 true ⟨true, true⟩, .readCount (some 0),
    .fireSection ⟨true, true⟩, .clearReservation]

theorem overtaken_by_event_left_unwatched :
    Fresh { meetingId := "m" } ∧
    (Machine.run step { meetingId := "m" } overtakenByEvent).phase = .recording ∧
    abandoned (Machine.run step { meetingId := "m" } overtakenByEvent).observed = true ∧
    ¬ (Machine.run step { meetingId := "m" } overtakenByEvent).view.InFlight ∧
    ¬ Vigilant (Machine.run step { meetingId := "m" } overtakenByEvent) := by
  have hnot : ¬ (Machine.run step { meetingId := "m" } overtakenByEvent).view.InFlight := by
    have hsleeping : (Machine.run step { meetingId := "m" } overtakenByEvent).view.sleeping = [] :=
      rfl
    have hawake : (Machine.run step { meetingId := "m" } overtakenByEvent).view.awake = none := rfl
    simp [AutoStopView.InFlight, hsleeping, hawake]
  refine ⟨⟨rfl, rfl, rfl, rfl⟩, rfl, rfl, hnot, ?_⟩
  intro hvigilant
  exact hnot (hvigilant rfl rfl).1

end AutoStopRuntime

end DiscordTranscript.Application
