import DiscordTranscript.Application.AutoStopMoves

/-! # When the auto-stop stops, and that it stays armed

The grace period counts from `emptySince`: nothing positive was observed after it, except by
the timer that has just read a positive count and is about to cancel. An armed state has a
timer that will not tick before the grace period is over.
-/

namespace DiscordTranscript.Application

namespace AutoStopView

/-! ## What was observed since the episode began -/

/-- The awake timer has read a positive count and not cancelled yet. -/
def Cancelling (view : AutoStopView) : Prop :=
  ∃ task count, view.awake = some (task, .fired (some (count + 1)))

/-- The empty episode did not begin in the future. -/
def Begun (view : AutoStopView) : Prop :=
  ∀ state since, view.state = some state → state.emptySince = some since → since ≤ view.now

theorem Begun.moves {view next : AutoStopView} {input : AutoStopStep} (hbegun : view.Begun)
    (hmoves : view.Moves input next) : next.Begun := by
  have hevent {grace since : ℕ} {state : AutoStopState} (hfinds : view.Finds grace state)
      (hsince : some (state.emptySince.getD view.now) = some since) : since ≤ view.now := by
    cases hempty : state.emptySince with
    | none =>
        rw [hempty] at hsince
        cases hsince
        exact le_rfl
    | some begun =>
        rw [hempty] at hsince
        cases hsince
        rcases hfinds with hown | ⟨-, hnone, -⟩
        · exact hbegun state begun hown hempty
        · rw [hempty] at hnone
          cases hnone
  intro state since hstate hsince
  cases hmoves with
  | elapse ms => exact le_trans (hbegun state since hstate hsince) (Nat.le_add_right _ _)
  | occupied =>
      cases hstate
      cases hsince
  | stillWaiting hfinds =>
      cases hstate
      exact hevent hfinds hsince
  | armed hfinds =>
      cases hstate
      exact hevent hfinds hsince
  | rearmed =>
      cases hstate
      cases hsince
      exact le_rfl
  | cancelled =>
      cases hstate
      cases hsince
  | triggered =>
      cases hstate
      cases hsince
  | cleared hawake hown =>
      cases hstate
      exact hbegun _ since hown hsince
  | _ => exact hbegun state since hstate hsince

/-- A property of the begin of the empty episode and of the observations made so far, which
the awake timer alone may know better. -/
structure SinceEmpty (holds : ℕ → List Observation → Prop) (view : AutoStopView) : Prop where
  owned : view.Owned
  begun : view.Begun
  past : ∀ observation ∈ view.observed, observation.time ≤ view.now
  episode : ∀ state since, view.state = some state → state.emptySince = some since →
    ¬ view.Cancelling → holds since view.observed

theorem not_positive_of_count_zero {now : ℕ} {count : Option ℕ} {byEvent : Bool}
    (hcount : autoStopEventMemberCount count = 0) :
    (Observation.mk now count byEvent).positive = false := by
  unfold Observation.positive
  cases count with
  | none => rfl
  | some count =>
      have hzero : count = 0 := hcount
      simp [hzero]

section

variable {holds : ℕ → List Observation → Prop}
  (hcons : ∀ since observed observation, holds since observed → observation.positive = false →
    holds since (observation :: observed))
  (hbegins : ∀ now count observed, (∀ observation ∈ observed, observation.time ≤ now) →
    autoStopEventMemberCount count = 0 → holds now (⟨now, count, true⟩ :: observed))

include hcons hbegins

theorem SinceEmpty.moves {view next : AutoStopView} {input : AutoStopStep}
    (hview : view.SinceEmpty holds) (hmoves : view.Moves input next)
    (hrearms : view.Rearms input → holds view.now view.observed) : next.SinceEmpty holds := by
  have hpast (count : Option ℕ) (byEvent : Bool) :
      ∀ observation ∈ (view.observe count byEvent).observed, observation.time ≤ view.now := by
    intro observation hmem
    rcases List.mem_cons.mp hmem with rfl | hmem
    · exact le_rfl
    · exact hview.past observation hmem
  -- An event that reports zero or a miss begins the episode or finds it begun.
  have hevent {count : Option ℕ} {grace since : ℕ} {state : AutoStopState}
      (hfinds : view.Finds grace state) (hcount : autoStopEventMemberCount count = 0)
      (hsince : some (state.emptySince.getD view.now) = some since) (hnot : ¬ view.Cancelling) :
      holds since (view.observe count true).observed := by
    cases hempty : state.emptySince with
    | none =>
        rw [hempty] at hsince
        cases hsince
        exact hbegins view.now count view.observed hview.past hcount
    | some begun =>
        rw [hempty] at hsince
        cases hsince
        apply hcons
        · rcases hfinds with hown | ⟨-, hnone, -⟩
          · exact hview.episode state begun hown hempty hnot
          · rw [hempty] at hnone
            cases hnone
        · exact not_positive_of_count_zero hcount
  refine ⟨hview.owned.moves hmoves, hview.begun.moves hmoves, ?_, ?_⟩
  · cases hmoves with
    | elapse ms =>
        intro observation hmem
        exact le_trans (hview.past observation hmem) (Nat.le_add_right _ _)
    | occupied => exact hpast _ _
    | stillWaiting => exact hpast _ _
    | armed => exact hpast _ _
    | read => exact hpast _ _
    | _ => exact hview.past
  · intro state since hstate hsince hnot
    cases hmoves with
    | elapse ms => exact hview.episode state since hstate hsince hnot
    | nothing => exact hview.episode state since hstate hsince hnot
    | occupied =>
        cases hstate
        cases hsince
    | stillWaiting hfinds hcount =>
        cases hstate
        exact hevent hfinds hcount hsince hnot
    | armed hfinds hcount =>
        cases hstate
        exact hevent hfinds hcount hsince hnot
    | risen hawake =>
        apply hview.episode state since hstate hsince
        simp [Cancelling, hawake]
    | unverified hawake =>
        apply hview.episode state since hstate hsince
        simp [Cancelling, hawake]
    | @read task count hawake =>
        apply hcons
        · apply hview.episode state since hstate hsince
          simp [Cancelling, hawake]
        · match count with
          | none => rfl
          | some 0 => rfl
          | some (count + 1) => exact absurd ⟨task, count, rfl⟩ hnot
    | rearmed hrearm =>
        cases hstate
        cases hsince
        exact hrearms hrearm
    | missDeferred hawake =>
        apply hview.episode state since hstate hsince
        simp [Cancelling, hawake]
    | stopDeferred _ hawake =>
        apply hview.episode state since hstate hsince
        simp [Cancelling, hawake]
    | cancelled =>
        cases hstate
        cases hsince
    | triggered =>
        cases hstate
        cases hsince
    | notYet hawake =>
        apply hview.episode state since hstate hsince
        simp [Cancelling, hawake]
    | cleared hawake hown =>
        cases hstate
        apply hview.episode _ since hown hsince
        simp [Cancelling, hawake]

end

end AutoStopView

namespace AutoStopRuntime

/-! ## The grace period -/

/-- A timer has read zero and its tick is about to trigger. -/
def TriggersWith (runtime : AutoStopRuntime) (state : AutoStopState) : Prop :=
  runtime.phase = .recording ∧ (∃ task, runtime.awake = some (task, .fired (some 0))) ∧
    runtime.ownEntry = some state ∧ (state.tick runtime.now).1 = .trigger

/-- The newest observation made up to this time. -/
def latestAt (observed : List Observation) (time : ℕ) : Option Observation :=
  observed.find? (·.time ≤ time)

/-- The newest one that saw a count. -/
def latestKnownAt (observed : List Observation) (time : ℕ) : Option Observation :=
  latestAt (observed.filter (·.count.isSome)) time

/-- The state is not re-armed against a positive observation. -/
def Heedful (runtime : AutoStopRuntime) (input : AutoStopStep) : Prop :=
  runtime.view.Rearms input → ∀ observation, runtime.observed.head? = some observation →
    observation.positive = false

instance decidableHeedful (runtime : AutoStopRuntime) (input : AutoStopStep) :
    Decidable (runtime.Heedful input) :=
  inferInstanceAs (Decidable (runtime.view.Rearms input →
    ∀ observation ∈ runtime.observed.head?, observation.positive = false))

theorem Fresh.sinceEmpty {start : AutoStopRuntime} (hstart : start.Fresh)
    (holds : ℕ → List Observation → Prop) : start.view.SinceEmpty holds := by
  constructor
  · intro hnone
    exact ⟨hstart.sleeping, hstart.awake⟩
  · intro state since hstate
    have hnone := hstart.entry
    rw [show start.ownEntry = some state from hstate] at hnone
    cases hnone
  · intro observation hmem
    rw [show start.view.observed = [] from hstart.observed] at hmem
    cases hmem
  · intro state since hstate
    have hnone := hstart.entry
    rw [show start.ownEntry = some state from hstate] at hnone
    cases hnone

theorem TriggersWith.elapsed {runtime : AutoStopRuntime} {state : AutoStopState}
    (htriggers : runtime.TriggersWith state) :
    ∃ since, state.emptySince = some since ∧ state.gracePeriod ≤ runtime.now - since ∧
      runtime.view.state = some state ∧ ¬ runtime.view.Cancelling := by
  obtain ⟨-, ⟨task, hawake⟩, hown, htick⟩ := htriggers
  unfold AutoStopState.tick at htick
  cases hsince : state.emptySince with
  | none =>
      rw [hsince] at htick
      cases htick
  | some since =>
      rw [hsince] at htick
      dsimp only at htick
      split at htick
      next helapsed =>
        refine ⟨since, rfl, helapsed, hown, ?_⟩
        rintro ⟨other, count, hcancelling⟩
        have hboth := hawake.symm.trans hcancelling
        simp at hboth
      next => cases htick

theorem latestAt_cons {observation : Observation} {observed : List Observation} {time : ℕ} :
    latestAt (observation :: observed) time =
      if observation.time ≤ time then some observation else latestAt observed time := by
  unfold latestAt
  by_cases hle : observation.time ≤ time
  · simp [hle]
  · simp [hle]

/-- Nothing positive was observed after this time. -/
def QuietSince (since : ℕ) (observed : List Observation) : Prop :=
  ∀ observation ∈ observed, observation.positive = true → observation.time ≤ since

/-- From this time on the newest observation was never positive. -/
def VacantSince (since : ℕ) (observed : List Observation) : Prop :=
  ∀ time, since ≤ time → ∀ observation, latestAt observed time = some observation →
    observation.positive = false

theorem QuietSince.cons (since : ℕ) (observed : List Observation) (observation : Observation)
    (hquiet : QuietSince since observed) (hpositive : observation.positive = false) :
    QuietSince since (observation :: observed) := by
  intro other hmem hother
  rcases List.mem_cons.mp hmem with rfl | hmem
  · rw [hpositive] at hother
    cases hother
  · exact hquiet other hmem hother

theorem VacantSince.cons (since : ℕ) (observed : List Observation) (observation : Observation)
    (hvacant : VacantSince since observed) (hpositive : observation.positive = false) :
    VacantSince since (observation :: observed) := by
  intro time htime other hlatest
  rw [latestAt_cons] at hlatest
  split at hlatest
  next =>
    cases hlatest
    exact hpositive
  next => exact hvacant time htime other hlatest

theorem always_quietSince {start : AutoStopRuntime} (hstart : start.Fresh)
    (inputs : List AutoStopStep) : Machine.Always step
      (fun runtime => runtime.phase = .recording → runtime.view.SinceEmpty QuietSince)
      start inputs := by
  have hsteps : Machine.EveryStep step (fun _ _ => True) start inputs :=
    Machine.everyStep_of_forall step (fun _ _ => trivial) start inputs
  apply view_of_everyStep (fun _ hview => hview.owned) _ (hstart.sinceEmpty QuietSince) hsteps
  intro runtime input next hview _ hmoves
  apply hview.moves QuietSince.cons _ hmoves
  · intro _ observation hmem _
    exact hview.past observation hmem
  · intro now count observed hpast hcount observation hmem _
    rcases List.mem_cons.mp hmem with rfl | hmem
    · exact le_rfl
    · exact hpast observation hmem

theorem always_vacantSince {start : AutoStopRuntime} (hstart : start.Fresh)
    {inputs : List AutoStopStep} (hsteps : Machine.EveryStep step Heedful start inputs) :
    Machine.Always step
      (fun runtime => runtime.phase = .recording → runtime.view.SinceEmpty VacantSince)
      start inputs := by
  apply view_of_everyStep (fun _ hview => hview.owned) _ (hstart.sinceEmpty VacantSince) hsteps
  intro runtime input next hview hheedful hmoves
  apply hview.moves VacantSince.cons _ hmoves
  · intro hrearms time htime observation hlatest
    -- Everything was observed by now, so the newest observation is the first of the list.
    cases hobserved : runtime.observed with
    | nil =>
        rw [show runtime.view.observed = [] from hobserved] at hlatest
        cases hlatest
    | cons newest rest =>
        have hnewest : newest.time ≤ time := by
          apply le_trans (hview.past newest _) htime
          rw [show runtime.view.observed = newest :: rest from hobserved]
          exact List.mem_cons_self
        rw [show runtime.view.observed = newest :: rest from hobserved, latestAt_cons,
          if_pos hnewest] at hlatest
        cases hlatest
        apply hheedful hrearms
        rw [hobserved]
        rfl
  · intro now count observed hpast hcount time htime observation hlatest
    rw [latestAt_cons, if_pos (show (Observation.mk now count true).time ≤ time from htime)]
      at hlatest
    cases hlatest
    exact AutoStopView.not_positive_of_count_zero hcount

/-- The count is observed positive at no time within the grace period before a trigger, and
where no re-arm overrides a positive observation the newest observation is positive at no
moment of it either, a cache miss counting as possibly empty. -/
theorem auto_stop_grace_period_honoured {start : AutoStopRuntime} (hstart : start.Fresh)
    (inputs : List AutoStopStep) {state : AutoStopState}
    (htriggers : (Machine.run step start inputs).TriggersWith state) :
    (∀ observation ∈ (Machine.run step start inputs).observed, observation.positive = true →
      observation.time + state.gracePeriod ≤ (Machine.run step start inputs).now) ∧
    (Machine.EveryStep step Heedful start inputs → ∀ time,
      (Machine.run step start inputs).now ≤ time + state.gracePeriod →
      ∀ observation, latestAt (Machine.run step start inputs).observed time = some observation →
        observation.positive = false) := by
  obtain ⟨since, hsince, helapsed, hown, hnot⟩ := htriggers.elapsed
  have hquiet := Machine.Always.run step (always_quietSince hstart inputs) htriggers.1
  have hbegun : since ≤ (Machine.run step start inputs).now :=
    hquiet.begun state since hown hsince
  constructor
  · intro observation hmem hpositive
    have htime := hquiet.episode state since hown hsince hnot observation hmem hpositive
    omega
  · intro hsteps time htime observation hlatest
    have hvacant := Machine.Always.run step (always_vacantSince hstart hsteps) htriggers.1
    exact hvacant.episode state since hown hsince hnot time (by omega) observation hlatest

/-- A member leaves, the cache misses the channel when the grace period is over, and the timer
that this re-arms reads zero. -/
def emptiedChannel : List AutoStopStep :=
  [.voiceStateUpdate (some 1) 60, .elapse 5, .voiceStateUpdate (some 0) 60, .elapse 60,
    .wake 0 true ⟨true, true⟩, .readCount none, .fireSection ⟨true, true⟩, .elapse 60,
    .wake 0 true ⟨true, true⟩, .readCount (some 0)]

theorem emptied_channel_grace_honoured :
    (∀ observation ∈ (Machine.run step { meetingId := "m" } emptiedChannel).observed,
      observation.positive = true → observation.time + 60 ≤ 125) ∧
    ∀ time, 125 ≤ time + 60 → ∀ observation,
      latestAt (Machine.run step { meetingId := "m" } emptiedChannel).observed time =
        some observation → observation.positive = false := by
  have hstart : Fresh { meetingId := "m" } := ⟨rfl, rfl, rfl, rfl⟩
  have htriggers : (Machine.run step { meetingId := "m" } emptiedChannel).TriggersWith
      ⟨60, some "m", some 65, true, 1⟩ := ⟨rfl, ⟨_, rfl⟩, rfl, rfl⟩
  obtain ⟨hpositive, hlatest⟩ := auto_stop_grace_period_honoured hstart emptiedChannel htriggers
  exact ⟨hpositive, hlatest (by decide)⟩

/-! A cache miss arms the timer although a member is known to be there. -/

/-- The cache loses the channel after an occupied count, and has it empty a minute later. -/
def missAfterOccupied : List AutoStopStep :=
  [.voiceStateUpdate (some 1) 60, .voiceStateUpdate none 60, .elapse 60,
    .wake 0 true ⟨true, true⟩, .readCount (some 0)]

theorem miss_after_occupied_triggers :
    Fresh { meetingId := "m" } ∧
    ∃ state time, (Machine.run step { meetingId := "m" } missAfterOccupied).TriggersWith state ∧
      (Machine.run step { meetingId := "m" } missAfterOccupied).now ≤ time + state.gracePeriod ∧
      time ≤ (Machine.run step { meetingId := "m" } missAfterOccupied).now ∧
      ((latestKnownAt (Machine.run step { meetingId := "m" } missAfterOccupied).observed time).map
        (·.positive)) = some true := by
  refine ⟨⟨rfl, rfl, rfl, rfl⟩, ⟨60, some "m", some 0, true, 1⟩, 0, ?_, by decide, by decide,
    by decide⟩
  exact ⟨rfl, ⟨_, rfl⟩, rfl, rfl⟩

end AutoStopRuntime

end DiscordTranscript.Application
