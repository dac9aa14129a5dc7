import DiscordTranscript.Application.AutoStop

/-! # What a step of the auto-stop can do

`moves_step` lists once what a step can do to the part of the runtime that matters while the
recording lasts. The guarantees are invariants of these moves.
-/

namespace DiscordTranscript.Application

/-- The runtime as one meeting sees it: an entry of another meeting is none. -/
structure AutoStopView where
  now : ℕ
  state : Option AutoStopState
  sleeping : List (TimerTask × ℕ)
  awake : Option (TimerTask × TimerPhase)
  observed : List Observation

namespace AutoStopView

def observe (view : AutoStopView) (count : Option ℕ) (byEvent : Bool) : AutoStopView :=
  { view with observed := ⟨view.now, count, byEvent⟩ :: view.observed }

def sleep (view : AutoStopView) (task : TimerTask) : AutoStopView :=
  { view with awake := none, sleeping := view.sleeping ++ [(task, view.now)] }

/-- Only a meeting with an entry of its own has timers. -/
def Owned (view : AutoStopView) : Prop :=
  view.state = none → view.sleeping = [] ∧ view.awake = none

/-- The state an event finds under the lock: the meeting's own, or a new idle one. -/
def Finds (view : AutoStopView) (grace : ℕ) (state : AutoStopState) : Prop :=
  view.state = some state ∨ (view.state = none ∧ state.emptySince = none ∧
    state.timerActive = false ∧ state.gracePeriod = grace)

/-- The step re-arms the state: after a cache miss at fire time, or after a failed stop
attempt, unless the retry limit is reached. -/
def Rearms (view : AutoStopView) : AutoStopStep → Prop
  | .fireSection _ => ∃ task, view.awake = some (task, .fired none) ∧
      saturatingSucc task.graceCacheMisses < autoStopGraceMaxCacheMissChecks
  | .finishStop (.failed _) => ∃ task, view.awake = some (task, .stopping) ∧
      saturatingSucc task.stopFailures < recordingStopMaxRetries
  | _ => False

/-- The step gives a stop attempt up, after its last retry, and cannot record the failure: the
timer sleeps without having re-armed the state. -/
def GivesUp (view : AutoStopView) : AutoStopStep → Prop
  | .finishStop (.failed mark) => ∃ task, view.awake = some (task, .stopping) ∧
      recordingStopMaxRetries ≤ saturatingSucc task.stopFailures ∧
      (task.markRecordingFailed mark).isSome
  | _ => False

/-- The timer that is awake, if it stands there. -/
theorem exists_awake_iff {view : AutoStopView} {phase : TimerPhase} {p : TimerTask → Prop} :
    (∃ task, view.awake = some (task, phase) ∧ p task) ↔
      ∃ timer ∈ view.awake, timer.2 = phase ∧ p timer.1 := by
  constructor
  · rintro ⟨task, hawake, htask⟩
    exact ⟨(task, phase), hawake, rfl, htask⟩
  · rintro ⟨⟨task, _⟩, hawake, rfl, htask⟩
    exact ⟨task, hawake, htask⟩

instance decidableAwake (view : AutoStopView) (phase : TimerPhase) (p : TimerTask → Prop)
    [DecidablePred p] : Decidable (∃ task, view.awake = some (task, phase) ∧ p task) :=
  decidable_of_iff _ exists_awake_iff.symm

instance decidableRearms (view : AutoStopView) : ∀ input, Decidable (view.Rearms input)
  | .fireSection _ => inferInstanceAs (Decidable (∃ _, _ ∧ _))
  | .finishStop (.failed _) => inferInstanceAs (Decidable (∃ _, _ ∧ _))
  | .finishStop .stopped | .finishStop .targetAbsent | .elapse _ | .voiceStateUpdate _ _
  | .wake _ _ _ | .readCount _ | .clearReservation => inferInstanceAs (Decidable False)

instance decidableGivesUp (view : AutoStopView) : ∀ input, Decidable (view.GivesUp input)
  | .finishStop (.failed _) => inferInstanceAs (Decidable (∃ _, _ ∧ _))
  | .finishStop .stopped | .finishStop .targetAbsent | .elapse _ | .voiceStateUpdate _ _
  | .wake _ _ _ | .readCount _ | .fireSection _ | .clearReservation =>
      inferInstanceAs (Decidable False)

/-! ## What a step can do -/

inductive Moves (view : AutoStopView) : AutoStopStep → AutoStopView → Prop
  | elapse (ms : ℕ) : Moves view (.elapse ms) { view with now := view.now + ms }
  | nothing (input : AutoStopStep) : Moves view input view
  | occupied {count : Option ℕ} {grace : ℕ} {state : AutoStopState}
      (hfinds : view.Finds grace state) (hcount : 0 < autoStopEventMemberCount count) :
      Moves view (.voiceStateUpdate count grace) { view.observe count true with
        state := some { state with timerActive := false, emptySince := none } }
  | stillWaiting {count : Option ℕ} {grace : ℕ} {state : AutoStopState}
      (hfinds : view.Finds grace state) (hcount : autoStopEventMemberCount count = 0)
      (hactive : state.timerActive = true) :
      Moves view (.voiceStateUpdate count grace) { view.observe count true with
        state := some { state with emptySince := some (state.emptySince.getD view.now) } }
  | armed {count : Option ℕ} {grace generation : ℕ} {state : AutoStopState}
      (hfinds : view.Finds grace state) (hcount : autoStopEventMemberCount count = 0)
      (hactive : state.timerActive = false) :
      Moves view (.voiceStateUpdate count grace) { view.observe count true with
        state := some { state with
          emptySince := some (state.emptySince.getD view.now)
          timerActive := true
          timerGeneration := generation }
        sleeping := view.sleeping ++ [({ generation, grace }, view.now)] }
  | risen {index since : ℕ} {task task' : TimerTask} {meetingFound : Bool} {mark : MarkFailed}
      (hawake : view.awake = none) (hindex : view.sleeping[index]? = some (task, since))
      (hslept : since + task.grace ≤ view.now) (hgrace : task'.grace = task.grace) :
      Moves view (.wake index meetingFound mark)
        { view with sleeping := view.sleeping.eraseIdx index, awake := some (task', .verified) }
  | unverified {index since : ℕ} {task task' : TimerTask} {meetingFound : Bool}
      {mark : MarkFailed} (hawake : view.awake = none)
      (hindex : view.sleeping[index]? = some (task, since)) (hgrace : task'.grace = task.grace) :
      Moves view (.wake index meetingFound mark)
        (sleep { view with sleeping := view.sleeping.eraseIdx index } task')
  | read {task : TimerTask} {count : Option ℕ} (hawake : view.awake = some (task, .verified)) :
      Moves view (.readCount count)
        { view.observe count false with awake := some (task, .fired count) }
  | rearmed {input : AutoStopStep} {task task' : TimerTask} {phase : TimerPhase}
      {state : AutoStopState} (hrearms : view.Rearms input)
      (hawake : view.awake = some (task, phase)) (hstate : view.state = some state)
      (hgrace : task'.grace = task.grace) :
      Moves view input
        (sleep { view with state := some (state.retryAfterFailedStop view.now) } task')
  | missDeferred {task task' : TimerTask} {mark : MarkFailed}
      (hawake : view.awake = some (task, .fired none)) (hgrace : task'.grace = task.grace) :
      Moves view (.fireSection mark) (view.sleep task')
  | stopDeferred {task task' : TimerTask} {mark : MarkFailed}
      (hgivesUp : view.GivesUp (.finishStop (.failed mark)))
      (hawake : view.awake = some (task, .stopping)) (hgrace : task'.grace = task.grace) :
      Moves view (.finishStop (.failed mark)) (view.sleep task')
  | cancelled {task : TimerTask} {count : ℕ} {mark : MarkFailed} {state : AutoStopState}
      (hawake : view.awake = some (task, .fired (some count))) (hcount : 0 < count)
      (hstate : view.state = some state) :
      Moves view (.fireSection mark) { view with
        awake := none, state := some { state with timerActive := false, emptySince := none } }
  | triggered {task task' : TimerTask} {mark : MarkFailed} {state : AutoStopState} {since : ℕ}
      (hawake : view.awake = some (task, .fired (some 0)))
      (hstate : view.state = some state) (hsince : state.emptySince = some since)
      (helapsed : state.gracePeriod ≤ view.now - since) (hgrace : task'.grace = task.grace) :
      Moves view (.fireSection mark) { view with
        state := some { state with emptySince := none }, awake := some (task', .stopping) }
  | notYet {task task' : TimerTask} {mark : MarkFailed} {state : AutoStopState}
      (hawake : view.awake = some (task, .fired (some 0))) (hstate : view.state = some state)
      (helapsed : ∀ since, state.emptySince = some since →
        view.now - since < state.gracePeriod) (hgrace : task'.grace = task.grace) :
      Moves view (.fireSection mark) { view with awake := some (task', .clearing) }
  | cleared {task : TimerTask} {state : AutoStopState} {timerActive : Bool}
      (hawake : view.awake = some (task, .clearing)) (hstate : view.state = some state)
      (hactive : timerActive = true → state.timerActive = true) :
      Moves view .clearReservation
        { view with awake := none, state := some { state with timerActive } }

theorem Owned.exists_state {view : AutoStopView} (howned : view.Owned) {task : TimerTask}
    {phase : TimerPhase} (hawake : view.awake = some (task, phase)) :
    ∃ state, view.state = some state := by
  cases hstate : view.state with
  | some state => exact ⟨state, rfl⟩
  | none =>
      have hnone := (howned hstate).2
      rw [hawake] at hnone
      cases hnone

theorem Owned.moves {view next : AutoStopView} {input : AutoStopStep} (howned : view.Owned)
    (hmoves : view.Moves input next) : next.Owned := by
  intro hnone
  cases hmoves with
  | elapse ms => exact howned hnone
  | nothing => exact howned hnone
  | occupied => cases hnone
  | stillWaiting => cases hnone
  | armed => cases hnone
  | risen hawake hindex =>
      rw [(howned hnone).1] at hindex
      cases hindex
  | unverified hawake hindex =>
      rw [(howned hnone).1] at hindex
      cases hindex
  | read hawake =>
      rw [(howned hnone).2] at hawake
      cases hawake
  | rearmed => cases hnone
  | missDeferred hawake =>
      rw [(howned hnone).2] at hawake
      cases hawake
  | stopDeferred hgivesUp hawake =>
      rw [(howned hnone).2] at hawake
      cases hawake
  | cancelled => cases hnone
  | triggered => cases hnone
  | notYet hawake =>
      rw [(howned hnone).2] at hawake
      cases hawake
  | cleared => cases hnone

end AutoStopView

namespace AutoStopRuntime

open AutoStopView (Moves)

def view (runtime : AutoStopRuntime) : AutoStopView where
  now := runtime.now
  state := runtime.ownEntry
  sleeping := runtime.sleeping
  awake := runtime.awake
  observed := runtime.observed

theorem ownEntry_eq_some {runtime : AutoStopRuntime} {state : AutoStopState} :
    runtime.ownEntry = some state ↔
      runtime.entry = some state ∧ state.meetingId = some runtime.meetingId := by
  simp [ownEntry, AutoStopState.belongsToMeeting, Option.filter_eq_some_iff]

theorem moves_of_entry {next : AutoStopRuntime} {before : AutoStopView} {input : AutoStopStep}
    {state : AutoStopState} (hentry : next.entry = some state)
    (hid : state.meetingId = some next.meetingId)
    (hmoves : Moves before input { next.view with state := some state }) :
    Moves before input next.view := by
  have hown := ownEntry_eq_some.mpr ⟨hentry, hid⟩
  simp only [view, hown] at hmoves ⊢
  exact hmoves

theorem markRecordingFailed_grace {task task' : TimerTask} {mark : MarkFailed}
    (hmark : task.markRecordingFailed mark = some task') : task'.grace = task.grace := by
  unfold TimerTask.markRecordingFailed at hmark
  dsimp only at hmark
  split_ifs at hmark
  · cases hmark
    rfl
  · cases hmark
    rfl

theorem giveUp_cases (runtime : AutoStopRuntime) (task : TimerTask) (mark : MarkFailed) :
    (runtime.giveUp task mark).phase ≠ .recording ∨
      ∃ task' : TimerTask, task.markRecordingFailed mark = some task' ∧
        task'.grace = task.grace ∧ runtime.giveUp task mark = runtime.sleep task' := by
  unfold giveUp
  cases hmark : task.markRecordingFailed mark with
  | none => exact Or.inl (by simp)
  | some task' => exact Or.inr ⟨task', rfl, markRecordingFailed_grace hmark, rfl⟩

/-- The stop counter has no part in it. -/
theorem markRecordingFailed_isSome (task : TimerTask) (stopFailures : ℕ) (mark : MarkFailed) :
    ({ task with stopFailures }.markRecordingFailed mark).isSome =
      (task.markRecordingFailed mark).isSome := by
  unfold TimerTask.markRecordingFailed
  dsimp only
  split_ifs <;> rfl

/-- The recording ended, or the step was one of the moves. -/
def MovesOrEnds (runtime : AutoStopRuntime) (input : AutoStopStep) (next : AutoStopRuntime) :
    Prop :=
  next.phase ≠ .recording ∨ Moves runtime.view input next.view

theorem finds_refreshed (runtime : AutoStopRuntime) (grace : ℕ) {state : AutoStopState}
    (hstate : (runtime.entry.getD (.newForMeeting grace
      (some runtime.meetingId))).refreshForMeeting grace runtime.meetingId = state) :
    runtime.view.Finds grace state ∧ state.meetingId = some runtime.meetingId := by
  subst hstate
  cases hentry : runtime.entry with
  | none =>
      have hnone : runtime.ownEntry = none := by simp [ownEntry, hentry]
      exact ⟨Or.inr ⟨hnone, by simp [AutoStopState.refreshForMeeting, AutoStopState.newForMeeting]⟩,
        by simp [AutoStopState.refreshForMeeting, AutoStopState.newForMeeting]⟩
  | some state =>
      by_cases hid : state.meetingId = some runtime.meetingId
      · have hown := ownEntry_eq_some.mpr ⟨hentry, hid⟩
        simp only [Option.getD_some, AutoStopState.refreshForMeeting, hid, if_true, and_true]
        exact Or.inl hown
      · have hnone : runtime.ownEntry = none := by
          simp [ownEntry, hentry, AutoStopState.belongsToMeeting, hid]
        simp only [Option.getD_some, AutoStopState.refreshForMeeting, hid, if_false]
        exact ⟨Or.inr ⟨hnone, by simp [AutoStopState.newForMeeting]⟩, rfl⟩

theorem moves_voiceStateUpdate (runtime : AutoStopRuntime) (count : Option ℕ) (grace : ℕ) :
    Moves runtime.view (.voiceStateUpdate count grace) (runtime.voiceStateUpdate count grace).view := by
  unfold voiceStateUpdate
  generalize hstate : (runtime.entry.getD (.newForMeeting grace
    (some runtime.meetingId))).refreshForMeeting grace runtime.meetingId = state
  obtain ⟨hfinds, hid⟩ := runtime.finds_refreshed grace hstate
  unfold AutoStopState.onNonBotMemberCountChanged
  by_cases hcount : autoStopEventMemberCount count = 0
  · simp only [hcount, if_true]
    by_cases hactive : state.timerActive = true
    · rw [if_pos hactive]
      simp only [reduceCtorEq, if_false]
      refine moves_of_entry rfl hid ?_
      exact .stillWaiting hfinds hcount hactive
    · rw [if_neg hactive]
      simp only [if_true]
      refine moves_of_entry rfl hid ?_
      exact .armed hfinds hcount (Bool.eq_false_of_not_eq_true hactive)
  · simp only [hcount, if_false]
    rw [if_neg (by split <;> simp)]
    refine moves_of_entry rfl hid ?_
    exact .occupied hfinds (Nat.pos_of_ne_zero hcount)

theorem moves_wake (runtime : AutoStopRuntime) (index : ℕ) (meetingFound : Bool)
    (mark : MarkFailed) : runtime.MovesOrEnds (.wake index meetingFound mark)
      (runtime.wake index meetingFound mark) := by
  unfold wake
  split
  next task since hawake hindex =>
    split
    next => exact Or.inr (.nothing _)
    next hslept =>
      dsimp only
      split
      next => exact Or.inr (.risen hawake hindex (Nat.le_of_not_lt hslept) rfl)
      next =>
        split
        next => exact Or.inr (.unverified hawake hindex rfl)
        next =>
          rcases giveUp_cases { runtime with sleeping := runtime.sleeping.eraseIdx index }
            { task with lookupFailures := saturatingSucc task.lookupFailures } mark with
            hover | ⟨task', -, hgrace, heq⟩
          · exact Or.inl hover
          · rw [heq]
            exact Or.inr (.unverified hawake hindex hgrace)
  next => exact Or.inr (.nothing _)

theorem moves_rearmed {runtime : AutoStopRuntime} {input : AutoStopStep} {task task' : TimerTask}
    {phase : TimerPhase} {state : AutoStopState} (hrearms : runtime.view.Rearms input)
    (hawake : runtime.awake = some (task, phase)) (hown : runtime.ownEntry = some state)
    (hgrace : task'.grace = task.grace) :
    Moves runtime.view input (sleep { runtime with
      entry := some (state.retryAfterFailedStop runtime.now) } task').view := by
  refine moves_of_entry rfl (ownEntry_eq_some.mp hown).2 ?_
  exact .rearmed hrearms hawake hown hgrace

theorem moves_rescheduleSection {runtime : AutoStopRuntime} {task : TimerTask}
    (hawake : runtime.awake = some (task, .fired none)) {state : AutoStopState}
    (hown : runtime.ownEntry = some state) (mark : MarkFailed) :
    runtime.MovesOrEnds (.fireSection mark) (runtime.rescheduleSection task mark) := by
  unfold rescheduleSection rearmAutoStopStateForRetry
  rw [hown]
  dsimp only [Option.map_some]
  split
  next hlimit =>
    have hrearms : runtime.view.Rearms (.fireSection mark) := ⟨task, hawake, hlimit⟩
    apply Or.inr
    apply moves_rearmed hrearms hawake hown
    rfl
  next =>
    rcases giveUp_cases runtime
      { task with graceCacheMisses := saturatingSucc task.graceCacheMisses } mark with
      hover | ⟨task', -, hgrace, heq⟩
    · exact Or.inl hover
    · rw [heq]
      exact Or.inr (.missDeferred hawake hgrace)

theorem moves_tickSection {runtime : AutoStopRuntime} {task : TimerTask}
    (hawake : runtime.awake = some (task, .fired (some 0))) {state : AutoStopState}
    (hown : runtime.ownEntry = some state) (mark : MarkFailed) :
    Moves runtime.view (.fireSection mark) (runtime.tickSection task).view := by
  obtain ⟨hentry, hid⟩ := ownEntry_eq_some.mp hown
  have hbelongs : state.belongsToMeeting runtime.meetingId = true := by
    simp [AutoStopState.belongsToMeeting, hid]
  have hnotYet (hwait : ∀ since, state.emptySince = some since →
      runtime.now - since < state.gracePeriod) :
      Moves runtime.view (.fireSection mark) { runtime.view with
        awake := some ({ task with graceCacheMisses := 0 }, .clearing) } :=
    .notYet hawake hown hwait rfl
  unfold tickSection AutoStopState.tick
  simp only [hentry, hbelongs, if_true]
  cases hsince : state.emptySince with
  | none =>
      refine moves_of_entry rfl hid ?_
      simpa [view, hown] using hnotYet (by simp [hsince])
  | some since =>
      by_cases helapsed : state.gracePeriod ≤ runtime.now - since
      · simp only [helapsed, if_true]
        refine moves_of_entry rfl hid ?_
        apply Moves.triggered hawake hown hsince helapsed
        rfl
      · simp only [helapsed, if_false, reduceCtorEq]
        refine moves_of_entry rfl hid ?_
        simpa [view, hown] using hnotYet (by simpa [hsince] using helapsed)

theorem moves_fireSection {runtime : AutoStopRuntime} (howned : runtime.view.Owned)
    (mark : MarkFailed) : runtime.MovesOrEnds (.fireSection mark) (runtime.fireSection mark) := by
  unfold fireSection
  split
  next task count hawake =>
    obtain ⟨state, hown⟩ := howned.exists_state hawake
    match count with
    | none => exact moves_rescheduleSection hawake hown mark
    | some 0 => exact Or.inr (moves_tickSection hawake hown mark)
    | some (count + 1) =>
        have hown' : runtime.ownEntry = some state := hown
        simp only [decideAutoStopGraceExpiry, cancelSection, hown', Option.getD_some,
          AutoStopState.onNonBotMemberCountChanged, Nat.add_eq_zero_iff, one_ne_zero, and_false,
          if_false]
        apply Or.inr
        refine moves_of_entry rfl (ownEntry_eq_some.mp hown').2 ?_
        exact .cancelled hawake (Nat.succ_pos count) hown
  next => exact Or.inr (.nothing _)

theorem moves_clearReservation {runtime : AutoStopRuntime} (howned : runtime.view.Owned) :
    Moves runtime.view .clearReservation runtime.clearReservation.view := by
  unfold clearReservation
  split
  next task hawake =>
    obtain ⟨state, hown⟩ := howned.exists_state hawake
    obtain ⟨hentry, hid⟩ := ownEntry_eq_some.mp hown
    have hbelongs : state.belongsToMeeting runtime.meetingId = true := by
      simp [AutoStopState.belongsToMeeting, hid]
    simp only [hentry, Option.map_some, hbelongs, if_true,
      AutoStopState.clearTimerActiveForGeneration]
    split
    next =>
      refine moves_of_entry rfl hid ?_
      exact .cleared hawake hown (by simp)
    next =>
      refine moves_of_entry rfl hid ?_
      exact .cleared hawake hown id
  next => exact .nothing _

theorem moves_finishStop {runtime : AutoStopRuntime} (howned : runtime.view.Owned)
    (attempt : StopAttempt) :
    runtime.MovesOrEnds (.finishStop attempt) (runtime.finishStop attempt) := by
  unfold finishStop
  split
  next task hawake =>
    cases attempt with
    | failed mark =>
        obtain ⟨state, hown⟩ := howned.exists_state hawake
        have hown' : runtime.ownEntry = some state := hown
        dsimp only
        unfold stopFailed rearmAutoStopStateForRetry
        rw [hown']
        dsimp only [Option.map_some]
        split
        next hlimit =>
          have hrearms : runtime.view.Rearms (.finishStop (.failed mark)) :=
            ⟨task, hawake, hlimit⟩
          apply Or.inr
          apply moves_rearmed hrearms hawake hown
          rfl
        next hlimit =>
          rcases giveUp_cases runtime
            { task with stopFailures := saturatingSucc task.stopFailures } mark with
            hover | ⟨task', hmark, hgrace, heq⟩
          · exact Or.inl hover
          · have hsome : (task.markRecordingFailed mark).isSome := by
              rw [← markRecordingFailed_isSome task (saturatingSucc task.stopFailures), hmark]
              rfl
            have hgivesUp : runtime.view.GivesUp (.finishStop (.failed mark)) :=
              ⟨task, hawake, Nat.le_of_not_lt hlimit, hsome⟩
            rw [heq]
            exact Or.inr (.stopDeferred hgivesUp hawake hgrace)
    | stopped => exact Or.inl (by simp)
    | targetAbsent => exact Or.inl (by simp)
  next => exact Or.inr (.nothing _)

theorem moves_step {runtime : AutoStopRuntime}
    (howned : runtime.phase = .recording → runtime.view.Owned) (input : AutoStopStep) :
    runtime.MovesOrEnds input (runtime.step input) := by
  unfold step
  split
  next hphase =>
    cases input with
    | elapse ms => exact Or.inr (.elapse ms)
    | voiceStateUpdate count grace => exact Or.inr (moves_voiceStateUpdate runtime count grace)
    | wake index meetingFound mark => exact moves_wake runtime index meetingFound mark
    | readCount count =>
        dsimp only
        unfold readCount
        split
        next task hawake => exact Or.inr (.read hawake)
        next => exact Or.inr (.nothing _)
    | fireSection mark => exact moves_fireSection (howned hphase) mark
    | clearReservation => exact Or.inr (moves_clearReservation (howned hphase))
    | finishStop attempt => exact moves_finishStop (howned hphase) attempt
  next hphase => exact Or.inl hphase

/-- Nothing of this meeting has happened yet; an entry may be left over from another one. -/
structure Fresh (runtime : AutoStopRuntime) : Prop where
  entry : runtime.ownEntry = none
  sleeping : runtime.sleeping = []
  awake : runtime.awake = none
  observed : runtime.observed = []

/-- A property of the view that the moves of a run preserve holds as long as the recording
lasts. -/
theorem view_of_everyStep {inv : AutoStopView → Prop}
    {allowed : AutoStopRuntime → AutoStopStep → Prop}
    (howned : ∀ view, inv view → view.Owned)
    (hmoves : ∀ runtime input next, inv runtime.view → allowed runtime input →
      Moves runtime.view input next → inv next)
    {start : AutoStopRuntime} (hstart : inv start.view) {inputs : List AutoStopStep}
    (hsteps : Machine.EveryStep step allowed start inputs) :
    Machine.Always step (fun runtime => runtime.phase = .recording → inv runtime.view)
      start inputs := by
  apply Machine.always_of_everyStep step _ (fun _ => hstart) hsteps
  intro runtime input hinv hallowed hnext
  have hrecording : runtime.phase = .recording := by
    by_contra hover
    unfold step at hnext
    rw [if_neg hover] at hnext
    exact hover hnext
  rcases moves_step (fun hphase => howned _ (hinv hphase)) input with hends | hmove
  · exact absurd hnext hends
  · exact hmoves runtime input _ (hinv hrecording) hallowed hmove

end AutoStopRuntime

end DiscordTranscript.Application
