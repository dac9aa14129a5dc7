import DiscordTranscript.Application.RecordingWriterInvariant

/-! # What the recording writer guarantees

Over every interleaving: each accepted chunk gets one outcome, in order; the
counters are exact; a rejected chunk comes back with nothing changed; a closed
writer accepts nothing, and its worker leaves no chunk unanswered.
-/

namespace DiscordTranscript.Application

open MachineInt Audio Infrastructure

namespace RecordingWriter

variable {writer other : RecordingWriter}

/-! ## What a run only adds to -/

/-- Steps of the worker towards its next answer. -/
def progress (writer : RecordingWriter) : ℕ :=
  3 * writer.outcomes.length +
    match writer.worker with
    | .receiving | .exited => 0
    | .saving _ _ => 1
    | .replying _ _ => 2

/-- What no step takes back; a closed writer accepts nothing more. -/
structure Advances (writer other : RecordingWriter) : Prop where
  accepted : writer.accepted <+: other.accepted
  outcomes : writer.outcomes <+: other.outcomes
  closed : writer.closed = true → other.closed = true ∧ other.accepted = writer.accepted
  progress_le : writer.progress ≤ other.progress

theorem Advances.of_same (haccepted : other.accepted = writer.accepted)
    (houtcomes : other.outcomes = writer.outcomes) (hworker : other.worker = writer.worker)
    (hclosed : writer.closed = true → other.closed = true) : writer.Advances other := by
  refine ⟨?_, ?_, fun hset => ⟨hclosed hset, haccepted⟩, ?_⟩
  · rw [haccepted]
  · rw [houtcomes]
  · rw [progress, progress, houtcomes, hworker]

theorem Advances.refl (writer : RecordingWriter) : writer.Advances writer :=
  .of_same rfl rfl rfl id

theorem Advances.trans {last : RecordingWriter} (hfirst : writer.Advances other)
    (hsecond : other.Advances last) : writer.Advances last := by
  refine ⟨hfirst.accepted.trans hsecond.accepted, hfirst.outcomes.trans hsecond.outcomes,
    fun hclosed => ?_, hfirst.progress_le.trans hsecond.progress_le⟩
  obtain ⟨hclosed, hsame⟩ := hfirst.closed hclosed
  obtain ⟨hclosed, hsame'⟩ := hsecond.closed hclosed
  exact ⟨hclosed, hsame'.trans hsame⟩

theorem enqueueStep_advances (hinv : writer.Invariant) {call : EnqueueCall}
    (hcall : writer.call = some call) (spurious : Bool) :
    writer.Advances (writer.enqueueStep call spurious) := by
  obtain ⟨chunk, phase⟩ := call
  cases phase with
  | checkClosed =>
      simp only [enqueueStep]
      split <;> exact .of_same rfl rfl rfl id
  | loadTasks => exact .of_same rfl rfl rfl id
  | reserveTask observed =>
      simp only [enqueueStep]
      split
      next => exact .of_same rfl rfl rfl id
      next => split <;> exact .of_same rfl rfl rfl id
  | loadBytes => exact .of_same rfl rfl rfl id
  | reserveBytes observed =>
      simp only [enqueueStep]
      split
      next => exact .of_same rfl rfl rfl id
      next => split <;> exact .of_same rfl rfl rfl id
  | releaseTask => exact .of_same rfl rfl rfl id
  | send =>
      have hopen := hinv.admission.admitting _ hcall (by simp)
      simp only [enqueueStep, trySend]
      split
      next =>
        refine ⟨List.prefix_append _ _, List.prefix_rfl, fun hclosed => ?_, le_rfl⟩
        rw [hopen] at hclosed
        cases hclosed
      next => exact .of_same rfl rfl rfl id

/-- A step of the worker gets on with the next chunk that has no outcome. -/
theorem workerStep_advances (hinv : writer.Invariant) (result : SaveResult) :
    writer.Advances (writer.workerStep result) ∧
      (writer.outcomes.length < writer.accepted.length →
        writer.progress < (writer.workerStep result).progress) := by
  have hlength := hinv.delivery.length_le
  cases hworker : writer.worker with
  | receiving =>
      cases hchannel : writer.channel with
      | nil =>
          rw [hworker, hchannel] at hlength
          simp only [workerStep, hworker, hchannel]
          have hall : writer.outcomes.length = writer.accepted.length := by
            simpa [WriterWorker.ticket?] using hlength
          split
          next => exact ⟨.refl writer, fun hbehind => absurd hall (Nat.ne_of_lt hbehind)⟩
          next =>
            refine ⟨⟨List.prefix_rfl, List.prefix_rfl, fun hclosed => ⟨hclosed, rfl⟩, ?_⟩,
              fun hbehind => absurd hall (Nat.ne_of_lt hbehind)⟩
            simp [progress, hworker]
      | cons message rest =>
          cases message with
          | save ticket chunk =>
              simp only [workerStep, hworker, hchannel]
              refine ⟨⟨List.prefix_rfl, List.prefix_rfl, fun hclosed => ⟨hclosed, rfl⟩, ?_⟩, ?_⟩
              · simp [progress, hworker]
              · simp [progress, hworker]
          | shutdown =>
              have hsent := hinv.admission.message (by rw [hchannel]; exact List.mem_cons_self)
              have hall := hinv.answered_of_no_permits (hinv.admission.drained (.inr hsent))
              simp only [workerStep, hworker, hchannel]
              refine ⟨⟨List.prefix_rfl, List.prefix_rfl, fun hclosed => ⟨hclosed, rfl⟩, ?_⟩,
                fun hbehind => absurd hall (Nat.ne_of_lt hbehind)⟩
              simp [progress, hworker]
  | saving ticket chunk =>
      simp only [workerStep, hworker]
      refine ⟨⟨List.prefix_rfl, List.prefix_rfl, fun hclosed => ⟨hclosed, rfl⟩, ?_⟩, ?_⟩
      · simp [progress, hworker]
      · simp [progress, hworker]
  | replying ticket outcome =>
      simp only [workerStep, hworker]
      refine ⟨⟨List.prefix_rfl, List.prefix_append _ _, fun hclosed => ⟨hclosed, rfl⟩, ?_⟩, ?_⟩
      · simp only [progress, hworker, List.length_append, List.length_singleton]
        omega
      · simp only [progress, hworker, List.length_append, List.length_singleton]
        omega
  | exited =>
      simp only [workerStep, hworker]
      exact ⟨.refl writer, fun hbehind => absurd (hinv.admission.exited hworker).2
        (Nat.ne_of_lt hbehind)⟩

theorem shutdownStep_advances (writer : RecordingWriter) : writer.Advances writer.shutdownStep := by
  unfold shutdownStep
  split
  next => split <;> exact .of_same rfl rfl rfl (fun _ => by first | rfl | assumption)
  next => split <;> exact .of_same rfl rfl rfl id
  next =>
    split
    next => exact .of_same rfl rfl rfl id
    next => split <;> exact .of_same rfl rfl rfl id
  next => exact .refl writer

theorem step_advances (hinv : writer.Invariant) (event : WriterEvent) :
    writer.Advances (writer.step event) := by
  cases event with
  | tryEnqueue chunk =>
      simp only [step]
      split <;> exact .of_same rfl rfl rfl id
  | call spurious =>
      simp only [step]
      split
      next call hcall => exact enqueueStep_advances hinv hcall spurious
      next => exact .refl writer
  | worker result => exact (workerStep_advances hinv result).1
  | wait ticket => exact .of_same rfl rfl rfl id
  | releaseBytes ticket =>
      simp only [step, releaseBytes]
      split <;> exact .of_same rfl rfl rfl id
  | releaseTask ticket =>
      simp only [step, releaseTask]
      split <;> exact .of_same rfl rfl rfl id
  | shutdown => exact shutdownStep_advances writer
  | dropClones =>
      simp only [step, dropClones]
      split <;> exact .of_same rfl rfl rfl id

theorem run_advances (hinv : writer.Invariant) (events : List WriterEvent) :
    writer.Advances (Machine.run step writer events) := by
  induction events generalizing writer with
  | nil => exact .refl writer
  | cons event rest ih => exact (step_advances hinv event).trans (ih (hinv.step event))

def WriterEvent.isWorker : WriterEvent → Bool
  | .worker _ => true
  | _ => false

/-- With three steps of the worker for each outcome still to come, all come,
whatever else happens in between. -/
theorem run_answers (hinv : writer.Invariant) {target : ℕ} (htarget : target ≤ writer.accepted.length)
    {events : List WriterEvent}
    (hworker : 3 * target ≤ writer.progress + events.countP WriterEvent.isWorker) :
    target ≤ (Machine.run step writer events).outcomes.length := by
  induction events generalizing writer with
  | nil =>
      have hphase : writer.progress < 3 * writer.outcomes.length + 3 := by
        unfold progress
        split <;> omega
      simp only [List.countP_nil] at hworker
      change target ≤ writer.outcomes.length
      omega
  | cons event rest ih =>
      have hadvances := step_advances hinv event
      by_cases hdone : target ≤ writer.outcomes.length
      · exact hdone.trans (run_advances hinv (event :: rest)).outcomes.length_le
      · refine ih (hinv.step event) (htarget.trans hadvances.accepted.length_le) ?_
        rw [List.countP_cons] at hworker
        cases event with
        | worker result =>
            have hmore := (workerStep_advances hinv result).2 (by omega)
            simp only [WriterEvent.isWorker, if_true] at hworker
            simp only [step]
            omega
        | _ =>
            have hle := hadvances.progress_le
            simp only [WriterEvent.isWorker] at hworker
            simp at hworker
            omega

/-! ## A rejected call -/

/-- A call under way that nothing interrupts: it has changed the counters by what
it holds; once over, it was accepted or left everything but its answer. -/
def CallFrom (start : RecordingWriter) (chunk : PreparedChunk) (writer : RecordingWriter) : Prop :=
  (∃ phase pendingTasks pendingBytes,
    pendingTasks = start.pendingTasks + EnqueueCall.heldTasks ⟨chunk, phase⟩ ∧
    pendingBytes = start.pendingBytes + EnqueueCall.heldBytes ⟨chunk, phase⟩ ∧
    writer = { start with
      pendingTasks := pendingTasks
      pendingBytes := pendingBytes
      call := some ⟨chunk, phase⟩ }) ∨
  writer = { start with returns := ⟨chunk, .error chunk⟩ :: start.returns } ∨
  writer.call = none ∧ writer.returns = ⟨chunk, .ok start.accepted.length⟩ :: start.returns

theorem callFrom_step {start : RecordingWriter} (hnone : start.call = none) {chunk : PreparedChunk}
    (hfrom : CallFrom start chunk writer) (spurious : Bool) :
    CallFrom start chunk (writer.step (.call spurious)) := by
  rcases hfrom with ⟨phase, tasks, bytes, htasks, hbytes, rfl⟩ | rfl | ⟨hover, hreturns⟩
  · -- Handing the chunk back with the counters of the start.
    have hback : CallFrom start chunk { start with
        call := none, returns := ⟨chunk, .error chunk⟩ :: start.returns } := by
      rw [← hnone]
      exact .inr (.inl rfl)
    simp only [step]
    cases phase with
    | checkClosed =>
        obtain rfl : tasks = start.pendingTasks := htasks
        obtain rfl : bytes = start.pendingBytes := hbytes
        simp only [enqueueStep]
        split
        next => exact hback
        next => exact .inl ⟨.loadTasks, _, _, rfl, rfl, rfl⟩
    | loadTasks => exact .inl ⟨.reserveTask tasks, _, _, htasks, hbytes, rfl⟩
    | reserveTask observed =>
        obtain rfl : tasks = start.pendingTasks := htasks
        obtain rfl : bytes = start.pendingBytes := hbytes
        simp only [enqueueStep]
        split
        next => exact hback
        next next hroom =>
          obtain ⟨rfl, -⟩ := roomFor_eq_some hroom
          split
          next hswap => exact .inl ⟨.loadBytes, _, _, by rw [hswap.1]; rfl, rfl, rfl⟩
          next => exact .inl ⟨.reserveTask start.pendingTasks, _, _, rfl, rfl, rfl⟩
    | loadBytes => exact .inl ⟨.reserveBytes bytes, _, _, htasks, hbytes, rfl⟩
    | reserveBytes observed =>
        obtain rfl : bytes = start.pendingBytes := hbytes
        simp only [enqueueStep]
        split
        next => exact .inl ⟨.releaseTask, _, _, htasks, rfl, rfl⟩
        next next hroom =>
          obtain ⟨rfl, -⟩ := roomFor_eq_some hroom
          split
          next hswap => exact .inl ⟨.send, _, _, htasks, by rw [hswap.1]; rfl, rfl⟩
          next => exact .inl ⟨.reserveBytes start.pendingBytes, _, _, htasks, rfl, rfl⟩
    | releaseTask =>
        obtain rfl : bytes = start.pendingBytes := hbytes
        have hcounter : tasks - 1 = start.pendingTasks := by rw [htasks]; rfl
        simp only [enqueueStep, hcounter]
        exact hback
    | send =>
        simp only [enqueueStep, trySend]
        split
        next => exact .inr (.inr ⟨rfl, rfl⟩)
        next =>
          have hcounter : bytes - chunk.sizeBytes = start.pendingBytes := by
            rw [hbytes]
            exact Nat.add_sub_cancel _ _
          rw [hcounter]
          exact .inl ⟨.releaseTask, _, _, htasks, rfl, rfl⟩
  · have hsame : RecordingWriter.step
        { start with returns := ⟨chunk, .error chunk⟩ :: start.returns } (.call spurious) =
        { start with returns := ⟨chunk, .error chunk⟩ :: start.returns } := by
      simp only [step, hnone]
    rw [hsame]
    exact .inr (.inl rfl)
  · simp only [step, hover]
    exact .inr (.inr ⟨hover, hreturns⟩)

/-- A call that is answered with the chunk leaves the writer as it found it. -/
theorem rejected_call_unchanged (hnone : writer.call = none) (hcloned : writer.cloned = true)
    (chunk : PreparedChunk) (spurious : List Bool) :
    let after := Machine.run step writer (.tryEnqueue chunk :: spurious.map .call)
    ∀ back, after.returns = ⟨chunk, .error back⟩ :: writer.returns →
      after = { writer with returns := ⟨chunk, .error chunk⟩ :: writer.returns } := by
  intro after back hrejected
  have hstart : CallFrom writer chunk (writer.step (.tryEnqueue chunk)) := by
    simp only [step, hnone, hcloned, Option.isNone_none, and_self, if_true]
    exact .inl ⟨.checkClosed, _, _, rfl, rfl, rfl⟩
  have hcalls : ∀ state, ∀ event ∈ spurious.map WriterEvent.call, CallFrom writer chunk state →
      CallFrom writer chunk (state.step event) := by
    intro state event hevent hstate
    obtain ⟨flag, -, rfl⟩ := List.mem_map.mp hevent
    exact callFrom_step hnone hstate flag
  have hafter : CallFrom writer chunk after := Machine.run_invariant_of_mem step _ hcalls hstart
  rcases hafter with ⟨phase, tasks, bytes, -, -, heq⟩ | heq | ⟨-, haccepted⟩
  · rw [heq] at hrejected
    exact absurd hrejected.symm (List.cons_ne_self _ _)
  · exact heq
  · rw [haccepted] at hrejected
    cases hrejected

/-! ## The guarantees -/

structure Guarantees (writer : RecordingWriter) : Prop where
  /-- One outcome for each ticket, in the order of acceptance, none taken back. -/
  inOrder : writer.outcomes.map Prod.fst = List.range writer.outcomes.length
  answersAccepted : writer.outcomes.length ≤ writer.accepted.length
  carried : ∀ ticket outcome, (ticket, outcome) ∈ writer.outcomes →
    ∃ chunk, writer.accepted[ticket]? = some chunk ∧ outcome.Carries chunk
  delivered : ∀ permit ∈ writer.permits, ∀ outcome, permit.stage = .completion outcome →
    (permit.ticket, outcome) ∈ writer.outcomes
  kept : ∀ events, writer.outcomes <+: (Machine.run step writer events).outcomes
  everyOutcome : ∀ events, 3 * writer.accepted.length ≤ events.countP WriterEvent.isWorker →
    writer.accepted.length ≤ (Machine.run step writer events).outcomes.length
  /-- What a call answered. -/
  handedBack : ∀ answer ∈ writer.returns, ∀ chunk, answer.result = .error chunk →
    chunk = answer.submitted
  admitted : ∀ answer ∈ writer.returns, ∀ ticket, answer.result = .ok ticket →
    writer.accepted[ticket]? = some answer.submitted
  rejected : writer.call = none → writer.cloned = true →
    ∀ (chunk : PreparedChunk) (spurious : List Bool),
    let after := Machine.run step writer (.tryEnqueue chunk :: spurious.map .call)
    ∀ back, after.returns = ⟨chunk, .error back⟩ :: writer.returns →
      after = { writer with returns := ⟨chunk, .error chunk⟩ :: writer.returns }
  /-- The counters count the permits and what the call under way has reserved. -/
  permitsNodup : (writer.permits.map PendingWritePermit.ticket).Nodup
  permitsSized : ∀ permit ∈ writer.permits, ∃ chunk,
    writer.accepted[permit.ticket]? = some chunk ∧ permit.bytes = chunk.sizeBytes
  tasksExact : writer.pendingTasks = writer.permits.length + writer.heldTasks
  bytesExact : writer.pendingBytes = writer.permitBytes + writer.heldBytes
  tasksWithin : writer.pendingTasks ≤ writer.maxTasks
  bytesWithin : writer.pendingBytes ≤ writer.maxBytes
  /-- What is subtracted was counted. -/
  tasksCounted : ∀ permit ∈ writer.permits, 1 + writer.heldTasks ≤ writer.pendingTasks
  bytesCounted : ∀ permit ∈ writer.permits, permit.heldBytes + writer.heldBytes ≤ writer.pendingBytes
  sendHasRoom : ∀ chunk, writer.call = some ⟨chunk, .send⟩ →
    writer.channel.length < writer.maxTasks ∧ writer.worker ≠ .exited
  drainedNoPermit : writer.drainReturns = true → writer.permits = []
  closedAdmitsNone : writer.closed = true →
    ∀ events, (Machine.run step writer events).accepted = writer.accepted
  exitedAllAnswered : writer.worker = .exited → writer.outcomes.length = writer.accepted.length

theorem recording_writer_guarantees (maxTasks maxBytes : ℕ) (events : List WriterEvent) :
    (Machine.run step (new maxTasks maxBytes) events).Guarantees := by
  have hinv := (invariant_new maxTasks maxBytes).run events
  generalize Machine.run step (new maxTasks maxBytes) events = writer at hinv
  obtain ⟨htasks, hbytes, htasks_le, hbytes_le⟩ := hinv.accounted
  refine {
    inOrder := hinv.delivery.outcomes_tickets
    answersAccepted := ?_
    carried := hinv.delivery.carried
    delivered := hinv.permits.completed
    kept := fun events => (run_advances hinv events).outcomes
    everyOutcome := fun events hworker => run_answers hinv le_rfl (by omega)
    handedBack := hinv.delivery.handedBack
    admitted := hinv.delivery.admitted
    rejected := fun hnone hcloned chunk spurious =>
      rejected_call_unchanged hnone hcloned chunk spurious
    permitsNodup := hinv.permits.nodup
    permitsSized := hinv.permits.sized
    tasksExact := htasks
    bytesExact := hbytes
    tasksWithin := htasks_le
    bytesWithin := hbytes_le
    tasksCounted := fun permit hpermit => hinv.tasks_counted hpermit
    bytesCounted := fun permit hpermit => hinv.bytes_counted hpermit
    sendHasRoom := fun chunk hcall => hinv.send_has_room hcall
    drainedNoPermit := ?_
    closedAdmitsNone := fun hclosed events => ((run_advances hinv events).closed hclosed).2
    exitedAllAnswered := fun hexited => (hinv.admission.exited hexited).2 }
  · have hlength := hinv.delivery.length_le
    omega
  · intro hzero
    rw [of_decide_eq_true hzero] at htasks
    exact List.length_eq_zero_iff.mp (by omega)

end RecordingWriter

end DiscordTranscript.Application
