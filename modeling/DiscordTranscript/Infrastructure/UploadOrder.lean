import DiscordTranscript.Infrastructure.UploadRefusals

/-! # The order of deliveries

With each enqueue taken as one step, the successful PUTs of a key come in the order of
its generations: a task that has passed the supersede check is newer than everything
delivered for its key, because whatever was delivered is still outstanding, is covered
by the delivered marker, or is older than all that is outstanding. The marker may be
forgotten only when nothing is outstanding.
-/

namespace DiscordTranscript.Infrastructure

open Slots

/-! ## Enqueues as one step -/

/-- The call is inside `enqueue`. -/
def UploadCall.enqueuing (call : UploadCall) : Bool :=
  match call.phase with
  | .checkFile | .statFile | .hashFile _ | .findReceipt => false
  | .checkCancelled => call.snapshot.isSome
  | .reserveBytes | .releaseBytes _ | .reserveTask | .fetchGeneration | .trackGeneration | .send
  | .revertPending _ | .revertBytes _ | .revertGeneration _ | .keepReceipt => true

def ProcessInput.callIndex : ProcessInput → Option ℕ
  | .call index _ => some index
  | .begin _ | .work _ | .beginDelete _ | .delete _ _ | .edit _ _ | .tick _ | .close => none

/-- While a call is inside `enqueue` it is the one to go on. -/
def AtomicEnqueues (site : Site) (input : ProcessInput) : Prop :=
  ∀ index (_ : index < site.process.calls.length),
    site.process.calls[index].enqueuing = true → input.callIndex = some index

instance (site : Site) (input : ProcessInput) : Decidable (AtomicEnqueues site input) :=
  inferInstanceAs (Decidable (∀ index (_ : index < site.process.calls.length), _))

theorem UploadCall.enqueuing_of_numbered {call : UploadCall} (hnumbered : call.stake.numbered = true) :
    call.enqueuing = true := by
  obtain ⟨request, task, phase, snapshot, begun⟩ := call
  cases phase <;> first | rfl | cases hnumbered

/-- Whoever else takes a step, no call holds a generation. -/
theorem AtomicEnqueues.not_numbered {site : Site} {input : ProcessInput}
    (hatomic : AtomicEnqueues site input) (hinput : input.callIndex = none) :
    ∀ call ∈ site.process.calls, call.stake.numbered = false := by
  intro call hcall
  by_contra hnumbered
  rw [Bool.not_eq_false] at hnumbered
  obtain ⟨index, hindex, rfl⟩ := List.getElem_of_mem hcall
  have hsome := hatomic index hindex (UploadCall.enqueuing_of_numbered hnumbered)
  rw [hinput] at hsome
  cases hsome

/-! ## What the worker does to deliveries -/

/-- The write whose PUT has succeeded and which is being settled. -/
def WorkerPhase.delivering : WorkerPhase → Option UploadWrite
  | .answered task (.ok _) | .resolve task (.ok _) | .settle task .durable _ _ =>
      some task.toUploadWrite
  | _ => none

/-- The write that has passed the supersede check and whose PUT has not been answered. -/
def WorkerPhase.checked : WorkerPhase → Option UploadWrite
  | .checkSource task | .beginUpload task | .readSource task _ | .put task _ | .stored task =>
      some task.toUploadWrite
  | _ => none

/-- A durable settlement marks its generation as delivered. -/
def WorkerPhase.Marking : WorkerPhase → Prop
  | .settle _ .durable delivered _ => delivered = true
  | _ => True

/-- What a step of the worker does to the record of deliveries. -/
inductive DeliveryMove (worker : UploadWorker) (queue : UploadQueue) (worker' : UploadWorker)
    (queue' : UploadQueue) : Prop
  | quiet (hputs : queue'.puts = queue.puts) (hmaps : queue'.generations = queue.generations)
      (hsettled : queue'.settled = queue.settled)
      (hdelivering : worker'.phase.delivering = worker.phase.delivering)
      (hchecked : worker'.phase.checked = none ∨ worker'.phase.checked = worker.phase.checked)
  | passed (task : UploadTask) (hphase : worker.phase = .checkSuperseded task)
      (hnewest : queue.generations.isSuperseded task.key task.generation = false)
      (hqueue : queue' = queue) (hphase' : worker'.phase = .checkSource task)
  | stored (task : UploadTask) (result : Unit) (hphase : worker.phase = .stored task)
      (hputs : queue'.puts = queue.puts ++ [(task.key, task.generation)])
      (hmaps : queue'.generations = queue.generations) (hsettled : queue'.settled = queue.settled)
      (hphase' : worker'.phase = .answered task (.ok result))
  | released (task : UploadTask) (status : UploadReceiptStatus) (delivered : Bool)
      (hphase : worker.phase = .settle task status delivered .generations)
      (hputs : queue'.puts = queue.puts)
      (hmaps : queue'.generations = queue.generations.settle task.key task.generation delivered)
      (hsettled : queue'.settled = queue.settled)
      (hphase' : worker'.phase = .settle task status delivered .receipt)
  | reported (task : UploadTask) (status : UploadReceiptStatus) (delivered : Bool)
      (hphase : worker.phase = .settle task status delivered .receipt)
      (hputs : queue'.puts = queue.puts) (hmaps : queue'.generations = queue.generations)
      (hsettled : queue'.settled = queue.settled ++ [(task.toUploadWrite, status)])
      (hphase' : worker'.phase = .scan)

theorem UploadWorker.step_delivery (worker : UploadWorker) (queue : UploadQueue) (world : World)
    (clock : ℕ) (input : WorkerInput) :
    DeliveryMove worker queue (worker.step queue world clock input).1
      (worker.step queue world clock input).2.1 := by
  unfold step
  cases hphase : worker.phase with
  | receive =>
      simp only [receive]
      repeat' split
      all_goals exact .quiet rfl rfl rfl (by rw [hphase]; rfl) (.inl rfl)
  | scan =>
      simp only [scan]
      repeat' split
      all_goals
        refine .quiet rfl rfl rfl ?_ (.inl ?_)
        · simp [WorkerPhase.delivering, hphase]
        · simp [WorkerPhase.checked, hphase]
  | checkSuperseded task =>
      simp only
      split
      next => exact .quiet rfl rfl rfl (by rw [hphase]; rfl) (.inl rfl)
      next hnewest => exact .passed task hphase (Bool.eq_false_iff.mpr hnewest) rfl rfl
  | checkSource task =>
      simp only
      split
      next =>
        split
        next => exact .quiet rfl rfl rfl (by rw [hphase]; rfl) (.inr (by rw [hphase]; rfl))
        next => exact .quiet rfl rfl rfl (by rw [hphase]; rfl) (.inl rfl)
      next => exact .quiet rfl rfl rfl (by rw [hphase]; rfl) (.inr (by rw [hphase]; rfl))
  | beginUpload task =>
      simp only
      split
      next => exact .quiet rfl rfl rfl (by rw [hphase]; rfl) (.inl rfl)
      next => exact .quiet rfl rfl rfl (by rw [hphase]; rfl) (.inr (by rw [hphase]; rfl))
      next => exact .quiet rfl rfl rfl (by rw [hphase]; rfl) (.inr (by rw [hphase]; rfl))
  | readSource task path | put task body =>
      simp only
      split
      next => exact .quiet rfl rfl rfl (by rw [hphase]; rfl) (.inr (by rw [hphase]; rfl))
      next => exact .quiet rfl rfl rfl (by rw [hphase]; rfl) (.inl rfl)
  | stored task =>
      simp only
      split
      next result hanswer => exact .stored task () hphase rfl rfl rfl (by rw [hanswer]; rfl)
      next error hanswer =>
        refine .quiet rfl rfl rfl ?_ (.inl rfl)
        rw [hphase, hanswer]
        rfl
  | answered task result =>
      cases result with
      | ok _ => exact .quiet rfl rfl rfl (by rw [hphase]; rfl) (.inl rfl)
      | error _ => exact .quiet rfl rfl rfl (by rw [hphase]; rfl) (.inl rfl)
  | resolve task result =>
      cases result with
      | ok _ => exact .quiet rfl rfl rfl (by rw [hphase]; rfl) (.inl rfl)
      | error err =>
          simp only [resolve]
          repeat' split
          all_goals exact .quiet rfl rfl rfl (by rw [hphase]; rfl) (.inl rfl)
  | settle task status delivered stage =>
      cases stage with
      | generations => exact .released task status delivered hphase rfl rfl rfl rfl
      | receipt => exact .reported task status delivered hphase rfl rfl rfl rfl
      | pending | bytes =>
          refine .quiet rfl rfl rfl ?_ (.inl rfl)
          rw [hphase]
          cases status <;> rfl
  | pushTombstones task keys | cleanUp task =>
      exact .quiet rfl rfl rfl (by rw [hphase]; rfl) (.inl rfl)
  | listTombstones task =>
      simp only
      split <;> exact .quiet rfl rfl rfl (by rw [hphase]; rfl) (.inl rfl)
  | finished => exact .quiet rfl rfl rfl rfl (.inr rfl)

theorem UploadWorker.step_marking (worker : UploadWorker) (queue : UploadQueue) (world : World)
    (clock : ℕ) (input : WorkerInput) (hmarking : worker.phase.Marking) :
    (worker.step queue world clock input).1.phase.Marking := by
  unfold step
  cases hphase : worker.phase with
  | receive =>
      simp only [receive]
      repeat' split
      all_goals trivial
  | scan =>
      simp only [scan]
      repeat' split
      all_goals simp [WorkerPhase.Marking, hphase]
  | resolve task result =>
      cases result with
      | ok _ => rfl
      | error err =>
          simp only [resolve]
          repeat' split
          all_goals trivial
  | settle task status delivered stage =>
      rw [hphase] at hmarking
      cases stage with
      | receipt => trivial
      | pending | bytes | generations => cases status <;> exact hmarking
  | finished => exact hmarking
  | pushTombstones task keys | cleanUp task | answered task result => trivial
  | listTombstones task | checkSuperseded task | checkSource task | beginUpload task
  | readSource task path | put task body | stored task =>
      simp only
      repeat' split
      all_goals trivial

/-! ## Generations in use -/

section

variable {process : Process} {write : UploadWrite}

theorem Accounted.hand_unsettled (haccounted : Accounted process)
    (hhand : write ∈ acceptedStakes (heldStake process.worker.phase.stake)) :
    write ∈ process.uploads.unsettled := by
  rw [← Multiset.mem_coe, haccounted.unsettled_eq, Multiset.mem_add]
  exact .inr hhand

theorem Accounted.hand_not_settled (haccounted : Accounted process)
    (hhand : write ∈ acceptedStakes (heldStake process.worker.phase.stake)) :
    write.generation ∉ process.uploads.settled.map (·.1.generation) :=
  of_decide_eq_true (List.mem_filter.mp (haccounted.hand_unsettled hhand)).2

theorem Accounted.hand_mem_tracked (haccounted : Accounted process)
    (hhand : write ∈ acceptedStakes (heldStake process.worker.phase.stake))
    (hback : process.worker.generationGivenBack ≠ some write) :
    write.generation ∈ process.uploads.generations.tracked write.key :=
  (haccounted.tracked_iff _ _).mpr (.inl ⟨write, haccounted.hand_unsettled hhand, hback, rfl, rfl⟩)

theorem Accounted.accepted_lt (haccounted : Accounted process) {call : UploadCall}
    (hcall : call ∈ process.uploads.accepted) :
    call.task.generation < process.uploads.nextGeneration := by
  apply haccounted.balanced.generations.drawn_lt
  refine Multiset.mem_of_le haccounted.balanced.accepted_le_drawn ?_
  exact Multiset.mem_coe.mpr (List.mem_map.mpr ⟨_, List.mem_map.mpr ⟨call, hcall, rfl⟩, rfl⟩)

/-- The write in hand at a phase that has not come to the end of its settlement. -/
theorem Accounted.hand_lt (haccounted : Accounted process)
    (hhand : write ∈ acceptedStakes (heldStake process.worker.phase.stake)) :
    write.generation < process.uploads.nextGeneration := by
  obtain ⟨call, hcall, rfl⟩ := haccounted.hand_accepted hhand
  exact haccounted.accepted_lt hcall

end

theorem WorkerPhase.hand_of_checked {phase : WorkerPhase} {write : UploadWrite}
    (hchecked : phase.checked = some write) : write ∈ acceptedStakes (heldStake phase.stake) := by
  unfold checked at hchecked
  split at hchecked <;> cases hchecked <;>
    simp [stake, UploadWrite.stake, acceptedStakes_singleton]

/-- What a step of a call does to the numbering. -/
def NumbersAtMost (call : UploadCall) (queue : UploadQueue)
    (after : UploadQueue × Option UploadCall) : Prop :=
  queue.nextGeneration ≤ after.1.nextGeneration ∧
    ∀ next, after.2 = some next → next.stake.numbered = true →
      after.1.accepted = queue.accepted ∧
        ((call.stake.numbered = true ∧ next.task = call.task) ∨
          next.task.generation = queue.nextGeneration)

theorem UploadCall.advance_numbering (call : UploadCall)
    (files : List String → Option (List UInt8)) (clock : ℕ) (input : CallInput)
    (queue : UploadQueue) : NumbersAtMost call queue (call.advance files clock input queue) := by
  have hend : ∀ {queue' : UploadQueue}, queue'.nextGeneration = queue.nextGeneration →
      NumbersAtMost call queue (queue', none) :=
    fun hsame => ⟨hsame ▸ le_rfl, fun _ hnone => nomatch hnone⟩
  have hidle : ∀ {queue' : UploadQueue} {next : UploadCall},
      queue'.nextGeneration = queue.nextGeneration → next.stake.numbered = false →
      NumbersAtMost call queue (queue', some next) := by
    refine fun hsame hidle => ⟨hsame ▸ le_rfl, ?_⟩
    rintro next ⟨⟩ hnumbered
    rw [hidle] at hnumbered
    cases hnumbered
  have hkeep : ∀ {queue' : UploadQueue} {next : UploadCall},
      queue'.nextGeneration = queue.nextGeneration → queue'.accepted = queue.accepted →
      call.stake.numbered = true → next.task = call.task →
      NumbersAtMost call queue (queue', some next) := by
    refine fun hsame haccepted hnumbered htask => ⟨hsame ▸ le_rfl, ?_⟩
    rintro next ⟨⟩ -
    exact ⟨haccepted, .inl ⟨hnumbered, htask⟩⟩
  obtain ⟨request, task, phase, snapshot, begun⟩ := call
  cases phase with
  | findReceipt =>
      simp only [advance]
      split
      next =>
        split
        next => exact hidle rfl rfl
        next =>
          simp only [findReceipt]
          split
          next => exact hend rfl
          next => exact hidle rfl rfl
      next => exact hidle rfl rfl
  | send =>
      simp only [advance, trySend]
      split
      next => exact hkeep rfl rfl rfl rfl
      next =>
        split
        next =>
          split
          next => exact hidle rfl rfl
          next => exact hend rfl
        next => exact hkeep rfl rfl rfl rfl
  | fetchGeneration =>
      refine ⟨Nat.le_succ _, ?_⟩
      rintro next ⟨⟩ -
      exact ⟨rfl, .inr rfl⟩
  | trackGeneration | revertPending error | revertBytes error => exact hkeep rfl rfl rfl rfl
  | revertGeneration error =>
      simp only [advance, UploadQueue.dropTask]
      split <;> exact hend rfl
  | releaseBytes error => exact hend rfl
  | reserveBytes | reserveTask =>
      simp only [advance]
      split <;> exact hidle rfl rfl
  | checkFile | statFile =>
      simp only [advance]
      split
      next => exact hidle rfl rfl
      next => exact hend rfl
  | hashFile len =>
      simp only [advance]
      split
      next => exact hidle rfl rfl
      next => exact hend rfl
      next => exact hend rfl
  | checkCancelled =>
      simp only [advance]
      split
      next => exact hend rfl
      next => exact hidle rfl rfl
  | keepReceipt =>
      simp only [advance]
      split <;> exact hend rfl

/-! ## Deliveries in order -/

/-- What keeps the generations of the key up to this one from being PUT again: it is still
outstanding, the marker has reached it, or everything outstanding is newer. -/
def GenerationState.Covers (state : GenerationState) (entry : String × ℕ) : Prop :=
  entry.2 ∈ state.tracked entry.1 ∨
    (∃ marker, state.delivered entry.1 = some marker ∧ entry.2 ≤ marker) ∨
    ∀ generation ∈ state.tracked entry.1, entry.2 < generation

namespace GenerationState

variable {state : GenerationState} {key : String} {generation : ℕ} {entry : String × ℕ}

theorem Covers.untrack (hcovers : state.Covers entry) (hentry : entry ≠ (key, generation)) :
    (state.untrack key generation).Covers entry := by
  rcases hcovers with htracked | ⟨marker, hmarker, hle⟩ | hnewer
  · refine .inl (mem_tracked_untrack.mpr ⟨htracked, ?_⟩)
    rintro ⟨hkey, hgeneration⟩
    exact hentry (Prod.ext hkey hgeneration)
  · rcases delivered_untrack_cases generation entry.1 with hsame | ⟨-, -, hempty⟩
    · exact .inr (.inl ⟨marker, by rw [hsame, hmarker], hle⟩)
    · -- The marker is forgotten together with the last outstanding generation.
      refine .inr (.inr fun other hother => ?_)
      rw [hempty] at hother
      cases hother
  · exact .inr (.inr fun other hother => hnewer other (mem_tracked_untrack.mp hother).1)

theorem Covers.track (hcovers : state.Covers entry)
    (hnewer : entry.1 = key → entry.2 < generation) : (state.track key generation).Covers entry := by
  rcases hcovers with htracked | hmarker | hall
  · exact .inl (mem_tracked_track.mpr (.inr htracked))
  · exact .inr (.inl hmarker)
  · refine .inr (.inr fun other hother => ?_)
    rcases mem_tracked_track.mp hother with ⟨hkey, rfl⟩ | hold
    · exact hnewer hkey
    · exact hall other hold

theorem Covers.deliver (hcovers : state.Covers entry) : (state.deliver key generation).Covers entry := by
  rcases hcovers with htracked | ⟨marker, hmarker, hle⟩ | hnewer
  · exact .inl htracked
  · by_cases hkey : entry.1 = key
    · refine .inr (.inl ⟨max marker generation, ?_, le_trans hle (le_max_left _ _)⟩)
      simp [GenerationState.deliver, ← hkey, hmarker]
    · exact .inr (.inl ⟨marker, by simpa [GenerationState.deliver, hkey] using hmarker, hle⟩)
  · exact .inr (.inr hnewer)

/-- The generation that is settled as delivered is covered by the marker it leaves. -/
theorem covers_settle (state : GenerationState) (key : String) (generation : ℕ) :
    (state.settle key generation true).Covers (key, generation) := by
  unfold settle
  rw [if_pos rfl]
  have hcases := @delivered_untrack_cases (state.deliver key generation) key generation key
  rcases hcases with hsame | ⟨-, -, hempty⟩
  · refine .inr (.inl ⟨max ((state.delivered key).getD 0) generation, ?_, le_max_right _ _⟩)
    rw [hsame]
    simp [deliver]
  · refine .inr (.inr fun other hother => ?_)
    rw [hempty] at hother
    cases hother

theorem Covers.settle (hcovers : state.Covers entry) (delivered : Bool)
    (hentry : entry = (key, generation) → delivered = true) :
    (state.settle key generation delivered).Covers entry := by
  by_cases hsame : entry = (key, generation)
  · subst hsame
    rw [hentry rfl]
    exact covers_settle state key generation
  · unfold GenerationState.settle
    cases delivered with
    | false => exact hcovers.untrack hsame
    | true => exact hcovers.deliver.untrack hsame

end GenerationState

structure DeliveryOrder (process : Process) : Prop where
  increasing : process.uploads.puts.Pairwise fun older newer =>
    older.1 = newer.1 → older.2 < newer.2
  drawn : ∀ entry ∈ process.uploads.puts, entry.2 < process.uploads.nextGeneration
  delivered : ∀ entry ∈ process.uploads.puts,
    entry.2 ∈ process.uploads.settled.map (·.1.generation) ∨
      ∃ write, process.worker.phase.delivering = some write ∧ write.generation = entry.2
  covered : ∀ entry ∈ process.uploads.puts, process.uploads.generations.Covers entry
  checked : ∀ write, process.worker.phase.checked = some write →
    ∀ entry ∈ process.uploads.puts, entry.1 = write.key → entry.2 < write.generation
  recorded : ∀ write, process.worker.phase.delivering = some write →
    (write.key, write.generation) ∈ process.uploads.puts
  durable : ∀ entry ∈ process.uploads.settled, entry.2 = .durable →
    (entry.1.key, entry.1.generation) ∈ process.uploads.puts
  marking : process.worker.phase.Marking
  numbered : ∀ call ∈ process.calls, call.stake.numbered = true →
    (∀ entry ∈ process.uploads.puts, entry.2 < call.task.generation) ∧
      ∀ other ∈ process.uploads.accepted, other.task.generation < call.task.generation
  accepted : process.uploads.accepted.Pairwise fun older newer =>
    older.task.generation < newer.task.generation

namespace DeliveryOrder

variable {process : Process}

theorem new (keyPrefix : String) (storageDir : List String) :
    DeliveryOrder (.new keyPrefix storageDir) := by
  constructor
  case marking => trivial
  case increasing => exact .nil
  case accepted => exact .nil
  all_goals
    intro _ hmem
    cases hmem

/-- A write that passes the supersede check is newer than what was delivered. -/
theorem newer_of_passed (horder : DeliveryOrder process) (haccounted : Accounted process)
    {task : UploadTask} (hphase : process.worker.phase = .checkSuperseded task)
    (hnewest : process.uploads.generations.isSuperseded task.key task.generation = false) :
    ∀ entry ∈ process.uploads.puts, entry.1 = task.key → entry.2 < task.generation := by
  intro entry hentry hkey
  have hhand : task.toUploadWrite ∈ acceptedStakes (heldStake process.worker.phase.stake) := by
    simp [hphase, WorkerPhase.stake, UploadWrite.stake, acceptedStakes_singleton]
  have htracked : task.generation ∈ process.uploads.generations.tracked task.key := by
    refine haccounted.hand_mem_tracked hhand ?_
    simp [UploadWorker.generationGivenBack, hphase]
  have hle : ∀ other, (other ∈ process.uploads.generations.tracked task.key ∨
      process.uploads.generations.delivered task.key = some other) → other ≤ task.generation := by
    intro other hother
    by_contra hlt
    rw [Bool.eq_false_iff] at hnewest
    refine hnewest (GenerationState.isSuperseded_iff.mpr ?_)
    exact hother.imp (fun htracked => ⟨other, htracked, Nat.lt_of_not_le hlt⟩)
      fun hmarker => ⟨other, hmarker, Nat.lt_of_not_le hlt⟩
  -- Its own generation has not been delivered: it is neither settled nor being settled.
  have hne : entry.2 ≠ task.generation := by
    intro hsame
    rcases horder.delivered entry hentry with hsettled | ⟨write, hwrite, -⟩
    · exact haccounted.hand_not_settled hhand (hsame ▸ hsettled)
    · rw [hphase] at hwrite
      cases hwrite
  rcases horder.covered entry hentry with hin | ⟨marker, hmarker, hmarked⟩ | hall
  · exact lt_of_le_of_ne (hle entry.2 (.inl (hkey ▸ hin))) hne
  · exact lt_of_le_of_ne (le_trans hmarked (hle marker (.inr (hkey ▸ hmarker)))) hne
  · exact hall task.generation (hkey ▸ htracked)

theorem work (horder : DeliveryOrder process) (haccounted : Accounted process)
    (hidle : ∀ call ∈ process.calls, call.stake.numbered = false) (world : World)
    (input : WorkerInput) : DeliveryOrder (process.step world (.work input)).1 := by
  have hframe := process.worker.step_frame process.uploads world process.clock input
  have hmarking := process.worker.step_marking process.uploads world process.clock input
    horder.marking
  have hnumbered : ∀ {puts : List (String × ℕ)} {accepted : List UploadCall},
      ∀ call ∈ process.calls, call.stake.numbered = true →
        (∀ entry ∈ puts, entry.2 < call.task.generation) ∧
          ∀ other ∈ accepted, other.task.generation < call.task.generation := by
    intro puts accepted call hcall hnumber
    rw [hidle call hcall] at hnumber
    cases hnumber
  have haccepted : (process.step world (.work input)).1.uploads.accepted.Pairwise
      fun older newer => older.task.generation < newer.task.generation := by
    simp only [Process.step]
    rw [hframe.accepted]
    exact horder.accepted
  have hdrawn : ∀ entry ∈ process.uploads.puts,
      entry.2 < (process.step world (.work input)).1.uploads.nextGeneration := by
    simp only [Process.step]
    rw [hframe.nextGeneration]
    exact horder.drawn
  rcases process.worker.step_delivery process.uploads world process.clock input with
    ⟨hputs, hmaps, hsettled, hdelivering, hchecked⟩ | ⟨task, hphase, hnewest, hqueue, hphase'⟩ |
    ⟨task, _, hphase, hputs, hmaps, hsettled, hphase'⟩ |
    ⟨task, status, delivered, hphase, hputs, hmaps, hsettled, hphase'⟩ |
    ⟨task, status, delivered, hphase, hputs, hmaps, hsettled, hphase'⟩
  · refine ⟨?_, ?_, ?_, ?_, ?_, ?_, ?_, hmarking, hnumbered, haccepted⟩ <;>
      simp only [Process.step, hputs, hmaps, hsettled, hdelivering]
    · exact horder.increasing
    · exact hdrawn
    · exact horder.delivered
    · exact horder.covered
    · intro write hwrite
      rcases hchecked with hnone | hsame
      · rw [hnone] at hwrite
        cases hwrite
      · exact horder.checked write (hsame ▸ hwrite)
    · exact horder.recorded
    · exact horder.durable
  · have hdelivering : process.worker.phase.delivering = none := by rw [hphase]; rfl
    refine ⟨?_, ?_, ?_, ?_, ?_, ?_, ?_, hmarking, hnumbered, haccepted⟩ <;>
      simp only [Process.step, hqueue, hphase']
    · exact horder.increasing
    · exact horder.drawn
    · intro entry hentry
      exact .inl ((horder.delivered entry hentry).resolve_right (by simp [hdelivering]))
    · exact horder.covered
    · rintro write ⟨⟩
      exact horder.newer_of_passed haccounted hphase hnewest
    · rintro write ⟨⟩
    · exact horder.durable
  · have hdelivering : process.worker.phase.delivering = none := by rw [hphase]; rfl
    have hchecked : process.worker.phase.checked = some task.toUploadWrite := by rw [hphase]; rfl
    have hhand := WorkerPhase.hand_of_checked hchecked
    refine ⟨?_, ?_, ?_, ?_, ?_, ?_, ?_, hmarking, hnumbered, haccepted⟩ <;>
      simp only [Process.step, hputs, hmaps, hsettled, hphase']
    · rw [List.pairwise_append]
      refine ⟨horder.increasing, List.pairwise_singleton _ _, ?_⟩
      intro entry hentry last hlast hkey
      rw [List.mem_singleton] at hlast
      subst hlast
      exact horder.checked _ hchecked entry hentry hkey
    · intro entry hentry
      rcases List.mem_append.mp hentry with hold | hnew
      · exact hdrawn entry hold
      · rw [List.mem_singleton.mp hnew, hframe.nextGeneration]
        exact haccounted.hand_lt hhand
    · intro entry hentry
      rcases List.mem_append.mp hentry with hold | hnew
      · exact .inl ((horder.delivered entry hold).resolve_right (by simp [hdelivering]))
      · rw [List.mem_singleton.mp hnew]
        exact .inr ⟨task.toUploadWrite, rfl, rfl⟩
    · intro entry hentry
      rcases List.mem_append.mp hentry with hold | hnew
      · exact horder.covered entry hold
      · rw [List.mem_singleton.mp hnew]
        refine .inl (haccounted.hand_mem_tracked hhand ?_)
        simp [UploadWorker.generationGivenBack, hphase]
    · rintro write ⟨⟩
    · rintro write ⟨⟩
      exact List.mem_append_right _ (List.mem_singleton_self _)
    · exact fun entry hentry hstatus =>
        List.mem_append_left _ (horder.durable entry hentry hstatus)
  · have hdelivering : ∀ stage, (WorkerPhase.settle task status delivered stage).delivering =
        process.worker.phase.delivering := by
      intro stage
      rw [hphase]
      cases status <;> rfl
    have hhand : task.toUploadWrite ∈ acceptedStakes (heldStake process.worker.phase.stake) := by
      simp [hphase, WorkerPhase.stake, SettleStage.stake, UploadWrite.stake,
        acceptedStakes_singleton]
    refine ⟨?_, ?_, ?_, ?_, ?_, ?_, ?_, hmarking, hnumbered, haccepted⟩ <;>
      simp only [Process.step, hputs, hmaps, hsettled, hphase', hdelivering]
    · exact horder.increasing
    · exact hdrawn
    · exact horder.delivered
    · intro entry hentry
      refine (horder.covered entry hentry).settle delivered fun hsame => ?_
      -- A delivered generation that is not settled yet is being settled as durable.
      rcases horder.delivered entry hentry with hdone | ⟨write, hwrite, -⟩
      · rw [hsame] at hdone
        exact absurd hdone (haccounted.hand_not_settled hhand)
      · have hmark := horder.marking
        rw [hphase] at hwrite hmark
        cases status <;> first | exact hmark | cases hwrite
    · rintro write ⟨⟩
    · exact horder.recorded
    · exact horder.durable
  · refine ⟨?_, ?_, ?_, ?_, ?_, ?_, ?_, hmarking, hnumbered, haccepted⟩ <;>
      simp only [Process.step, hputs, hmaps, hsettled, hphase']
    · exact horder.increasing
    · exact hdrawn
    · intro entry hentry
      refine .inl ?_
      rw [List.map_append, List.mem_append]
      rcases horder.delivered entry hentry with hdone | ⟨write, hwrite, hgeneration⟩
      · exact .inl hdone
      · have hsame : write = task.toUploadWrite := by
          rw [hphase] at hwrite
          cases status <;> cases hwrite
          rfl
        rw [← hgeneration, hsame]
        exact .inr (List.mem_singleton_self _)
    · exact horder.covered
    · rintro write ⟨⟩
    · rintro write ⟨⟩
    · intro entry hentry hstatus
      rcases List.mem_append.mp hentry with hold | hnew
      · exact horder.durable entry hold hstatus
      · rw [List.mem_singleton.mp hnew] at hstatus ⊢
        simp only at hstatus
        subst hstatus
        exact horder.recorded task.toUploadWrite (by rw [hphase]; rfl)

theorem call (horder : DeliveryOrder process) (haccounted : Accounted process) (world : World)
    {index : ℕ} (input : CallInput)
    (hothers : ∀ place other, place ≠ index → process.calls[place]? = some other →
      other.stake.numbered = false) :
    DeliveryOrder (process.step world (.call index input)).1 := by
  simp only [Process.step]
  split
  next call hcall =>
    have hmem : call ∈ process.calls := List.mem_of_getElem? hcall
    have hframe := call.advance_frame world.files process.clock input process.uploads
    obtain ⟨hnext, hnumbers⟩ := call.advance_numbering world.files process.clock input
      process.uploads
    refine ⟨?_, ?_, ?_, ?_, ?_, ?_, ?_, horder.marking, ?_, ?_⟩
    · rw [hframe.puts]
      exact horder.increasing
    · rw [hframe.puts]
      exact fun entry hentry => lt_of_lt_of_le (horder.drawn entry hentry) hnext
    · rw [hframe.puts, hframe.settled]
      exact horder.delivered
    · rw [hframe.puts]
      intro entry hentry
      rcases call.advance_maps world.files process.clock input process.uploads with
        hsame | ⟨hphase, htrack⟩ | ⟨error, hphase, huntrack⟩
      · rw [hsame]
        exact horder.covered entry hentry
      · have hnumbered : call.stake.numbered = true := by simp [UploadCall.stake, hphase]
        rw [htrack]
        exact (horder.covered entry hentry).track fun _ =>
          (horder.numbered call hmem hnumbered).1 entry hentry
      · have hnumbered : call.stake.numbered = true := by simp [UploadCall.stake, hphase]
        have hlt := (horder.numbered call hmem hnumbered).1 entry hentry
        rw [huntrack]
        refine (horder.covered entry hentry).untrack fun hsame => ?_
        exact absurd (congrArg Prod.snd hsame) (Nat.ne_of_lt hlt)
    · rw [hframe.puts]
      exact horder.checked
    · rw [hframe.puts]
      exact horder.recorded
    · rw [hframe.puts, hframe.settled]
      exact horder.durable
    · rw [hframe.puts]
      intro other hother hnumbered
      rcases getElem?_of_mem_advanceAt hother with ⟨place, hplace, hbefore⟩ | hsome
      · rw [hothers place other hplace hbefore] at hnumbered
        cases hnumbered
      · obtain ⟨haccepted, hgeneration⟩ := hnumbers other hsome hnumbered
        rw [haccepted]
        rcases hgeneration with ⟨hbefore, htask⟩ | hdrawn
        · rw [htask]
          exact horder.numbered call hmem hbefore
        · rw [hdrawn]
          exact ⟨horder.drawn, fun older holder => haccounted.accepted_lt holder⟩
    · rcases (call.advance_spec world.files process.clock input process.uploads).2 with
        ⟨hsame, -⟩ | ⟨hphase, hsent, -⟩
      · rw [hsame]
        exact horder.accepted
      · have hnumbered : call.stake.numbered = true := by simp [UploadCall.stake, hphase]
        rw [hsent, List.pairwise_append]
        refine ⟨horder.accepted, List.pairwise_singleton _ _, ?_⟩
        intro older holder newest hnewest
        rw [List.mem_singleton.mp hnewest]
        exact (horder.numbered call hmem hnumbered).2 older holder
  next => exact horder

/-- The fields it is about, with calls that hold no generation. -/
theorem congr {process' : Process} (horder : DeliveryOrder process)
    (hworker : process'.worker = process.worker)
    (hputs : process'.uploads.puts = process.uploads.puts)
    (hnext : process'.uploads.nextGeneration = process.uploads.nextGeneration)
    (hsettled : process'.uploads.settled = process.uploads.settled)
    (hmaps : process'.uploads.generations = process.uploads.generations)
    (haccepted : process'.uploads.accepted = process.uploads.accepted)
    (hcalls : ∀ call ∈ process'.calls, call ∈ process.calls ∨ call.stake.numbered = false) :
    DeliveryOrder process' := by
  obtain ⟨h₁, h₂, h₃, h₄, h₅, h₆, h₇, h₈, h₉, h₁₀⟩ := horder
  refine ⟨?_, ?_, ?_, ?_, ?_, ?_, ?_, ?_, ?_, ?_⟩
  · rwa [hputs]
  · rwa [hputs, hnext]
  · rwa [hputs, hsettled, hworker]
  · rwa [hputs, hmaps]
  · rwa [hputs, hworker]
  · rwa [hputs, hworker]
  · rwa [hputs, hsettled]
  · rwa [hworker]
  · rw [hputs, haccepted]
    intro call hcall hnumbered
    rcases hcalls call hcall with hold | hidle
    · exact h₉ call hold hnumbered
    · rw [hidle] at hnumbered
      cases hnumbered
  · rwa [haccepted]

theorem step (horder : DeliveryOrder process) (haccounted : Accounted process) (world : World)
    {input : ProcessInput} (hatomic : AtomicEnqueues ⟨process, world⟩ input) :
    DeliveryOrder (process.step world input).1 := by
  cases input with
  | begin request =>
      have hstart : ∀ call : UploadCall, call.stake.numbered = false →
          DeliveryOrder { process with calls := process.calls ++ [call] } := by
        intro call hcall
        refine horder.congr rfl rfl rfl rfl rfl rfl fun other hother => ?_
        rcases List.mem_append.mp hother with hold | hnew
        · exact .inl hold
        · exact .inr (List.mem_singleton.mp hnew ▸ hcall)
      simp only [Process.step]
      split
      next =>
        cases request <;> simp only [Process.beginCall] <;> split
        all_goals first
          | exact hstart _ rfl
          | exact horder.congr rfl rfl rfl rfl rfl rfl fun _ => .inl
      next => exact horder
  | call index input =>
      refine horder.call haccounted world input fun place other hplace hother => ?_
      obtain ⟨hlt, rfl⟩ := List.getElem?_eq_some_iff.mp hother
      by_contra hnumbered
      rw [Bool.not_eq_false] at hnumbered
      have hsame := hatomic place hlt (UploadCall.enqueuing_of_numbered hnumbered)
      exact hplace (Option.some.inj hsame).symm
  | work input => exact horder.work haccounted (hatomic.not_numbered rfl) world input
  | delete index input =>
      simp only [Process.step]
      split
      next call _ =>
        refine horder.congr rfl ?_ ?_ ?_ ?_ ?_ fun _ => .inl
        · exact call.advance_field UploadQueue.puts (fun _ => rfl) _ _ _ _
        · exact call.advance_field UploadQueue.nextGeneration (fun _ => rfl) _ _ _ _
        · exact call.advance_field UploadQueue.settled (fun _ => rfl) _ _ _ _
        · exact call.advance_field UploadQueue.generations (fun _ => rfl) _ _ _ _
        · exact call.advance_field UploadQueue.accepted (fun _ => rfl) _ _ _ _
      next => exact horder
  | beginDelete target | close =>
      simp only [Process.step]
      split
      next => exact horder.congr rfl rfl rfl rfl rfl rfl fun _ => .inl
      next => exact horder
  | edit path content => exact horder
  | tick elapsed => exact horder.congr rfl rfl rfl rfl rfl rfl fun _ => .inl

end DeliveryOrder

/-! ## What the store holds -/

/-- The key is under no cancelled prefix, and no deletion writes its tombstone there. -/
def Process.Sheltered (process : Process) (key : String) : Prop :=
  process.uploads.cancel.isCancelled key = false ∧
    ∀ target ∈ process.uploads.deleting, process.uploads.tombstonePrefix ++ target ≠ key

/-- The worker PUTs the bytes of an inline write. -/
def WorkerPhase.Loaded : WorkerPhase → Prop
  | .readSource task path => task.source = .file path
  | .put task body => ∀ bytes, task.source = .inline bytes → body = bytes
  | _ => True

/-- The object a write has stored. -/
structure StoreContents (site : Site) : Prop where
  kept : ∀ entry ∈ site.process.uploads.puts, site.process.Sheltered entry.1 →
    ∃ generation, site.world.storedBy entry.1 = some generation ∧ entry.2 ≤ generation
  hand : ∀ task, site.process.worker.phase = .stored task → site.process.Sheltered task.key →
    site.world.storedBy task.key = some task.generation
  source : ∀ key generation, site.world.storedBy key = some generation →
    ∃ call ∈ site.process.uploads.accepted, call.task.key = key ∧
      call.task.generation = generation ∧
      ∀ bytes, call.task.source = .inline bytes → site.world.object key = some bytes
  loaded : site.process.worker.phase.Loaded

theorem UploadWorker.step_loaded (worker : UploadWorker) (queue : UploadQueue) (world : World)
    (clock : ℕ) (input : WorkerInput) (hloaded : worker.phase.Loaded) :
    (worker.step queue world clock input).1.phase.Loaded := by
  unfold step
  cases hphase : worker.phase with
  | receive =>
      simp only [receive]
      repeat' split
      all_goals trivial
  | scan =>
      simp only [scan]
      repeat' split
      all_goals simp [WorkerPhase.Loaded, hphase]
  | beginUpload task =>
      simp only
      split
      next => trivial
      next bytes hsource =>
        intro other hother
        rw [hsource] at hother
        exact UploadSource.inline.inj hother
      next path hsource => exact hsource
  | readSource task path =>
      simp only
      split
      next =>
        rw [hphase] at hloaded
        intro bytes hbytes
        rw [hloaded] at hbytes
        cases hbytes
      next => trivial
  | resolve task result =>
      cases result with
      | ok _ => trivial
      | error err =>
          simp only [resolve]
          repeat' split
          all_goals trivial
  | settle task status delivered stage => cases stage <;> trivial
  | finished => exact hloaded
  | pushTombstones task keys | cleanUp task | answered task result => trivial
  | listTombstones task | checkSuperseded task | checkSource task | put task body | stored task =>
      simp only
      repeat' split
      all_goals trivial

/-- Only a PUT that takes effect leads to the answer of a stored object. -/
theorem UploadWorker.step_stored {worker : UploadWorker} {queue : UploadQueue} {world : World}
    {clock : ℕ} {input : WorkerInput} {task : UploadTask}
    (hstored : (worker.step queue world clock input).1.phase = .stored task) :
    (worker.step queue world clock input).2.2.storedBy task.key = some task.generation := by
  unfold step at hstored ⊢
  cases hphase : worker.phase with
  | put other body =>
      rw [hphase] at hstored
      simp only at hstored ⊢
      split at hstored
      next heffect =>
        cases hstored
        simp [World.put]
      next => cases hstored
  | receive =>
      rw [hphase] at hstored
      simp only [receive] at hstored
      repeat' split at hstored
      all_goals cases hstored
  | scan =>
      rw [hphase] at hstored
      simp only [scan] at hstored
      repeat' split at hstored
      all_goals simp [hphase] at hstored
  | resolve other result =>
      rw [hphase] at hstored
      cases result with
      | ok _ => cases hstored
      | error err =>
          simp only [resolve] at hstored
          repeat' split at hstored
          all_goals cases hstored
  | settle other status delivered stage =>
      rw [hphase] at hstored
      cases stage <;> cases hstored
  | finished =>
      rw [hphase] at hstored
      simp [hphase] at hstored
  | pushTombstones other keys | cleanUp other | answered other result | stored other =>
      rw [hphase] at hstored
      cases hstored
  | listTombstones other | checkSuperseded other | checkSource other | beginUpload other
  | readSource other path =>
      rw [hphase] at hstored
      simp only at hstored
      repeat' split at hstored
      all_goals cases hstored

theorem Process.step_prefixes (process : Process) (world : World) (input : ProcessInput) :
    process.uploads.cancel.prefixes ⊆ (process.step world input).1.uploads.cancel.prefixes := by
  cases input with
  | begin request =>
      simp only [step]
      split
      next =>
        cases request <;> simp only [beginCall] <;> split <;> exact List.Subset.refl _
      next => exact List.Subset.refl _
  | call index input =>
      simp only [step]
      split
      next call _ =>
        rw [(call.advance_frame world.files process.clock input process.uploads).cancel]
        exact List.Subset.refl _
      next => exact List.Subset.refl _
  | work input => exact (process.worker.step_cancel process.uploads world process.clock input).1
  | delete index input =>
      simp only [step]
      split
      next call _ => exact (call.advance_move process.clock input process.uploads world).prefixes
      next => exact List.Subset.refl _
  | beginDelete target | close =>
      simp only [step]
      split <;> exact List.Subset.refl _
  | edit path content => exact List.Subset.refl _
  | tick elapsed => exact List.Subset.refl _

/-- A key that is sheltered after a step was sheltered before it. -/
theorem Process.Sheltered.before {site : Site} {input : ProcessInput} {key : String}
    (hsheltered : (site.step input).process.Sheltered key) : site.process.Sheltered key := by
  obtain ⟨hkey, hdeleting⟩ := site.process.step_deleting site.world input
  obtain ⟨hfree, hnone⟩ := hsheltered
  constructor
  · by_contra hcancelled
    rw [Bool.not_eq_false] at hcancelled
    have hstill : (site.step input).process.uploads.cancel.isCancelled key = true :=
      CancelState.isCancelled_mono (site.process.step_prefixes site.world input) hcancelled
    rw [hfree] at hstill
    cases hstill
  · intro target htarget
    have hsame : (site.step input).process.uploads.tombstonePrefix =
        site.process.uploads.tombstonePrefix := congrArg (· ++ ".tombstones/") hkey
    rw [← hsame]
    exact hnone target (hdeleting htarget)

theorem Process.Sheltered.not_under {process : Process} {key target : String}
    (hsheltered : process.Sheltered key) (htarget : target ∈ process.uploads.cancel.prefixes) :
    startsWith key target = false := by
  by_contra hstarts
  rw [Bool.not_eq_false] at hstarts
  have hcancelled := CancelState.isCancelled_iff.mpr ⟨target, htarget, hstarts⟩
  rw [hsheltered.1] at hcancelled
  cases hcancelled

/-- What a deletion leaves of the worker's objects it leaves as it was. -/
theorem ClearsAtMost.storedBy_back {call : DeleteCall} {input : DeleteInput} {queue : UploadQueue}
    {world world' : World} (hworld : ClearsAtMost call input queue world world') {key : String}
    {generation : ℕ} (hby : world'.storedBy key = some generation) :
    world.storedBy key = some generation ∧ world'.object key = world.object key := by
  rcases hworld with hsame | ⟨-, -, hput⟩ | ⟨keys, removed, -, -, -, hremoved⟩
  · rw [hsame] at hby ⊢
    exact ⟨hby, rfl⟩
  · rw [hput] at hby ⊢
    rw [World.object_put]
    by_cases hkey : key = queue.tombstonePrefix ++ call.target
    · simp [World.put, hkey] at hby
    · rw [if_neg hkey]
      exact ⟨by simpa [World.put, hkey] using hby, rfl⟩
  · rw [hremoved] at hby ⊢
    rw [World.object_delete]
    by_cases hkey : key ∈ removed
    · simp [World.delete, hkey] at hby
    · rw [if_neg hkey]
      exact ⟨by simpa [World.delete, hkey] using hby, rfl⟩

namespace StoreContents

variable {objects : AList (fun _ : String => List UInt8)} {keyPrefix : String} {site : Site}

theorem new (keyPrefix : String) (storageDir : List String)
    (objects : AList (fun _ : String => List UInt8)) (files : List String → Option (List UInt8)) :
    StoreContents (.new keyPrefix storageDir objects files) := by
  refine ⟨?_, ?_, ?_, trivial⟩
  · intro entry hentry
    cases hentry
  · intro task hphase
    cases hphase
  · intro key generation hstored
    cases hstored

theorem congr {site' : Site} (hcontents : StoreContents site)
    (hputs : site'.process.uploads.puts = site.process.uploads.puts)
    (hsheltered : ∀ key, site'.process.Sheltered key → site.process.Sheltered key)
    (hworker : site'.process.worker = site.process.worker)
    (haccepted : site.process.uploads.accepted <+: site'.process.uploads.accepted)
    (hstored : site'.world.storedBy = site.world.storedBy)
    (hobject : ∀ key, site'.world.object key = site.world.object key) : StoreContents site' := by
  refine ⟨?_, ?_, ?_, hworker ▸ hcontents.loaded⟩
  · rw [hputs, hstored]
    exact fun entry hentry hshelter => hcontents.kept entry hentry (hsheltered _ hshelter)
  · rw [hworker, hstored]
    exact fun task hphase hshelter => hcontents.hand task hphase (hsheltered _ hshelter)
  · intro key generation hby
    rw [hstored] at hby
    obtain ⟨call, hcall, hkey, hgeneration, hbytes⟩ := hcontents.source key generation hby
    refine ⟨call, haccepted.subset hcall, hkey, hgeneration, fun bytes hsource => ?_⟩
    rw [hobject]
    exact hbytes bytes hsource

theorem work (hcontents : StoreContents site) (hguarded : Guarded objects keyPrefix site)
    (horder : DeliveryOrder site.process) (input : WorkerInput) :
    StoreContents (site.step (.work input)) := by
  have hframe := site.process.worker.step_frame site.process.uploads site.world
    site.process.clock input
  have hbefore : ∀ key, (site.step (.work input)).process.Sheltered key →
      site.process.Sheltered key := fun _ hkey => hkey.before
  have hworld := site.process.worker.step_world site.process.uploads site.world
    site.process.clock input
  -- What was delivered before this step is still there or has a newer write over it.
  have hkept : ∀ entry ∈ site.process.uploads.puts, site.process.Sheltered entry.1 →
      ∃ generation, (site.step (.work input)).world.storedBy entry.1 = some generation ∧
        entry.2 ≤ generation := by
    intro entry hentry hshelter
    obtain ⟨generation, hstored, hle⟩ := hcontents.kept entry hentry hshelter
    simp only [Site.step, Process.step]
    rcases hworld with hsame | ⟨task, body, hphase, -, hput⟩ | ⟨task, hphase, hremoved⟩
    · rw [hsame]
      exact ⟨generation, hstored, hle⟩
    · rw [hput]
      by_cases hkey : entry.1 = task.key
      · have hnewer := horder.checked task.toUploadWrite (by rw [hphase]; rfl) entry hentry hkey
        refine ⟨task.generation, ?_, Nat.le_of_lt hnewer⟩
        simp [World.put, hkey]
      · refine ⟨generation, ?_, hle⟩
        simpa [World.put, hkey] using hstored
    · rw [hremoved]
      by_cases hkey : entry.1 = task.key
      · have hcancelled := hguarded.refusals.hand task.key (by rw [hphase]; rfl)
        rw [← hkey, hshelter.1] at hcancelled
        cases hcancelled
      · refine ⟨generation, ?_, hle⟩
        simpa [World.delete, hkey] using hstored
  have hputs : (site.step (.work input)).process.uploads.puts = site.process.uploads.puts ∨
      ∃ task, site.process.worker.phase = .stored task ∧
        (site.step (.work input)).process.uploads.puts =
          site.process.uploads.puts ++ [(task.key, task.generation)] := by
    rcases site.process.worker.step_delivery site.process.uploads site.world site.process.clock
      input with ⟨hputs, -, -, -, -⟩ | ⟨_, -, -, hqueue, -⟩ | ⟨task, _, hphase, hputs, -, -, -⟩ |
      ⟨_, _, _, -, hputs, -, -, -⟩ | ⟨_, _, _, -, hputs, -, -, -⟩
    · exact .inl hputs
    · exact .inl (congrArg UploadQueue.puts hqueue)
    · exact .inr ⟨task, hphase, hputs⟩
    · exact .inl hputs
    · exact .inl hputs
  refine ⟨?_, ?_, ?_, ?_⟩
  · intro entry hentry hshelter
    rcases hputs with hsame | ⟨task, hphase, hadd⟩
    · exact hkept entry (hsame ▸ hentry) (hbefore _ hshelter)
    · rw [hadd, List.mem_append, List.mem_singleton] at hentry
      rcases hentry with hold | rfl
      · exact hkept entry hold (hbefore _ hshelter)
      · refine ⟨task.generation, ?_, le_rfl⟩
        have hstored := hcontents.hand task hphase (hbefore _ hshelter)
        have hsame : (site.step (.work input)).world = site.world := by
          rcases hworld with hsame | ⟨_, _, hput, -, -⟩ | ⟨_, hclean, -⟩
          · exact hsame
          · rw [hphase] at hput
            cases hput
          · rw [hphase] at hclean
            cases hclean
        rw [hsame]
        exact hstored
  · exact fun task hphase _ => UploadWorker.step_stored hphase
  · intro key generation hstored
    have haccepted : (site.step (.work input)).process.uploads.accepted =
        site.process.uploads.accepted := hframe.accepted
    rw [haccepted]
    simp only [Site.step, Process.step] at hstored ⊢
    rcases hworld with hsame | ⟨task, body, hphase, -, hput⟩ | ⟨task, hphase, hremoved⟩
    · rw [hsame] at hstored ⊢
      exact hcontents.source key generation hstored
    · rw [hput] at hstored ⊢
      simp only [World.object_put]
      by_cases hkey : key = task.key
      · subst hkey
        have hhand : task.toUploadWrite ∈
            acceptedStakes (heldStake site.process.worker.phase.stake) := by
          simp [hphase, WorkerPhase.stake, UploadWrite.stake, acceptedStakes_singleton]
        obtain ⟨call, hcall, hwrite⟩ := hguarded.accounted.hand_accepted hhand
        have hloaded := hcontents.loaded
        rw [hphase] at hloaded
        simp only [World.put, Function.update_self, Option.some.injEq] at hstored
        refine ⟨call, hcall, congrArg UploadWrite.key hwrite, ?_, fun bytes hsource => ?_⟩
        · rw [← hstored]
          exact congrArg UploadWrite.generation hwrite
        · have htask : task.source = .inline bytes := by
            rw [← hsource]
            exact (congrArg UploadWrite.source hwrite).symm
          rw [if_pos rfl, hloaded bytes htask]
      · simp only [World.put, Function.update_of_ne hkey] at hstored
        simp only [if_neg hkey]
        exact hcontents.source key generation hstored
    · rw [hremoved] at hstored ⊢
      simp only [World.object_delete]
      by_cases hkey : key ∈ [task.key]
      · simp only [World.delete, if_pos hkey] at hstored
        cases hstored
      · simp only [World.delete, if_neg hkey] at hstored
        simp only [if_neg hkey]
        exact hcontents.source key generation hstored
  · exact site.process.worker.step_loaded _ _ _ _ hcontents.loaded

theorem delete (hcontents : StoreContents site) (hguarded : Guarded objects keyPrefix site)
    (index : ℕ) (input : DeleteInput) : StoreContents (site.step (.delete index input)) := by
  cases hcall : site.process.deletes[index]? with
  | none =>
      refine hcontents.congr ?_ (fun _ hkey => hkey.before) ?_ (site.accepted_grows _) ?_ ?_ <;>
        simp [Site.step, Process.step, hcall]
  | some call =>
      have hmem : call ∈ site.process.deletes := List.mem_of_getElem? hcall
      have hworld : ClearsAtMost call input site.process.uploads site.world
          (site.step (.delete index input)).world := by
        simp only [Site.step, Process.step, hcall]
        exact call.advance_world site.process.clock input site.process.uploads site.world
      have hputs : (site.step (.delete index input)).process.uploads.puts =
          site.process.uploads.puts := by
        simp only [Site.step, Process.step, hcall]
        exact call.advance_field UploadQueue.puts (fun _ => rfl) _ _ _ _
      have hworker : (site.step (.delete index input)).process.worker = site.process.worker := by
        simp only [Site.step, Process.step, hcall]
      -- A deletion touches no sheltered key.
      have hstored : ∀ key, site.process.Sheltered key →
          (site.step (.delete index input)).world.storedBy key = site.world.storedBy key := by
        intro key hshelter
        rcases hworld with hsame | ⟨-, -, hput⟩ | ⟨keys, removed, hphase, hsub, -, hremoved⟩
        · rw [hsame]
        · have hkey : key ≠ site.process.uploads.tombstonePrefix ++ call.target :=
            (hshelter.2 call.target (hguarded.cancelling.deleting call hmem)).symm
          rw [hput]
          exact Function.update_of_ne hkey _ _
        · have hkey : key ∉ removed := by
            intro hin
            have hpushed := hguarded.cancelling.pushed call hmem (by rw [hphase]; simp)
            have hfree := hshelter.not_under hpushed
            rw [hguarded.refusals.listed call hmem keys hphase key (hsub hin)] at hfree
            cases hfree
          rw [hremoved]
          exact if_neg hkey
      refine ⟨?_, ?_, ?_, ?_⟩
      · rw [hputs]
        intro entry hentry hshelter
        rw [hstored _ hshelter.before]
        exact hcontents.kept entry hentry hshelter.before
      · rw [hworker]
        intro task hphase hshelter
        rw [hstored _ hshelter.before]
        exact hcontents.hand task hphase hshelter.before
      · intro key generation hby
        have hback := hworld.storedBy_back hby
        obtain ⟨before, hcallBefore, hkey, hgeneration, hbytes⟩ :=
          hcontents.source key generation hback.1
        refine ⟨before, (site.accepted_grows _).subset hcallBefore, hkey, hgeneration, ?_⟩
        rw [hback.2]
        exact hbytes
      · rw [hworker]
        exact hcontents.loaded

theorem step (hcontents : StoreContents site) (hguarded : Guarded objects keyPrefix site)
    (horder : DeliveryOrder site.process) (input : ProcessInput) :
    StoreContents (site.step input) := by
  have hsame : (site.step input).process.uploads.puts = site.process.uploads.puts →
      (site.step input).process.worker = site.process.worker →
      (site.step input).world.storedBy = site.world.storedBy →
      (∀ key, (site.step input).world.object key = site.world.object key) →
      StoreContents (site.step input) := fun hputs hworker hstored hobject =>
    hcontents.congr hputs (fun _ hkey => hkey.before) hworker (site.accepted_grows input) hstored
      hobject
  cases input with
  | begin request =>
      refine hsame ?_ ?_ rfl fun _ => rfl
      · simp only [Site.step, Process.step]
        split
        next => cases request <;> simp only [Process.beginCall] <;> split <;> rfl
        next => rfl
      · simp only [Site.step, Process.step]
        split
        next => cases request <;> simp only [Process.beginCall] <;> split <;> rfl
        next => rfl
  | call index input =>
      have hworld : (site.step (.call index input)).world = site.world := by
        simp only [Site.step, Process.step]
        split <;> rfl
      refine hsame ?_ ?_ (by rw [hworld]) fun key => by rw [hworld]
      · simp only [Site.step, Process.step]
        split
        next call _ =>
          exact (call.advance_frame site.world.files site.process.clock input _).puts
        next => rfl
      · simp only [Site.step, Process.step]
        split <;> rfl
  | work input => exact hcontents.work hguarded horder input
  | delete index input => exact hcontents.delete hguarded index input
  | beginDelete target =>
      have hworld : (site.step (.beginDelete target)).world = site.world := by
        simp only [Site.step, Process.step]
        split <;> rfl
      refine hsame ?_ ?_ (by rw [hworld]) fun key => by rw [hworld]
      · simp only [Site.step, Process.step]
        split <;> rfl
      · simp only [Site.step, Process.step]
        split <;> rfl
  | close =>
      refine hsame ?_ ?_ rfl fun _ => rfl
      · simp only [Site.step, Process.step]
        split <;> rfl
      · simp only [Site.step, Process.step]
        split <;> rfl
  | edit path content => exact hsame rfl rfl rfl fun _ => rfl
  | tick elapsed => exact hsame rfl rfl rfl fun _ => rfl

end StoreContents

/-! ## Whole runs -/

/-- What holds of a site in every state of a run with atomic enqueues. -/
structure InOrder (objects : AList (fun _ : String => List UInt8)) (keyPrefix : String)
    (site : Site) : Prop where
  guarded : Guarded objects keyPrefix site
  markers : MarkersAccepted site.process.uploads
  superseded : SupersededByAccepted site
  order : DeliveryOrder site.process
  contents : StoreContents site

/-- With atomic enqueues no supersede check meets a call that has only published. -/
theorem AtomicEnqueues.checksOnAccepted {site : Site} {input : ProcessInput}
    (hatomic : AtomicEnqueues site input) (haccounted : Accounted site.process) :
    ChecksOnAccepted site input := by
  cases input with
  | work input =>
      rintro task - ⟨call, hcall, htracked, -, -⟩
      have hmem : call.stake ∈ site.process.stakes := by
        rw [site.process.stakes_eq, Multiset.mem_add, Multiset.mem_add]
        exact .inl (.inl (Multiset.mem_coe.mpr (List.mem_map.mpr ⟨call, hcall, rfl⟩)))
      have hnumbered :=
        (haccounted.balanced.ordered call.stake hmem).numbered_of_tracked htracked
      rw [hatomic.not_numbered rfl call hcall] at hnumbered
      cases hnumbered
  | begin _ | call _ _ | beginDelete _ | delete _ _ | edit _ _ | tick _ | close => trivial

namespace InOrder

variable {objects : AList (fun _ : String => List UInt8)} {keyPrefix : String} {site : Site}

theorem new (keyPrefix : String) (storageDir : List String)
    (objects : AList (fun _ : String => List UInt8)) (files : List String → Option (List UInt8)) :
    InOrder objects keyPrefix (.new keyPrefix storageDir objects files) := by
  refine ⟨Guarded.new keyPrefix storageDir objects files, ?_, ?_, DeliveryOrder.new keyPrefix
    storageDir, StoreContents.new keyPrefix storageDir objects files⟩
  · intro key generation hmarker
    cases hmarker
  · intro write hwrite
    cases hwrite

theorem step (hsite : InOrder objects keyPrefix site) {input : ProcessInput}
    (hatomic : AtomicEnqueues site input) : InOrder objects keyPrefix (site.step input) := by
  obtain ⟨hguarded, hmarkers, hsuperseded, horder, hcontents⟩ := hsite
  refine ⟨hguarded.step input, site.step_markers input hguarded.accounted hmarkers, ?_, ?_,
    hcontents.step hguarded horder input⟩
  · exact (supersededByAccepted_step hguarded.accounted hmarkers hsuperseded input).mpr
      (hatomic.checksOnAccepted hguarded.accounted)
  · exact (horder.step hguarded.accounted site.world hatomic).congr rfl rfl rfl rfl rfl rfl
      fun _ => .inl

/-- The newest accepted write of a key, once nothing of the key is pending. -/
theorem object_eq (hsite : InOrder objects keyPrefix site) {call : UploadCall}
    (hcall : call ∈ site.process.uploads.accepted) {bytes : List UInt8}
    (hinline : call.task.source = .inline bytes)
    (hnewest : ∀ other ∈ site.process.uploads.accepted, other.task.key = call.task.key →
      other.task.generation ≤ call.task.generation)
    (hpending : ∀ write ∈ site.process.uploads.unsettled, write.key ≠ call.task.key)
    (hsheltered : site.process.Sheltered call.task.key)
    (hfailed : ∀ message, site.process.uploads.receipts call.task.generation ≠ .failed message)
    (hshutdown : site.process.uploads.receipts call.task.generation ≠ .shutdown) :
    site.world.object call.task.key = some bytes := by
  have haccounting := hsite.guarded.accounted.exact
  -- The write has been settled; what remains of its possible ends is durable.
  have hsettled : ∃ status, (call.task.toUploadWrite, status) ∈ site.process.uploads.settled := by
    have hwrite : call.task.toUploadWrite ∈ site.process.uploads.acceptedWrites :=
      List.mem_map.mpr ⟨call, hcall, rfl⟩
    rcases List.mem_append.mp (haccounting.settled_once.subset hwrite) with hdone | hopen
    · obtain ⟨⟨write, status⟩, hentry, rfl⟩ := List.mem_map.mp hdone
      exact ⟨status, hentry⟩
    · exact absurd rfl (hpending _ hopen)
  obtain ⟨status, hentry⟩ := hsettled
  obtain ⟨hreceipt, hterminal⟩ := haccounting.receipt_closed _ hentry
  simp only at hreceipt hterminal
  have hdurable : status = .durable := by
    cases status with
    | durable => rfl
    | queued | retrying attempts error => cases hterminal
    | failed message => exact absurd hreceipt (hfailed message)
    | shutdown => exact absurd hreceipt hshutdown
    | cancelled =>
        have hcancelled := hsite.guarded.refusals.settled _ hentry rfl
        rw [hsheltered.1] at hcancelled
        cases hcancelled
    | superseded =>
        have hmem : call.task.toUploadWrite ∈ site.process.supersededWrites := by
          refine List.mem_append_left _ (List.mem_map.mpr ⟨_, List.mem_filter.mpr ⟨hentry, ?_⟩, rfl⟩)
          exact decide_eq_true rfl
        obtain ⟨other, hother, hkey, hlt⟩ := hsite.superseded _ hmem
        exact absurd (hnewest other hother hkey) (Nat.not_le_of_lt hlt)
  have hput := hsite.order.durable _ hentry hdurable
  obtain ⟨generation, hstored, hle⟩ := hsite.contents.kept _ hput hsheltered
  obtain ⟨other, hother, hkey, hgeneration, hobject⟩ :=
    hsite.contents.source _ _ hstored
  have hsame : other = call := by
    have hgenerations : other.task.generation = call.task.generation :=
      le_antisymm (hnewest other hother hkey) (hgeneration ▸ hle)
    have hnodup : (site.process.uploads.accepted.map (·.task.generation)).Nodup :=
      List.pairwise_map.mpr (hsite.order.accepted.imp Nat.ne_of_lt)
    exact List.inj_on_of_nodup_map hnodup hother hcall hgenerations
  exact hobject bytes (hsame ▸ hinline)

end InOrder

/-- With each enqueue taken as one step, in every state of every run: writes are accepted
in the order of their generations, the successful PUTs of one key happen in that order,
no delivered object of a sheltered key is overwritten by an older one, and the newest
accepted write of such a key, if it is inline, is what the store holds once nothing of
the key is pending, unless it failed or was shut down. -/
theorem uploads_delivered_in_order (keyPrefix : String) (storageDir : List String)
    (objects : AList (fun _ : String => List UInt8)) (files : List String → Option (List UInt8))
    (inputs : List ProcessInput)
    (hatomic : Machine.EveryStep Site.step AtomicEnqueues
      (.new keyPrefix storageDir objects files) inputs) :
    let site := Machine.run Site.step (.new keyPrefix storageDir objects files) inputs
    let queue := site.process.uploads
    (queue.accepted.Pairwise fun older newer => older.task.generation < newer.task.generation) ∧
      (queue.puts.Pairwise fun older newer => older.1 = newer.1 → older.2 < newer.2) ∧
      (∀ entry ∈ queue.puts, site.process.Sheltered entry.1 →
        ∃ generation, site.world.storedBy entry.1 = some generation ∧ entry.2 ≤ generation) ∧
      ∀ call ∈ queue.accepted, ∀ bytes, call.task.source = .inline bytes →
        (∀ other ∈ queue.accepted, other.task.key = call.task.key →
          other.task.generation ≤ call.task.generation) →
        (∀ write ∈ queue.unsettled, write.key ≠ call.task.key) →
        site.process.Sheltered call.task.key →
        (∀ message, queue.receipts call.task.generation ≠ .failed message) →
        queue.receipts call.task.generation ≠ .shutdown →
        site.world.object call.task.key = some bytes := by
  intro site queue
  have hsite : InOrder objects keyPrefix site :=
    (Machine.always_of_everyStep Site.step (fun _ _ hsite hinput => hsite.step hinput)
      (InOrder.new keyPrefix storageDir objects files) hatomic).run
  exact ⟨hsite.order.accepted, hsite.order.increasing, hsite.contents.kept,
    fun _ hcall _ hinline hnewest hpending hsheltered hfailed hshutdown =>
      hsite.object_eq hcall hinline hnewest hpending hsheltered hfailed hshutdown⟩

/-- The first snapshot of a file fails and is delayed; a newer one is stored; then the
delayed retry comes due. -/
def delayedRetry : List ProcessInput :=
  let enqueue (bytes : List UInt8) : List ProcessInput :=
    ProcessInput.begin (.putBytes ["ssrc_mapping.json"] bytes) ::
      List.replicate 6 (ProcessInput.call 0 {})
  enqueue [1] ++ List.replicate 7 (ProcessInput.work {}) ++
    ProcessInput.work { effect := .lost (.http "connection reset") } ::
    List.replicate 3 (ProcessInput.work {}) ++ enqueue [2] ++
    List.replicate 14 (ProcessInput.work {}) ++ ProcessInput.tick 5000 ::
    List.replicate 14 (ProcessInput.work {})

theorem delayed_retry_keeps_newer :
    let site := Machine.run Site.step (.new "recordings/" [] ∅ fun _ => none) delayedRetry
    site.process.uploads.settled.map (fun entry => (entry.1.generation, entry.2)) =
        [(1, .durable), (0, .superseded)] ∧
      site.world.object "recordings/ssrc_mapping.json" = some [2] := by
  have hatomic : Machine.EveryStep Site.step AtomicEnqueues
      (.new "recordings/" [] ∅ fun _ => none) delayedRetry := by
    decide +kernel
  refine ⟨by decide +kernel, ?_⟩
  have hlast : (Machine.run Site.step (.new "recordings/" [] ∅ fun _ => none)
      delayedRetry).process.uploads.accepted[1]?.map (·.task.toUploadWrite) =
      some ⟨"recordings/ssrc_mapping.json", .inline [2], 1⟩ := by
    decide +kernel
  obtain ⟨call, hcall, hwrite⟩ := Option.map_eq_some_iff.mp hlast
  obtain ⟨-, -, -, hobject⟩ :=
    uploads_delivered_in_order "recordings/" [] ∅ (fun _ => none) delayedRetry hatomic
  have hkey : call.task.key = "recordings/ssrc_mapping.json" := congrArg UploadWrite.key hwrite
  have hgeneration : call.task.generation = 1 := congrArg UploadWrite.generation hwrite
  have hmem := List.mem_of_getElem? hcall
  rw [← hkey]
  refine hobject call hmem [2] (congrArg UploadWrite.source hwrite) ?_ ?_ ⟨?_, ?_⟩ ?_ ?_ <;>
    simp only [hkey, hgeneration]
  · decide +kernel
  · decide +kernel
  · decide +kernel
  · have hnone : (Machine.run Site.step (.new "recordings/" [] ∅ fun _ => none)
        delayedRetry).process.uploads.deleting = [] := by
      decide +kernel
    rw [hnone]
    exact fun _ htarget => nomatch htarget
  · have hdurable : (Machine.run Site.step (.new "recordings/" [] ∅ fun _ => none)
        delayedRetry).process.uploads.receipts 1 = .durable := by
      decide +kernel
    rw [hdurable]
    nofun
  · decide +kernel

end DiscordTranscript.Infrastructure
