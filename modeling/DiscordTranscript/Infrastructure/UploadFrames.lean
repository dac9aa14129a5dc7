import DiscordTranscript.Infrastructure.UploadQueue

/-! # What a step leaves alone

For each party of the upload queue, the fields none of its steps touches, and the
few things it can do to the history. The case split over the phases is made here
once; what follows rests on these lemmas.
-/

namespace DiscordTranscript.Infrastructure

/-! ## Calls -/

/-- The fields that no step of a call changes. -/
def UploadQueue.callFixed (queue : UploadQueue) :=
  (queue.keyPrefix, queue.storageDir, queue.senderOpen, queue.receiverGone, queue.cancel,
    queue.settled, queue.puts, queue.deleting, queue.cancelled, queue.deleted)

structure CallFrame (queue queue' : UploadQueue) : Prop where
  keyPrefix : queue'.keyPrefix = queue.keyPrefix
  storageDir : queue'.storageDir = queue.storageDir
  senderOpen : queue'.senderOpen = queue.senderOpen
  receiverGone : queue'.receiverGone = queue.receiverGone
  cancel : queue'.cancel = queue.cancel
  settled : queue'.settled = queue.settled
  puts : queue'.puts = queue.puts
  deleting : queue'.deleting = queue.deleting
  cancelled : queue'.cancelled = queue.cancelled
  deleted : queue'.deleted = queue.deleted

theorem CallFrame.of_fixed {queue queue' : UploadQueue}
    (hfixed : queue'.callFixed = queue.callFixed) : CallFrame queue queue' := by
  simp only [UploadQueue.callFixed, Prod.mk.injEq] at hfixed
  obtain ⟨h₁, h₂, h₃, h₄, h₅, h₆, h₇, h₈, h₉, h₁₀⟩ := hfixed
  exact ⟨h₁, h₂, h₃, h₄, h₅, h₆, h₇, h₈, h₉, h₁₀⟩

/-- What a step of a call does to the channel and to the history of accepted calls:
nothing, or it adds its own. -/
def SendsAtMost (call : UploadCall) (queue queue' : UploadQueue) : Prop :=
  (queue'.accepted = queue.accepted ∧ queue'.channel = queue.channel) ∨
    (call.phase = .send ∧ queue'.accepted = queue.accepted ++ [call] ∧
      queue'.channel = queue.channel ++ [call.task])

theorem UploadCall.advance_spec (call : UploadCall) (files : List String → Option (List UInt8))
    (clock : ℕ) (input : CallInput) (queue : UploadQueue) :
    (call.advance files clock input queue).1.callFixed = queue.callFixed ∧
      SendsAtMost call queue (call.advance files clock input queue).1 := by
  obtain ⟨request, task, phase, snapshot, begun⟩ := call
  have hkeep : ∀ {queue' : UploadQueue}, queue'.callFixed = queue.callFixed →
      queue'.accepted = queue.accepted → queue'.channel = queue.channel →
      queue'.callFixed = queue.callFixed ∧
        SendsAtMost ⟨request, task, phase, snapshot, begun⟩ queue queue' :=
    fun hfixed haccepted hchannel => ⟨hfixed, .inl ⟨haccepted, hchannel⟩⟩
  cases phase with
  | findReceipt =>
      simp only [advance]
      split
      next =>
        split
        next => exact hkeep rfl rfl rfl
        next =>
          simp only [findReceipt]
          split <;> exact hkeep rfl rfl rfl
      next => exact hkeep rfl rfl rfl
  | send =>
      simp only [advance, trySend]
      split
      next => exact hkeep rfl rfl rfl
      next =>
        split
        next => split <;> exact ⟨rfl, .inr ⟨rfl, rfl, rfl⟩⟩
        next => exact hkeep rfl rfl rfl
  | revertGeneration error =>
      simp only [advance, UploadQueue.dropTask]
      split <;> exact hkeep rfl rfl rfl
  | checkFile | statFile | hashFile len | checkCancelled | reserveTask | keepReceipt =>
      simp only [advance]
      split <;> exact hkeep rfl rfl rfl
  | reserveBytes | releaseBytes error | fetchGeneration | trackGeneration | revertPending error
  | revertBytes error => exact hkeep rfl rfl rfl

theorem UploadCall.advance_frame (call : UploadCall) (files : List String → Option (List UInt8))
    (clock : ℕ) (input : CallInput) (queue : UploadQueue) :
    CallFrame queue (call.advance files clock input queue).1 :=
  .of_fixed (call.advance_spec files clock input queue).1

/-- History is only ever added to. -/
theorem UploadCall.accepted_grows (call : UploadCall) (files : List String → Option (List UInt8))
    (clock : ℕ) (input : CallInput) (queue : UploadQueue) :
    queue.accepted <+: (call.advance files clock input queue).1.accepted := by
  rcases (call.advance_spec files clock input queue).2 with ⟨hsame, -⟩ | ⟨-, hsent, -⟩
  · rw [hsame]
  · rw [hsent]
    exact List.prefix_append _ _

/-- The two steps of a call that touch the generation maps. -/
def TracksAtMost (call : UploadCall) (queue queue' : UploadQueue) : Prop :=
  queue'.generations = queue.generations ∨
    (call.phase = .trackGeneration ∧
      queue'.generations = queue.generations.track call.task.key call.task.generation) ∨
    ∃ error, call.phase = .revertGeneration error ∧
      queue'.generations = queue.generations.untrack call.task.key call.task.generation

theorem UploadCall.advance_maps (call : UploadCall) (files : List String → Option (List UInt8))
    (clock : ℕ) (input : CallInput) (queue : UploadQueue) :
    TracksAtMost call queue (call.advance files clock input queue).1 := by
  obtain ⟨request, task, phase, snapshot, begun⟩ := call
  cases phase with
  | findReceipt =>
      simp only [advance]
      split
      next =>
        split
        next => exact .inl rfl
        next =>
          simp only [findReceipt]
          split <;> exact .inl rfl
      next => exact .inl rfl
  | send =>
      simp only [advance, trySend]
      split
      next => exact .inl rfl
      next =>
        split
        next => split <;> exact .inl rfl
        next => exact .inl rfl
  | trackGeneration => exact .inr (.inl ⟨rfl, rfl⟩)
  | revertGeneration error =>
      refine .inr (.inr ⟨error, rfl, ?_⟩)
      simp only [advance, UploadQueue.dropTask]
      split <;> rfl
  | checkFile | statFile | hashFile len | checkCancelled | reserveTask | keepReceipt =>
      simp only [advance]
      split <;> exact .inl rfl
  | reserveBytes | releaseBytes error | fetchGeneration | revertPending error
  | revertBytes error => exact .inl rfl

/-- What is left of a call is the call itself, one phase on; its generation is drawn
and its file is hashed on the way. -/
theorem UploadCall.advance_next {call next : UploadCall}
    {files : List String → Option (List UInt8)} {clock : ℕ} {input : CallInput}
    {queue : UploadQueue} (hnext : (call.advance files clock input queue).2 = some next) :
    next.request = call.request ∧ next.task.key = call.task.key ∧
      next.task.source = call.task.source ∧ next.begun = call.begun := by
  have hphase : ∀ {phase}, call.toPhase phase = some next →
      next.request = call.request ∧ next.task.key = call.task.key ∧
        next.task.source = call.task.source ∧ next.begun = call.begun := by
    intro phase hnext
    cases hnext
    exact ⟨rfl, rfl, rfl, rfl⟩
  obtain ⟨request, task, phase, snapshot, begun⟩ := call
  cases phase with
  | findReceipt =>
      simp only [advance] at hnext
      split at hnext
      next =>
        split at hnext
        next => exact hphase hnext
        next =>
          simp only [findReceipt] at hnext
          split at hnext
          next => cases hnext
          next => exact hphase hnext
      next => exact hphase hnext
  | send =>
      simp only [advance, trySend] at hnext
      split at hnext
      next => exact hphase hnext
      next =>
        split at hnext
        next =>
          split at hnext
          next => exact hphase hnext
          next => cases hnext
        next => exact hphase hnext
  | checkFile | checkCancelled =>
      simp only [advance] at hnext
      split at hnext
      · first | exact hphase hnext | cases hnext
      · first | exact hphase hnext | cases hnext
  | statFile =>
      simp only [advance] at hnext
      split at hnext
      next => exact hphase hnext
      next => cases hnext
  | hashFile len =>
      simp only [advance] at hnext
      split at hnext
      next =>
        cases hnext
        exact ⟨rfl, rfl, rfl, rfl⟩
      next => cases hnext
      next => cases hnext
  | reserveBytes | reserveTask =>
      simp only [advance] at hnext
      split at hnext <;> exact hphase hnext
  | fetchGeneration =>
      cases hnext
      exact ⟨rfl, rfl, rfl, rfl⟩
  | trackGeneration | revertPending error | revertBytes error => exact hphase hnext
  | releaseBytes error | revertGeneration error => cases hnext
  | keepReceipt =>
      simp only [advance] at hnext
      split at hnext <;> cases hnext

/-! ## The worker -/

/-- The fields that no step of the worker changes. -/
def UploadQueue.workerFixed (queue : UploadQueue) :=
  (queue.keyPrefix, queue.storageDir, queue.senderOpen, queue.fileReceipts,
    queue.fileReceiptsLocked, queue.nextGeneration, queue.accepted, queue.returned, queue.deleting,
    queue.cancelled, queue.deleted)

structure WorkerFrame (queue queue' : UploadQueue) : Prop where
  keyPrefix : queue'.keyPrefix = queue.keyPrefix
  storageDir : queue'.storageDir = queue.storageDir
  senderOpen : queue'.senderOpen = queue.senderOpen
  fileReceipts : queue'.fileReceipts = queue.fileReceipts
  fileReceiptsLocked : queue'.fileReceiptsLocked = queue.fileReceiptsLocked
  nextGeneration : queue'.nextGeneration = queue.nextGeneration
  accepted : queue'.accepted = queue.accepted
  returned : queue'.returned = queue.returned
  deleting : queue'.deleting = queue.deleting
  cancelled : queue'.cancelled = queue.cancelled
  deleted : queue'.deleted = queue.deleted

theorem WorkerFrame.of_fixed {queue queue' : UploadQueue}
    (hfixed : queue'.workerFixed = queue.workerFixed) : WorkerFrame queue queue' := by
  simp only [UploadQueue.workerFixed, Prod.mk.injEq] at hfixed
  obtain ⟨h₁, h₂, h₃, h₄, h₅, h₆, h₇, h₈, h₉, h₁₀, h₁₁⟩ := hfixed
  exact ⟨h₁, h₂, h₃, h₄, h₅, h₆, h₇, h₈, h₉, h₁₀, h₁₁⟩

/-- The one step that reports: the last of a settlement. -/
def ReportsAtMost (worker : UploadWorker) (queue queue' : UploadQueue) : Prop :=
  queue'.settled = queue.settled ∨
    ∃ task status delivered, worker.phase = .settle task status delivered .receipt ∧
      queue'.settled = queue.settled ++ [(task.toUploadWrite, status)]

/-- The one step that touches the generation maps: the third of a settlement. -/
def ReleasesAtMost (worker : UploadWorker) (queue queue' : UploadQueue) : Prop :=
  queue'.generations = queue.generations ∨
    ∃ task status delivered, worker.phase = .settle task status delivered .generations ∧
      queue'.generations = queue.generations.settle task.key task.generation delivered

theorem UploadWorker.step_spec (worker : UploadWorker) (queue : UploadQueue) (world : World)
    (clock : ℕ) (input : WorkerInput) :
    (worker.step queue world clock input).2.1.workerFixed = queue.workerFixed ∧
      ReportsAtMost worker queue (worker.step queue world clock input).2.1 ∧
      ReleasesAtMost worker queue (worker.step queue world clock input).2.1 := by
  have hkeep : ∀ {queue' : UploadQueue}, queue'.workerFixed = queue.workerFixed →
      queue'.settled = queue.settled → queue'.generations = queue.generations →
      queue'.workerFixed = queue.workerFixed ∧ ReportsAtMost worker queue queue' ∧
        ReleasesAtMost worker queue queue' :=
    fun hfixed hsettled hmaps => ⟨hfixed, .inl hsettled, .inl hmaps⟩
  unfold step
  cases hphase : worker.phase with
  | receive =>
      simp only [receive]
      repeat' split
      all_goals exact hkeep rfl rfl rfl
  | resolve task result =>
      cases result with
      | ok _ => exact hkeep rfl rfl rfl
      | error err =>
          simp only [resolve]
          repeat' split
          all_goals exact hkeep rfl rfl rfl
  | settle task status delivered stage =>
      cases stage with
      | receipt => exact ⟨rfl, .inr ⟨task, status, delivered, hphase, rfl⟩, .inl rfl⟩
      | generations => exact ⟨rfl, .inl rfl, .inr ⟨task, status, delivered, hphase, rfl⟩⟩
      | pending | bytes => exact hkeep rfl rfl rfl
  | scan | pushTombstones task keys | cleanUp task | answered task result | finished =>
      exact hkeep rfl rfl rfl
  | listTombstones task | checkSuperseded task | checkSource task | beginUpload task
  | readSource task path | put task body | stored task =>
      simp only
      repeat' split
      all_goals exact hkeep rfl rfl rfl

theorem UploadWorker.step_frame (worker : UploadWorker) (queue : UploadQueue) (world : World)
    (clock : ℕ) (input : WorkerInput) :
    WorkerFrame queue (worker.step queue world clock input).2.1 :=
  .of_fixed (worker.step_spec queue world clock input).1

theorem UploadWorker.settled_grows (worker : UploadWorker) (queue : UploadQueue) (world : World)
    (clock : ℕ) (input : WorkerInput) :
    queue.settled <+: (worker.step queue world clock input).2.1.settled := by
  rcases (worker.step_spec queue world clock input).2.1 with hsame | ⟨_, _, _, -, hreported⟩
  · rw [hsame]
  · rw [hreported]
    exact List.prefix_append _ _

/-! ## Deletions -/

/-- The fields that no step of a deletion changes. -/
def UploadQueue.deleteFixed (queue : UploadQueue) :=
  ({ queue with cancel := {}, cancelled := [], deleted := [] } : UploadQueue)

theorem DeleteCall.advance_fixed (call : DeleteCall) (clock : ℕ) (input : DeleteInput)
    (queue : UploadQueue) (world : World) :
    (call.advance clock input queue world).1.deleteFixed = queue.deleteFixed := by
  obtain ⟨target, phase⟩ := call
  cases phase with
  | pushPrefix => rfl
  | putTombstone | tombstoneStored | listKeys | deleteKeys keys =>
      simp only [advance]
      split <;> rfl
  | awaitInflight deadline =>
      simp only [advance]
      split
      next => split <;> rfl
      next => rfl

/-- Whatever is read off those fields stays as it is. -/
theorem DeleteCall.advance_field {α : Type} (field : UploadQueue → α)
    (hfield : ∀ queue, field queue.deleteFixed = field queue) (call : DeleteCall) (clock : ℕ)
    (input : DeleteInput) (queue : UploadQueue) (world : World) :
    field (call.advance clock input queue world).1 = field queue := by
  rw [← hfield, call.advance_fixed, hfield]

/-! ## The store -/

/-- What a step of the worker does to the store: nothing, the effect of its PUT, or the
clean-up of a cancelled key. -/
def StoresAtMost (worker : UploadWorker) (input : WorkerInput) (world world' : World) : Prop :=
  world' = world ∨
    (∃ task body, worker.phase = .put task body ∧ input.effect = .stored ∧
      world' = world.put task.key body (some task.generation)) ∨
    ∃ task, worker.phase = .cleanUp task ∧ world' = world.delete [task.key]

theorem UploadWorker.step_world (worker : UploadWorker) (queue : UploadQueue) (world : World)
    (clock : ℕ) (input : WorkerInput) :
    StoresAtMost worker input world (worker.step queue world clock input).2.2 := by
  unfold step
  cases hphase : worker.phase with
  | put task body =>
      simp only
      split
      next heffect => exact .inr (.inl ⟨task, body, hphase, heffect, rfl⟩)
      next => exact .inl rfl
  | cleanUp task =>
      simp only
      split
      next => exact .inr (.inr ⟨task, hphase, rfl⟩)
      next => exact .inl rfl
  | receive | scan | pushTombstones task keys | stored task | answered task result
  | resolve task result | settle task status delivered stage | finished => exact .inl rfl
  | listTombstones task | checkSuperseded task | checkSource task | beginUpload task
  | readSource task path =>
      simp only
      repeat' split
      all_goals exact .inl rfl

/-- What a step of a deletion does to the store: nothing, the effect of its tombstone, or
the removal of keys it has listed, all of them if it succeeds. -/
def ClearsAtMost (call : DeleteCall) (input : DeleteInput) (queue : UploadQueue)
    (world world' : World) : Prop :=
  world' = world ∨
    (call.phase = .putTombstone ∧ input.effect = .stored ∧
      world' = world.put (queue.tombstonePrefix ++ call.target)
        (MachineInt.utf8Bytes call.target) none) ∨
    ∃ keys removed, call.phase = .deleteKeys keys ∧ removed ⊆ keys ∧
      (input.answer = .ok () → removed = keys) ∧ world' = world.delete removed

theorem DeleteCall.advance_world (call : DeleteCall) (clock : ℕ) (input : DeleteInput)
    (queue : UploadQueue) (world : World) :
    ClearsAtMost call input queue world (call.advance clock input queue world).2.2 := by
  obtain ⟨target, phase⟩ := call
  cases phase with
  | pushPrefix => exact .inl rfl
  | putTombstone =>
      simp only [advance]
      split
      next heffect => exact .inr (.inl ⟨rfl, heffect, rfl⟩)
      next => exact .inl rfl
  | tombstoneStored | listKeys =>
      simp only [advance]
      split <;> exact .inl rfl
  | awaitInflight deadline =>
      simp only [advance]
      split
      next => split <;> exact .inl rfl
      next => exact .inl rfl
  | deleteKeys keys =>
      simp only [advance]
      split
      next => exact .inr (.inr ⟨keys, keys, rfl, List.Subset.refl _, fun _ => rfl, rfl⟩)
      next herror =>
        refine .inr (.inr ⟨keys, _, rfl, List.filter_subset_self _, ?_, rfl⟩)
        intro hok
        rw [hok] at herror
        cases herror

end DiscordTranscript.Infrastructure
