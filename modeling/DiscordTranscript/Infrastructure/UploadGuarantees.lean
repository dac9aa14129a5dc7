import Mathlib.Algebra.BigOperators.Group.Multiset.Basic
import DiscordTranscript.Infrastructure.UploadDrain

/-! # What the accounting of the upload queue guarantees

The ledger read from outside: the counters, the maps and the receipts are those of
the accepted writes that have not been settled and of the calls in progress; each
accepted write is settled once; a rejected call leaves no trace; a dropped queue
settles everything.
-/

namespace DiscordTranscript.Infrastructure

/-- The accepted writes whose settlement has not been completed. -/
def UploadQueue.unsettled (queue : UploadQueue) : List UploadWrite :=
  queue.acceptedWrites.filter fun write =>
    write.generation ∉ queue.settled.map (·.1.generation)

/-! ## What a settlement under way has given back -/

def UploadWorker.tasksGivenBack (worker : UploadWorker) : ℕ :=
  match worker.phase with
  | .settle _ _ _ .bytes | .settle _ _ _ .generations | .settle _ _ _ .receipt => 1
  | _ => 0

def UploadWorker.bytesGivenBack (worker : UploadWorker) : ℕ :=
  match worker.phase with
  | .settle task _ _ .generations | .settle task _ _ .receipt => task.countedBytes
  | _ => 0

def UploadWorker.generationGivenBack (worker : UploadWorker) : Option UploadWrite :=
  match worker.phase with
  | .settle task _ _ .receipt => some task.toUploadWrite
  | _ => none

/-- Exact accounting, in every state: a settlement under way and the calls in
progress are the only difference to the accepted writes not yet settled. -/
structure ExactAccounting (process : Process) : Prop where
  pending : process.uploads.pending + process.worker.tasksGivenBack =
    process.uploads.unsettled.length + (process.calls.map (·.stake.taskShare)).sum
  pendingBytes : process.uploads.pendingBytes + process.worker.bytesGivenBack =
    (process.uploads.unsettled.map (·.countedBytes)).sum +
      (process.calls.map (·.stake.byteShare)).sum
  pending_le : process.uploads.pending ≤ uploadMaxPendingTasks
  accepted_bytes_le : (process.uploads.unsettled.map (·.countedBytes)).sum ≤
    uploadMaxPendingBytes + process.worker.bytesGivenBack
  /-- Whatever a call or the worker has to give back is there to be subtracted. -/
  no_underflow : ∀ stake ∈ process.stakes,
    stake.taskShare ≤ process.uploads.pending ∧ stake.byteShare ≤ process.uploads.pendingBytes
  accepted_once : (process.uploads.acceptedWrites.map (·.generation)).Nodup
  settled_once : process.uploads.acceptedWrites.Perm
    (process.uploads.settled.map Prod.fst ++ process.uploads.unsettled)
  receipt_open : ∀ write ∈ process.uploads.unsettled,
    (process.uploads.receipts write.generation).isTerminal = false
  receipt_closed : ∀ entry ∈ process.uploads.settled,
    process.uploads.receipts entry.1.generation = entry.2 ∧ entry.2.isTerminal = true
  tracked : ∀ key generation, generation ∈ process.uploads.generations.tracked key ↔
    (∃ write ∈ process.uploads.unsettled, process.worker.generationGivenBack ≠ some write ∧
      write.key = key ∧ write.generation = generation) ∨
    ∃ call ∈ process.calls, call.stake.tracked = true ∧ call.task.key = key ∧
      call.task.generation = generation
  maps_empty : process.calls = [] → process.uploads.unsettled = [] →
    process.uploads.generations = {}

/-! ## The held writes -/

theorem Balanced.unsettled_eq {queue : UploadQueue} {stakes : Multiset Stake}
    (hbalanced : Balanced queue stakes) :
    (queue.unsettled : Multiset UploadWrite) = acceptedStakes stakes := by
  have hnodup := hbalanced.generations.drawn_nodup
  have hsettled : Multiset.filter
      (fun write : UploadWrite => write.generation ∉ queue.settled.map (·.1.generation))
      ↑(queue.settled.map Prod.fst) = 0 := by
    rw [Multiset.filter_eq_nil]
    intro write hwrite hnot
    obtain ⟨entry, hentry, rfl⟩ := List.mem_map.mp (Multiset.mem_coe.mp hwrite)
    exact hnot (List.mem_map.mpr ⟨entry, hentry, rfl⟩)
  have hheld : Multiset.filter
      (fun write : UploadWrite => write.generation ∉ queue.settled.map (·.1.generation))
      (acceptedStakes stakes) = acceptedStakes stakes := by
    rw [Multiset.filter_eq_self]
    intro write hwrite hmem
    obtain ⟨stake, hstake, rfl⟩ := Multiset.mem_map.mp hwrite
    obtain ⟨hstake, haccepted⟩ := Multiset.mem_filter.mp hstake
    have hnumbered := (hbalanced.ordered stake hstake).numbered_of_accepted haccepted
    rw [drawnGenerations, Multiset.nodup_add] at hnodup
    refine Multiset.disjoint_left.mp hnodup.2.2 ?_ (Multiset.mem_coe.mpr hmem)
    exact Multiset.mem_map_of_mem _ (Multiset.mem_filter.mpr ⟨hstake, hnumbered⟩)
  rw [UploadQueue.unsettled, ← Multiset.filter_coe, hbalanced.history.accepted,
    Multiset.filter_add, hsettled, hheld, zero_add]

theorem acceptedStakes_add (left right : Multiset Stake) :
    acceptedStakes (left + right) = acceptedStakes left + acceptedStakes right := by
  simp [acceptedStakes]

@[simp] theorem acceptedStakes_zero : acceptedStakes 0 = 0 := rfl

theorem acceptedStakes_singleton {stake : Stake} (haccepted : stake.accepted = true) :
    acceptedStakes {stake} = {stake.write} := by
  rw [acceptedStakes, Multiset.filter_singleton, if_pos haccepted, Multiset.map_singleton]

theorem acceptedStakes_callStakes (calls : List UploadCall) :
    acceptedStakes (callStakes calls) = 0 := by
  rw [acceptedStakes, Multiset.map_eq_zero, Multiset.filter_eq_nil]
  intro stake hstake haccepted
  obtain ⟨call, hcall, rfl⟩ := List.mem_map.mp (Multiset.mem_coe.mp hstake)
  unfold UploadCall.stake at haccepted
  split at haccepted <;> cases haccepted

theorem acceptedStakes_queuedStakes (tasks : List UploadTask) :
    acceptedStakes (queuedStakes tasks) = ↑(tasks.map (·.toUploadWrite)) := by
  induction tasks with
  | nil => rfl
  | cons task tasks ih =>
      rw [queuedStakes_cons, ← Multiset.singleton_add, acceptedStakes_add, ih]
      rfl

theorem sum_queuedStakes (share : Stake → ℕ) (tasks : List UploadTask) :
    ((queuedStakes tasks).map share).sum =
      (tasks.map fun task => share task.toUploadWrite.stake).sum := by
  simp [queuedStakes, Function.comp_def]

/-- The tasks in the channel and in the worker's lists. -/
def Process.queued (process : Process) : List UploadTask :=
  process.uploads.channel ++ process.worker.skipped ++ process.worker.rest

theorem Process.stakes_eq (process : Process) :
    process.stakes = callStakes process.calls + queuedStakes process.queued +
      heldStake process.worker.phase.stake := by
  rw [Process.stakes, queued, queuedStakes_append, queuedStakes_append, UploadWorker.stakes]
  abel

/-- What the hand still holds and what it has given back make up its write. -/
theorem UploadWorker.hand_shares (worker : UploadWorker) :
    ((heldStake worker.phase.stake).map Stake.taskShare).sum + worker.tasksGivenBack =
        (acceptedStakes (heldStake worker.phase.stake)).card ∧
      ((heldStake worker.phase.stake).map Stake.byteShare).sum + worker.bytesGivenBack =
        ((acceptedStakes (heldStake worker.phase.stake)).map (·.countedBytes)).sum ∧
      ((heldStake worker.phase.stake).map Stake.checkedShare).sum + worker.bytesGivenBack =
        ((acceptedStakes (heldStake worker.phase.stake)).map (·.countedBytes)).sum := by
  unfold tasksGivenBack bytesGivenBack
  cases worker.phase with
  | receive | scan | finished => exact ⟨rfl, rfl, rfl⟩
  | settle task status delivered stage =>
      cases stage <;>
        simp [WorkerPhase.stake, SettleStage.stake, UploadWrite.stake, acceptedStakes_singleton,
          Stake.taskShare, Stake.byteShare, Stake.checkedShare]
  | listTombstones task | pushTombstones task keys | checkSuperseded task | checkSource task
  | beginUpload task | cleanUp task | readSource task path | put task body | stored task
  | answered task result | resolve task result =>
      simp [WorkerPhase.stake, UploadWrite.stake, acceptedStakes_singleton, Stake.taskShare,
        Stake.byteShare, Stake.checkedShare]

/-- The stakes of the hand that still track their generation. -/
theorem UploadWorker.hand_tracked (worker : UploadWorker) (write : UploadWrite) :
    (∃ stake ∈ heldStake worker.phase.stake, stake.tracked = true ∧ write = stake.write) ↔
      write ∈ acceptedStakes (heldStake worker.phase.stake) ∧
        worker.generationGivenBack ≠ some write := by
  unfold generationGivenBack
  cases worker.phase with
  | receive | scan | finished => simp [WorkerPhase.stake]
  | settle task status delivered stage =>
      cases stage with
      | receipt =>
          simp [WorkerPhase.stake, SettleStage.stake, acceptedStakes_singleton]
          exact Eq.symm
      | pending | bytes | generations =>
          simp [WorkerPhase.stake, SettleStage.stake, UploadWrite.stake, acceptedStakes_singleton]
  | listTombstones task | pushTombstones task keys | checkSuperseded task | checkSource task
  | beginUpload task | cleanUp task | readSource task path | put task body | stored task
  | answered task result | resolve task result =>
      simp [WorkerPhase.stake, UploadWrite.stake, acceptedStakes_singleton]

/-! ## Exact accounting -/

section

variable {process : Process}

theorem Accounted.unsettled_eq (haccounted : Accounted process) :
    (process.uploads.unsettled : Multiset UploadWrite) =
      ↑(process.queued.map (·.toUploadWrite)) +
        acceptedStakes (heldStake process.worker.phase.stake) := by
  rw [haccounted.balanced.unsettled_eq, process.stakes_eq, acceptedStakes_add, acceptedStakes_add,
    acceptedStakes_callStakes, acceptedStakes_queuedStakes, zero_add]

theorem Accounted.sum_stakes (process : Process) (share : Stake → ℕ) :
    (process.stakes.map share).sum = (process.calls.map fun call => share call.stake).sum +
      (process.queued.map fun task => share task.toUploadWrite.stake).sum +
      ((heldStake process.worker.phase.stake).map share).sum := by
  rw [process.stakes_eq, Multiset.map_add, Multiset.map_add, Multiset.sum_add, Multiset.sum_add,
    sum_queuedStakes]
  simp [callStakes, Function.comp_def]

theorem Accounted.unsettled_length (haccounted : Accounted process) :
    process.uploads.unsettled.length = process.queued.length +
      (acceptedStakes (heldStake process.worker.phase.stake)).card := by
  rw [← Multiset.coe_card, haccounted.unsettled_eq, Multiset.card_add, Multiset.coe_card,
    List.length_map]

theorem Accounted.unsettled_bytes (haccounted : Accounted process) :
    (process.uploads.unsettled.map (·.countedBytes)).sum =
      (process.queued.map (·.countedBytes)).sum +
        ((acceptedStakes (heldStake process.worker.phase.stake)).map (·.countedBytes)).sum := by
  rw [← Multiset.sum_coe, ← Multiset.map_coe, haccounted.unsettled_eq, Multiset.map_add,
    Multiset.sum_add, Multiset.map_coe, Multiset.sum_coe, List.map_map]
  rfl

theorem Balanced.accepted_le_drawn {queue : UploadQueue} {stakes : Multiset Stake}
    (hbalanced : Balanced queue stakes) :
    (queue.acceptedWrites.map (·.generation) : Multiset ℕ) ≤ drawnGenerations queue stakes := by
  have hnumbered : stakes.filter (·.accepted) ≤ stakes.filter (·.numbered) := by
    have hboth : stakes.filter (·.accepted) = (stakes.filter (·.numbered)).filter (·.accepted) := by
      rw [Multiset.filter_filter]
      apply Multiset.filter_congr
      intro stake hstake
      exact ⟨fun haccepted =>
        ⟨haccepted, (hbalanced.ordered stake hstake).numbered_of_accepted haccepted⟩, And.left⟩
    rw [hboth]
    exact Multiset.filter_le _ _
  rw [← Multiset.map_coe, hbalanced.history.accepted, Multiset.map_add, drawnGenerations,
    add_comm, Multiset.map_coe, List.map_map, acceptedStakes, Multiset.map_map]
  exact add_le_add (Multiset.map_le_map hnumbered) le_rfl

theorem Balanced.accepted_nodup {queue : UploadQueue} {stakes : Multiset Stake}
    (hbalanced : Balanced queue stakes) : (queue.acceptedWrites.map (·.generation)).Nodup :=
  Multiset.coe_nodup.mp
    (Multiset.nodup_of_le hbalanced.accepted_le_drawn hbalanced.generations.drawn_nodup)

/-- No write is both queued and in the worker's hand. -/
theorem Accounted.hand_not_queued (haccounted : Accounted process) {write : UploadWrite}
    (hhand : write ∈ acceptedStakes (heldStake process.worker.phase.stake)) :
    write ∉ process.queued.map (·.toUploadWrite) := by
  intro hqueued
  have hnodup : (process.uploads.unsettled : Multiset UploadWrite).Nodup := by
    rw [Multiset.coe_nodup]
    exact (List.Nodup.of_map _ haccounted.balanced.accepted_nodup).filter _
  rw [haccounted.unsettled_eq, Multiset.nodup_add] at hnodup
  exact Multiset.disjoint_left.mp hnodup.2.2 (Multiset.mem_coe.mpr hqueued) hhand

theorem UploadWorker.hand_of_givenBack {worker : UploadWorker} {write : UploadWrite}
    (hback : worker.generationGivenBack = some write) :
    write ∈ acceptedStakes (heldStake worker.phase.stake) := by
  unfold generationGivenBack at hback
  split at hback
  next hphase =>
    cases hback
    simp [hphase, WorkerPhase.stake, SettleStage.stake, acceptedStakes_singleton]
  next => cases hback

theorem Accounted.tracked_iff (haccounted : Accounted process) (key : String) (generation : ℕ) :
    generation ∈ process.uploads.generations.tracked key ↔
      (∃ write ∈ process.uploads.unsettled, process.worker.generationGivenBack ≠ some write ∧
        write.key = key ∧ write.generation = generation) ∨
      ∃ call ∈ process.calls, call.stake.tracked = true ∧ call.task.key = key ∧
        call.task.generation = generation := by
  have hcallWrite : ∀ call : UploadCall, call.stake.write = call.task.toUploadWrite := by
    intro call
    unfold UploadCall.stake
    split <;> rfl
  have hmem : ∀ write, write ∈ process.uploads.unsettled ↔
      (∃ task ∈ process.queued, task.toUploadWrite = write) ∨
        write ∈ acceptedStakes (heldStake process.worker.phase.stake) := by
    intro write
    rw [← Multiset.mem_coe, haccounted.unsettled_eq, Multiset.mem_add, Multiset.mem_coe,
      List.mem_map]
  rw [haccounted.balanced.generations.tracked, process.stakes_eq]
  simp only [Multiset.mem_add, callStakes, queuedStakes, Multiset.mem_coe, List.mem_map]
  constructor
  · rintro ⟨stake, (⟨call, hcall, rfl⟩ | ⟨task, htask, rfl⟩) | hheld, htracked, hkey, hgeneration⟩
    · rw [hcallWrite] at hkey hgeneration
      exact .inr ⟨call, hcall, htracked, hkey, hgeneration⟩
    · refine .inl ⟨task.toUploadWrite, (hmem _).mpr (.inl ⟨task, htask, rfl⟩), ?_, hkey, hgeneration⟩
      intro hback
      exact haccounted.hand_not_queued (UploadWorker.hand_of_givenBack hback)
        (List.mem_map.mpr ⟨task, htask, rfl⟩)
    · obtain ⟨hhand, hback⟩ :=
        (process.worker.hand_tracked stake.write).mp ⟨stake, hheld, htracked, rfl⟩
      exact .inl ⟨stake.write, (hmem _).mpr (.inr hhand), hback, hkey, hgeneration⟩
  · rintro (⟨write, hwrite, hback, hkey, hgeneration⟩ | ⟨call, hcall, htracked, hkey, hgeneration⟩)
    · rcases (hmem write).mp hwrite with ⟨task, htask, rfl⟩ | hhand
      · exact ⟨_, .inl (.inr ⟨task, htask, rfl⟩), rfl, hkey, hgeneration⟩
      · obtain ⟨stake, hheld, htracked, rfl⟩ :=
          (process.worker.hand_tracked write).mpr ⟨hhand, hback⟩
        exact ⟨stake, .inr hheld, htracked, hkey, hgeneration⟩
    · refine ⟨_, .inl (.inl ⟨call, hcall, rfl⟩), htracked, ?_, ?_⟩
      · rw [hcallWrite]
        exact hkey
      · rw [hcallWrite]
        exact hgeneration

theorem Accounted.exact (haccounted : Accounted process) : ExactAccounting process := by
  have hbalanced := haccounted.balanced
  obtain ⟨htasks, hbytes, hchecked⟩ := process.worker.hand_shares
  have hqueued : (process.queued.map fun task => task.toUploadWrite.stake.taskShare).sum =
      process.queued.length := by
    simp [UploadWrite.stake, Stake.taskShare]
  refine ⟨?_, ?_, hbalanced.counters.pending_le, ?_, ?_, hbalanced.accepted_nodup, ?_, ?_,
    hbalanced.history.receipt_closed, haccounted.tracked_iff, ?_⟩
  · rw [hbalanced.counters.pending, sum_stakes, haccounted.unsettled_length, hqueued]
    omega
  · rw [hbalanced.counters.pendingBytes, sum_stakes, haccounted.unsettled_bytes]
    simp only [UploadWrite.stake, Stake.byteShare, if_true] at hbytes ⊢
    omega
  · have hle := hbalanced.counters.checked_le
    rw [sum_stakes] at hle
    rw [haccounted.unsettled_bytes]
    simp only [UploadWrite.stake, Stake.checkedShare, if_true] at hchecked hle
    omega
  · intro stake hstake
    obtain ⟨rest, hrest⟩ := Multiset.exists_cons_of_mem hstake
    rw [hrest] at hbalanced
    exact ⟨hbalanced.taskShare_le, hbalanced.byteShare_le⟩
  · rw [← Multiset.coe_eq_coe, ← Multiset.coe_add, hbalanced.unsettled_eq]
    exact hbalanced.history.accepted
  · intro write hwrite
    rw [← Multiset.mem_coe, hbalanced.unsettled_eq, acceptedStakes, Multiset.mem_map] at hwrite
    obtain ⟨stake, hstake, rfl⟩ := hwrite
    obtain ⟨hstake, haccepted⟩ := Multiset.mem_filter.mp hstake
    exact hbalanced.history.receipt_open stake hstake
      ((hbalanced.ordered stake hstake).numbered_of_accepted haccepted)
  · intro hcalls hunsettled
    apply hbalanced.generations.collected.maps_empty
    intro key
    rw [Finset.eq_empty_iff_forall_notMem]
    intro generation hgeneration
    rw [haccounted.tracked_iff, hcalls, hunsettled] at hgeneration
    simp at hgeneration

end

/-! ## A rejected call -/

/-- The call from here to its end, with no other step in between. -/
def UploadCall.runAlone (files : List String → Option (List UInt8)) (clock : ℕ) :
    List CallInput → UploadCall → UploadQueue → UploadQueue × Option UploadCall
  | [], call, queue => (queue, some call)
  | input :: inputs, call, queue =>
      match call.advance files clock input queue with
      | (queue, some next) => runAlone files clock inputs next queue
      | (queue, none) => (queue, none)

/-- The queue differs from `base` by what the call has taken. -/
structure Borrowed (base queue : UploadQueue) (call : UploadCall) : Prop where
  pending : queue.pending = base.pending + call.stake.taskShare
  pendingBytes : queue.pendingBytes = base.pendingBytes + call.stake.byteShare
  generations : queue.generations =
    if call.stake.tracked then base.generations.track call.task.key call.task.generation
    else base.generations
  next_le : base.nextGeneration ≤ queue.nextGeneration
  drawn_le : call.stake.numbered = true → base.nextGeneration ≤ call.task.generation

/-- The queue holds what it held in `base`. -/
def Restored (base queue : UploadQueue) : Prop :=
  queue.pending = base.pending ∧ queue.pendingBytes = base.pendingBytes ∧
    queue.generations = base.generations

/-- What a step of a call leads to while the queue has not accepted its task. -/
def BorrowedStep (base : UploadQueue) (after : UploadQueue × Option UploadCall) : Prop :=
  base.accepted.length < after.1.accepted.length ∨
    match after.2 with
    | some next => Borrowed base after.1 next
    | none => Restored base after.1

section

variable {base queue : UploadQueue} {call : UploadCall}

theorem Borrowed.advance (hborrowed : Borrowed base queue call) (hcollected : base.generations.Collected)
    (hlt : ∀ key, ∀ generation ∈ base.generations.tracked key, generation < base.nextGeneration)
    (haccepted : base.accepted.length ≤ queue.accepted.length)
    (files : List String → Option (List UInt8)) (clock : ℕ) (input : CallInput) :
    BorrowedStep base (call.advance files clock input queue) := by
  obtain ⟨request, task, phase, snapshot, begun⟩ := call
  obtain ⟨hpending, hbytes, hmaps, hnext, hdrawn⟩ := hborrowed
  have hidle : ∀ {queue' : UploadQueue}, queue'.pending = queue.pending →
      queue'.pendingBytes = queue.pendingBytes → queue'.generations = queue.generations →
      UploadCall.stake ⟨request, task, phase, snapshot, begun⟩ = { write := task.toUploadWrite } →
      Restored base queue' := by
    intro queue' hpending' hbytes' hmaps' hstake
    rw [hstake] at hpending hbytes hmaps
    exact ⟨hpending'.trans hpending, hbytes'.trans hbytes, hmaps'.trans hmaps⟩
  cases phase with
  | checkFile =>
      simp only [UploadCall.advance]
      split
      next => exact .inr ⟨hpending, hbytes, hmaps, hnext, hdrawn⟩
      next => exact .inr (hidle rfl rfl rfl rfl)
  | statFile =>
      simp only [UploadCall.advance]
      split
      next => exact .inr ⟨hpending, hbytes, hmaps, hnext, hdrawn⟩
      next => exact .inr (hidle rfl rfl rfl rfl)
  | hashFile len =>
      simp only [UploadCall.advance]
      split
      next => exact .inr ⟨hpending, hbytes, hmaps, hnext, hdrawn⟩
      next => exact .inr (hidle rfl rfl rfl rfl)
      next => exact .inr (hidle rfl rfl rfl rfl)
  | findReceipt =>
      simp only [UploadCall.advance]
      split
      next =>
        split
        next => exact .inr ⟨hpending, hbytes, hmaps, hnext, hdrawn⟩
        next =>
          simp only [UploadCall.findReceipt]
          split
          next => exact .inr (hidle rfl rfl rfl rfl)
          next => exact .inr ⟨hpending, hbytes, hmaps, hnext, hdrawn⟩
      next => exact .inr ⟨hpending, hbytes, hmaps, hnext, hdrawn⟩
  | checkCancelled =>
      simp only [UploadCall.advance]
      split
      next => exact .inr (hidle rfl rfl rfl rfl)
      next => exact .inr ⟨hpending, hbytes, hmaps, hnext, hdrawn⟩
  | reserveBytes =>
      have hused : queue.pendingBytes + task.countedBytes =
          base.pendingBytes + task.countedBytes := by
        rw [hbytes]
        rfl
      simp only [UploadCall.advance]
      split
      next => exact .inr ⟨hpending, hused, hmaps, hnext, hdrawn⟩
      next => exact .inr ⟨hpending, hused, hmaps, hnext, hdrawn⟩
  | releaseBytes error =>
      refine .inr ⟨hpending, ?_, hmaps⟩
      change queue.pendingBytes - task.countedBytes = base.pendingBytes
      rw [hbytes]
      exact Nat.add_sub_cancel _ _
  | reserveTask =>
      simp only [UploadCall.advance]
      split
      next => exact .inr ⟨congrArg (· + 1) hpending, hbytes, hmaps, hnext, hdrawn⟩
      next => exact .inr ⟨hpending, hbytes, hmaps, hnext, hdrawn⟩
  | fetchGeneration =>
      exact .inr ⟨hpending, hbytes, hmaps, Nat.le_succ_of_le hnext, fun _ => hnext⟩
  | trackGeneration =>
      refine .inr ⟨hpending, hbytes, ?_, hnext, hdrawn⟩
      change queue.generations.track task.key task.generation =
        base.generations.track task.key task.generation
      rw [hmaps]
      rfl
  | send =>
      simp only [UploadCall.advance, UploadCall.trySend]
      split
      next => exact .inr ⟨hpending, hbytes, hmaps, hnext, hdrawn⟩
      next =>
        split
        next =>
          refine .inl ?_
          split <;> simp [UploadQueue.finish] <;> omega
        next => exact .inr ⟨hpending, hbytes, hmaps, hnext, hdrawn⟩
  | revertPending error =>
      refine .inr ⟨?_, hbytes, hmaps, hnext, hdrawn⟩
      change queue.pending - 1 = base.pending
      rw [hpending]
      exact Nat.add_sub_cancel _ _
  | revertBytes error =>
      refine .inr ⟨hpending, ?_, hmaps, hnext, hdrawn⟩
      change queue.pendingBytes - task.countedBytes = base.pendingBytes
      rw [hbytes]
      exact Nat.add_sub_cancel _ _
  | revertGeneration error =>
      have hfresh : task.generation ∉ base.generations.tracked task.key := fun hmem =>
        absurd (hlt task.key _ hmem) (Nat.not_lt_of_le (hdrawn rfl))
      have hmaps' : queue.generations.untrack task.key task.generation = base.generations := by
        rw [hmaps]
        exact hcollected.untrack_track hfresh
      have hdrop : ∀ queue : UploadQueue, Restored queue (queue.dropTask task) := by
        intro queue
        unfold UploadQueue.dropTask
        split <;> exact ⟨rfl, rfl, rfl⟩
      obtain ⟨hdropped, hdroppedBytes, hdroppedMaps⟩ := hdrop
        { queue with generations := queue.generations.untrack task.key task.generation }
      exact .inr ⟨hdropped.trans hpending, hdroppedBytes.trans hbytes, hdroppedMaps.trans hmaps'⟩
  | keepReceipt =>
      simp only [UploadCall.advance]
      split <;> exact .inr (hidle rfl rfl rfl rfl)

theorem UploadCall.runAlone_accepted_le (files : List String → Option (List UInt8)) (clock : ℕ)
    (inputs : List CallInput) (call : UploadCall) (queue : UploadQueue) :
    queue.accepted.length ≤ (call.runAlone files clock inputs queue).1.accepted.length := by
  induction inputs generalizing call queue with
  | nil => exact le_rfl
  | cons input inputs ih =>
      have hgrows := (call.accepted_grows files clock input queue).length_le
      unfold runAlone
      split
      next hadvance =>
        rw [hadvance] at hgrows
        exact le_trans hgrows (ih _ _)
      next hadvance =>
        rw [hadvance] at hgrows
        exact hgrows

theorem Borrowed.runAlone (hborrowed : Borrowed base queue call)
    (hcollected : base.generations.Collected)
    (hlt : ∀ key, ∀ generation ∈ base.generations.tracked key, generation < base.nextGeneration)
    (haccepted : base.accepted.length ≤ queue.accepted.length)
    (files : List String → Option (List UInt8)) (clock : ℕ) (inputs : List CallInput) :
    BorrowedStep base (call.runAlone files clock inputs queue) := by
  induction inputs generalizing call queue with
  | nil => exact .inr hborrowed
  | cons input inputs ih =>
      have hstep := hborrowed.advance hcollected hlt haccepted files clock input
      have hgrows := (call.accepted_grows files clock input queue).length_le
      unfold UploadCall.runAlone
      split
      next queue' next hadvance =>
        rw [hadvance] at hstep hgrows
        rcases hstep with hmore | hstep
        · exact .inl (lt_of_lt_of_le hmore
            (next.runAlone_accepted_le files clock inputs queue'))
        · exact ih hstep (le_trans haccepted hgrows)
      next queue' hadvance =>
        rw [hadvance] at hstep
        exact hstep

end

/-- A call that has just begun and ends without its task being accepted. -/
theorem Accounted.rejected_call {process : Process} (haccounted : Accounted process)
    {call : UploadCall} (hphase : call.phase = .checkFile ∨ call.phase = .checkCancelled)
    (files : List String → Option (List UInt8)) (clock : ℕ) (inputs : List CallInput)
    (hend : (call.runAlone files clock inputs process.uploads).2 = none)
    (hrejected : (call.runAlone files clock inputs process.uploads).1.accepted =
      process.uploads.accepted) :
    Restored process.uploads (call.runAlone files clock inputs process.uploads).1 := by
  have hgenerations := haccounted.balanced.generations
  have hstake : call.stake = { write := call.task.toUploadWrite } := by
    rcases hphase with hphase | hphase <;> simp [UploadCall.stake, hphase]
  have hborrowed : Borrowed process.uploads process.uploads call := by
    constructor <;> simp [hstake, Stake.taskShare, Stake.byteShare]
  have hlt : ∀ key, ∀ generation ∈ process.uploads.generations.tracked key,
      generation < process.uploads.nextGeneration := by
    intro key generation hgeneration
    obtain ⟨stake, hmem, htracked, -, rfl⟩ := (hgenerations.tracked key generation).mp hgeneration
    apply hgenerations.drawn_lt
    rw [drawnGenerations, Multiset.mem_add]
    exact .inl (Multiset.mem_map_of_mem _ (Multiset.mem_filter.mpr
      ⟨hmem, (haccounted.balanced.ordered stake hmem).numbered_of_tracked htracked⟩))
  have hstep := hborrowed.runAlone hgenerations.collected hlt le_rfl files clock inputs
  unfold BorrowedStep at hstep
  rw [hend, hrejected] at hstep
  exact hstep.resolve_left (lt_irrefl _)

/-! ## Whole runs -/

theorem Site.settled_grows (site : Site) (input : ProcessInput) :
    site.process.uploads.settled <+: (site.step input).process.uploads.settled := by
  have hkeep : site.process.uploads.settled <+: site.process.uploads.settled := List.prefix_rfl
  cases input with
  | begin request =>
      simp only [Site.step, Process.step]
      split
      next =>
        cases request <;> simp only [Process.beginCall] <;> split <;> exact hkeep
      next => exact hkeep
  | call index input =>
      simp only [Site.step, Process.step]
      split
      next call _ =>
        rw [(call.advance_frame site.world.files site.process.clock input _).settled]
      next => exact hkeep
  | work input => exact site.process.worker.settled_grows _ _ _ _
  | delete index input =>
      simp only [Site.step, Process.step]
      split
      next call _ =>
        rw [call.advance_field UploadQueue.settled (fun _ => rfl)]
      next => exact hkeep
  | beginDelete target | close =>
      simp only [Site.step, Process.step]
      split <;> exact hkeep
  | edit path content => exact hkeep
  | tick elapsed => exact hkeep

theorem finished_unsettled {process : Process} (haccounted : Accounted process)
    (horderly : Orderly process) (hphase : process.worker.phase = .finished) :
    process.uploads.unsettled = [] := by
  obtain ⟨hdisconnected, hskipped, hrest⟩ := horderly.finished hphase
  obtain ⟨-, hchannel⟩ := horderly.closed_of_disconnected hdisconnected
  have hlength := haccounted.unsettled_length
  rw [Process.queued, hskipped, hrest, hchannel, hphase] at hlength
  exact List.eq_nil_of_length_eq_zero hlength

theorem run_accounted (keyPrefix : String) (storageDir : List String)
    (objects : AList (fun _ : String => List UInt8)) (files : List String → Option (List UInt8))
    (inputs : List ProcessInput) :
    Accounted (Machine.run Site.step (.new keyPrefix storageDir objects files) inputs).process :=
  Machine.run_invariant Site.step (fun site => Accounted site.process) Site.step_accounted
    (Accounted.new keyPrefix storageDir) inputs

theorem Site.step_orderly (site : Site) (input : ProcessInput) (horderly : Orderly site.process) :
    Orderly (site.step input).process :=
  (horderly.step site.world input).congr rfl le_rfl
    (horderly.step site.world input).calls_of_closed fun hopen => ⟨hopen, rfl⟩

/-- The accounting of the queue is exact in every state of every run: settlements are
final, a call that is rejected with no other step in between leaves the counters and
the maps as they were, and once the queue is dropped the worker ends, after finitely
many of its own steps whatever happens meanwhile, with every accepted write settled. -/
theorem upload_queue_accounting (keyPrefix : String) (storageDir : List String)
    (objects : AList (fun _ : String => List UInt8)) (files : List String → Option (List UInt8))
    (inputs : List ProcessInput) :
    let site := Machine.run Site.step (.new keyPrefix storageDir objects files) inputs
    ExactAccounting site.process ∧
      (∀ more, site.process.uploads.settled <+:
        (Machine.run Site.step site more).process.uploads.settled) ∧
      (∀ call ∈ site.process.calls, call.phase = .checkFile ∨ call.phase = .checkCancelled →
        ∀ files clock answers,
          let after := call.runAlone files clock answers site.process.uploads
          after.2 = none → after.1.accepted = site.process.uploads.accepted →
            Restored site.process.uploads after.1) ∧
      (site.process.uploads.senderOpen = false → ∃ bound, ∀ more : List ProcessInput,
        bound ≤ more.countP ProcessInput.isWork →
          (Machine.run Site.step site more).process.worker.phase = .finished ∧
            (Machine.run Site.step site more).process.uploads.unsettled = []) := by
  intro site
  have haccounted : Accounted site.process :=
    run_accounted keyPrefix storageDir objects files inputs
  have horderly : Orderly site.process :=
    Machine.run_invariant Site.step (fun site => Orderly site.process) Site.step_orderly
      (Orderly.new keyPrefix storageDir) inputs
  refine ⟨haccounted.exact, ?_, ?_, ?_⟩
  · intro more
    refine Machine.run_invariant Site.step
      (fun later => site.process.uploads.settled <+: later.process.uploads.settled) ?_
      List.prefix_rfl more
    exact fun later input hgrows => hgrows.trans (later.settled_grows input)
  · intro call _ hphase files clock answers after hend hrejected
    exact haccounted.rejected_call hphase files clock answers hend hrejected
  · intro hclosed
    refine ⟨site.process.worker.stepsLeft site.process.uploads, fun more henough => ?_⟩
    have hfinished := worker_finishes ⟨horderly, hclosed⟩ henough
    refine ⟨hfinished, finished_unsettled ?_ ?_ hfinished⟩
    · exact Machine.run_invariant Site.step (fun site => Accounted site.process)
        Site.step_accounted haccounted more
    · exact Machine.run_invariant Site.step (fun site => Orderly site.process) Site.step_orderly
        horderly more

end DiscordTranscript.Infrastructure
