import Mathlib.Tactic.Abel
import DiscordTranscript.Foundation.Runs
import DiscordTranscript.Infrastructure.UploadFrames
import DiscordTranscript.Infrastructure.UploadLedger

/-! # The upload queue keeps its ledger

Where each task stands says what it has taken from the queue: the phase of the call
that brings it, its place in the channel or in the worker's lists, the stage of its
settlement. Every step of a call, of the worker and of a deletion is a move of the
ledger, so the ledger is balanced in every reachable state.
-/

namespace DiscordTranscript.Infrastructure

open Slots

/-! ## Who holds what -/

def UploadCall.stake (call : UploadCall) : Stake :=
  let idle : Stake := { write := call.task.toUploadWrite }
  match call.phase with
  | .releaseBytes _ => { idle with bytes := true }
  | .reserveTask => { idle with bytes := true, checked := true }
  | .fetchGeneration => { idle with bytes := true, checked := true, task := true }
  | .trackGeneration => { idle with bytes := true, checked := true, task := true, numbered := true }
  | .send | .revertPending _ =>
      { idle with bytes := true, checked := true, task := true, numbered := true, tracked := true }
  | .revertBytes _ => { idle with bytes := true, checked := true, numbered := true, tracked := true }
  | .revertGeneration _ => { idle with numbered := true, tracked := true }
  | .checkFile | .statFile | .hashFile _ | .findReceipt | .checkCancelled | .reserveBytes
  | .keepReceipt => idle

def UploadWrite.stake (write : UploadWrite) : Stake :=
  { write := write
    task := true
    bytes := true
    checked := true
    numbered := true
    tracked := true
    accepted := true }

/-- What a write still has to give back at a stage of its settlement. -/
def SettleStage.stake (write : UploadWrite) : SettleStage → Stake
  | .pending => write.stake
  | .bytes => { write.stake with task := false }
  | .generations => { write.stake with task := false, bytes := false, checked := false }
  | .receipt => { write := write, numbered := true, accepted := true }

/-- The task in the worker's hand. -/
def WorkerPhase.stake : WorkerPhase → Option Stake
  | .receive | .scan | .finished => none
  | .listTombstones task | .pushTombstones task _ | .checkSuperseded task | .checkSource task
  | .beginUpload task | .cleanUp task | .readSource task _ | .put task _ | .stored task
  | .answered task _ | .resolve task _ => some task.toUploadWrite.stake
  | .settle task _ _ stage => some (stage.stake task.toUploadWrite)

def queuedStakes (tasks : List UploadTask) : Multiset Stake :=
  ↑(tasks.map (·.toUploadWrite.stake))

def heldStake (stake : Option Stake) : Multiset Stake := ↑stake.toList

def UploadWorker.stakes (worker : UploadWorker) : Multiset Stake :=
  queuedStakes worker.skipped + queuedStakes worker.rest + heldStake worker.phase.stake

def callStakes (calls : List UploadCall) : Multiset Stake := ↑(calls.map UploadCall.stake)

def Process.stakes (process : Process) : Multiset Stake :=
  callStakes process.calls + queuedStakes process.uploads.channel + process.worker.stakes

@[simp] theorem queuedStakes_nil : queuedStakes [] = 0 := rfl

@[simp] theorem queuedStakes_cons (task : UploadTask) (tasks : List UploadTask) :
    queuedStakes (task :: tasks) = task.toUploadWrite.stake ::ₘ queuedStakes tasks := rfl

@[simp] theorem queuedStakes_append (left right : List UploadTask) :
    queuedStakes (left ++ right) = queuedStakes left + queuedStakes right := by
  simp [queuedStakes]

@[simp] theorem heldStake_none : heldStake none = 0 := rfl

@[simp] theorem heldStake_some (stake : Stake) : heldStake (some stake) = {stake} := rfl

theorem callStakes_of_getElem? {calls : List UploadCall} {index : ℕ} {call : UploadCall}
    (hcall : calls[index]? = some call) :
    callStakes calls = call.stake ::ₘ callStakes (advanceAt calls index none) := by
  rw [callStakes, callStakes, Multiset.cons_coe, ← List.map_cons, Multiset.coe_eq_coe]
  exact (perm_cons_advanceAt hcall).map _

theorem callStakes_advanceAt (calls : List UploadCall) (index : ℕ) (next : Option UploadCall) :
    callStakes (advanceAt calls index next) =
      heldStake (next.map UploadCall.stake) + callStakes (advanceAt calls index none) := by
  cases next with
  | none => simp
  | some next =>
      rw [Option.map_some, heldStake_some, Multiset.singleton_add, callStakes, callStakes,
        Multiset.cons_coe, ← List.map_cons, Multiset.coe_eq_coe]
      exact (advanceAt_some_perm calls index next).map _

/-! ## A step of a call -/

theorem UploadCall.pendingLimit_le (call : UploadCall) :
    call.pendingLimit ≤ uploadMaxPendingTasks := by
  unfold pendingLimit
  split
  next => decide
  next => exact le_rfl
  next => exact le_rfl

/-- What a step of a call leaves is balanced with everything else that is held. -/
def StepBalanced (rest : Multiset Stake) (after : UploadQueue × Option UploadCall) : Prop :=
  Balanced after.1 (heldStake (after.2.map UploadCall.stake) +
    (queuedStakes after.1.channel + rest))

section

variable {queue queue' : UploadQueue} {call : UploadCall} {rest : Multiset Stake}

theorem StepBalanced.finish (hbalanced : Balanced queue (queuedStakes queue.channel + rest))
    (result : Except String (Option ℕ)) : StepBalanced rest (queue.finish call result) := by
  unfold StepBalanced
  rw [UploadQueue.finish, Option.map_none, heldStake_none, zero_add]
  exact hbalanced.congr rfl

theorem StepBalanced.next {next : UploadCall}
    (hbalanced : Balanced queue (next.stake ::ₘ (queuedStakes queue.channel + rest))) :
    StepBalanced rest (queue, some next) := by
  unfold StepBalanced
  rw [Option.map_some, heldStake_some, Multiset.singleton_add]
  exact hbalanced

theorem UploadCall.trySend_balanced (hphase : call.phase = .send)
    (hbalanced : Balanced queue (call.stake ::ₘ (queuedStakes queue.channel + rest))) :
    StepBalanced rest (call.trySend queue) := by
  obtain ⟨request, task, phase, snapshot, begun⟩ := call
  subst hphase
  unfold trySend
  split
  next => exact .next hbalanced
  next =>
    split
    next =>
      let call : UploadCall := ⟨request, task, .send, snapshot, begun⟩
      have hstakes : queuedStakes (queue.channel ++ [task]) + rest =
          task.toUploadWrite.stake ::ₘ (queuedStakes queue.channel + rest) := by
        rw [queuedStakes_append, queuedStakes_cons, queuedStakes_nil, ← Multiset.singleton_add,
          ← Multiset.singleton_add]
        abel
      have hmoved : Balanced { queue with
            channel := queue.channel ++ [task]
            accepted := queue.accepted ++ [call] }
          (queuedStakes (queue.channel ++ [task]) + rest) := by
        rw [hstakes]
        exact hbalanced.accept rfl rfl rfl _
      split
      next => exact .next ((Balanced.idle_iff _).mpr hmoved)
      next => exact .finish hmoved _
    next => exact .next hbalanced

theorem UploadCall.advance_balanced (files : List String → Option (List UInt8)) (clock : ℕ)
    (input : CallInput)
    (hbalanced : Balanced queue (call.stake ::ₘ (queuedStakes queue.channel + rest))) :
    StepBalanced rest (call.advance files clock input queue) := by
  obtain ⟨request, task, phase, snapshot, begun⟩ := call
  cases phase with
  | checkFile =>
      simp only [advance]
      split
      next => exact .next hbalanced
      next => exact .finish ((Balanced.idle_iff _).mp hbalanced) _
  | statFile =>
      simp only [advance]
      split
      next => exact .next hbalanced
      next => exact .finish ((Balanced.idle_iff _).mp hbalanced) _
  | hashFile len =>
      simp only [advance]
      split
      next => exact .next hbalanced
      next => exact .finish ((Balanced.idle_iff _).mp hbalanced) _
      next => exact .finish ((Balanced.idle_iff _).mp hbalanced) _
  | findReceipt =>
      have hidle := (Balanced.idle_iff _).mp hbalanced
      simp only [advance]
      split
      next =>
        split
        next => exact .next hbalanced
        next =>
          simp only [findReceipt]
          split
          next =>
            refine .finish ?_ _
            exact hidle.congr rfl
          next => exact .next (hbalanced.congr rfl)
      next => exact .next hbalanced
  | checkCancelled =>
      simp only [advance]
      split
      next => exact .finish ((Balanced.idle_iff _).mp hbalanced) _
      next => exact .next hbalanced
  | reserveBytes =>
      simp only [advance]
      split
      next => exact .next (hbalanced.reserveBytes)
      next hfits => exact .next (hbalanced.reserveBytes.check (Nat.le_of_not_lt hfits))
  | releaseBytes error =>
      exact .finish ((Balanced.idle_iff _).mp (hbalanced.releaseBytes rfl)) _
  | reserveTask =>
      simp only [advance]
      split
      next hroom =>
        exact .next (hbalanced.reserveTask rfl (lt_of_lt_of_le hroom (pendingLimit_le _)))
      next => exact .next hbalanced.uncheck
  | fetchGeneration => exact .next (hbalanced.draw rfl)
  | trackGeneration => exact .next (hbalanced.track rfl rfl)
  | send => exact trySend_balanced rfl hbalanced
  | revertPending error => exact .next (hbalanced.releaseTask rfl)
  | revertBytes error => exact .next (hbalanced.releaseBytes rfl)
  | revertGeneration error =>
      have huntracked := hbalanced.untrack rfl
        (hbalanced.generations.collected.untrack task.key task.generation)
        fun key generation => GenerationState.mem_tracked_untrack
      have hopen : (queue.receipts task.generation).isTerminal = false :=
        huntracked.history.receipt_open _ (Multiset.mem_cons_self _ _) rfl
      simp only [advance, UploadQueue.dropTask, hopen, Bool.false_eq_true, if_false]
      exact .finish (huntracked.forget .shutdown) _
  | keepReceipt =>
      have hidle := (Balanced.idle_iff _).mp hbalanced
      simp only [advance]
      split
      next =>
        refine .finish ?_ _
        exact hidle.congr rfl
      next => exact .finish hidle _

end

/-! ## A step of the worker -/

/-- A settlement reports a final status. -/
def WorkerPhase.Final : WorkerPhase → Prop
  | .settle _ status _ _ => status.isTerminal = true
  | _ => True

section

variable {queue : UploadQueue} {worker : UploadWorker} {rest : Multiset Stake}

theorem queuedStakes_map (tasks : List UploadTask) (clock : ℕ) :
    queuedStakes (tasks.map fun task => { task with notBefore := clock }) = queuedStakes tasks := by
  simp [queuedStakes, Function.comp_def]

theorem UploadWorker.receive_stakes (queue : UploadQueue) (clock : ℕ)
    (hphase : worker.phase = .receive) :
    (worker.receive queue clock).1.stakes + queuedStakes (worker.receive queue clock).2.channel =
        worker.stakes + queuedStakes queue.channel ∧
      Balanced.books (worker.receive queue clock).2 = Balanced.books queue ∧
      (worker.receive queue clock).1.phase.Final := by
  unfold receive
  split
  next =>
    split
    next => simp [stakes, toPhase, hphase, WorkerPhase.stake, WorkerPhase.Final, Balanced.books]
    next =>
      simp [stakes, hphase, WorkerPhase.stake, WorkerPhase.Final, queuedStakes_map]
  next =>
    split
    next task channel hchannel =>
      refine ⟨?_, rfl, trivial⟩
      simp only [stakes, hphase, WorkerPhase.stake, heldStake_none, queuedStakes_append, hchannel,
        queuedStakes_cons, queuedStakes_nil, ← Multiset.singleton_add]
      abel
    next => simp [stakes, hphase, WorkerPhase.stake, WorkerPhase.Final]

theorem UploadWorker.scan_stakes (clock : ℕ) (hphase : worker.phase = .scan) :
    (worker.scan clock).stakes = worker.stakes ∧ (worker.scan clock).phase.Final := by
  unfold scan
  split
  next hrest => simp [stakes, hphase, hrest, WorkerPhase.stake, WorkerPhase.Final]
  next task others hrest =>
    split
    next =>
      refine ⟨?_, by simp [hphase, WorkerPhase.Final]⟩
      simp only [stakes, hphase, hrest, WorkerPhase.stake, heldStake_none, queuedStakes_append,
        queuedStakes_cons, queuedStakes_nil, ← Multiset.singleton_add]
      abel
    next =>
      split <;>
      · refine ⟨?_, trivial⟩
        simp only [stakes, hphase, hrest, WorkerPhase.stake, heldStake_none, heldStake_some,
          queuedStakes_cons, ← Multiset.singleton_add]
        abel

/-- What a step of the worker leaves is balanced with everything else that is held. -/
def WorkerBalanced (rest : Multiset Stake) (after : UploadWorker × UploadQueue × World) : Prop :=
  after.1.phase.Final ∧
    Balanced after.2.1 (after.1.stakes + (queuedStakes after.2.1.channel + rest))

/-- Everything held but what the worker has in hand. -/
def UploadWorker.others (worker : UploadWorker) (queue : UploadQueue) (rest : Multiset Stake) :
    Multiset Stake :=
  queuedStakes worker.skipped + queuedStakes worker.rest + (queuedStakes queue.channel + rest)

theorem UploadWorker.stakes_of_hand (worker : UploadWorker) (queue : UploadQueue) {stake : Stake}
    (hstake : worker.phase.stake = some stake) :
    worker.stakes + (queuedStakes queue.channel + rest) = stake ::ₘ worker.others queue rest := by
  rw [stakes, others, hstake, heldStake_some, ← Multiset.singleton_add]
  abel

theorem UploadWorker.stakes_of_empty_hand (hstake : worker.phase.stake = none) :
    worker.stakes + (queuedStakes queue.channel + rest) = worker.others queue rest := by
  rw [stakes, others, hstake, heldStake_none, add_zero]

theorem UploadWorker.others_append (worker : UploadWorker) (task : UploadTask)
    (phase : WorkerPhase) :
    { worker with phase := phase, rest := worker.rest ++ [task] }.others queue rest =
      task.toUploadWrite.stake ::ₘ worker.others queue rest := by
  simp only [others, queuedStakes_append, queuedStakes_cons, queuedStakes_nil,
    ← Multiset.singleton_add]
  abel

variable {queue' : UploadQueue} {phase : WorkerPhase} {world : World}

/-- The hand moves on to another phase. -/
theorem WorkerBalanced.toPhase (worker : UploadWorker) (queue : UploadQueue) {stake : Stake}
    (hstake : phase.stake = some stake)
    (hfinal : phase.Final)
    (hchannel : queue'.channel = queue.channel)
    (hbalanced : Balanced queue' (stake ::ₘ worker.others queue rest)) :
    WorkerBalanced rest (worker.toPhase phase, queue', world) := by
  refine ⟨hfinal, ?_⟩
  rw [(worker.toPhase phase).stakes_of_hand queue' hstake]
  simpa only [UploadWorker.others, UploadWorker.toPhase, hchannel] using hbalanced

theorem UploadWorker.resolve_balanced (clock : ℕ) {task : UploadTask} (result : PutAnswer)
    (hbalanced : Balanced queue (task.toUploadWrite.stake ::ₘ worker.others queue rest)) :
    WorkerBalanced rest ((worker.resolve queue clock task result).1,
      (worker.resolve queue clock task result).2, world) := by
  cases result with
  | ok _ => exact .toPhase worker queue rfl rfl rfl hbalanced
  | error err =>
      simp only [resolve]
      split
      next => exact .toPhase worker queue rfl rfl rfl hbalanced
      next =>
        split
        next => exact .toPhase worker queue rfl rfl rfl hbalanced
        next =>
          -- The task goes back to the end of `delayed`; its receipt stays open.
          refine ⟨trivial, ?_⟩
          rw [stakes_of_empty_hand rfl]
          dsimp only
          rw [others_append]
          exact hbalanced.updateReceipt rfl rfl

theorem UploadWorker.settle_balanced {task : UploadTask} {status : UploadReceiptStatus}
    {delivered : Bool} {stage : SettleStage} (hstatus : status.isTerminal = true)
    (hbalanced : Balanced queue (stage.stake task.toUploadWrite ::ₘ worker.others queue rest)) :
    WorkerBalanced rest ((worker.settle queue task status delivered stage).1,
      (worker.settle queue task status delivered stage).2, world) := by
  cases stage with
  | pending => exact .toPhase worker queue rfl hstatus rfl (hbalanced.releaseTask rfl)
  | bytes => exact .toPhase worker queue rfl hstatus rfl (hbalanced.releaseBytes rfl)
  | generations =>
      have htracked : task.generation ∈ queue.generations.tracked task.key :=
        (hbalanced.generations.tracked _ _).mpr
          ⟨_, Multiset.mem_cons_self _ _, rfl, rfl, rfl⟩
      exact .toPhase worker queue rfl hstatus rfl (hbalanced.untrack rfl
        (hbalanced.generations.collected.settle htracked delivered)
        fun key generation => GenerationState.mem_tracked_settle)
  | receipt =>
      refine ⟨trivial, ?_⟩
      have hreported := hbalanced.report hstatus
      rw [stakes_of_empty_hand rfl]
      exact hreported

theorem UploadWorker.step_balanced (world : World) (clock : ℕ) (input : WorkerInput)
    (hfinal : worker.phase.Final)
    (hbalanced : Balanced queue (worker.stakes + (queuedStakes queue.channel + rest))) :
    WorkerBalanced rest (worker.step queue world clock input) := by
  cases hphase : worker.phase with
  | receive =>
      obtain ⟨hstakes, hbooks, hnext⟩ := receive_stakes queue clock hphase
      simp only [step, hphase]
      refine ⟨hnext, ?_⟩
      rw [← add_assoc, hstakes, add_assoc]
      exact hbalanced.congr hbooks
  | scan =>
      obtain ⟨hstakes, hnext⟩ := scan_stakes clock hphase
      simp only [step, hphase]
      refine ⟨hnext, ?_⟩
      rw [hstakes]
      exact hbalanced
  | listTombstones task =>
      rw [worker.stakes_of_hand queue (by rw [hphase]; rfl)] at hbalanced
      simp only [step, hphase]
      split
      next => exact .toPhase worker queue rfl trivial rfl hbalanced
      next =>
        refine .toPhase { worker with tombstonesFetchedAt := some clock } queue rfl trivial rfl ?_
        exact hbalanced
  | pushTombstones task keys =>
      rw [worker.stakes_of_hand queue (by rw [hphase]; rfl)] at hbalanced
      simp only [step, hphase]
      refine .toPhase { worker with tombstonesFetchedAt := some clock } queue rfl trivial rfl ?_
      exact hbalanced.congr rfl
  | checkSuperseded task =>
      rw [worker.stakes_of_hand queue (by rw [hphase]; rfl)] at hbalanced
      simp only [step, hphase]
      split
      next => exact .toPhase worker queue rfl rfl rfl hbalanced
      next => exact .toPhase worker queue rfl trivial rfl hbalanced
  | checkSource task =>
      rw [worker.stakes_of_hand queue (by rw [hphase]; rfl)] at hbalanced
      simp only [step, hphase]
      split
      next =>
        split
        next => exact .toPhase worker queue rfl trivial rfl hbalanced
        next => exact .toPhase worker queue rfl rfl rfl hbalanced
      next => exact .toPhase worker queue rfl trivial rfl hbalanced
  | beginUpload task =>
      rw [worker.stakes_of_hand queue (by rw [hphase]; rfl)] at hbalanced
      simp only [step, hphase]
      split
      next => exact .toPhase worker queue rfl trivial rfl hbalanced
      next => exact .toPhase worker queue rfl trivial rfl (hbalanced.congr rfl)
      next => exact .toPhase worker queue rfl trivial rfl (hbalanced.congr rfl)
  | cleanUp task =>
      rw [worker.stakes_of_hand queue (by rw [hphase]; rfl)] at hbalanced
      simp only [step, hphase]
      exact .toPhase worker queue rfl rfl rfl hbalanced
  | readSource task path =>
      rw [worker.stakes_of_hand queue (by rw [hphase]; rfl)] at hbalanced
      simp only [step, hphase]
      split
      next => exact .toPhase worker queue rfl trivial rfl hbalanced
      next => exact .toPhase worker queue rfl trivial rfl hbalanced
  | put task body =>
      rw [worker.stakes_of_hand queue (by rw [hphase]; rfl)] at hbalanced
      simp only [step, hphase]
      split
      next => exact .toPhase worker queue rfl trivial rfl hbalanced
      next => exact .toPhase worker queue rfl trivial rfl hbalanced
  | stored task =>
      rw [worker.stakes_of_hand queue (by rw [hphase]; rfl)] at hbalanced
      simp only [step, hphase]
      split
      next => exact .toPhase worker queue rfl trivial rfl (hbalanced.congr rfl)
      next => exact .toPhase worker queue rfl trivial rfl hbalanced
  | answered task result =>
      rw [worker.stakes_of_hand queue (by rw [hphase]; rfl)] at hbalanced
      simp only [step, hphase]
      exact .toPhase worker queue rfl trivial rfl (hbalanced.congr rfl)
  | resolve task result =>
      rw [worker.stakes_of_hand queue (by rw [hphase]; rfl)] at hbalanced
      simp only [step, hphase]
      exact resolve_balanced clock result hbalanced
  | settle task status delivered stage =>
      rw [worker.stakes_of_hand queue (by rw [hphase]; rfl)] at hbalanced
      rw [hphase] at hfinal
      simp only [step, hphase]
      exact settle_balanced hfinal hbalanced
  | finished =>
      simp only [step, hphase]
      exact ⟨hfinal, hbalanced⟩

end

/-! ## Runs -/

theorem DeleteCall.advance_books (call : DeleteCall) (clock : ℕ) (input : DeleteInput)
    (queue : UploadQueue) (world : World) :
    Balanced.books (call.advance clock input queue world).1 = Balanced.books queue ∧
      (call.advance clock input queue world).1.channel = queue.channel :=
  ⟨call.advance_field Balanced.books (fun _ => rfl) clock input queue world,
    call.advance_field UploadQueue.channel (fun _ => rfl) clock input queue world⟩

/-- The ledger is balanced with everything the process holds. -/
structure Accounted (process : Process) : Prop where
  balanced : Balanced process.uploads process.stakes
  final : process.worker.phase.Final

namespace Accounted

variable {process : Process}

theorem new (keyPrefix : String) (storageDir : List String) :
    Accounted (.new keyPrefix storageDir) := ⟨Balanced.new keyPrefix storageDir, trivial⟩

/-- What the steps that touch neither tasks nor calls change is outside the books. -/
theorem congr {process' : Process} (haccounted : Accounted process)
    (hbooks : Balanced.books process'.uploads = Balanced.books process.uploads)
    (hchannel : process'.uploads.channel = process.uploads.channel)
    (hcalls : process'.calls = process.calls) (hworker : process'.worker = process.worker) :
    Accounted process' := by
  refine ⟨?_, hworker ▸ haccounted.final⟩
  have hstakes : process'.stakes = process.stakes := by
    rw [Process.stakes, Process.stakes, hcalls, hchannel, hworker]
  rw [hstakes]
  exact haccounted.balanced.congr hbooks

theorem beginCall (haccounted : Accounted process) (request : UploadRequest) :
    Accounted (process.beginCall request) := by
  have hstart : ∀ call : UploadCall, call.stake = { write := call.task.toUploadWrite } →
      Accounted { process with calls := process.calls ++ [call] } := by
    intro call hcall
    refine ⟨?_, haccounted.final⟩
    have hstakes : Process.stakes { process with calls := process.calls ++ [call] } =
        call.stake ::ₘ process.stakes := by
      simp only [Process.stakes, callStakes, List.map_append, List.map_cons, List.map_nil,
        ← Multiset.coe_add, Multiset.coe_singleton, ← Multiset.singleton_add]
      abel
    rw [hstakes, hcall, Balanced.idle_iff]
    exact haccounted.balanced
  cases request with
  | putBytes path bytes =>
      simp only [Process.beginCall]
      split
      next => exact hstart _ rfl
      next => exact haccounted.congr rfl rfl rfl rfl
  | uploadFile path =>
      simp only [Process.beginCall]
      split
      next => exact hstart _ rfl
      next => exact haccounted.congr rfl rfl rfl rfl
  | reconcile path =>
      simp only [Process.beginCall]
      split
      next => exact hstart _ rfl
      next => exact haccounted.congr rfl rfl rfl rfl

theorem step (haccounted : Accounted process) (world : World) (input : ProcessInput) :
    Accounted (process.step world input).1 := by
  cases input with
  | begin request =>
      simp only [Process.step]
      split
      next => exact haccounted.beginCall request
      next => exact haccounted
  | call index input =>
      simp only [Process.step]
      split
      next call hcall =>
        have hbalanced := haccounted.balanced
        rw [Process.stakes, callStakes_of_getElem? hcall, Multiset.cons_add, Multiset.cons_add,
          add_comm (callStakes _) (queuedStakes _), add_assoc] at hbalanced
        refine ⟨?_, haccounted.final⟩
        have hnext := call.advance_balanced world.files process.clock input hbalanced
        rw [Process.stakes, callStakes_advanceAt, add_assoc, add_assoc,
          add_left_comm (callStakes _) (queuedStakes _)]
        exact hnext
      next => exact haccounted
  | work input =>
      have hbalanced := haccounted.balanced
      rw [Process.stakes, add_comm, add_comm (callStakes _)] at hbalanced
      obtain ⟨hfinal, hnext⟩ := UploadWorker.step_balanced world process.clock input
        haccounted.final hbalanced
      refine ⟨?_, hfinal⟩
      rw [Process.stakes, add_comm, add_comm (callStakes _)]
      exact hnext
  | beginDelete target =>
      simp only [Process.step]
      split
      next => exact haccounted.congr rfl rfl rfl rfl
      next => exact haccounted
  | delete index input =>
      simp only [Process.step]
      split
      next call hcall =>
        obtain ⟨hbooks, hchannel⟩ :=
          call.advance_books process.clock input process.uploads world
        exact haccounted.congr hbooks hchannel rfl rfl
      next => exact haccounted
  | edit path content => exact haccounted
  | tick elapsed => exact haccounted.congr rfl rfl rfl rfl
  | close =>
      simp only [Process.step]
      split
      next => exact haccounted.congr rfl rfl rfl rfl
      next => exact haccounted

end Accounted

theorem Site.step_accounted (site : Site) (input : ProcessInput)
    (haccounted : Accounted site.process) : Accounted (site.step input).process :=
  (haccounted.step site.world input).congr rfl rfl rfl rfl

end DiscordTranscript.Infrastructure
