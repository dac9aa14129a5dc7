import DiscordTranscript.Infrastructure.UploadAccounting

/-! # The worker drains a closed queue

Once the last handle is dropped nothing enters the queue. The worker takes what is
left in the channel, notices the disconnection, attempts every delayed task once
and ends. A number that every step of the worker lowers bounds how long that takes,
whatever the object store and the file system do.
-/

namespace DiscordTranscript.Infrastructure

open Slots

/-- How the parts of a process fit together while its queue is closed. -/
structure Orderly (process : Process) : Prop where
  calls_of_closed : process.uploads.senderOpen = false → process.calls = []
  closed_of_disconnected : process.worker.disconnected = true →
    process.uploads.senderOpen = false ∧ process.uploads.channel = []
  skipped_of_receive : process.worker.phase = .receive → process.worker.skipped = []
  finished : process.worker.phase = .finished →
    process.worker.disconnected = true ∧ process.worker.skipped = [] ∧ process.worker.rest = []
  now_le : process.worker.now ≤ process.clock

/-! ## The measure -/

/-- The tasks of the list that are due in the present scan. -/
def dueCount (now : ℕ) (tasks : List UploadTask) : ℕ :=
  tasks.countP fun task => task.notBefore ≤ now

/-- Steps left until a task is out of the worker's hand. -/
def WorkerPhase.rank : WorkerPhase → ℕ
  | .receive | .scan | .finished => 0
  | .listTombstones _ => 15
  | .pushTombstones _ _ => 14
  | .checkSuperseded _ => 13
  | .checkSource _ => 12
  | .beginUpload _ => 11
  | .cleanUp _ => 10
  | .readSource _ _ => 10
  | .put _ _ => 9
  | .stored _ => 8
  | .answered _ _ => 7
  | .resolve _ _ => 6
  | .settle _ _ _ .pending => 4
  | .settle _ _ _ .bytes => 3
  | .settle _ _ _ .generations => 2
  | .settle _ _ _ .receipt => 1

def WorkerPhase.inHand (phase : WorkerPhase) : ℕ := if phase.stake.isSome then 1 else 0

namespace UploadWorker

variable (worker : UploadWorker)

/-- Some task is waiting for its backoff in the present scan. -/
def Waiting : Prop :=
  worker.skipped ≠ [] ∨ ∃ task ∈ worker.rest, worker.now < task.notBefore

instance : Decidable worker.Waiting := inferInstanceAs (Decidable (_ ∨ _))

/-- The scans still to come, besides those that take a task from the channel. -/
def scansLeft : ℕ :=
  if worker.disconnected = false then 2
  else match worker.phase with
    | .receive | .finished => 0
    | _ => if worker.Waiting then 1 else 0

/-- The tasks the worker and the channel hold. -/
def load (queue : UploadQueue) : ℕ :=
  queue.channel.length + worker.skipped.length + worker.rest.length + worker.phase.inHand

/-- Steps left in the present round of the loop. -/
def roundLeft : ℕ :=
  match worker.phase with
  | .finished => 0
  | .receive =>
      if worker.disconnected = false then 0
      else if worker.rest = [] then 1
      else 21 * worker.rest.length + 5
  | phase => phase.rank + 20 * dueCount worker.now worker.rest + worker.rest.length + 3

/-- Every round fits into `21 * load + 30` steps. -/
def stepsLeft (queue : UploadQueue) : ℕ :=
  (queue.channel.length + worker.scansLeft) * (21 * worker.load queue + 30) + worker.roundLeft

variable {worker} {worker' : UploadWorker} {queue queue' : UploadQueue}

theorem dueCount_le (now : ℕ) (tasks : List UploadTask) : dueCount now tasks ≤ tasks.length :=
  List.countP_le_length

/-- In the middle of a scan. -/
def Busy (phase : WorkerPhase) : Prop := phase ≠ .receive ∧ phase ≠ .finished

theorem busy_of_hand {phase : WorkerPhase} (hhand : phase.stake.isSome) : Busy phase := by
  constructor <;> rintro rfl <;> cases hhand

theorem roundLeft_of_busy (hbusy : Busy worker.phase) :
    worker.roundLeft =
      worker.phase.rank + 20 * dueCount worker.now worker.rest + worker.rest.length + 3 := by
  unfold roundLeft
  split
  next hphase => exact absurd hphase hbusy.2
  next hphase => exact absurd hphase hbusy.1
  next => rfl

theorem scansLeft_of_busy (hbusy : Busy worker.phase) :
    worker.scansLeft =
      if worker.disconnected = false then 2 else if worker.Waiting then 1 else 0 := by
  unfold scansLeft
  split
  next => rfl
  next =>
    split
    next hphase => exact absurd hphase hbusy.1
    next hphase => exact absurd hphase hbusy.2
    next => rfl

theorem rank_le (phase : WorkerPhase) : phase.rank ≤ 15 * phase.inHand := by
  cases phase with
  | settle task status delivered stage =>
      cases stage <;> simp [WorkerPhase.rank, WorkerPhase.inHand, WorkerPhase.stake]
  | _ => simp [WorkerPhase.rank, WorkerPhase.inHand, WorkerPhase.stake]

theorem roundLeft_lt (worker : UploadWorker) (queue : UploadQueue) :
    worker.roundLeft < 21 * worker.load queue + 30 := by
  have hdue := dueCount_le worker.now worker.rest
  have hrank := rank_le worker.phase
  unfold roundLeft load
  split
  next => omega
  next =>
    split
    next => omega
    next => split <;> omega
  next => omega

/-- A step within the round. -/
theorem stepsLeft_lt_of_round
    (hlevel : queue'.channel.length + worker'.scansLeft ≤ queue.channel.length + worker.scansLeft)
    (hload : worker'.load queue' ≤ worker.load queue) (hround : worker'.roundLeft < worker.roundLeft) :
    worker'.stepsLeft queue' < worker.stepsLeft queue := by
  have hmul := Nat.mul_le_mul hlevel
    (Nat.add_le_add_right (Nat.mul_le_mul_left 21 hload) 30)
  unfold stepsLeft
  omega

/-- A step into a later round. -/
theorem stepsLeft_lt_of_level
    (hlevel : queue'.channel.length + worker'.scansLeft < queue.channel.length + worker.scansLeft)
    (hload : worker'.load queue' ≤ worker.load queue) :
    worker'.stepsLeft queue' < worker.stepsLeft queue := by
  have hround := roundLeft_lt worker' queue'
  have hmul := Nat.mul_le_mul (Nat.succ_le_of_lt hlevel)
    (Nat.add_le_add_right (Nat.mul_le_mul_left 21 hload) 30)
  rw [Nat.succ_mul] at hmul
  unfold stepsLeft
  omega

/-- The task in hand gets closer to its end. -/
theorem stepsLeft_lt_of_hand (hskipped : worker'.skipped = worker.skipped)
    (hrest : worker'.rest = worker.rest) (hnow : worker'.now = worker.now)
    (hdisconnected : worker'.disconnected = worker.disconnected)
    (hchannel : queue'.channel = queue.channel) (hhand : worker.phase.stake.isSome)
    (hhand' : worker'.phase.stake.isSome) (hrank : worker'.phase.rank < worker.phase.rank) :
    worker'.stepsLeft queue' < worker.stepsLeft queue := by
  have hwaiting : worker'.Waiting ↔ worker.Waiting := by
    rw [Waiting, Waiting, hskipped, hrest, hnow]
  apply stepsLeft_lt_of_round
  · rw [scansLeft_of_busy (busy_of_hand hhand), scansLeft_of_busy (busy_of_hand hhand'),
      hdisconnected, hchannel]
    simp only [hwaiting, le_refl]
  · simp only [load, hchannel, hskipped, hrest, WorkerPhase.inHand, hhand, hhand', le_refl]
  · rw [roundLeft_of_busy (busy_of_hand hhand), roundLeft_of_busy (busy_of_hand hhand'), hrest, hnow]
    omega

/-! ## Every step lowers it -/

theorem receive_stepsLeft_lt (clock : ℕ) (hclosed : queue.senderOpen = false)
    (hphase : worker.phase = .receive) (hskipped : worker.skipped = []) :
    (worker.receive queue clock).1.stepsLeft (worker.receive queue clock).2 <
      worker.stepsLeft queue := by
  unfold receive
  split
  next hdisconnected =>
    split
    next hrest =>
      apply stepsLeft_lt_of_round
      · simp [scansLeft, toPhase, hdisconnected]
      · simp [load, toPhase, hphase, WorkerPhase.inHand, WorkerPhase.stake]
      · simp [roundLeft, toPhase, hphase, hdisconnected, hrest]
    next hrest =>
      apply stepsLeft_lt_of_round
      · -- Everything is due now, so the drain needs one scan.
        simp [scansLeft, hdisconnected, Waiting, hskipped]
      · simp [load, hphase, WorkerPhase.inHand, WorkerPhase.stake]
      · have hdue := dueCount_le clock
          (worker.rest.map fun task => { task with notBefore := clock })
        rw [List.length_map] at hdue
        simp only [roundLeft, hphase, hdisconnected, hrest, Bool.true_eq_false, if_false,
          WorkerPhase.rank, List.length_map]
        omega
  next hdisconnected =>
    rw [Bool.not_eq_true] at hdisconnected
    split
    next task channel htask =>
      apply stepsLeft_lt_of_level
      · simp [scansLeft, hdisconnected, htask]
      · simp [load, hphase, htask, WorkerPhase.inHand, WorkerPhase.stake]
        omega
    next hempty =>
      apply stepsLeft_lt_of_level
      · rw [scansLeft_of_busy ⟨by simp, by simp⟩]
        simp only [scansLeft, hdisconnected, hclosed, hempty, Bool.not_false, Bool.true_eq_false,
          if_false, if_true]
        split <;> simp
      · simp [load, hphase, WorkerPhase.inHand, WorkerPhase.stake]

theorem dueCount_cons_of_due {now : ℕ} {task : UploadTask} (hdue : ¬now < task.notBefore)
    (tasks : List UploadTask) : dueCount now (task :: tasks) = dueCount now tasks + 1 := by
  simp [dueCount, Nat.le_of_not_lt hdue]

theorem dueCount_cons_of_waiting {now : ℕ} {task : UploadTask} (hwaiting : now < task.notBefore)
    (tasks : List UploadTask) : dueCount now (task :: tasks) = dueCount now tasks := by
  simp [dueCount, hwaiting]

theorem scan_stepsLeft_lt (clock : ℕ) (hphase : worker.phase = .scan) :
    (worker.scan clock).stepsLeft queue < worker.stepsLeft queue := by
  have hbusy : Busy worker.phase := by rw [hphase]; exact ⟨by simp, by simp⟩
  unfold scan
  split
  next hrest =>
    have hload : load { worker with phase := .receive, skipped := [], rest := worker.skipped } queue ≤
        worker.load queue := by
      simp [load, hphase, hrest, WorkerPhase.inHand, WorkerPhase.stake]
    by_cases hlast : worker.disconnected = false ∨ worker.skipped = []
    · refine stepsLeft_lt_of_round ?_ hload ?_
      · rw [scansLeft_of_busy hbusy]
        simp only [scansLeft]
        split <;> simp
      · rw [roundLeft_of_busy hbusy]
        simp only [roundLeft]
        rcases hlast with hlast | hlast
        · rw [if_pos hlast]
          exact Nat.succ_pos _
        · rw [if_pos hlast]
          split <;> omega
    · -- What was skipped is left for the drain.
      rw [not_or, Bool.not_eq_false] at hlast
      refine stepsLeft_lt_of_level ?_ hload
      rw [scansLeft_of_busy hbusy]
      simp [scansLeft, hlast.1, Waiting, hlast.2]
  next task others hrest =>
    split
    next hwaiting =>
      apply stepsLeft_lt_of_round
      · have hbefore : worker.Waiting := .inr ⟨task, by simp [hrest], hwaiting⟩
        rw [scansLeft_of_busy hbusy, scansLeft_of_busy (by simpa using hbusy)]
        simp only [hbefore, if_true, Nat.add_le_add_iff_left]
        split
        next => exact le_rfl
        next => split <;> simp
      · simp [load, hphase, hrest, WorkerPhase.inHand, WorkerPhase.stake]
        omega
      · rw [roundLeft_of_busy hbusy, roundLeft_of_busy (by simpa using hbusy)]
        simp only [hrest, dueCount_cons_of_waiting hwaiting, List.length_cons]
        omega
    next hdue =>
      have hlevel : ∀ phase, Busy phase →
          scansLeft { worker with phase := phase, rest := others } ≤ worker.scansLeft := by
        intro phase hnext
        have hwaits : Waiting { worker with phase := phase, rest := others } → worker.Waiting := by
          rintro (hskipped | ⟨other, hother, hwaits⟩)
          · exact .inl hskipped
          · exact .inr ⟨other, by simp [hrest, hother], hwaits⟩
        rw [scansLeft_of_busy hbusy, scansLeft_of_busy (by simpa using hnext)]
        dsimp only
        split
        next => exact le_rfl
        next =>
          split
          next hnow => rw [if_pos (hwaits hnow)]
          next => exact Nat.zero_le _
      have hlower : ∀ phase : WorkerPhase, phase.stake.isSome →
          stepsLeft { worker with phase := phase, rest := others } queue < worker.stepsLeft queue := by
        intro phase hhand
        have hrank := rank_le phase
        apply stepsLeft_lt_of_round
        · exact Nat.add_le_add_left (hlevel phase (busy_of_hand hhand)) _
        · have hscan : WorkerPhase.scan.inHand = 0 := rfl
          simp only [load, hphase, hrest, hscan, List.length_cons]
          rw [show phase.inHand = 1 from if_pos hhand]
          omega
        · rw [roundLeft_of_busy hbusy, roundLeft_of_busy (by simpa using busy_of_hand hhand)]
          simp only [hrest, dueCount_cons_of_due hdue, List.length_cons]
          simp only [WorkerPhase.inHand, hhand, if_true] at hrank
          omega
      split
      next => exact hlower _ rfl
      next => exact hlower _ rfl

theorem resolve_stepsLeft_lt {clock : ℕ} {task : UploadTask} (result : PutAnswer)
    (hnow : worker.now ≤ clock) (hphase : worker.phase = .resolve task result) :
    (worker.resolve queue clock task result).1.stepsLeft (worker.resolve queue clock task result).2 <
      worker.stepsLeft queue := by
  have hhand : worker.phase.stake.isSome := by rw [hphase]; rfl
  have hsettle : ∀ status delivered (task : UploadTask),
      (worker.startSettle task status delivered).stepsLeft queue < worker.stepsLeft queue := by
    intro status delivered task
    refine stepsLeft_lt_of_hand rfl rfl rfl rfl rfl hhand rfl ?_
    rw [hphase]
    exact Nat.lt_of_sub_eq_succ rfl
  cases result with
  | ok _ => exact hsettle _ _ _
  | error err =>
      simp only [resolve]
      split
      next => exact hsettle _ _ _
      next hdisconnected =>
        split
        next => exact hsettle _ _ _
        next =>
          rw [Bool.not_eq_true] at hdisconnected
          have hbackoff : 0 < backoff (task.attempts + 1) := by
            exact Nat.mul_pos (by decide) (Nat.two_pow_pos _)
          apply stepsLeft_lt_of_round
          · simp [scansLeft, hdisconnected, UploadQueue.updateReceipt]
          · simp [load, hphase, UploadQueue.updateReceipt, WorkerPhase.inHand, WorkerPhase.stake]
            omega
          · have hdue : ∀ later : UploadTask, worker.now < later.notBefore →
                dueCount worker.now (worker.rest ++ [later]) = dueCount worker.now worker.rest := by
              intro later hlater
              simp [dueCount, hlater]
            rw [roundLeft_of_busy (busy_of_hand hhand), roundLeft_of_busy ⟨by simp, by simp⟩]
            simp only [hphase, WorkerPhase.rank, List.length_append, List.length_cons,
              List.length_nil]
            rw [hdue _ (by simp only; omega)]
            omega

theorem settle_stepsLeft_lt {task : UploadTask} {status : UploadReceiptStatus} {delivered : Bool}
    {stage : SettleStage} (hphase : worker.phase = .settle task status delivered stage) :
    (worker.settle queue task status delivered stage).1.stepsLeft
        (worker.settle queue task status delivered stage).2 < worker.stepsLeft queue := by
  have hhand : worker.phase.stake.isSome := by rw [hphase]; rfl
  cases stage with
  | pending =>
      exact stepsLeft_lt_of_hand rfl rfl rfl rfl rfl hhand rfl (by rw [hphase]; exact Nat.lt_succ_self _)
  | bytes =>
      exact stepsLeft_lt_of_hand rfl rfl rfl rfl rfl hhand rfl (by rw [hphase]; exact Nat.lt_succ_self _)
  | generations =>
      exact stepsLeft_lt_of_hand rfl rfl rfl rfl rfl hhand rfl (by rw [hphase]; exact Nat.lt_succ_self _)
  | receipt =>
      simp only [settle]
      apply stepsLeft_lt_of_round
      · rw [scansLeft_of_busy (busy_of_hand hhand), scansLeft_of_busy ⟨by simp [toPhase], by simp [toPhase]⟩]
        exact le_rfl
      · simp [load, toPhase, hphase, UploadQueue.updateReceipt, WorkerPhase.inHand, WorkerPhase.stake]
      · rw [roundLeft_of_busy (busy_of_hand hhand), roundLeft_of_busy ⟨by simp [toPhase], by simp [toPhase]⟩]
        simp [toPhase, hphase, WorkerPhase.rank]

theorem step_stepsLeft_lt (world : World) {clock : ℕ} (input : WorkerInput)
    (hclosed : queue.senderOpen = false) (hnow : worker.now ≤ clock)
    (hskipped : worker.phase = .receive → worker.skipped = []) (hphase : worker.phase ≠ .finished) :
    (worker.step queue world clock input).1.stepsLeft (worker.step queue world clock input).2.1 <
      worker.stepsLeft queue := by
  have hhand : ∀ {phase : WorkerPhase} {queue' : UploadQueue} {fetched : Option ℕ},
      worker.phase.stake.isSome → phase.stake.isSome → phase.rank < worker.phase.rank →
      queue'.channel = queue.channel →
      stepsLeft { worker with phase := phase, tombstonesFetchedAt := fetched } queue' <
        worker.stepsLeft queue := by
    intro phase queue' fetched hnow hnext hrank hchannel
    exact stepsLeft_lt_of_hand rfl rfl rfl rfl hchannel hnow hnext hrank
  cases hcase : worker.phase with
  | receive =>
      simp only [step, hcase]
      exact receive_stepsLeft_lt clock hclosed hcase (hskipped hcase)
  | scan =>
      simp only [step, hcase]
      exact scan_stepsLeft_lt clock hcase
  | listTombstones task =>
      rw [hcase] at hhand
      simp only [step, hcase]
      split <;> exact hhand rfl rfl (Nat.lt_of_sub_eq_succ rfl) rfl
  | pushTombstones task keys =>
      rw [hcase] at hhand
      simp only [step, hcase]
      exact hhand rfl rfl (Nat.lt_of_sub_eq_succ rfl) rfl
  | checkSuperseded task =>
      rw [hcase] at hhand
      simp only [step, hcase]
      split <;> exact hhand rfl rfl (Nat.lt_of_sub_eq_succ rfl) rfl
  | checkSource task =>
      rw [hcase] at hhand
      simp only [step, hcase]
      split
      next => split <;> exact hhand rfl rfl (Nat.lt_of_sub_eq_succ rfl) rfl
      next => exact hhand rfl rfl (Nat.lt_of_sub_eq_succ rfl) rfl
  | beginUpload task =>
      rw [hcase] at hhand
      simp only [step, hcase]
      split <;> exact hhand rfl rfl (Nat.lt_of_sub_eq_succ rfl) rfl
  | cleanUp task =>
      rw [hcase] at hhand
      simp only [step, hcase]
      exact hhand rfl rfl (Nat.lt_of_sub_eq_succ rfl) rfl
  | readSource task path =>
      rw [hcase] at hhand
      simp only [step, hcase]
      split <;> exact hhand rfl rfl (Nat.lt_of_sub_eq_succ rfl) rfl
  | put task body =>
      rw [hcase] at hhand
      simp only [step, hcase]
      split <;> exact hhand rfl rfl (Nat.lt_of_sub_eq_succ rfl) rfl
  | stored task =>
      rw [hcase] at hhand
      simp only [step, hcase]
      split <;> exact hhand rfl rfl (Nat.lt_of_sub_eq_succ rfl) rfl
  | answered task result =>
      rw [hcase] at hhand
      simp only [step, hcase]
      exact hhand rfl rfl (Nat.lt_of_sub_eq_succ rfl) rfl
  | resolve task result =>
      simp only [step, hcase]
      exact resolve_stepsLeft_lt result hnow hcase
  | settle task status delivered stage =>
      simp only [step, hcase]
      exact settle_stepsLeft_lt hcase
  | finished => exact absurd hcase hphase

end UploadWorker

/-! ## A closed queue is orderly -/

namespace Orderly

variable {process : Process}

theorem new (keyPrefix : String) (storageDir : List String) :
    Orderly (.new keyPrefix storageDir) := by
  refine ⟨fun _ => rfl, ?_, fun _ => rfl, ?_, Nat.zero_le _⟩
  · intro hdisconnected
    cases hdisconnected
  · intro hphase
    cases hphase

/-- Whatever leaves the worker alone and lets nothing into a closed queue. -/
theorem congr {process' : Process} (horderly : Orderly process)
    (hworker : process'.worker = process.worker) (hclock : process.clock ≤ process'.clock)
    (hclosed : process'.uploads.senderOpen = false → process'.calls = [])
    (hchannel : process.uploads.senderOpen = false →
      process'.uploads.senderOpen = false ∧ process'.uploads.channel = process.uploads.channel) :
    Orderly process' := by
  refine ⟨hclosed, ?_, ?_, ?_, ?_⟩
  · rw [hworker]
    intro hdisconnected
    obtain ⟨hopen, hempty⟩ := horderly.closed_of_disconnected hdisconnected
    exact ⟨(hchannel hopen).1, (hchannel hopen).2.trans hempty⟩
  · rw [hworker]
    exact horderly.skipped_of_receive
  · rw [hworker]
    exact horderly.finished
  · rw [hworker]
    exact le_trans horderly.now_le hclock

/-- The worker in the middle of a scan. -/
theorem busy (horderly : Orderly process) {worker : UploadWorker} {queue : UploadQueue}
    (hbusy : UploadWorker.Busy worker.phase) (hnow : worker.now = process.worker.now)
    (hdisconnected : worker.disconnected = process.worker.disconnected)
    (hopen : queue.senderOpen = process.uploads.senderOpen)
    (hchannel : queue.channel = process.uploads.channel) :
    Orderly { process with worker := worker, uploads := queue } := by
  refine ⟨?_, ?_, fun hphase => absurd hphase hbusy.1, fun hphase => absurd hphase hbusy.2, ?_⟩
  · exact fun hclosed => horderly.calls_of_closed (hopen ▸ hclosed)
  · intro hgone
    obtain ⟨hclosed, hempty⟩ := horderly.closed_of_disconnected (hdisconnected ▸ hgone)
    exact ⟨hopen.trans hclosed, hchannel.trans hempty⟩
  · exact le_of_eq_of_le hnow horderly.now_le

theorem receive (horderly : Orderly process) (hphase : process.worker.phase = .receive) :
    Orderly { process with
      worker := (process.worker.receive process.uploads process.clock).1
      uploads := (process.worker.receive process.uploads process.clock).2 } := by
  unfold UploadWorker.receive
  split
  next hdisconnected =>
    obtain ⟨hclosed, hempty⟩ := horderly.closed_of_disconnected hdisconnected
    split
    next hrest =>
      refine ⟨horderly.calls_of_closed, fun _ => ⟨hclosed, hempty⟩, ?_, ?_, horderly.now_le⟩
      · intro hnext
        cases hnext
      · exact fun _ => ⟨hdisconnected, horderly.skipped_of_receive hphase, hrest⟩
    next =>
      refine ⟨horderly.calls_of_closed, fun _ => ⟨hclosed, hempty⟩, ?_, ?_, le_rfl⟩
      · intro hnext
        cases hnext
      · intro hnext
        cases hnext
  next hdisconnected =>
    rw [Bool.not_eq_true] at hdisconnected
    split
    next task channel htask =>
      refine ⟨horderly.calls_of_closed, ?_, ?_, ?_, le_rfl⟩
      · intro hgone
        simp [hdisconnected] at hgone
      · intro hnext
        cases hnext
      · intro hnext
        cases hnext
    next hempty =>
      refine ⟨horderly.calls_of_closed, ?_, ?_, ?_, le_rfl⟩
      · intro hgone
        exact ⟨by simpa using hgone, hempty⟩
      · intro hnext
        cases hnext
      · intro hnext
        cases hnext

theorem scan (horderly : Orderly process) (hphase : process.worker.phase = .scan) :
    Orderly { process with worker := process.worker.scan process.clock } := by
  have hbusy : UploadWorker.Busy .scan := ⟨by simp, by simp⟩
  unfold UploadWorker.scan
  split
  next =>
    refine ⟨horderly.calls_of_closed, horderly.closed_of_disconnected, fun _ => rfl, ?_,
      horderly.now_le⟩
    intro hnext
    cases hnext
  next =>
    split
    next => exact horderly.busy (hphase ▸ hbusy) rfl rfl rfl rfl
    next =>
      split
      next => exact horderly.busy ⟨by simp, by simp⟩ rfl rfl rfl rfl
      next => exact horderly.busy ⟨by simp, by simp⟩ rfl rfl rfl rfl

theorem resolve (horderly : Orderly process) (task : UploadTask) (result : PutAnswer) :
    Orderly { process with
      worker := (process.worker.resolve process.uploads process.clock task result).1
      uploads := (process.worker.resolve process.uploads process.clock task result).2 } := by
  have hsettle : ∀ (task : UploadTask) status delivered, Orderly { process with
      worker := process.worker.startSettle task status delivered } := fun task status delivered =>
    horderly.busy ⟨by simp [UploadWorker.startSettle, UploadWorker.toPhase],
      by simp [UploadWorker.startSettle, UploadWorker.toPhase]⟩ rfl rfl rfl rfl
  cases result with
  | ok _ => exact hsettle _ _ _
  | error err =>
      simp only [UploadWorker.resolve]
      split
      next => exact hsettle _ _ _
      next =>
        split
        next => exact hsettle _ _ _
        next => exact horderly.busy ⟨by simp, by simp⟩ rfl rfl rfl rfl

theorem settle (horderly : Orderly process) (task : UploadTask) (status : UploadReceiptStatus)
    (delivered : Bool) (stage : SettleStage) :
    Orderly { process with
      worker := (process.worker.settle process.uploads task status delivered stage).1
      uploads := (process.worker.settle process.uploads task status delivered stage).2 } := by
  cases stage <;>
    exact horderly.busy ⟨by simp [UploadWorker.settle, UploadWorker.toPhase],
      by simp [UploadWorker.settle, UploadWorker.toPhase]⟩ rfl rfl rfl rfl

theorem work (horderly : Orderly process) (world : World) (input : WorkerInput) :
    Orderly { process with
      worker := (process.worker.step process.uploads world process.clock input).1
      uploads := (process.worker.step process.uploads world process.clock input).2.1 } := by
  have hphase : ∀ {phase : WorkerPhase} {queue : UploadQueue} {fetched : Option ℕ},
      phase.stake.isSome → queue.senderOpen = process.uploads.senderOpen →
      queue.channel = process.uploads.channel →
      Orderly { process with
        worker := { process.worker with phase := phase, tombstonesFetchedAt := fetched }
        uploads := queue } := by
    intro phase queue fetched hhand hopen hchannel
    exact horderly.busy (UploadWorker.busy_of_hand hhand) rfl rfl hopen hchannel
  cases hcase : process.worker.phase with
  | receive =>
      simp only [UploadWorker.step, hcase]
      exact horderly.receive hcase
  | scan =>
      simp only [UploadWorker.step, hcase]
      exact horderly.scan hcase
  | listTombstones task =>
      simp only [UploadWorker.step, hcase]
      split <;> exact hphase rfl rfl rfl
  | pushTombstones task keys =>
      simp only [UploadWorker.step, hcase]
      exact hphase rfl rfl rfl
  | checkSuperseded task =>
      simp only [UploadWorker.step, hcase]
      split <;> exact hphase rfl rfl rfl
  | checkSource task =>
      simp only [UploadWorker.step, hcase]
      split
      next => split <;> exact hphase rfl rfl rfl
      next => exact hphase rfl rfl rfl
  | beginUpload task =>
      simp only [UploadWorker.step, hcase]
      split <;> exact hphase rfl rfl rfl
  | cleanUp task =>
      simp only [UploadWorker.step, hcase]
      exact hphase rfl rfl rfl
  | readSource task path =>
      simp only [UploadWorker.step, hcase]
      split <;> exact hphase rfl rfl rfl
  | put task body =>
      simp only [UploadWorker.step, hcase]
      split <;> exact hphase rfl rfl rfl
  | stored task =>
      simp only [UploadWorker.step, hcase]
      split <;> exact hphase rfl rfl rfl
  | answered task result =>
      simp only [UploadWorker.step, hcase]
      exact hphase rfl rfl rfl
  | resolve task result =>
      simp only [UploadWorker.step, hcase]
      exact horderly.resolve task result
  | settle task status delivered stage =>
      simp only [UploadWorker.step, hcase]
      exact horderly.settle task status delivered stage
  | finished =>
      simp only [UploadWorker.step, hcase]
      exact horderly

theorem step (horderly : Orderly process) (world : World) (input : ProcessInput) :
    Orderly (process.step world input).1 := by
  have hopen_absurd : ∀ {P : Prop}, process.uploads.senderOpen = true →
      process.uploads.senderOpen = false → P := by
    intro P hopen hclosed
    rw [hopen] at hclosed
    cases hclosed
  cases input with
  | begin request =>
      simp only [Process.step]
      split
      next hopen =>
        have hqueue : (process.beginCall request).uploads.senderOpen = true ∧
            (process.beginCall request).worker = process.worker ∧
            (process.beginCall request).clock = process.clock := by
          cases request <;> simp only [Process.beginCall] <;> split <;> exact ⟨hopen, rfl, rfl⟩
        refine horderly.congr hqueue.2.1 hqueue.2.2.ge ?_ (hopen_absurd hopen)
        intro hclosed
        rw [hqueue.1] at hclosed
        cases hclosed
      next => exact horderly
  | call index input =>
      simp only [Process.step]
      split
      next call hcall =>
        have hopen := (call.advance_frame world.files process.clock input process.uploads).senderOpen
        have hnil : process.uploads.senderOpen = true := by
          by_contra hclosed
          rw [horderly.calls_of_closed (Bool.not_eq_true _ ▸ hclosed)] at hcall
          cases hcall
        refine horderly.congr rfl le_rfl ?_ (hopen_absurd hnil)
        intro hclosed
        exact hopen_absurd hnil (hopen ▸ hclosed)
      next => exact horderly
  | work input => exact horderly.work world input
  | beginDelete target =>
      simp only [Process.step]
      split
      next hopen => exact horderly.congr rfl le_rfl horderly.calls_of_closed (hopen_absurd hopen)
      next => exact horderly
  | delete index input =>
      simp only [Process.step]
      split
      next call hcall =>
        have hopen : (call.advance process.clock input process.uploads world).1.senderOpen =
            process.uploads.senderOpen :=
          call.advance_field UploadQueue.senderOpen (fun _ => rfl) process.clock input _ world
        refine horderly.congr rfl le_rfl (fun hclosed => horderly.calls_of_closed (hopen ▸ hclosed))
          fun hclosed => ⟨hopen.trans hclosed, ?_⟩
        exact (call.advance_books process.clock input process.uploads world).2
      next => exact horderly
  | edit path content => exact horderly
  | tick elapsed =>
      exact horderly.congr rfl (Nat.le_add_right _ _) horderly.calls_of_closed
        fun hclosed => ⟨hclosed, rfl⟩
  | close =>
      simp only [Process.step]
      split
      next hidle => exact horderly.congr rfl le_rfl (fun _ => hidle.1) fun _ => ⟨rfl, rfl⟩
      next => exact horderly

end Orderly

/-! ## The drain -/

/-- The queue is closed and the parts of the process fit together. -/
def Closed (site : Site) : Prop :=
  Orderly site.process ∧ site.process.uploads.senderOpen = false

def ProcessInput.isWork : ProcessInput → Bool
  | .work _ => true
  | _ => false

namespace Closed

variable {site : Site}

theorem step_work (hclosed : Closed site) (input : WorkerInput) :
    (site.step (.work input)).process.uploads.senderOpen = false :=
  (site.process.worker.step_frame _ site.world _ input).senderOpen.trans hclosed.2

/-- No other step touches the worker or the channel of a closed queue. -/
theorem step_other (hclosed : Closed site) {input : ProcessInput} (hinput : input.isWork = false) :
    (site.step input).process.worker = site.process.worker ∧
      (site.step input).process.uploads.channel = site.process.uploads.channel ∧
      (site.step input).process.uploads.senderOpen = false := by
  have hcalls := hclosed.1.calls_of_closed hclosed.2
  have hopen := hclosed.2
  cases input with
  | work input => cases hinput
  | begin request => simp [Site.step, Process.step, hopen]
  | call index input => simp [Site.step, Process.step, hcalls, hopen]
  | beginDelete target => simp [Site.step, Process.step, hopen]
  | delete index input =>
      simp only [Site.step, Process.step]
      split
      next call hcall =>
        refine ⟨rfl, call.advance_field UploadQueue.channel (fun _ => rfl) _ _ _ _, ?_⟩
        exact (call.advance_field UploadQueue.senderOpen (fun _ => rfl) _ _ _ _).trans hopen
      next => exact ⟨rfl, rfl, hopen⟩
  | edit path content => exact ⟨rfl, rfl, hopen⟩
  | tick elapsed => exact ⟨rfl, rfl, hopen⟩
  | close =>
      simp only [Site.step, Process.step]
      split <;> exact ⟨rfl, rfl, by first | rfl | exact hopen⟩

theorem step (hclosed : Closed site) (input : ProcessInput) : Closed (site.step input) := by
  have horderly : Orderly (site.step input).process :=
    (hclosed.1.step site.world input).congr rfl le_rfl
      (hclosed.1.step site.world input).calls_of_closed fun hopen => ⟨hopen, rfl⟩
  refine ⟨horderly, ?_⟩
  cases hinput : input.isWork with
  | true =>
      cases input with
      | work input => exact hclosed.step_work input
      | _ => cases hinput
  | false => exact (hclosed.step_other hinput).2.2

end Closed

/-- After the queue is dropped the worker ends, within a number of its own steps that
is fixed at that moment. -/
theorem worker_finishes {site : Site} (hclosed : Closed site) {inputs : List ProcessInput}
    (henough : site.process.worker.stepsLeft site.process.uploads ≤
      inputs.countP ProcessInput.isWork) :
    (Machine.run Site.step site inputs).process.worker.phase = .finished := by
  let left (site : Site) : ℕ := site.process.worker.stepsLeft site.process.uploads
  have hother : ∀ (site : Site) input, Closed site → input.isWork = false →
      left (site.step input) = left site := by
    intro site input hsite hinput
    obtain ⟨hworker, hchannel, -⟩ := hsite.step_other hinput
    simp only [left, UploadWorker.stepsLeft, UploadWorker.load, hworker, hchannel]
  have hwork : ∀ (site : Site) input, Closed site → site.process.worker.phase ≠ .finished →
      input.isWork = true → left (site.step input) < left site := by
    intro site input hsite hphase hinput
    cases input with
    | work input =>
        exact UploadWorker.step_stepsLeft_lt site.world input hsite.2 hsite.1.now_le
          hsite.1.skipped_of_receive hphase
    | _ => cases hinput
  refine Machine.run_done_of_measure Site.step Closed
    (fun site => site.process.worker.phase = .finished) ProcessInput.isWork left
    (fun site input hsite => hsite.step input) ?_ ?_ hwork
    (fun site input hsite hinput => (hother site input hsite hinput).le) hclosed henough
  · intro site input hsite hdone
    cases hinput : input.isWork with
    | true =>
        cases input with
        | work input => simp only [Site.step, Process.step, UploadWorker.step, hdone]
        | _ => cases hinput
    | false =>
        rw [(hsite.step_other hinput).1]
        exact hdone
  · intro site hsite hphase
    exact Nat.lt_of_le_of_lt (Nat.zero_le _) (hwork site (.work {}) hsite hphase rfl)

end DiscordTranscript.Infrastructure
