import DiscordTranscript.Foundation.Runs
import DiscordTranscript.Foundation.Slots

/-! # The gate of the audit cleanup

The model of `AuditCleanupGate` and `run_audit_retention_cleanup` in `interfaces/web.rs`. The gate
is one atomic, so a step is one compare-and-swap or store of a caller or of a runner, and any
number of them interleave. A prune begins and ends in steps of its own.
-/

namespace DiscordTranscript.Interfaces

open Slots

inductive GateState where
  | idle
  | running
  | pending
  deriving DecidableEq, Repr

/-- Where a call of `try_begin` stands: before it exchanges idle for running, or before it
exchanges the running it has seen for pending. -/
inductive TryBegin where
  | acquire
  | mark
  deriving DecidableEq, Repr

/-- One exchange of `try_begin`: the call goes on, or returns. -/
def tryBegin : GateState → TryBegin → GateState × (TryBegin ⊕ Bool)
  | .idle, .acquire => (.running, .inr true)
  | .pending, .acquire => (.pending, .inr false)
  | .running, .acquire => (.running, .inl .mark)
  | .running, .mark => (.pending, .inr false)
  | gate, .mark => (gate, .inl .acquire)

/-- Where a run of the cleanup stands. -/
inductive CleanupRun where
  | due
  | pruning
  | releasing
  | reopening
  deriving DecidableEq, Repr

/-- One step of the cleanup; the run is over when the slot has been released. A prune that fails
is only logged. -/
def CleanupRun.step (gate : GateState) (_pruned : Except String Unit) :
    CleanupRun → GateState × Option CleanupRun
  | .due => (gate, some .pruning)
  | .pruning => (gate, some .releasing)
  | .releasing => if gate = .running then (.idle, none) else (gate, some .reopening)
  | .reopening => (.running, some .due)

inductive CleanupEvent where
  | triggered
  | pruneStarted
  deriving DecidableEq, Repr

/-- The gate, the calls and the runs under way, and what has happened. `starting` counts the calls
that returned true and whose run has not been started. -/
structure AuditCleanup where
  gate : GateState := .idle
  callers : List TryBegin := []
  starting : ℕ := 0
  runs : List CleanupRun := []
  history : List CleanupEvent := []

inductive CleanupInput where
  | call
  | caller (index : ℕ)
  | start
  | run (index : ℕ) (pruned : Except String Unit)

namespace AuditCleanup

def callerStep (state : AuditCleanup) (index : ℕ) (caller : TryBegin) : AuditCleanup :=
  match tryBegin state.gate caller with
  | (gate, .inl next) => { state with gate, callers := advanceAt state.callers index (some next) }
  | (gate, .inr accepted) =>
      { state with
        gate
        callers := advanceAt state.callers index none
        starting := if accepted then state.starting + 1 else state.starting
        history := state.history ++ [.triggered] }

def runStep (state : AuditCleanup) (index : ℕ) (run : CleanupRun)
    (pruned : Except String Unit) : AuditCleanup :=
  let (gate, next) := run.step state.gate pruned
  { state with
    gate
    runs := advanceAt state.runs index next
    history := if run = .due then state.history ++ [.pruneStarted] else state.history }

def step (state : AuditCleanup) : CleanupInput → AuditCleanup
  | .call => { state with callers := state.callers ++ [.acquire] }
  | .caller index =>
      match state.callers[index]? with
      | some caller => state.callerStep index caller
      | none => state
  | .start =>
      if state.starting = 0 then state
      else { state with starting := state.starting - 1, runs := state.runs ++ [.due] }
  | .run index pruned =>
      match state.runs[index]? with
      | some run => state.runStep index run pruned
      | none => state

/-! ## What the gate keeps -/

/-- Every trigger has been followed by the start of a prune. -/
def Served (history : List CleanupEvent) : Prop :=
  ∀ front back, history = front ++ .triggered :: back → .pruneStarted ∈ back

/-- The slot has one owner unless the gate is idle. A run that goes back for another prune finds
its pending mark, and where no mark is set a prune that has begun serves every trigger. -/
structure Coordinated (state : AuditCleanup) : Prop where
  owners : state.starting + state.runs.length = if state.gate = .idle then 0 else 1
  reopening : .reopening ∈ state.runs → state.gate = .pending
  served : state.gate = .idle ∨
    (state.gate = .running ∧ (.pruning ∈ state.runs ∨ .releasing ∈ state.runs)) →
      Served state.history

theorem served_pruneStarted (history : List CleanupEvent) : Served (history ++ [.pruneStarted]) := by
  intro front back hsplit
  rcases List.eq_nil_or_concat back with rfl | ⟨inner, last, rfl⟩
  · have hlast := congrArg List.getLast? hsplit
    simp at hlast
  · have hlast := congrArg List.getLast? hsplit
    rw [List.concat_eq_append, ← List.cons_append, ← List.append_assoc, List.getLast?_concat,
      List.getLast?_concat, Option.some.injEq] at hlast
    rw [← hlast]
    simp

theorem coordinated_initial : Coordinated {} where
  owners := rfl
  reopening hreopening := by cases hreopening
  served _ front back hsplit := by
    have hnil := congrArg List.length hsplit
    simp at hnil

variable {state : AuditCleanup}

/-- A caller takes an idle slot, leaves a mark on one that is taken, or looks again. -/
theorem callerStep_cases (state : AuditCleanup) (index : ℕ) (caller : TryBegin) :
    (state.callerStep index caller).runs = state.runs ∧
      ((state.gate = .idle ∧ (state.callerStep index caller).gate = .running ∧
          (state.callerStep index caller).starting = state.starting + 1) ∨
        (state.gate ≠ .idle ∧ (state.callerStep index caller).gate = .pending ∧
          (state.callerStep index caller).starting = state.starting) ∨
        ((state.callerStep index caller).gate = state.gate ∧
          (state.callerStep index caller).starting = state.starting ∧
          (state.callerStep index caller).history = state.history)) := by
  unfold callerStep
  cases hgate : state.gate <;> cases caller <;> simp [tryBegin]

theorem Coordinated.callerStep (hstate : state.Coordinated) (index : ℕ) (caller : TryBegin) :
    (state.callerStep index caller).Coordinated := by
  obtain ⟨howners, hreopening, hserved⟩ := hstate
  obtain ⟨hruns, ⟨hidle, hgate, hstarting⟩ | ⟨htaken, hgate, hstarting⟩ | ⟨hgate, hstarting, hhistory⟩⟩ :=
    callerStep_cases state index caller
  · rw [hidle, if_pos rfl] at howners
    have hnone : state.runs = [] := List.eq_nil_of_length_eq_zero (by omega)
    constructor
    · rw [hruns, hstarting, hgate, if_neg (by decide)]
      omega
    · rw [hruns, hnone]
      intro hmem
      cases hmem
    · rw [hruns, hgate, hnone]
      simp
  · rw [if_neg htaken] at howners
    constructor
    · rw [hruns, hstarting, hgate, if_neg (by decide)]
      exact howners
    · intro _
      exact hgate
    · rw [hgate]
      simp
  · constructor
    · rw [hruns, hstarting, hgate]
      exact howners
    · rw [hruns, hgate]
      exact hreopening
    · rw [hruns, hgate, hhistory]
      exact hserved

/-- A run that is under way is the only one, and no other is to be started. -/
theorem Coordinated.only_run (hstate : state.Coordinated) {index : ℕ} {run : CleanupRun}
    (hrun : state.runs[index]? = some run) :
    state.starting = 0 ∧ state.gate ≠ .idle ∧ state.runs = [run] ∧ index = 0 := by
  have howners := hstate.owners
  have hlt := (List.getElem?_eq_some_iff.mp hrun).1
  split at howners
  next => omega
  next htaken =>
    obtain ⟨only, honly⟩ := List.length_eq_one_iff.mp (show state.runs.length = 1 by omega)
    rw [honly, List.length_singleton] at hlt howners
    obtain rfl : index = 0 := by omega
    rw [honly] at hrun
    cases hrun
    exact ⟨by omega, htaken, honly, rfl⟩

theorem Coordinated.runStep (hstate : state.Coordinated) {index : ℕ} {run : CleanupRun}
    (hrun : state.runs[index]? = some run) (pruned : Except String Unit) :
    (state.runStep index run pruned).Coordinated := by
  obtain ⟨hstarting, htaken, hruns, rfl⟩ := hstate.only_run hrun
  have hnext : ∀ next, advanceAt state.runs 0 next = next.toList := by
    intro next
    rw [hruns]
    simp [advanceAt]
  cases run with
  | due =>
      constructor
      · simp [AuditCleanup.runStep, CleanupRun.step, hnext, hstarting, htaken]
      · simp [AuditCleanup.runStep, CleanupRun.step, hnext]
      · intro _
        exact served_pruneStarted state.history
  | pruning =>
      constructor
      · simp [AuditCleanup.runStep, CleanupRun.step, hnext, hstarting, htaken]
      · simp [AuditCleanup.runStep, CleanupRun.step, hnext]
      · intro hgate
        apply hstate.served
        rw [hruns]
        simpa [AuditCleanup.runStep, CleanupRun.step, hnext] using hgate
  | releasing =>
      by_cases hrunning : state.gate = .running
      · have hserved : Served state.history := hstate.served (.inr ⟨hrunning, by simp [hruns]⟩)
        constructor
        · simp [AuditCleanup.runStep, CleanupRun.step, hnext, hstarting, hrunning]
        · simp [AuditCleanup.runStep, CleanupRun.step, hnext, hrunning]
        · intro _
          exact hserved
      · have hpending : state.gate = .pending := by
          cases hgate : state.gate with
          | idle => exact absurd hgate htaken
          | running => exact absurd hgate hrunning
          | pending => rfl
        constructor
        · simp [AuditCleanup.runStep, CleanupRun.step, hnext, hstarting, hpending]
        · simp [AuditCleanup.runStep, CleanupRun.step, hpending]
        · simp [AuditCleanup.runStep, CleanupRun.step, hpending]
  | reopening =>
      constructor
      · simp [AuditCleanup.runStep, CleanupRun.step, hnext, hstarting]
      · simp [AuditCleanup.runStep, CleanupRun.step, hnext]
      · simp [AuditCleanup.runStep, CleanupRun.step, hnext]

theorem Coordinated.step (hstate : state.Coordinated) (input : CleanupInput) :
    (state.step input).Coordinated := by
  cases input with
  | call => exact ⟨hstate.owners, hstate.reopening, hstate.served⟩
  | caller index =>
      simp only [AuditCleanup.step]
      split
      next caller _ => exact hstate.callerStep index caller
      next => exact hstate
  | start =>
      simp only [AuditCleanup.step]
      split
      next => exact hstate
      next hsome =>
        obtain ⟨howners, hreopening, hserved⟩ := hstate
        constructor
        · simp only [List.length_append, List.length_singleton]
          omega
        · simpa using hreopening
        · simpa using hserved
  | run index pruned =>
      simp only [AuditCleanup.step]
      split
      next run hrun => exact hstate.runStep hrun pruned
      next => exact hstate

/-- At most one prune is in progress, and when the gate is idle every trigger has been followed
by a prune that started after it. -/
theorem audit_cleanup_triggers_served (inputs : List CleanupInput) :
    (Machine.run step {} inputs).runs.count .pruning ≤ 1 ∧
      ((Machine.run step {} inputs).gate = .idle →
        Served (Machine.run step {} inputs).history) := by
  have hreached : (Machine.run step {} inputs).Coordinated :=
    Machine.run_invariant step Coordinated (fun _ input hstate => hstate.step input)
      coordinated_initial inputs
  constructor
  · have howners := hreached.owners
    have hcount := List.count_le_length (a := CleanupRun.pruning)
      (l := (Machine.run step {} inputs).runs)
    split at howners <;> omega
  · intro hidle
    exact hreached.served (.inl hidle)

/-- A trigger during a prune is served by a second prune of the same run. -/
example :
    (Machine.run step {} [.call, .caller 0, .start, .run 0 (.ok ()), .call, .caller 0, .caller 0,
      .run 0 (.error "timeout"), .run 0 (.ok ()), .run 0 (.ok ()), .run 0 (.ok ()),
      .run 0 (.ok ()), .run 0 (.ok ())]).history =
        [.triggered, .pruneStarted, .triggered, .pruneStarted] := by
  decide

end AuditCleanup

end DiscordTranscript.Interfaces
