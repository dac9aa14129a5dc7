import Mathlib.Data.List.Basic
import DiscordTranscript.Foundation.Runs

/-! # Threads that share a state

A thread is a program of atomic actions on a shared state. What the environment
decides at an action (a clock reading, the outcome of an external call) is an
input of it. The rule of rely and guarantee: what each thread achieves while the
others only do what it relies on holds in every interleaving.
-/

namespace Interleaving

/-- A program of atomic actions; what comes next may depend on what was found. -/
inductive Program (σ ι α : Type) where
  | done (value : α)
  | act (effect : σ → ι → σ) (next : σ → ι → Program σ ι α)

variable {σ ι ε α β : Type}

namespace Program

def bind : Program σ ι α → (α → Program σ ι β) → Program σ ι β
  | done value, rest => rest value
  | act effect next, rest => act effect fun state input => (next state input).bind rest

instance : Monad (Program σ ι) where
  pure := done
  bind := bind

def isDone : Program σ ι α → Bool
  | done _ => true
  | act _ _ => false

/-- One action that answers a value. -/
def atomic (run : σ → ι → α × σ) : Program σ ι α :=
  act (fun state input => (run state input).2) fun state input => done (run state input).1

/-- The program alone, with the same input at every action. -/
def alone (input : ι) : Program σ ι α → σ → α × σ
  | done value, state => (value, state)
  | act effect next, state => (next state input).alone input (effect state input)

@[simp] theorem alone_pure (input : ι) (value : α) (state : σ) :
    (pure value : Program σ ι α).alone input state = (value, state) := rfl

@[simp] theorem alone_atomic (input : ι) (run : σ → ι → α × σ) (state : σ) :
    (atomic run).alone input state = run state input := rfl

theorem alone_bind (input : ι) (program : Program σ ι α) (rest : α → Program σ ι β) (state : σ) :
    (program >>= rest).alone input state =
      (rest (program.alone input state).1).alone input (program.alone input state).2 := by
  induction program generalizing state with
  | done value => rfl
  | act effect next ih => exact ih state input (effect state input)

/-! ## Rely and guarantee -/

section

variable (rely guarantee : σ → σ → Prop) (allowed : σ → ι → Prop)

/-- From `state`, with others changing the state only as `rely` says before each
action, every allowed action is one of `guarantee`, and the end meets `post`. -/
def Meets : Program σ ι α → (α → σ → Prop) → σ → Prop
  | done value, post, state => post value state
  | act effect next, post, state => ∀ seen input, rely state seen → allowed seen input →
      guarantee seen (effect seen input) ∧ (next seen input).Meets post (effect seen input)

end

variable {rely guarantee : σ → σ → Prop} {allowed : σ → ι → Prop}

theorem Meets.mono {program : Program σ ι α} {post post' : α → σ → Prop} {state : σ}
    (hmeets : program.Meets rely guarantee allowed post state)
    (hpost : ∀ value state, post value state → post' value state) :
    program.Meets rely guarantee allowed post' state := by
  induction program generalizing state with
  | done value => exact hpost value state hmeets
  | act effect next ih =>
      intro seen input hrely hallowed
      obtain ⟨hguarantee, hnext⟩ := hmeets seen input hrely hallowed
      exact ⟨hguarantee, ih seen input hnext⟩

theorem Meets.bind {program : Program σ ι α} {rest : α → Program σ ι β} {post : β → σ → Prop}
    {state : σ} (hmeets : program.Meets rely guarantee allowed
      (fun value => (rest value).Meets rely guarantee allowed post) state) :
    (program >>= rest).Meets rely guarantee allowed post state := by
  induction program generalizing state with
  | done value => exact hmeets
  | act effect next ih =>
      intro seen input hrely hallowed
      obtain ⟨hguarantee, hnext⟩ := hmeets seen input hrely hallowed
      exact ⟨hguarantee, ih seen input hnext⟩

theorem Meets.atomic {run : σ → ι → α × σ} {post : α → σ → Prop} {state : σ}
    (hrun : ∀ seen input, rely state seen → allowed seen input →
      guarantee seen (run seen input).2 ∧ post (run seen input).1 (run seen input).2) :
    (Program.atomic run).Meets rely guarantee allowed post state := hrun

/-- Through a computation that may fail. -/
theorem Meets.exceptT_bind {κ : Type} {program : ExceptT κ (Program σ ι) α}
    {rest : α → ExceptT κ (Program σ ι) β} {post : Except κ β → σ → Prop} {state : σ}
    (hmeets : program.run.Meets rely guarantee allowed (fun result state => match result with
      | .ok value => (rest value).run.Meets rely guarantee allowed post state
      | .error err => post (.error err) state) state) :
    (program >>= rest).run.Meets rely guarantee allowed post state := by
  refine Meets.bind (hmeets.mono fun result state hresult => ?_)
  cases result with
  | ok value => exact hresult
  | error err => exact hresult

end Program

/-! ## Threads -/

structure Threads (σ ι α : Type) where
  shared : σ
  threads : List (Program σ ι α)

/-- An action of a thread, or something that happens outside of the threads. -/
inductive Event (ι ε : Type) where
  | thread (index : ℕ) (input : ι)
  | environment (event : ε)

namespace Threads

section

variable (environment : σ → ε → σ) (spawn : σ → ε → ℕ → Option (Program σ ι α))

/-- A thread that is done takes no more actions. What happens outside may start
a thread, which gets the next number. -/
def step (system : Threads σ ι α) : Event ι ε → Threads σ ι α
  | .thread index input =>
      match system.threads[index]? with
      | some (.act effect next) =>
          { shared := effect system.shared input
            threads := system.threads.set index (next system.shared input) }
      | _ => system
  | .environment event =>
      { shared := environment system.shared event
        threads := system.threads ++
          (spawn system.shared event system.threads.length).toList }

/-- Every thread has returned. -/
def AllDone (system : Threads σ ι α) : Prop := ∀ program ∈ system.threads, program.isDone = true

instance (system : Threads σ ι α) : Decidable system.AllDone :=
  inferInstanceAs (Decidable (∀ program ∈ system.threads, program.isDone = true))

end

/-- What the rule asks for. `fresh index` describes the state before the thread
of this number is started. -/
structure Rules (inv : σ → Prop) (rely guarantee : ℕ → σ → σ → Prop)
    (allowed : ℕ → σ → ι → Prop) (fresh : ℕ → σ → Prop) (post : ℕ → α → σ → Prop)
    (environment : σ → ε → σ) (spawn : σ → ε → ℕ → Option (Program σ ι α)) : Prop where
  refl : ∀ index state, inv state → rely index state state
  trans : ∀ index {first second third}, rely index first second → rely index second third →
    rely index first third
  guarantee_inv : ∀ index {state next}, guarantee index state next → inv next
  guarantee_rely : ∀ {index other state next}, index ≠ other → guarantee index state next →
    rely other state next
  environment_rely : ∀ index state event, inv state → rely index state (environment state event)
  environment_inv : ∀ state event, inv state → inv (environment state event)
  fresh_rely : ∀ {index state next}, fresh index state → rely index state next → fresh index next
  spawned : ∀ {index state event program}, inv state → fresh index state →
    spawn state event index = some program →
      program.Meets (rely index) (guarantee index) (allowed index) (post index)
        (environment state event)

/-- The state of the system that the rule keeps. -/
structure Kept (inv : σ → Prop) (rely guarantee : ℕ → σ → σ → Prop)
    (allowed : ℕ → σ → ι → Prop) (fresh : ℕ → σ → Prop) (post : ℕ → α → σ → Prop)
    (system : Threads σ ι α) : Prop where
  shared : inv system.shared
  running : ∀ index program, system.threads[index]? = some program → ∃ state,
    rely index state system.shared ∧
      program.Meets (rely index) (guarantee index) (allowed index) (post index) state
  fresh : ∀ index, system.threads.length ≤ index → fresh index system.shared

section

variable {inv : σ → Prop} {rely guarantee : ℕ → σ → σ → Prop} {allowed : ℕ → σ → ι → Prop}
  {fresh : ℕ → σ → Prop} {post : ℕ → α → σ → Prop} {environment : σ → ε → σ}
  {spawn : σ → ε → ℕ → Option (Program σ ι α)} {system : Threads σ ι α}

/-- The condition on an event: an action of a thread is one that is allowed. -/
def AllowedEvent (allowed : ℕ → σ → ι → Prop) (system : Threads σ ι α) : Event ι ε → Prop
  | .thread index input => allowed index system.shared input
  | .environment _ => True

theorem Kept.step (rules : Rules inv rely guarantee allowed fresh post environment spawn)
    (hkept : system.Kept inv rely guarantee allowed fresh post) {event : Event ι ε}
    (hallowed : AllowedEvent allowed system event) :
    (system.step environment spawn event).Kept inv rely guarantee allowed fresh post := by
  obtain ⟨hinv, hrunning, hfresh⟩ := hkept
  cases event with
  | thread index input =>
      simp only [Threads.step]
      split
      next effect next hfound =>
        obtain ⟨state, hrely, hmeets⟩ := hrunning index _ hfound
        obtain ⟨hguarantee, hnext⟩ := hmeets _ input hrely hallowed
        have hinv' := rules.guarantee_inv index hguarantee
        refine ⟨hinv', fun other program hprogram => ?_, fun other hother => ?_⟩
        · by_cases heq : index = other
          · subst heq
            have hlt := (List.getElem?_eq_some_iff.mp hfound).1
            rw [List.getElem?_set_self hlt] at hprogram
            obtain rfl := Option.some.inj hprogram
            exact ⟨_, rules.refl _ _ hinv', hnext⟩
          · rw [List.getElem?_set_ne heq] at hprogram
            obtain ⟨before, hbefore, hprogram⟩ := hrunning other program hprogram
            exact ⟨before, rules.trans _ hbefore (rules.guarantee_rely heq hguarantee), hprogram⟩
        · rw [List.length_set] at hother
          have hlt := (List.getElem?_eq_some_iff.mp hfound).1
          exact rules.fresh_rely (hfresh other hother)
            (rules.guarantee_rely (by omega) hguarantee)
      next => exact ⟨hinv, hrunning, hfresh⟩
  | environment event =>
      simp only [Threads.step]
      have hchange := fun index => rules.environment_rely index _ event hinv
      refine ⟨rules.environment_inv _ _ hinv, fun index program hprogram => ?_, fun index hindex => ?_⟩
      · by_cases hold : index < system.threads.length
        · rw [List.getElem?_append_left hold] at hprogram
          obtain ⟨before, hbefore, hprogram⟩ := hrunning index program hprogram
          exact ⟨before, rules.trans _ hbefore (hchange index), hprogram⟩
        · rw [List.getElem?_append_right (by omega)] at hprogram
          -- Only the thread just started has a number that was not taken.
          have hmem := List.mem_of_getElem? hprogram
          rw [Option.mem_toList] at hmem
          have hlt := (List.getElem?_eq_some_iff.mp hprogram).1
          rw [hmem] at hlt
          simp only [Option.toList_some, List.length_singleton] at hlt
          obtain rfl : index = system.threads.length := by omega
          exact ⟨_, rules.refl _ _ (rules.environment_inv _ _ hinv),
            rules.spawned hinv (hfresh _ le_rfl) hmem⟩
      · rw [List.length_append] at hindex
        exact rules.fresh_rely (hfresh index (by omega)) (hchange index)

/-- What the rule keeps holds in every state of a run of allowed events. -/
theorem Kept.always (rules : Rules inv rely guarantee allowed fresh post environment spawn)
    (hkept : system.Kept inv rely guarantee allowed fresh post) {events : List (Event ι ε)}
    (hallowed : Machine.EveryStep (Threads.step environment spawn) (AllowedEvent allowed) system
      events) :
    Machine.Always (Threads.step environment spawn) (Kept inv rely guarantee allowed fresh post)
      system events := by
  induction events generalizing system with
  | nil => exact hkept
  | cons event rest ih => exact ⟨hkept, ih (hkept.step rules hallowed.1) hallowed.2⟩

/-- What every guarantee and the environment do, a run does. -/
theorem Kept.run_related (rules : Rules inv rely guarantee allowed fresh post environment spawn)
    (related : σ → σ → Prop) (hrefl : ∀ state, related state state)
    (htrans : ∀ {first second third}, related first second → related second third →
      related first third)
    (hguarantee : ∀ {index state next}, guarantee index state next → related state next)
    (henvironment : ∀ {state event}, inv state → related state (environment state event))
    (hkept : system.Kept inv rely guarantee allowed fresh post) {events : List (Event ι ε)}
    (hallowed : Machine.EveryStep (Threads.step environment spawn) (AllowedEvent allowed) system
      events) :
    related system.shared (Machine.run (Threads.step environment spawn) system events).shared := by
  induction events generalizing system with
  | nil => exact hrefl _
  | cons event rest ih =>
      refine htrans ?_ (ih (hkept.step rules hallowed.1) hallowed.2)
      cases event with
      | environment event => exact henvironment hkept.shared
      | thread index input =>
          simp only [Threads.step]
          split
          next effect next hfound =>
            obtain ⟨state, hrely, hmeets⟩ := hkept.running index _ hfound
            exact hguarantee (hmeets _ input hrely hallowed.1).1
          next => exact hrefl _

/-- Once all threads have returned, every number has its postcondition or was
never given, up to what others did since. -/
theorem Kept.of_allDone (hkept : system.Kept inv rely guarantee allowed fresh post)
    (hdone : system.AllDone) (index : ℕ) :
    fresh index system.shared ∨
      ∃ value state, rely index state system.shared ∧ post index value state := by
  cases hfound : system.threads[index]? with
  | none => exact .inl (hkept.fresh index (List.getElem?_eq_none_iff.mp hfound))
  | some program =>
      have hreturned := hdone program (List.mem_of_getElem? hfound)
      obtain ⟨state, hrely, hmeets⟩ := hkept.running index program hfound
      cases program with
      | done value => exact .inr ⟨value, state, hrely, hmeets⟩
      | act effect next => cases hreturned

end

/-- Acting alone, a thread gets to its end. -/
theorem exists_run_alone (environment : σ → ε → σ)
    (spawn : σ → ε → ℕ → Option (Program σ ι α)) (input : ι) {program : Program σ ι α}
    {system : Threads σ ι α} {index : ℕ} (hfound : system.threads[index]? = some program) :
    ∃ count, Machine.run (step environment spawn) system
        (List.replicate count (.thread index input)) =
      { shared := (program.alone input system.shared).2
        threads := system.threads.set index (.done (program.alone input system.shared).1) } := by
  induction program generalizing system with
  | done value =>
      obtain ⟨hlt, heq⟩ := List.getElem?_eq_some_iff.mp hfound
      refine ⟨0, ?_⟩
      obtain ⟨shared, threads⟩ := system
      simp only [List.replicate_zero, Machine.run_nil, Program.alone, mk.injEq, true_and]
      rw [← heq, List.set_getElem_self]
  | act effect next ih =>
      have hlt := (List.getElem?_eq_some_iff.mp hfound).1
      have hstep : system.step environment spawn (.thread index input) =
          { shared := effect system.shared input
            threads := system.threads.set index (next system.shared input) } := by
        simp only [step, hfound]
      have hnext : (system.step environment spawn (.thread index input)).threads[index]? =
          some (next system.shared input) := by
        rw [hstep]
        exact List.getElem?_set_self hlt
      obtain ⟨count, hrun⟩ := ih _ _ hnext
      refine ⟨count + 1, ?_⟩
      rw [List.replicate_succ]
      change Machine.run _ (system.step environment spawn (.thread index input)) _ = _
      rw [hrun, hstep, List.set_set]
      rfl

end Threads

end Interleaving
