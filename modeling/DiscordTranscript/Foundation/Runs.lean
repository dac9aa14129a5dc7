import Mathlib.Data.List.Induction
import Mathlib.Data.List.Infix

/-! # Runs of deterministic machines

A machine is a step function on states and inputs; everything the environment
decides (clock readings, iteration orders, outcomes of I/O) is part of the
input. A property of runs is reduced here to one step: what every step
preserves, what a step preserves under a condition, when a condition on the steps
is exactly what a property of the visited states needs, and a measure that every
counted step lowers.
-/

namespace Machine

variable {State Input : Type*} (step : State → Input → State)

/-- The state reached after a list of inputs. -/
def run (state : State) (inputs : List Input) : State := inputs.foldl step state

/-- The property holds in the start state and in every state visited. -/
def Always (good : State → Prop) : State → List Input → Prop
  | state, [] => good state
  | state, input :: rest => good state ∧ Always good (step state input) rest

/-- Every step of the run meets the condition in the state it is taken in. -/
def EveryStep (allowed : State → Input → Prop) : State → List Input → Prop
  | _, [] => True
  | state, input :: rest => allowed state input ∧ EveryStep allowed (step state input) rest

instance decidableEveryStep (allowed : State → Input → Prop)
    [∀ state input, Decidable (allowed state input)] :
    ∀ state inputs, Decidable (EveryStep step allowed state inputs)
  | _, [] => inferInstanceAs (Decidable True)
  | state, input :: rest =>
      have := decidableEveryStep allowed (step state input) rest
      inferInstanceAs (Decidable (allowed state input ∧ EveryStep step allowed (step state input) rest))

@[simp] theorem run_nil (state : State) : run step state [] = state := rfl

/-- A property preserved by every step holds after every run. -/
theorem run_invariant (good : State → Prop)
    (hstep : ∀ state input, good state → good (step state input))
    {state : State} (hstate : good state) (inputs : List Input) :
    good (run step state inputs) := by
  induction inputs generalizing state with
  | nil => exact hstate
  | cons input rest ih => exact ih (hstep state input hstate)

/-- The same for a property that the inputs of this run preserve. -/
theorem run_invariant_of_mem (good : State → Prop) {inputs : List Input}
    (hstep : ∀ state, ∀ input ∈ inputs, good state → good (step state input))
    {state : State} (hstate : good state) : good (run step state inputs) := by
  induction inputs generalizing state with
  | nil => exact hstate
  | cons input rest ih =>
      exact ih (fun state other hother => hstep state other (List.mem_cons_of_mem _ hother))
        (hstep state input List.mem_cons_self hstate)

theorem run_append (state : State) (front back : List Input) :
    run step state (front ++ back) = run step (run step state front) back :=
  List.foldl_append

/-- The states visited are the states after the prefixes of the input. -/
theorem always_iff_forall_initial (good : State → Prop) (state : State) (inputs : List Input) :
    Always step good state inputs ↔ ∀ done, done <+: inputs → good (run step state done) := by
  induction inputs generalizing state with
  | nil => simp [Always]
  | cons input rest ih =>
      rw [Always, ih]
      constructor
      · rintro ⟨hgood, hrest⟩ done hdone
        cases done with
        | nil => exact hgood
        | cons first tail =>
            obtain ⟨rfl, htail⟩ := List.cons_prefix_cons.mp hdone
            exact hrest tail htail
      · intro hall
        refine ⟨hall [] (List.nil_prefix), fun done hdone => ?_⟩
        exact hall (input :: done) (List.cons_prefix_cons.mpr ⟨rfl, hdone⟩)

/-- A condition that each step must meet is exact for a property of states and
of the steps between them, when from a good state the step is good throughout
and ends well precisely if it meets the condition. The `inv` argument carries
facts that hold in every reachable state anyway. -/
theorem always_and_everyStep_iff {inv good : State → Prop} {during allowed : State → Input → Prop}
    (hinv : ∀ state input, inv state → inv (step state input))
    (hstep : ∀ state input, inv state → good state →
      (during state input ∧ good (step state input) ↔ allowed state input))
    {state : State} (hstate : inv state) (hgood : good state) (inputs : List Input) :
    Always step good state inputs ∧ EveryStep step during state inputs ↔
      EveryStep step allowed state inputs := by
  induction inputs generalizing state with
  | nil => simp [Always, EveryStep, hgood]
  | cons input rest ih =>
      simp only [Always, EveryStep, hgood, true_and]
      constructor
      · rintro ⟨halways, hduring, hrest⟩
        -- `Always` of the rest says at least that its first state is good.
        have hnext : good (step state input) := by
          cases rest with
          | nil => exact halways
          | cons _ _ => exact halways.1
        exact ⟨(hstep state input hstate hgood).mp ⟨hduring, hnext⟩,
          (ih (hinv state input hstate) hnext).mp ⟨halways, hrest⟩⟩
      · rintro ⟨hallowed, hrest⟩
        obtain ⟨hduring, hnext⟩ := (hstep state input hstate hgood).mpr hallowed
        obtain ⟨halways, hsteps⟩ := (ih (hinv state input hstate) hnext).mpr hrest
        exact ⟨halways, hduring, hsteps⟩

/-- A property that every step of the run preserves where it meets its condition. -/
theorem always_of_everyStep {inv : State → Prop} {allowed : State → Input → Prop}
    (hstep : ∀ state input, inv state → allowed state input → inv (step state input))
    {state : State} (hstate : inv state) {inputs : List Input}
    (hsteps : EveryStep step allowed state inputs) : Always step inv state inputs := by
  induction inputs generalizing state with
  | nil => exact hstate
  | cons input rest ih => exact ⟨hstate, ih (hstep state input hstate hsteps.1) hsteps.2⟩

theorem EveryStep.front {allowed : State → Input → Prop} {state : State}
    {front inputs : List Input} (hsteps : EveryStep step allowed state inputs)
    (hfront : front <+: inputs) : EveryStep step allowed state front := by
  induction front generalizing state inputs with
  | nil => trivial
  | cons first rest ih =>
      obtain ⟨tail, rfl⟩ := hfront
      exact ⟨hsteps.1, ih hsteps.2 (List.prefix_append rest tail)⟩

theorem everyStep_concat {allowed : State → Input → Prop} {state : State} {inputs : List Input}
    {input : Input} : EveryStep step allowed state (inputs ++ [input]) ↔
      EveryStep step allowed state inputs ∧ allowed (run step state inputs) input := by
  induction inputs generalizing state with
  | nil => simp [EveryStep]
  | cons first rest ih =>
      rw [List.cons_append, EveryStep, EveryStep, ih, and_assoc]
      rfl

/-- The same for a property of a state and of the inputs that led to it. -/
theorem run_of_everyStep {start : State} (inv : List Input → State → Prop)
    {allowed : State → Input → Prop} (hstart : inv [] start)
    (hstep : ∀ done input, inv done (run step start done) → allowed (run step start done) input →
      inv (done ++ [input]) (step (run step start done) input))
    {inputs : List Input} (hsteps : EveryStep step allowed start inputs) :
    inv inputs (run step start inputs) := by
  induction inputs using List.reverseRecOn with
  | nil => exact hstart
  | append_singleton done input ih =>
      obtain ⟨hdone, hinput⟩ := (everyStep_concat step).mp hsteps
      rw [run_append]
      exact hstep done input (ih hdone) hinput

/-- The last state visited. -/
theorem Always.run {good : State → Prop} {state : State} {inputs : List Input}
    (halways : Always step good state inputs) : good (Machine.run step state inputs) :=
  (always_iff_forall_initial step good state inputs).mp halways inputs List.prefix_rfl

theorem everyStep_of_forall {allowed : State → Input → Prop}
    (hallowed : ∀ state input, allowed state input) (state : State) (inputs : List Input) :
    EveryStep step allowed state inputs := by
  induction inputs generalizing state with
  | nil => trivial
  | cons input rest ih => exact ⟨hallowed state input, ih _⟩

theorem EveryStep.mono {allowed allowed' : State → Input → Prop}
    (hweaker : ∀ state input, allowed state input → allowed' state input) {state : State}
    {inputs : List Input} (hsteps : EveryStep step allowed state inputs) :
    EveryStep step allowed' state inputs := by
  induction inputs generalizing state with
  | nil => trivial
  | cons input rest ih => exact ⟨hweaker state input hsteps.1, ih hsteps.2⟩

theorem Always.mono {good good' : State → Prop} (hweaker : ∀ state, good state → good' state)
    {state : State} {inputs : List Input} (halways : Always step good state inputs) :
    Always step good' state inputs := by
  induction inputs generalizing state with
  | nil => exact hweaker state halways
  | cons input rest ih => exact ⟨hweaker state halways.1, ih halways.2⟩

section

variable {Full : Type*} {full : Full → Input → Full} {view : Full → State}

/-- A machine that keeps more than another one visits the same states as that one. -/
theorem always_view (hview : ∀ state input, view (full state input) = step (view state) input)
    (good : State → Prop) (state : Full) (inputs : List Input) :
    Always step good (view state) inputs ↔
      Always full (fun state => good (view state)) state inputs := by
  induction inputs generalizing state with
  | nil => rfl
  | cons input rest ih => rw [Always, Always, ← hview, ih]

theorem everyStep_view (hview : ∀ state input, view (full state input) = step (view state) input)
    (allowed : State → Input → Prop) (state : Full) (inputs : List Input) :
    EveryStep step allowed (view state) inputs ↔
      EveryStep full (fun state => allowed (view state)) state inputs := by
  induction inputs generalizing state with
  | nil => rfl
  | cons input rest ih => rw [EveryStep, EveryStep, ← hview, ih]

end

/-- The same for a property of states alone. -/
theorem always_iff_everyStep {inv good : State → Prop} {allowed : State → Input → Prop}
    (hinv : ∀ state input, inv state → inv (step state input))
    (hstep : ∀ state input, inv state → good state →
      (good (step state input) ↔ allowed state input))
    {state : State} (hstate : inv state) (hgood : good state) (inputs : List Input) :
    Always step good state inputs ↔ EveryStep step allowed state inputs := by
  have hstep' : ∀ state input, inv state → good state →
      (True ∧ good (step state input) ↔ allowed state input) := by
    intro state input hstate hgood
    rw [true_and]
    exact hstep state input hstate hgood
  have hexact := always_and_everyStep_iff step hinv hstep' hstate hgood inputs
  rw [← hexact, and_iff_left (everyStep_of_forall step (fun _ _ => trivial) state inputs)]

/-- A run ends where every counted step lowers a measure: after as many of them as
the measure says, whatever else happens in between. -/
theorem run_done_of_measure (inv done : State → Prop) (counted : Input → Bool) (measure : State → ℕ)
    (hinv : ∀ state input, inv state → inv (step state input))
    (hstable : ∀ state input, inv state → done state → done (step state input))
    (hpos : ∀ state, inv state → ¬done state → 0 < measure state)
    (hcounted : ∀ state input, inv state → ¬done state → counted input = true →
      measure (step state input) < measure state)
    (hother : ∀ state input, inv state → counted input = false →
      measure (step state input) ≤ measure state)
    {state : State} (hstate : inv state) {inputs : List Input}
    (henough : measure state ≤ inputs.countP counted) : done (run step state inputs) := by
  have hdone : ∀ (rest : List Input) (state : State), inv state → done state →
      done (run step state rest) := by
    intro rest
    induction rest with
    | nil => exact fun state _ hdone => hdone
    | cons input rest ih =>
        exact fun state hstate hdone => ih _ (hinv state input hstate)
          (hstable state input hstate hdone)
  induction inputs generalizing state with
  | nil =>
      by_contra hnot
      have := hpos state hstate hnot
      simp only [List.countP_nil] at henough
      omega
  | cons input rest ih =>
      by_cases hnow : done state
      · exact hdone (input :: rest) state hstate hnow
      · apply ih (hinv state input hstate)
        cases hinput : counted input with
        | true =>
            have := hcounted state input hstate hnow hinput
            simp only [List.countP_cons, hinput, if_true] at henough
            omega
        | false =>
            have := hother state input hstate hinput
            simp only [List.countP_cons, hinput, Bool.false_eq_true, if_false, Nat.add_zero] at henough
            omega

/-- What an input brings about and every step keeps holds after a run with the input. -/
theorem run_done_of_mem (done : Input → State → Prop)
    (hdone : ∀ state input, done input (step state input))
    (hkeeps : ∀ state input other, done other state → done other (step state input))
    {inputs : List Input} {input : Input} (hinput : input ∈ inputs) (state : State) :
    done input (run step state inputs) := by
  induction inputs generalizing state with
  | nil => cases hinput
  | cons first rest ih =>
      rcases List.mem_cons.mp hinput with rfl | hinput
      · exact run_invariant step (done input) (fun state other => hkeeps state other input)
          (hdone state input) rest
      · exact ih hinput (step state first)

section

variable {Key View : Type*} {key : Input → Key} {view : Key → State → View}

/-- Inputs that leave a part of the state alone. -/
theorem run_view_of_notMem
    (hframe : ∀ state input k, k ≠ key input → view k (step state input) = view k state)
    {inputs : List Input} {k : Key} (hk : k ∉ inputs.map key) (state : State) :
    view k (run step state inputs) = view k state := by
  induction inputs generalizing state with
  | nil => rfl
  | cons input rest ih =>
      rw [List.map_cons, List.mem_cons, not_or] at hk
      exact (ih hk.2 (step state input)).trans (hframe state input k hk.1)

/-- When every input works on a part of its own, a part is changed by its own step
alone, from a state in which it is still as it was. -/
theorem run_view_of_mem
    (hframe : ∀ state input k, k ≠ key input → view k (step state input) = view k state)
    {inputs : List Input} (hnodup : (inputs.map key).Nodup) {input : Input}
    (hinput : input ∈ inputs) (state : State) :
    ∃ before, view (key input) before = view (key input) state ∧
      view (key input) (run step state inputs) = view (key input) (step before input) := by
  induction inputs generalizing state with
  | nil => cases hinput
  | cons first rest ih =>
      rw [List.map_cons] at hnodup
      obtain ⟨hfirst, hrest⟩ := List.nodup_cons.mp hnodup
      rcases List.mem_cons.mp hinput with rfl | hinput
      · exact ⟨state, rfl, run_view_of_notMem step hframe hfirst (step state input)⟩
      · have hother : key input ≠ key first := by
          intro heq
          exact hfirst (heq ▸ List.mem_map_of_mem hinput)
        obtain ⟨before, hbefore, hafter⟩ := ih hrest hinput (step state first)
        exact ⟨before, hbefore.trans (hframe state first (key input) hother), hafter⟩

end

end Machine
