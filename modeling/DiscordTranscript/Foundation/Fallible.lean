import Mathlib.Tactic.Common

/-! # Peeling fallible computations

What a successful run of a chain of checks says about each check.
-/

namespace Except

variable {ε α β : Type*}

/-- A computation that got past a check did not fail it. -/
theorem ok_of_guard {failed : Prop} [Decidable failed] {error : ε} {next : Except ε α}
    {result : α} (hok : (if failed then .error error else next) = .ok result) :
    ¬failed ∧ next = .ok result := by
  split at hok
  next => cases hok
  next hpassed => exact ⟨hpassed, hok⟩

theorem bind_eq_ok {first : Except ε α} {next : α → Except ε β} {result : β} :
    first.bind next = .ok result ↔ ∃ value, first = .ok value ∧ next value = .ok result := by
  cases first with
  | error error => simp [Except.bind]
  | ok value => simp [Except.bind]

theorem eq_ok_of_toOption {attempt : Except ε α} {value : α}
    (hvalue : attempt.toOption = some value) : attempt = .ok value := by
  cases attempt with
  | error error => cases hvalue
  | ok found => exact congrArg Except.ok (Option.some.inj hvalue)

/-- A property that every successful step preserves survives a whole loop. -/
theorem foldlM_invariant {σ : Type*} (good : σ → Prop) {step : σ → α → Except ε σ}
    {inputs : List α}
    (hstep : ∀ state input next, input ∈ inputs → good state →
      step state input = .ok next → good next)
    {state final : σ} (hstate : good state) (hrun : inputs.foldlM step state = .ok final) :
    good final := by
  induction inputs generalizing state with
  | nil =>
      cases hrun
      exact hstate
  | cons input rest ih =>
      obtain ⟨next, hnext, hrest⟩ := bind_eq_ok.mp hrun
      refine ih (fun state input next hinput => hstep state input next ?_)
        (hstep state input next List.mem_cons_self hstate hnext) hrest
      exact List.mem_cons_of_mem _ hinput

/-- A loop whose steps fail for their inputs alone fails with the first failure. -/
theorem foldlM_eq_error {σ : Type*} {step : σ → α → Except ε σ} {failure : α → Option ε}
    (hstep : ∀ state input error, step state input = .error error ↔ failure input = some error)
    (state : σ) (inputs : List α) (error : ε) :
    inputs.foldlM step state = .error error ↔ inputs.findSome? failure = some error := by
  induction inputs generalizing state with
  | nil => simp [pure, Except.pure]
  | cons input rest ih =>
      rw [List.foldlM_cons, List.findSome?_cons]
      cases hnext : step state input with
      | error first =>
          rw [(hstep state input first).mp hnext]
          simp [bind, Except.bind]
      | ok next =>
          have hnone : failure input = none := by
            rw [Option.eq_none_iff_forall_ne_some]
            intro first hfirst
            rw [(hstep state input first).mpr hfirst] at hnext
            cases hnext
          rw [hnone]
          exact ih next

end Except
