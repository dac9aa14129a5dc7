import DiscordTranscript.Foundation.Runs

/-! # Collections that only lose

A step shrinks a list when it adds nothing and what is missing afterwards meets a
condition. Steps that shrink compose, and in a run of them whatever is lost was lost
at one step, whose condition it met.
-/

variable {α State Input : Type*}

/-- Nothing is added, and what is missing meets the condition. -/
structure Shrinks (gone : α → Prop) (before after : List α) : Prop where
  old : ∀ item ∈ after, item ∈ before
  kept : ∀ item ∈ before, item ∈ after ∨ gone item

namespace Shrinks

variable {gone : α → Prop} {first second third : List α}

theorem refl (gone : α → Prop) (items : List α) : Shrinks gone items items :=
  ⟨fun _ hitem => hitem, fun _ hitem => .inl hitem⟩

theorem trans (hleft : Shrinks gone first second) (hright : Shrinks gone second third) :
    Shrinks gone first third := by
  refine ⟨fun item hitem => hleft.old item (hright.old item hitem), fun item hitem => ?_⟩
  rcases hleft.kept item hitem with hitem | hgone
  · exact hright.kept item hitem
  · exact .inr hgone

theorem mono {wider : α → Prop} (hwider : ∀ item, gone item → wider item)
    (hshrinks : Shrinks gone first second) : Shrinks wider first second :=
  ⟨hshrinks.old, fun item hitem => (hshrinks.kept item hitem).imp_right (hwider item)⟩

theorem filter {keep : α → Bool} (items : List α)
    (hgone : ∀ item ∈ items, keep item = false → gone item) :
    Shrinks gone items (items.filter keep) := by
  refine ⟨fun item hitem => (List.mem_filter.mp hitem).1, fun item hitem => ?_⟩
  cases hkeep : keep item with
  | true => exact .inl (List.mem_filter.mpr ⟨hitem, hkeep⟩)
  | false => exact .inr (hgone item hitem hkeep)

/-- One step after the other. -/
theorem foldl {step : State → Input → State} (view : State → List α) {inputs : List Input}
    (hstep : ∀ input ∈ inputs, ∀ state, Shrinks gone (view state) (view (step state input)))
    (state : State) : Shrinks gone (view state) (view (inputs.foldl step state)) := by
  induction inputs generalizing state with
  | nil => exact refl gone (view state)
  | cons input rest ih =>
      apply (hstep input List.mem_cons_self state).trans
      exact ih (fun other hother => hstep other (List.mem_cons_of_mem _ hother)) _

end Shrinks

/-- What a run has lost was lost at one of its steps, and met that step's condition. -/
theorem Machine.exists_step_of_lost {step : State → Input → State} (view : State → List α)
    (gone : State → Input → α → Prop)
    (hstep : ∀ state input, Shrinks (gone state input) (view state) (view (step state input)))
    {start : State} {inputs : List Input} {item : α} (hitem : item ∈ view start)
    (hlost : item ∉ view (Machine.run step start inputs)) :
    ∃ front input back, inputs = front ++ input :: back ∧
      gone (Machine.run step start front) input item := by
  induction inputs generalizing start with
  | nil => exact absurd hitem hlost
  | cons input rest ih =>
      rcases (hstep start input).kept item hitem with hstill | hgone
      · obtain ⟨front, later, back, rfl, hgone⟩ := ih hstill hlost
        exact ⟨input :: front, later, back, rfl, hgone⟩
      · exact ⟨[], input, rest, rfl, hgone⟩
