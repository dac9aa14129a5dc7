import Mathlib.Algebra.Order.Ring.Nat
import Mathlib.Data.Finset.Max
import Mathlib.Logic.Function.Basic
import Mathlib.Order.Lattice.Nat

/-! # Generations of one key

The model of `GenerationState` in `infrastructure/storage_s3.rs`. Of each key
`outstanding` holds the generations that are queued, delayed or in flight, and
`delivered` the newest one known to be uploaded; both are forgotten as soon as
nothing of the key is outstanding.
-/

namespace DiscordTranscript.Infrastructure

structure GenerationState where
  outstanding : String → Option (Finset ℕ) := fun _ => none
  delivered : String → Option ℕ := fun _ => none

namespace GenerationState

variable (state : GenerationState)

/-- The outstanding generations of a key; none where the key is not in the map. -/
def tracked (key : String) : Finset ℕ := (state.outstanding key).getD ∅

def track (key : String) (generation : ℕ) : GenerationState :=
  { state with
    outstanding := Function.update state.outstanding key
      (some (insert generation (state.tracked key))) }

def newest (key : String) : WithBot ℕ :=
  max (state.tracked key).max ((state.delivered key).elim ⊥ WithBot.some)

def isSuperseded (key : String) (generation : ℕ) : Bool :=
  (generation : WithBot ℕ) < state.newest key

def untrack (key : String) (generation : ℕ) : GenerationState :=
  match state.outstanding key with
  | none => state
  | some set =>
      if set.erase generation = ∅ then
        { outstanding := Function.update state.outstanding key none
          delivered := Function.update state.delivered key none }
      else
        { state with
          outstanding := Function.update state.outstanding key (some (set.erase generation)) }

/-- Marks the generation as the newest one uploaded, unless a newer one is. -/
def deliver (key : String) (generation : ℕ) : GenerationState :=
  { state with
    delivered := Function.update state.delivered key
      (some (max ((state.delivered key).getD 0) generation)) }

def settle (key : String) (generation : ℕ) (delivered : Bool) : GenerationState :=
  (if delivered then state.deliver key generation else state).untrack key generation

/-! ## What the operations do to the maps -/

/-- The maps hold no entry for a key of which nothing is outstanding. -/
structure Collected : Prop where
  outstanding_ne_empty : ∀ key, state.outstanding key ≠ some ∅
  tracked_of_delivered : ∀ key, state.delivered key ≠ none → (state.tracked key).Nonempty

variable {state}

theorem mem_tracked_track {key other : String} {generation g : ℕ} :
    g ∈ (state.track key generation).tracked other ↔
      (other = key ∧ g = generation) ∨ g ∈ state.tracked other := by
  by_cases hother : other = key
  · subst hother
    simp [track, tracked]
  · simp [track, tracked, hother]

theorem mem_tracked_untrack {key other : String} {generation g : ℕ} :
    g ∈ (state.untrack key generation).tracked other ↔
      g ∈ state.tracked other ∧ ¬(other = key ∧ g = generation) := by
  unfold untrack
  split
  next hnone =>
    -- Nothing is tracked under the key, so there is nothing to remove.
    refine ⟨fun hg => ⟨hg, ?_⟩, And.left⟩
    rintro ⟨rfl, rfl⟩
    simp [tracked, hnone] at hg
  next set hset =>
    by_cases hother : other = key
    · subst hother
      have htracked : state.tracked other = set := by simp [tracked, hset]
      rw [htracked, ← and_comm (a := ¬_)]
      split
      next hempty =>
        have hg : g ∉ set.erase generation := by simp [hempty]
        rw [Finset.mem_erase] at hg
        simpa [tracked] using fun hne hmem => hg ⟨hne, hmem⟩
      next => simp [tracked]
    · split <;> simp [tracked, hother]

@[simp] theorem tracked_deliver (key other : String) (generation : ℕ) :
    (state.deliver key generation).tracked other = state.tracked other := rfl

@[simp] theorem delivered_track (key : String) (generation : ℕ) :
    (state.track key generation).delivered = state.delivered := rfl

theorem mem_tracked_settle {key other : String} {generation g : ℕ} {delivered : Bool} :
    g ∈ (state.settle key generation delivered).tracked other ↔
      g ∈ state.tracked other ∧ ¬(other = key ∧ g = generation) := by
  unfold settle
  rw [mem_tracked_untrack]
  cases delivered <;> rfl

/-- What remains of the delivered markers after a generation is dropped. -/
theorem delivered_untrack_cases {key : String} (generation : ℕ) (other : String) :
    (state.untrack key generation).delivered other = state.delivered other ∨
      (other = key ∧ (state.untrack key generation).delivered other = none ∧
        (state.untrack key generation).tracked other = ∅) := by
  unfold untrack
  split
  next => exact .inl rfl
  next set hset =>
    split
    next hempty =>
      by_cases hother : other = key
      · subst hother
        refine .inr ⟨rfl, by simp, by simp [tracked]⟩
      · refine .inl (by simp [hother])
    next => exact .inl rfl

theorem isSuperseded_iff {key : String} {generation : ℕ} :
    state.isSuperseded key generation = true ↔
      (∃ g ∈ state.tracked key, generation < g) ∨
        ∃ g, state.delivered key = some g ∧ generation < g := by
  unfold isSuperseded newest
  rw [decide_eq_true_iff, lt_max_iff]
  refine or_congr ?_ ?_
  · constructor
    · intro hlt
      obtain ⟨g, hg⟩ : ∃ g : ℕ, (state.tracked key).max = g := by
        cases hmax : (state.tracked key).max with
        | bot => rw [hmax] at hlt; exact absurd hlt not_lt_bot
        | coe g => exact ⟨g, rfl⟩
      rw [hg] at hlt
      exact ⟨g, Finset.mem_of_max hg, WithBot.coe_lt_coe.mp hlt⟩
    · rintro ⟨g, hg, hlt⟩
      exact lt_of_lt_of_le (WithBot.coe_lt_coe.mpr hlt) (Finset.le_max hg)
  · cases state.delivered key with
    | none => simp
    | some marker =>
        constructor
        · intro hlt
          exact ⟨marker, rfl, WithBot.coe_lt_coe.mp hlt⟩
        · rintro ⟨g, hg, hlt⟩
          cases hg
          exact WithBot.coe_lt_coe.mpr hlt

/-! ## Nothing is left behind -/

theorem Collected.track (hstate : state.Collected) (key : String) (generation : ℕ) :
    (state.track key generation).Collected := by
  refine ⟨fun other hother => ?_, fun other hdelivered => ?_⟩
  · by_cases hkey : other = key
    · subst hkey
      simp [GenerationState.track] at hother
    · simp only [GenerationState.track, Function.update_of_ne hkey] at hother
      exact hstate.outstanding_ne_empty other hother
  · obtain ⟨g, hg⟩ := hstate.tracked_of_delivered other hdelivered
    exact ⟨g, mem_tracked_track.mpr (.inr hg)⟩

theorem Collected.deliver (hstate : state.Collected) {key : String} {generation : ℕ}
    (hgeneration : generation ∈ state.tracked key) : (state.deliver key generation).Collected := by
  refine ⟨hstate.outstanding_ne_empty, fun other hmarked => ?_⟩
  by_cases hkey : other = key
  · subst hkey
    exact ⟨generation, hgeneration⟩
  · apply hstate.tracked_of_delivered other
    simpa [GenerationState.deliver, hkey] using hmarked

theorem Collected.untrack (hstate : state.Collected) (key : String) (generation : ℕ) :
    (state.untrack key generation).Collected := by
  obtain ⟨hempty, hdelivered⟩ := hstate
  unfold GenerationState.untrack
  split
  next => exact ⟨hempty, hdelivered⟩
  next set hset =>
    split
    next =>
      refine ⟨fun other hother => ?_, fun other hmarked => ?_⟩
      · by_cases hkey : other = key
        · subst hkey
          simp at hother
        · simp only [Function.update_of_ne hkey] at hother
          exact hempty other hother
      · by_cases hkey : other = key
        · subst hkey
          simp at hmarked
        · simp only [Function.update_of_ne hkey] at hmarked
          simpa [tracked, hkey] using hdelivered other hmarked
    next hleft =>
      refine ⟨fun other hother => ?_, fun other hmarked => ?_⟩
      · by_cases hkey : other = key
        · subst hkey
          simp only [Function.update_self, Option.some.injEq] at hother
          exact hleft hother
        · simp only [Function.update_of_ne hkey] at hother
          exact hempty other hother
      · by_cases hkey : other = key
        · subst hkey
          simpa [tracked] using Finset.nonempty_iff_ne_empty.mpr hleft
        · simpa [tracked, hkey] using hdelivered other hmarked

theorem Collected.settle (hstate : state.Collected) {key : String} {generation : ℕ}
    (hgeneration : generation ∈ state.tracked key) (delivered : Bool) :
    (state.settle key generation delivered).Collected := by
  unfold GenerationState.settle
  cases delivered with
  | false => exact hstate.untrack key generation
  | true => exact (hstate.deliver hgeneration).untrack key generation

/-- Tracking a new generation and dropping it again changes nothing. -/
theorem Collected.untrack_track (hstate : state.Collected) {key : String} {generation : ℕ}
    (hfresh : generation ∉ state.tracked key) :
    (state.track key generation).untrack key generation = state := by
  have herase : (insert generation (state.tracked key)).erase generation = state.tracked key :=
    Finset.erase_insert hfresh
  obtain ⟨outstanding, delivered⟩ := state
  simp only [GenerationState.untrack, GenerationState.track, Function.update_self, herase,
    Function.update_idem]
  cases hkey : outstanding key with
  | none =>
      have hempty : tracked ⟨outstanding, delivered⟩ key = ∅ := by simp [tracked, hkey]
      have hmarker : delivered key = none := by
        by_contra hmarked
        obtain ⟨g, hg⟩ := hstate.tracked_of_delivered key hmarked
        simp [hempty] at hg
      rw [if_pos hempty, ← hkey, Function.update_eq_self]
      simp only [← hmarker, Function.update_eq_self]
  | some set =>
      have hset : tracked ⟨outstanding, delivered⟩ key = set := by simp [tracked, hkey]
      have hne : set ≠ ∅ := fun hempty => hstate.outstanding_ne_empty key (hempty ▸ hkey)
      rw [if_neg (by rwa [hset]), hset, ← hkey, Function.update_eq_self]

/-- With nothing outstanding the maps are empty. -/
theorem Collected.maps_empty (hstate : state.Collected) (hnone : ∀ key, state.tracked key = ∅) :
    state = {} := by
  have houtstanding : state.outstanding = fun _ => none := by
    funext key
    cases hkey : state.outstanding key with
    | none => rfl
    | some set =>
        have hset : set = ∅ := by simpa [tracked, hkey] using hnone key
        exact absurd (hset ▸ hkey) (hstate.outstanding_ne_empty key)
  have hdelivered : state.delivered = fun _ => none := by
    funext key
    by_contra hkey
    obtain ⟨g, hg⟩ := hstate.tracked_of_delivered key hkey
    simp [hnone key] at hg
  cases state
  simp only at houtstanding hdelivered
  rw [houtstanding, hdelivered]

end GenerationState

end DiscordTranscript.Infrastructure
