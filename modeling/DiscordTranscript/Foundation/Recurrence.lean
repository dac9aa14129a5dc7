import Mathlib.Data.Int.ModEq
import Mathlib.Tactic.Linarith
import Mathlib.Tactic.Ring

/-! # Windows that recur

A window opens at a start and a whole number of periods later, and stays open for a
length. The distance from an opening of one window to the next opening of another is
their difference modulo the period, so whether two windows are ever open at the same
time is decided by two such distances, and shifting a window by periods changes
nothing.
-/

namespace Recurrence

/-- The opening some periods from the start. -/
def opening (period start count : ℤ) : ℤ := start + count * period

/-- Each window closes before the other opens next. -/
def Apart (period start length start' length' : ℤ) : Prop :=
  length ≤ (start' - start) % period ∧ length' ≤ (start - start') % period

section

variable {period start length start' length' : ℤ}

theorem Apart.symm (hapart : Apart period start length start' length') :
    Apart period start' length' start length :=
  ⟨hapart.2, hapart.1⟩

theorem apart_opening (count : ℤ) :
    Apart period (opening period start count) length start' length' ↔
      Apart period start length start' length' := by
  have hleft : start' - opening period start count = start' - start + period * -count := by
    unfold opening
    ring
  have hright : opening period start count - start' = start - start' + period * count := by
    unfold opening
    ring
  rw [Apart, hleft, hright, Int.add_mul_emod_self_left, Int.add_mul_emod_self_left, Apart]

/-- Windows that are apart are never open at the same time. -/
theorem disjoint_of_apart (hperiod : 0 < period)
    (hapart : Apart period start length start' length') (count count' : ℤ) :
    opening period start count + length ≤ opening period start' count' ∨
      opening period start' count' + length' ≤ opening period start count := by
  have hforth := Int.emod_add_mul_ediv (start' - start) period
  have hback := Int.emod_add_mul_ediv (start - start') period
  have hless := Int.emod_lt_of_pos (start' - start) hperiod
  have hless' := Int.emod_lt_of_pos (start - start') hperiod
  unfold opening
  -- the difference of two openings is one of the two distances and some periods
  rcases le_or_gt 0 ((start' - start) / period + count' - count) with hlater | hearlier
  · left
    have hperiods := mul_nonneg hlater hperiod.le
    linarith [hapart.1]
  · right
    have hnonneg := Int.emod_nonneg (start' - start) hperiod.ne'
    have hnonneg' := Int.emod_nonneg (start - start') hperiod.ne'
    -- the two distances sum to nothing or to one period
    have hsum : (start' - start) % period + (start - start') % period ≤ period := by
      have hmul : period * ((start' - start) / period + (start - start') / period) =
          -((start' - start) % period + (start - start') % period) := by linarith
      by_contra hlarge
      have hquotient : (start' - start) / period + (start - start') / period ≤ -2 := by
        by_contra hsmall
        have := mul_le_mul_of_nonneg_left (show (-1 : ℤ) ≤ _ by omega : (-1 : ℤ) ≤
          (start' - start) / period + (start - start') / period) hperiod.le
        linarith
      have := mul_le_mul_of_nonneg_left hquotient hperiod.le
      linarith
    have hperiods : ((start' - start) / period + count' - count) * period ≤ -1 * period :=
      mul_le_mul_of_nonneg_right (by omega) hperiod.le
    linarith [hapart.2]

/-- Windows that are not apart are open at the same time once. -/
theorem apart_of_disjoint (hperiod : 0 < period) (hlength : 0 < length) (hlength' : 0 < length')
    (hdisjoint : ∀ count count', opening period start count + length ≤ opening period start' count' ∨
      opening period start' count' + length' ≤ opening period start count) :
    Apart period start length start' length' := by
  have hforth := Int.emod_add_mul_ediv (start' - start) period
  have hback := Int.emod_add_mul_ediv (start - start') period
  have hnonneg := Int.emod_nonneg (start' - start) hperiod.ne'
  have hnonneg' := Int.emod_nonneg (start - start') hperiod.ne'
  unfold opening at hdisjoint
  constructor
  · rcases hdisjoint ((start' - start) / period) 0 with hleft | hright
    · linarith
    · linarith
  · rcases hdisjoint 0 ((start - start') / period) with hleft | hright
    · linarith
    · linarith

theorem apart_iff (hperiod : 0 < period) (hlength : 0 < length) (hlength' : 0 < length') :
    Apart period start length start' length' ↔
      ∀ count count', opening period start count + length ≤ opening period start' count' ∨
        opening period start' count' + length' ≤ opening period start count :=
  ⟨disjoint_of_apart hperiod, apart_of_disjoint hperiod hlength hlength'⟩

end

/-! ## The first window that has not closed -/

/-- How many periods to go on from a window that has closed. -/
def periodsPast (period close now : ℕ) : ℕ := (now - close) / period + 1

theorem lt_close_of_periodsPast {period : ℕ} (hperiod : 0 < period) (close now : ℕ) :
    now < close + periodsPast period close now * period := by
  have hless := Nat.lt_div_mul_add (a := now - close) hperiod
  unfold periodsPast
  rw [Nat.add_mul, Nat.one_mul]
  omega

/-- All windows before it have closed. -/
theorem close_le_of_lt_periodsPast {period close now count : ℕ} (hclosed : close ≤ now)
    (hcount : count < periodsPast period close now) : close + count * period ≤ now := by
  have hle : count * period ≤ (now - close) / period * period :=
    Nat.mul_le_mul_right period (Nat.le_of_lt_succ hcount)
  have hdiv := Nat.div_mul_le_self (now - close) period
  omega

end Recurrence
