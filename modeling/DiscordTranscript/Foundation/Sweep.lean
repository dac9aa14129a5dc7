import Mathlib.Algebra.Order.Ring.Nat
import Mathlib.Data.List.Basic

/-! # Sweeping spans

Spans are taken in the order of their starts, and of each one only what reaches
past those before it is kept. The parts kept follow one another and cover exactly
what the spans cover.
-/

namespace Sweep

/-- The points from `start` up to, but without, `stop`. -/
structure Span where
  start : ℕ
  stop : ℕ
  deriving DecidableEq, Repr

def Span.Contains (span : Span) (point : ℕ) : Prop := span.start ≤ point ∧ point < span.stop

/-- The parts kept so far and the greatest stop among the spans. -/
structure State where
  pieces : List Span := []
  reach : ℕ := 0

/-- A span that lies before the reach is dropped; another loses its head. -/
def State.add (state : State) (span : Span) : State :=
  if span.start < state.reach ∧ span.stop ≤ state.reach then state
  else {
    pieces := state.pieces ++ [⟨max span.start state.reach, span.stop⟩]
    reach := max state.reach span.stop }

theorem State.add_of_inside (pieces : List Span) (reach : ℕ) (span : Span)
    (hinside : span.start < reach ∧ span.stop ≤ reach) :
    State.add ⟨pieces, reach⟩ span = ⟨pieces, reach⟩ :=
  if_pos hinside

theorem State.add_of_past (pieces : List Span) (reach : ℕ) (span : Span)
    (hpast : ¬(span.start < reach ∧ span.stop ≤ reach)) :
    State.add ⟨pieces, reach⟩ span =
      ⟨pieces ++ [⟨max span.start reach, span.stop⟩], max reach span.stop⟩ :=
  if_neg hpast

/-- The parts kept follow one another and cover what the spans cover. -/
structure Swept (spans : List Span) (state : State) : Prop where
  forward : ∀ piece ∈ state.pieces, piece.start ≤ piece.stop
  apart : state.pieces.Pairwise fun earlier later => earlier.stop ≤ later.start
  reached : ∀ piece ∈ state.pieces, piece.stop ≤ state.reach
  covered : ∀ point, (∃ piece ∈ state.pieces, piece.Contains point) ↔
    ∃ span ∈ spans, span.Contains point
  /-- What is open below the reach lies before the start of some span. -/
  solid : ∀ point < state.reach, (∀ span ∈ spans, span.start ≤ point) →
    ∃ piece ∈ state.pieces, piece.Contains point

namespace Swept

theorem nil : Swept [] {} where
  forward := fun _ hpiece => nomatch hpiece
  apart := List.Pairwise.nil
  reached := fun _ hpiece => nomatch hpiece
  covered := fun _ => by simp
  solid := fun _ hpoint => absurd hpoint (Nat.not_lt_zero _)

variable {spans : List Span} {state : State}

theorem add (hswept : Swept spans state) {span : Span} (hforward : span.start ≤ span.stop)
    (hafter : ∀ earlier ∈ spans, earlier.start ≤ span.start) :
    Swept (spans ++ [span]) (state.add span) := by
  -- Of the new span, the points below the reach are covered already.
  have hbelow : ∀ point, span.Contains point → point < state.reach →
      ∃ piece ∈ state.pieces, piece.Contains point := fun point hpoint hreach =>
    hswept.solid point hreach fun earlier hearlier => (hafter earlier hearlier).trans hpoint.1
  have hspans : ∀ point, (∃ other ∈ spans ++ [span], other.Contains point) ↔
      (∃ piece ∈ state.pieces, piece.Contains point) ∨ span.Contains point := by
    intro point
    rw [hswept.covered point]
    constructor
    · rintro ⟨other, hother, hpoint⟩
      rcases List.mem_append.mp hother with hold | hnew
      · exact .inl ⟨other, hold, hpoint⟩
      · exact .inr (List.mem_singleton.mp hnew ▸ hpoint)
    · rintro (⟨other, hother, hpoint⟩ | hpoint)
      · exact ⟨other, List.mem_append_left _ hother, hpoint⟩
      · exact ⟨span, List.mem_append_right _ List.mem_cons_self, hpoint⟩
  rw [State.add]
  split
  next hinside =>
    refine ⟨hswept.forward, hswept.apart, hswept.reached, fun point => ?_, ?_⟩
    · rw [hspans point]
      refine ⟨.inl, fun hcovered => hcovered.elim id fun hpoint => ?_⟩
      exact hbelow point hpoint (hpoint.2.trans_le hinside.2)
    · intro point hpoint hstarts
      exact hswept.solid point hpoint fun earlier hearlier =>
        hstarts earlier (List.mem_append_left _ hearlier)
  next hpast =>
    have hpiece : max span.start state.reach ≤ span.stop := by
      rw [not_and_or, not_lt, not_le] at hpast
      rcases hpast with hstart | hstop
      · exact max_le hforward (hstart.trans hforward)
      · exact max_le hforward hstop.le
    have hadded : ∀ point, (∃ piece ∈ state.pieces ++ [⟨max span.start state.reach, span.stop⟩],
        Span.Contains piece point) ↔
        (∃ piece ∈ state.pieces, piece.Contains point) ∨
          (max span.start state.reach ≤ point ∧ point < span.stop) := by
      intro point
      constructor
      · rintro ⟨piece, hmem, hpoint⟩
        rcases List.mem_append.mp hmem with hold | hnew
        · exact .inl ⟨piece, hold, hpoint⟩
        · rw [List.mem_singleton.mp hnew] at hpoint
          exact .inr hpoint
      · rintro (⟨piece, hmem, hpoint⟩ | hpoint)
        · exact ⟨piece, List.mem_append_left _ hmem, hpoint⟩
        · exact ⟨_, List.mem_append_right _ List.mem_cons_self, hpoint⟩
    refine ⟨?_, ?_, ?_, fun point => ?_, ?_⟩
    · intro piece hmem
      rcases List.mem_append.mp hmem with hold | hnew
      · exact hswept.forward piece hold
      · rw [List.mem_singleton.mp hnew]
        exact hpiece
    · refine List.pairwise_append.mpr ⟨hswept.apart, List.pairwise_singleton _ _, ?_⟩
      intro earlier hearlier later hlater
      rw [List.mem_singleton.mp hlater]
      exact (hswept.reached earlier hearlier).trans (le_max_right _ _)
    · intro piece hmem
      rcases List.mem_append.mp hmem with hold | hnew
      · exact (hswept.reached piece hold).trans (le_max_left _ _)
      · rw [List.mem_singleton.mp hnew]
        exact le_max_right _ _
    · rw [hadded point, hspans point]
      constructor
      · rintro (hold | ⟨hstart, hstop⟩)
        · exact .inl hold
        · exact .inr ⟨(le_max_left _ _).trans hstart, hstop⟩
      · rintro (hold | hpoint)
        · exact .inl hold
        · by_cases hreach : point < state.reach
          · exact .inl (hbelow point hpoint hreach)
          · exact .inr ⟨max_le hpoint.1 (not_lt.mp hreach), hpoint.2⟩
    · intro point hpoint hstarts
      rw [hadded point]
      by_cases hreach : point < state.reach
      · exact .inl (hswept.solid point hreach fun earlier hearlier =>
          hstarts earlier (List.mem_append_left _ hearlier))
      · have hstart := hstarts span (List.mem_append_right _ List.mem_cons_self)
        refine .inr ⟨max_le hstart (not_lt.mp hreach), ?_⟩
        exact (lt_max_iff.mp hpoint).resolve_left hreach

theorem ordered (hswept : Swept spans state) :
    state.pieces.Pairwise fun earlier later => earlier.start ≤ later.start := by
  refine hswept.apart.imp_of_mem fun hearlier _ hapart => ?_
  exact (hswept.forward _ hearlier).trans hapart

end Swept

end Sweep
