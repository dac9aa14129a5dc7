import Mathlib.Data.List.GetD
import Mathlib.Order.Basic
import Mathlib.Algebra.Order.Ring.Nat

/-! # First-writer timelines

Pieces of a signal are laid on one timeline in the order of their positions. A
piece that begins after the end is preceded by silence, one that begins before it
loses its head. What comes out holds, at every position, the value of the first
piece that covers it.
-/

namespace Timeline

variable {α : Type*}

/-- A piece of the signal and the position of its first value. -/
structure Piece (α : Type*) where
  start : ℕ
  values : List α

namespace Piece

def stop (piece : Piece α) : ℕ := piece.start + piece.values.length

def covers (piece : Piece α) (position : ℕ) : Bool :=
  decide (piece.start ≤ position) && decide (position < piece.stop)

theorem covers_iff {piece : Piece α} {position : ℕ} :
    piece.covers position = true ↔ piece.start ≤ position ∧ position < piece.stop := by
  rw [covers, Bool.and_eq_true, decide_eq_true_eq, decide_eq_true_eq]

end Piece

variable (silence : α)

/-- The value of the first piece that covers the position, or silence. -/
def firstWriter (pieces : List (Piece α)) (position : ℕ) : α :=
  (pieces.find? (·.covers position)).elim silence fun piece =>
    piece.values.getD (position - piece.start) silence

theorem firstWriter_concat_of_covered {pieces : List (Piece α)} {position : ℕ}
    (hcovered : ∃ piece ∈ pieces, piece.covers position = true) (piece : Piece α) :
    firstWriter silence (pieces ++ [piece]) position = firstWriter silence pieces position := by
  obtain ⟨earlier, hearlier⟩ := Option.isSome_iff_exists.mp
    (List.find?_isSome.mpr hcovered : (pieces.find? (·.covers position)).isSome)
  rw [firstWriter, firstWriter, List.find?_append, hearlier]
  rfl

theorem firstWriter_concat_of_open {pieces : List (Piece α)} {position : ℕ}
    (hopen : ∀ piece ∈ pieces, piece.covers position = false) (piece : Piece α) :
    firstWriter silence (pieces ++ [piece]) position =
      if piece.covers position then piece.values.getD (position - piece.start) silence
      else silence := by
  have hnone : pieces.find? (·.covers position) = none :=
    List.find?_eq_none.mpr fun earlier hearlier => by rw [hopen earlier hearlier]; decide
  rw [firstWriter, List.find?_append, hnone, Option.none_or, List.find?_singleton]
  split <;> rfl

theorem firstWriter_of_open {pieces : List (Piece α)} {position : ℕ}
    (hopen : ∀ piece ∈ pieces, piece.covers position = false) :
    firstWriter silence pieces position = silence := by
  have hnone : pieces.find? (·.covers position) = none :=
    List.find?_eq_none.mpr fun earlier hearlier => by rw [hopen earlier hearlier]; decide
  rw [firstWriter, hnone]
  rfl

/-- Silence up to the piece, then what of it reaches past the end. -/
def lay (out : List α) (piece : Piece α) : List α :=
  out ++ List.replicate (piece.start - out.length) silence ++
    piece.values.drop (out.length - piece.start)

theorem length_lay (out : List α) (piece : Piece α) :
    (lay silence out piece).length = max out.length piece.stop := by
  simp only [lay, List.length_append, List.length_replicate, List.length_drop, Piece.stop]
  omega

theorem getD_lay_of_lt {out : List α} {position : ℕ} (hposition : position < out.length)
    (piece : Piece α) :
    (lay silence out piece).getD position silence = out.getD position silence := by
  rw [lay, List.append_assoc, List.getD_append _ _ _ _ hposition]

theorem getD_lay_of_ge {out : List α} {position : ℕ} (hposition : out.length ≤ position)
    (piece : Piece α) :
    (lay silence out piece).getD position silence =
      if piece.covers position then piece.values.getD (position - piece.start) silence
      else silence := by
  have hfront : (out ++ List.replicate (piece.start - out.length) silence).length =
      max out.length piece.start := by
    rw [List.length_append, List.length_replicate]
    omega
  rw [lay]
  by_cases hgap : position < piece.start
  · have hcovers : piece.covers position = false := by
      rw [Bool.eq_false_iff, Ne, Piece.covers_iff]
      exact fun hboth => absurd hgap (not_lt.mpr hboth.1)
    rw [hcovers, List.getD_append _ _ _ _ (by omega), List.getD_append_right _ _ _ _ hposition]
    exact List.getD_replicate silence (by omega)
  · rw [List.getD_append_right _ _ _ _ (by omega), hfront, List.getD_eq_getElem?_getD,
      List.getElem?_drop, ← List.getD_eq_getElem?_getD]
    have hindex : out.length - piece.start + (position - max out.length piece.start) =
        position - piece.start := by omega
    rw [hindex]
    split
    next => rfl
    next hcovers =>
      apply List.getD_eq_default
      rw [Piece.covers_iff, Piece.stop] at hcovers
      omega

/-- What has been laid agrees with the pieces laid so far. -/
structure Laid (pieces : List (Piece α)) (out : List α) : Prop where
  value : ∀ position < out.length, out.getD position silence = firstWriter silence pieces position
  /-- Silence lies only before the start of some piece. -/
  written : ∀ position < out.length, (∀ piece ∈ pieces, piece.start ≤ position) →
    ∃ piece ∈ pieces, piece.covers position = true
  reached : ∀ piece ∈ pieces, piece.stop ≤ out.length
  length_eq : out = [] ∨ ∃ piece ∈ pieces, piece.stop = out.length

theorem Laid.nil : Laid silence ([] : List (Piece α)) [] where
  value := fun _ hposition => absurd hposition (Nat.not_lt_zero _)
  written := fun _ hposition => absurd hposition (Nat.not_lt_zero _)
  reached := fun _ hpiece => nomatch hpiece
  length_eq := .inl rfl

variable {silence}

namespace Laid

variable {pieces : List (Piece α)} {out : List α}

theorem open_of_ge (hlaid : Laid silence pieces out) {position : ℕ}
    (hposition : out.length ≤ position) :
    ∀ piece ∈ pieces, piece.covers position = false := by
  intro piece hpiece
  rw [Bool.eq_false_iff, Ne, Piece.covers_iff]
  have := hlaid.reached piece hpiece
  omega

theorem lay (hlaid : Laid silence pieces out) {piece : Piece α}
    (hafter : ∀ earlier ∈ pieces, earlier.start ≤ piece.start) :
    Laid silence (pieces ++ [piece]) (Timeline.lay silence out piece) where
  value := by
    intro position hposition
    by_cases hold : position < out.length
    · rw [getD_lay_of_lt silence hold, hlaid.value position hold]
      by_cases hcovered : ∃ earlier ∈ pieces, earlier.covers position = true
      · exact (firstWriter_concat_of_covered silence hcovered piece).symm
      · -- A silent position lies before some earlier piece, hence before the new one.
        have hopen : ∀ earlier ∈ pieces, earlier.covers position = false := by
          intro earlier hearlier
          exact Bool.eq_false_iff.mpr fun hcovers => hcovered ⟨earlier, hearlier, hcovers⟩
        have hlate : ¬piece.start ≤ position := fun hstart => hcovered
          (hlaid.written position hold fun earlier hearlier =>
            (hafter earlier hearlier).trans hstart)
        have hnot : piece.covers position = false := by
          rw [Bool.eq_false_iff, Ne, Piece.covers_iff]
          exact fun hboth => hlate hboth.1
        rw [firstWriter_concat_of_open silence hopen, hnot, firstWriter_of_open silence hopen]
        rfl
    · rw [getD_lay_of_ge silence (not_lt.mp hold),
        firstWriter_concat_of_open silence (hlaid.open_of_ge (not_lt.mp hold))]
  written := by
    intro position hposition hstarts
    have hstart : piece.start ≤ position :=
      hstarts piece (List.mem_append_right _ List.mem_cons_self)
    by_cases hold : position < out.length
    · obtain ⟨earlier, hearlier, hcovers⟩ := hlaid.written position hold
        fun earlier hearlier => hstarts earlier (List.mem_append_left _ hearlier)
      exact ⟨earlier, List.mem_append_left _ hearlier, hcovers⟩
    · refine ⟨piece, List.mem_append_right _ List.mem_cons_self, ?_⟩
      rw [length_lay] at hposition
      rw [Piece.covers_iff]
      omega
  reached := by
    intro other hother
    rw [length_lay]
    rcases List.mem_append.mp hother with hearlier | hnew
    · exact le_max_of_le_left (hlaid.reached other hearlier)
    · rw [List.mem_singleton.mp hnew]
      exact le_max_right _ _
  length_eq := by
    rw [length_lay]
    by_cases hinside : piece.stop ≤ out.length
    · rcases hlaid.length_eq with rfl | ⟨last, hlast, hstop⟩
      · refine .inr ⟨piece, List.mem_append_right _ List.mem_cons_self, ?_⟩
        exact (max_eq_right (Nat.zero_le _)).symm
      · refine .inr ⟨last, List.mem_append_left _ hlast, ?_⟩
        rw [hstop, max_eq_left hinside]
    · refine .inr ⟨piece, List.mem_append_right _ List.mem_cons_self, ?_⟩
      rw [max_eq_right (Nat.le_of_not_le hinside)]

end Laid

end Timeline
