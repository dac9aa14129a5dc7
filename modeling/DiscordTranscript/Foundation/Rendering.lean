import Mathlib.Data.List.Basic
import Mathlib.Data.List.GetD
import Mathlib.Tactic.Common

/-! # Rendering a signal

A signal assigns a block of symbols to every position of a timeline. Rendering an
interval writes its blocks one after the other. Adjacent intervals compose, and
equally wide blocks can be found again in what was written.
-/

namespace Rendering

variable {β : Type*}

/-- The blocks at positions `start` up to `stop`. -/
def render (block : ℕ → List β) (start stop : ℕ) : List β :=
  (List.range' start (stop - start)).flatMap block

theorem render_of_le {block : ℕ → List β} {start stop : ℕ} (h : stop ≤ start) :
    render block start stop = [] := by
  simp [render, Nat.sub_eq_zero_of_le h]

theorem render_succ {block : ℕ → List β} {start stop : ℕ} (h : start < stop) :
    render block start stop = block start ++ render block (start + 1) stop := by
  obtain ⟨rest, hrest⟩ : ∃ rest, stop - start = rest + 1 := ⟨stop - start - 1, by omega⟩
  have htail : stop - (start + 1) = rest := by omega
  rw [render, render, hrest, htail, List.range'_succ, List.flatMap_cons]

theorem render_append {block : ℕ → List β} {start middle stop : ℕ} (hleft : start ≤ middle)
    (hright : middle ≤ stop) :
    render block start middle ++ render block middle stop = render block start stop := by
  have hsum : stop - start = (middle - start) + (stop - middle) := by omega
  have hmiddle : middle = start + (middle - start) := by omega
  unfold render
  rw [hsum, ← List.range'_append_1, List.flatMap_append, ← hmiddle]

theorem render_congr {block block' : ℕ → List β} {start stop : ℕ}
    (h : ∀ n, start ≤ n → n < stop → block n = block' n) :
    render block start stop = render block' start stop := by
  refine List.flatMap_congr fun n hn => ?_
  rw [List.mem_range'_1] at hn
  exact h n hn.1 (by omega)

/-- Moving the origin of the timeline. -/
theorem render_add {block : ℕ → List β} (origin start stop : ℕ) :
    render block (origin + start) (origin + stop) =
      render (fun n => block (origin + n)) start stop := by
  have hlength : origin + stop - (origin + start) = stop - start := by omega
  rw [render, render, hlength, ← List.map_add_range', List.flatMap_map]

theorem length_render {block : ℕ → List β} {width : ℕ} (hwidth : ∀ n, (block n).length = width)
    (start stop : ℕ) : (render block start stop).length = (stop - start) * width := by
  simp [render, List.length_flatMap, hwidth]

theorem render_replicate {width : ℕ} {symbol : β} {block : ℕ → List β} {start stop : ℕ}
    (h : ∀ n, start ≤ n → n < stop → block n = List.replicate width symbol) :
    render block start stop = List.replicate ((stop - start) * width) symbol := by
  rw [render_congr h]
  refine List.eq_replicate_iff.mpr ⟨length_render (fun _ => List.length_replicate) _ _, ?_⟩
  intro written hwritten
  obtain ⟨n, -, hn⟩ := List.mem_flatMap.mp hwritten
  exact List.eq_of_mem_replicate hn

/-- An interval cut out of a rendering of equally wide blocks. -/
theorem take_drop_render {block : ℕ → List β} {width : ℕ}
    (hwidth : ∀ n, (block n).length = width) {start left right stop : ℕ} (hleft : start ≤ left)
    (hmiddle : left ≤ right) (hright : right ≤ stop) :
    ((render block start stop).drop ((left - start) * width)).take ((right - left) * width) =
      render block left right := by
  rw [← render_append hleft (Nat.le_trans hmiddle hright), ← render_append hmiddle hright,
    List.drop_left' (length_render hwidth _ _), List.take_left' (length_render hwidth _ _)]

/-- A symbol of a rendering is a symbol of the block at its position. -/
theorem getD_render {block : ℕ → List β} {width : ℕ} (hwidth : ∀ n, (block n).length = width)
    {start stop index inner : ℕ} (hindex : start + index < stop) (hinner : inner < width)
    (default : β) :
    (render block start stop).getD (index * width + inner) default =
      (block (start + index)).getD inner default := by
  have hskip : (render block start (start + index)).length = index * width := by
    rw [length_render hwidth, Nat.add_sub_cancel_left]
  rw [← render_append (Nat.le_add_right start index) (Nat.le_of_lt hindex), render_succ hindex,
    List.getD_append_right _ _ _ _ (by omega), hskip, Nat.add_sub_cancel_left,
    List.getD_append _ _ _ _ (by rw [hwidth]; exact hinner)]

end Rendering
