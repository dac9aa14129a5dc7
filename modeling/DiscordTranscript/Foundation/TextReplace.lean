import DiscordTranscript.Foundation.TextSearch

/-! # Replacing text

`str::replace` of the Rust standard library. The occurrences of the pattern that are replaced do
not overlap and are taken from left to right; a part of the text in which none begins stays.
-/

namespace Text

/-- The first characters may belong to an occurrence that has been replaced. -/
def replaceFrom (needle new : List Char) : ℕ → List Char → List Char
  | _, [] => []
  | skip + 1, _ :: rest => replaceFrom needle new skip rest
  | 0, c :: rest =>
      if needle.isPrefixOf (c :: rest) then new ++ replaceFrom needle new (needle.length - 1) rest
      else c :: replaceFrom needle new 0 rest

/-- `str::replace` of a text that is not empty. -/
def replace (needle new text : List Char) : List Char := replaceFrom needle new 0 text

/-- `str::replace` of a character. -/
def replaceChar (c : Char) (new text : List Char) : List Char :=
  text.flatMap fun d => if d = c then new else [d]

/-- No occurrence of the pattern begins in the first part. -/
def NoStart (needle front rest : List Char) : Prop :=
  ∀ first back, front = first ++ back → back ≠ [] → ¬needle <+: back ++ rest

section

variable {needle new front rest : List Char}

theorem NoStart.of_notMem {c : Char} (hc : c ∉ front) : NoStart (c :: needle) front rest := by
  rintro first back rfl hback ⟨tail, htail⟩
  obtain ⟨d, back, rfl⟩ := List.exists_cons_of_ne_nil hback
  obtain ⟨rfl, -⟩ := List.cons.inj htail
  exact hc (by simp)

/-- A part whose first character alone may begin an occurrence, and does not. -/
theorem NoStart.of_head {c d : Char} (hhead : ¬(c :: needle) <+: d :: (front ++ rest))
    (hc : c ∉ front) : NoStart (c :: needle) (d :: front) rest := by
  intro first back hsplit hback
  cases first with
  | nil =>
      rw [List.nil_append] at hsplit
      rwa [← hsplit]
  | cons e first => exact NoStart.of_notMem hc first back (List.cons.inj hsplit).2 hback

theorem not_prefix_of_noStart {c : Char} (hnone : NoStart needle (c :: front) rest) :
    needle.isPrefixOf (c :: (front ++ rest)) = false := by
  rw [Bool.eq_false_iff, Ne, List.isPrefixOf_iff_prefix]
  exact hnone [] (c :: front) rfl (List.cons_ne_nil _ _)

theorem NoStart.tail {c : Char} (hnone : NoStart needle (c :: front) rest) :
    NoStart needle front rest := by
  intro first back hsplit
  exact hnone (c :: first) back (by rw [hsplit]; rfl)

theorem splitOnce_append_of_noStart (hnone : NoStart needle front rest) :
    splitOnce needle (front ++ rest) =
      (splitOnce needle rest).map fun halves => (front ++ halves.1, halves.2) := by
  induction front with
  | nil => simp
  | cons c front ih =>
      rw [List.cons_append, splitOnce, not_prefix_of_noStart hnone, ih hnone.tail]
      simp [Option.map_map, Function.comp_def]

/-! ## Replacing -/

theorem replace_append_of_noStart (hnone : NoStart needle front rest) :
    replace needle new (front ++ rest) = front ++ replace needle new rest := by
  unfold replace
  induction front with
  | nil => rfl
  | cons c front ih =>
      rw [List.cons_append, replaceFrom, not_prefix_of_noStart hnone, ih hnone.tail]
      rfl

theorem replaceFrom_skip (skipped rest : List Char) :
    replaceFrom needle new skipped.length (skipped ++ rest) = replaceFrom needle new 0 rest := by
  induction skipped with
  | nil => rfl
  | cons c skipped ih => exact ih

theorem replace_self (c : Char) (rest : List Char) :
    replace (c :: needle) new (c :: needle ++ rest) =
      new ++ replace (c :: needle) new rest := by
  have hhere : (c :: needle).isPrefixOf (c :: (needle ++ rest)) = true :=
    List.isPrefixOf_iff_prefix.mpr (List.prefix_append _ _)
  have hskip := @replaceFrom_skip (c :: needle) new needle rest
  unfold replace
  rw [List.cons_append, replaceFrom, if_pos hhere, List.length_cons, Nat.add_sub_cancel, hskip]

/-- A text of pieces is replaced piece by piece, when the pattern begins at no place of a piece
but one that is an occurrence. -/
theorem replace_flatMap {α : Type*} {c : Char} {pieces : List α} {before after : α → List Char}
    (hpieces : ∀ piece ∈ pieces, (before piece = c :: needle ∧ after piece = new) ∨
      (after piece = before piece ∧ ∀ rest, NoStart (c :: needle) (before piece) rest)) :
    replace (c :: needle) new (pieces.flatMap before) = pieces.flatMap after := by
  induction pieces with
  | nil => rfl
  | cons piece pieces ih =>
      have hlater := ih fun other hother => hpieces other (List.mem_cons_of_mem _ hother)
      rw [List.flatMap_cons, List.flatMap_cons]
      rcases hpieces piece List.mem_cons_self with ⟨hbefore, hafter⟩ | ⟨hsame, hnone⟩
      · rw [hbefore, hafter, replace_self, hlater]
      · rw [hsame, replace_append_of_noStart (hnone _), hlater]

end

end Text
