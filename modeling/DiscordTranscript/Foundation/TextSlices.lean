import DiscordTranscript.Foundation.TextSearch

/-! # Slices by byte positions

Slices of `str` between byte positions. One that does not begin and end between characters is
nothing, where the language panics.
-/

namespace Text

/-- `str::is_char_boundary`. -/
def isCharBoundary (text : List Char) (position : ℕ) : Bool :=
  (splitAtByte position text).isSome

/-- `&text[first..last]`. -/
def slice (text : List Char) (first last : ℕ) : Option (List Char) :=
  if last < first then none
  else (splitAtByte first text).bind fun halves =>
    (splitAtByte (last - first) halves.2).map Prod.fst

/-- `while !text.is_char_boundary(position) { position -= 1 }`. -/
def backToBoundary (text : List Char) : ℕ → ℕ
  | 0 => 0
  | position + 1 =>
      if isCharBoundary text (position + 1) then position + 1 else backToBoundary text position

theorem slice_append (front inside back : List Char) :
    slice (front ++ (inside ++ back)) (utf8Len front) (utf8Len front + utf8Len inside) =
      some inside := by
  rw [slice, if_neg (by omega), splitAtByte_append, Option.bind_some, Nat.add_sub_cancel_left,
    splitAtByte_append]
  rfl

theorem append_of_splitAtByte {position : ℕ} {text front back : List Char}
    (hsplit : splitAtByte position text = some (front, back)) :
    text = front ++ back ∧ utf8Len front = position := by
  fun_induction splitAtByte position text generalizing front with
  | case1 text =>
      cases hsplit
      exact ⟨rfl, rfl⟩
  | case2 => cases hsplit
  | case3 position c rest hfits ih =>
      obtain ⟨⟨before, after⟩, hrest, heq⟩ := Option.map_eq_some_iff.mp hsplit
      cases heq
      obtain ⟨rfl, hlength⟩ := ih hrest
      refine ⟨rfl, ?_⟩
      change utf8Len (c :: before) = position + 1
      rw [utf8Len_cons]
      omega
  | case4 => cases hsplit

theorem isCharBoundary_iff {text : List Char} {position : ℕ} :
    isCharBoundary text position = true ↔
      ∃ front back, text = front ++ back ∧ utf8Len front = position := by
  unfold isCharBoundary
  constructor
  · intro hsome
    obtain ⟨⟨front, back⟩, hsplit⟩ := Option.isSome_iff_exists.mp hsome
    exact ⟨front, back, append_of_splitAtByte hsplit⟩
  · rintro ⟨front, back, rfl, rfl⟩
    rw [splitAtByte_append]
    rfl

theorem eq_of_prefix_of_utf8Len_le {front text : List Char} (hfront : front <+: text)
    (hle : utf8Len text ≤ utf8Len front) : front = text := by
  obtain ⟨back, rfl⟩ := hfront
  rw [utf8Len_append] at hle
  have hlength := length_le_utf8Len back
  obtain rfl := List.eq_nil_of_length_eq_zero (show back.length = 0 by omega)
  rw [List.append_nil]

theorem takeBytes_mono {bytes bytes' : ℕ} (hle : bytes ≤ bytes') (text : List Char) :
    takeBytes bytes text <+: takeBytes bytes' text :=
  prefix_takeBytes ( takeBytes_prefix bytes text) ((utf8Len_takeBytes_le bytes text).trans hle)

/-- Backing off to a boundary keeps the characters that fit. -/
theorem backToBoundary_eq (text : List Char) (position : ℕ) (hposition : position ≤ utf8Len text) :
    backToBoundary text position = utf8Len (takeBytes position text) := by
  induction position with
  | zero =>
      have hle := utf8Len_takeBytes_le 0 text
      rw [backToBoundary]
      omega
  | succ position ih =>
      have hmost := utf8Len_takeBytes_le (position + 1) text
      unfold backToBoundary
      split
      next hboundary =>
        obtain ⟨front, back, rfl, hlength⟩ := isCharBoundary_iff.mp hboundary
        have hfront := prefix_takeBytes (List.prefix_append front back) hlength.le
        obtain ⟨more, hmore⟩ := hfront
        rw [← hmore, utf8Len_append] at hmost ⊢
        omega
      next hinside =>
        rw [ih (by omega)]
        congr 1
        apply eq_of_prefix_of_utf8Len_le (takeBytes_mono (Nat.le_add_right position 1) text)
        have hne : utf8Len (takeBytes (position + 1) text) ≠ position + 1 := by
          intro hlength
          apply hinside
          obtain ⟨back, hback⟩ := takeBytes_prefix (position + 1) text
          exact isCharBoundary_iff.mpr ⟨_, back, hback.symm, hlength⟩
        have hfront := prefix_takeBytes ( takeBytes_prefix (position + 1) text)
          (show utf8Len (takeBytes (position + 1) text) ≤ position by omega)
        obtain ⟨more, hmore⟩ := hfront
        rw [← hmore, utf8Len_append]
        omega

theorem takeBytes_append (front rest : List Char) (bytes : ℕ) :
    takeBytes (utf8Len front + bytes) (front ++ rest) = front ++ takeBytes bytes rest := by
  induction front with
  | nil => simp
  | cons c front ih =>
      rw [List.cons_append, takeBytes, utf8Len_cons, if_pos (by omega)]
      have hrest : c.utf8Size + utf8Len front + bytes - c.utf8Size = utf8Len front + bytes := by
        omega
      rw [hrest, ih]
      rfl

theorem takeBytes_min (bytes : ℕ) (text : List Char) :
    takeBytes (min bytes (utf8Len text)) text = takeBytes bytes text := by
  rcases Nat.le_total bytes (utf8Len text) with hle | hle
  · rw [min_eq_left hle]
  · rw [min_eq_right hle]
    apply eq_of_prefix_of_utf8Len_le (takeBytes_mono hle text)
    have hwhole := prefix_takeBytes (List.prefix_rfl : text <+: text) le_rfl
    have hsmaller := takeBytes_prefix bytes text
    obtain ⟨more, hmore⟩ := hwhole
    obtain ⟨more', hmore'⟩ := hsmaller
    have hlength := congrArg utf8Len hmore'
    rw [utf8Len_append] at hlength
    rw [← hmore, utf8Len_append]
    omega

end Text
