import DiscordTranscript.Infrastructure.AgentReads

/-! # Paging through a file

Advancing by what was returned reads a file exactly once. Advancing by a fixed stride does
not: a page that begins before its offset also ends before it would have, and characters
between its end and the next offset are never returned.
-/

namespace DiscordTranscript.Infrastructure

open Text MachineInt

variable {text : List Char} {size offset : ℕ} {front page back : List Char}

theorem readWindow_past_end {file : RegularFile} (hbytes : file.bytes = encode text)
    (maxReadBytes : ℕ) (relative : String) (limit : ℕ) (hoffset : utf8Len text ≤ offset) :
    readWindow maxReadBytes file relative offset limit = .ok "" := by
  rw [readWindow, hbytes, length_encode, if_pos hoffset]

/-! ## The ends of a page -/

namespace PageAt

theorem stop_gt (hpage : PageAt text size offset front page back) (hsize : 1 ≤ size)
    (hoffset : offset < utf8Len text) : utf8Len front < utf8Len (front ++ page) := by
  have hstart := hpage.start.1.2
  have hstop := hpage.stop.1.2
  omega

theorem page_ne_nil (hpage : PageAt text size offset front page back) (hsize : 1 ≤ size)
    (hoffset : offset < utf8Len text) : page ≠ [] := by
  rintro rfl
  have hstop := hpage.stop_gt hsize hoffset
  simp at hstop

/-- At a boundary a page begins at its offset. -/
theorem start_eq (hpage : PageAt text size offset front page back)
    (hboundary : Boundary text offset) : utf8Len front = offset :=
  le_antisymm hpage.start.1.2 (hpage.start.2 ⟨hboundary, le_rfl⟩)

end PageAt

/-- Beginnings of one text with the same bytes are the same. -/
theorem front_eq {front' back' : List Char} (heq : front ++ back = front' ++ back')
    (hlength : utf8Len front = utf8Len front') : front = front' ∧ back = back' := by
  obtain ⟨middle, rfl, rfl⟩ := exists_between heq hlength.le
  have hlength' := length_le_utf8Len middle
  rw [utf8Len_append] at hlength
  have hmiddle : middle = [] := List.eq_nil_of_length_eq_zero (by omega)
  simp [hmiddle]

/-! ## Advancing by the pages -/

/-- The pages that are read by advancing by the byte length of each, up to the first empty
one. -/
inductive Paged (read : ℕ → Except ReadFailure String) : ℕ → List String → Prop
  | done {offset : ℕ} (hread : read offset = .ok "") : Paged read offset []
  | page {offset : ℕ} {page : String} {pages : List String} (hread : read offset = .ok page)
      (hpage : page ≠ "") (hrest : Paged read (offset + utf8Len page.toList) pages) :
      Paged read offset (page :: pages)

section

variable {file : RegularFile} (hbytes : file.bytes = encode text) {maxReadBytes limit : ℕ}
  (relative : String) (hsize : 1 ≤ min limit maxReadBytes)

include hbytes hsize

/-- A page read at a boundary is what follows there. -/
theorem readWindow_boundary {rest : List Char} (htext : text = front ++ rest)
    (hrest : rest ≠ []) :
    ∃ page back, rest = page ++ back ∧ page ≠ [] ∧
      readWindow maxReadBytes file relative (utf8Len front) limit = .ok (String.ofList page) := by
  have hoffset : utf8Len front < utf8Len text := by
    have hpos := List.length_pos_of_ne_nil hrest
    have hle := length_le_utf8Len rest
    rw [htext, utf8Len_append]
    omega
  obtain ⟨front', page, back, hpage, hread⟩ :=
    readWindow_eq hbytes maxReadBytes relative limit hoffset
  have hstart := hpage.start_eq ⟨front, rest, htext, rfl⟩
  have hsame : front ++ rest = front' ++ (page ++ back) := by
    rw [← htext, ← List.append_assoc]
    exact hpage.text_eq
  exact ⟨page, back, (front_eq hsame hstart.symm).2, hpage.page_ne_nil hsize hoffset, hread⟩

theorem paged_rest {rest : List Char} (htext : text = front ++ rest) :
    (∃ pages, Paged (readWindow maxReadBytes file relative · limit) (utf8Len front) pages) ∧
      ∀ pages, Paged (readWindow maxReadBytes file relative · limit) (utf8Len front) pages →
        (pages.map String.toList).flatten = rest := by
  induction hlength : rest.length using Nat.strong_induction_on generalizing front rest with
  | h n ih =>
      subst hlength
      by_cases hempty : rest = []
      · -- Nothing is left.
        subst hempty
        have hread : readWindow maxReadBytes file relative (utf8Len front) limit = .ok "" :=
          readWindow_past_end hbytes maxReadBytes relative limit (by rw [htext]; simp)
        refine ⟨⟨[], .done hread⟩, fun pages hpages => ?_⟩
        cases hpages with
        | done => rfl
        | page hread' hpage _ =>
            rw [hread] at hread'
            exact absurd (Except.ok.inj hread').symm hpage
      · obtain ⟨page, back, rfl, hpage, hread⟩ :=
          readWindow_boundary hbytes relative hsize htext hempty
        have hadvance : utf8Len front + utf8Len (String.ofList page).toList =
            utf8Len (front ++ page) := by
          rw [String.toList_ofList, utf8Len_append]
        have hshorter : back.length < (page ++ back).length := by
          rw [List.length_append]
          exact Nat.lt_add_of_pos_left (List.length_pos_of_ne_nil hpage)
        obtain ⟨⟨pages, hpages⟩, hall⟩ :=
          ih back.length hshorter (by rw [htext, List.append_assoc]) rfl
        have hnonempty : String.ofList page ≠ "" := by
          intro heq
          exact hpage (by simpa using congrArg String.toList heq)
        refine ⟨⟨String.ofList page :: pages, .page hread hnonempty (hadvance ▸ hpages)⟩, ?_⟩
        intro pages' hpages'
        cases hpages' with
        | done hread' =>
            rw [hread] at hread'
            exact absurd (Except.ok.inj hread') hnonempty
        | page hread' hpage' hrest' =>
            rw [hread] at hread'
            obtain rfl := Except.ok.inj hread'
            rw [hadvance] at hrest'
            rw [List.map_cons, List.flatten_cons, hall _ hrest', String.toList_ofList]

end

/-! ## Advancing by a stride -/

/-- The byte is on one of the pages read at the multiples of the stride. -/
def Returned (read : ℕ → Except ReadFailure String) (text : List Char) (size stride position : ℕ) :
    Prop :=
  ∃ k front page back, PageAt text size (k * stride) front page back ∧
    read (k * stride) = .ok (String.ofList page) ∧ utf8Len front ≤ position ∧
    position < utf8Len (front ++ page)

/-- A whole character of the file lies behind the size of the page at a multiple of the
stride, counted from where that page begins, and before the next multiple. -/
def SkippedChar (text : List Char) (size stride : ℕ) : Prop :=
  ∃ k start front c back,
    IsGreatest {position | Boundary text position ∧ position ≤ k * stride} start ∧
      text = front ++ c :: back ∧ start + size ≤ utf8Len front ∧
      utf8Len front + c.utf8Size ≤ (k + 1) * stride

/-- Outside a character, a boundary is before it or behind it. -/
theorem boundary_cases {c : Char} {position : ℕ}
    (hposition : Boundary (front ++ c :: back) position) :
    position ≤ utf8Len front ∨ utf8Len front + c.utf8Size ≤ position := by
  by_contra hinside
  rw [not_or, not_le, not_le] at hinside
  exact not_boundary_inside hinside.1 hinside.2 hposition

theorem boundary_char (front back : List Char) (c : Char) :
    Boundary (front ++ c :: back) (utf8Len front) ∧
      Boundary (front ++ c :: back) (utf8Len front + c.utf8Size) :=
  ⟨⟨front, c :: back, rfl, rfl⟩, ⟨front ++ [c], back, by simp, by simp [utf8Len_append]⟩⟩

/-- A skipped character is on no page. -/
theorem not_returned_of_skipped {read : ℕ → Except ReadFailure String} {stride k start : ℕ}
    {c : Char} (hstart : IsGreatest {position | Boundary (front ++ c :: back) position ∧
      position ≤ k * stride} start)
    (hbehind : start + size ≤ utf8Len front)
    (hbefore : utf8Len front + c.utf8Size ≤ (k + 1) * stride) :
    ¬ Returned read (front ++ c :: back) size stride (utf8Len front) := by
  rintro ⟨j, front', page, back', hpage, -, hlow, hhigh⟩
  obtain ⟨hfirst, hlast⟩ := boundary_char front back c
  have hsize := c.utf8Size_pos
  rcases Nat.lt_or_ge k j with hlater | hearlier
  · -- Later pages begin behind the character.
    have hnext : (k + 1) * stride ≤ j * stride := Nat.mul_le_mul_right stride hlater
    have hbegins := hpage.start.2 ⟨hlast, hbefore.trans hnext⟩
    omega
  · -- Earlier pages end before it.
    have hprevious : j * stride ≤ k * stride := Nat.mul_le_mul_right stride hearlier
    have hbegins := hstart.2 ⟨hpage.start.1.1, hpage.start.1.2.trans hprevious⟩
    have hends := hpage.stop.2 ⟨hfirst, show min _ _ ≤ _ by omega⟩
    omega

/-- A byte is returned if no character is skipped. -/
theorem returned_of_not_skipped {file : RegularFile} (hbytes : file.bytes = encode text)
    {maxReadBytes limit : ℕ} (relative : String) {stride : ℕ} (hstride : 1 ≤ stride)
    (hskipped : ¬ SkippedChar text (min limit maxReadBytes) stride) {position : ℕ}
    (hposition : position < utf8Len text) :
    Returned (readWindow maxReadBytes file relative · limit) text (min limit maxReadBytes) stride
      position := by
  obtain ⟨front, c, back, rfl, hlow, hhigh⟩ := exists_char_at hposition
  obtain ⟨hfirst, hlast⟩ := boundary_char front back c
  have hlastLe := hlast.le
  -- The last multiple that is not behind the character.
  obtain ⟨k, hk⟩ : ∃ k, (utf8Len front + c.utf8Size - 1) / stride = k := ⟨_, rfl⟩
  have hmultiple : k * stride ≤ utf8Len front + c.utf8Size - 1 :=
    hk ▸ Nat.div_mul_le_self _ _
  have hnext : utf8Len front + c.utf8Size - 1 < (k + 1) * stride := by
    rw [← hk, Nat.mul_comm]
    exact Nat.lt_mul_div_succ _ hstride
  obtain ⟨front', page, back', hpage, hread⟩ :=
    readWindow_eq hbytes maxReadBytes relative limit (show k * stride < _ by omega)
  have hstart := hpage.start.1.2
  have hbegins : utf8Len front' ≤ utf8Len front := by
    rcases boundary_cases hpage.start.1.1 with hbefore | hbehind
    · exact hbefore
    · omega
  have hreaches : utf8Len front < utf8Len front' + min limit maxReadBytes := by
    by_contra hshort
    exact hskipped ⟨k, utf8Len front', front, c, back, hpage.start, rfl, not_lt.mp hshort,
      by omega⟩
  have hstop := hpage.stop.1.2
  have hends : utf8Len front + c.utf8Size ≤ utf8Len (front' ++ page) := by
    rcases boundary_cases hpage.stop.1.1 with hbefore | hbehind
    · omega
    · exact hbehind
  exact ⟨k, front', page, back', hpage, hread, by omega, by omega⟩

/-- A file of valid UTF-8 is read by whole characters, page by page without a gap, and a
stride returns all of it exactly when it skips no character. -/
theorem read_input_pages (file : RegularFile) (text : List Char)
    (hbytes : file.bytes = encode text) (relative : String) (maxReadBytes limit : ℕ)
    (hmax : 1 ≤ maxReadBytes) (hlimit : 1 ≤ limit) :
    (∀ offset, (offset < utf8Len text → ∃ front page back,
        PageAt text (min limit maxReadBytes) offset front page back ∧
          readInput maxReadBytes (.file file) relative offset limit = .ok (String.ofList page)) ∧
      (readInput maxReadBytes (.file file) relative offset limit = .ok "" ↔
        utf8Len text ≤ offset)) ∧
    ((∃ pages, Paged (readInput maxReadBytes (.file file) relative · limit) 0 pages) ∧
      ∀ pages, Paged (readInput maxReadBytes (.file file) relative · limit) 0 pages →
        (pages.map String.toList).flatten = text) ∧
    ∀ stride, 1 ≤ stride → stride ≤ min limit maxReadBytes →
      ((∀ position < utf8Len text, Returned (readInput maxReadBytes (.file file) relative · limit)
          text (min limit maxReadBytes) stride position) ↔
        ¬ SkippedChar text (min limit maxReadBytes) stride) := by
  have hsize : 1 ≤ min limit maxReadBytes := le_min hlimit hmax
  refine ⟨fun offset => ⟨fun hoffset => ?_, ?_⟩, ?_, fun stride hstride _ => ?_⟩
  · exact readWindow_eq hbytes maxReadBytes relative limit hoffset
  · constructor
    · intro hempty
      by_contra hinside
      obtain ⟨front, page, back, hpage, hread⟩ :=
        readWindow_eq hbytes maxReadBytes relative limit (not_le.mp hinside)
      have hread' := hread.symm.trans hempty
      exact hpage.page_ne_nil hsize (not_le.mp hinside)
        (by simpa using congrArg String.toList (Except.ok.inj hread'))
    · exact readWindow_past_end hbytes maxReadBytes relative limit
  · exact paged_rest hbytes relative hsize (List.nil_append text).symm
  · constructor
    · rintro hreturned ⟨k, start, front, c, back, hstart, rfl, hbehind, hbefore⟩
      have hinside : utf8Len front < utf8Len (front ++ c :: back) := by
        have hpos := c.utf8Size_pos
        rw [utf8Len_append, utf8Len_cons]
        omega
      exact not_returned_of_skipped hstart hbehind hbefore (hreturned _ hinside)
    · intro hskipped position hposition
      exact returned_of_not_skipped hbytes relative hstride hskipped hposition

def maxToolReadBytes : ℕ := 4 * 1024 * 1024

/-- A character of four bytes and two of one byte. -/
def emojiText : List Char := ['😀', 'a', 'b']

def emojiFile : RegularFile := ⟨encode emojiText, by decide⟩

/-- With a limit and a stride of three bytes the page at the second offset is the first
character again, and the third offset is the end: the letter behind it is on no page. -/
theorem emoji_stride_gap :
    ¬ ∀ position < utf8Len emojiText,
      Returned (readInput maxToolReadBytes (.file emojiFile) "input/t.md" · 3) emojiText
        (min 3 maxToolReadBytes) 3 position := by
  intro hreturned
  have hstart : IsGreatest {position | Boundary emojiText position ∧ position ≤ 1 * 3} 0 := by
    refine ⟨⟨boundary_zero _, by decide⟩, ?_⟩
    rintro position ⟨hposition, hle⟩
    rcases @boundary_cases [] ['a', 'b'] '😀' position hposition with hbefore | hbehind
    · exact hbefore
    · have hfour : utf8Len [] + '😀'.utf8Size = 4 := by decide
      omega
  exact @not_returned_of_skipped (min 3 maxToolReadBytes) ['😀'] ['b'] _ 3 1 0 'a' hstart
    (by decide) (by decide) (hreturned 4 (by decide))

theorem emoji_past_end :
    readInput maxToolReadBytes (.file emojiFile) "input/t.md" 6 3 = .ok "" :=
  ((read_input_pages emojiFile emojiText rfl "input/t.md" maxToolReadBytes 3 (by decide)
    (by decide)).1 6).2.mpr (by decide)

end DiscordTranscript.Infrastructure
