import Mathlib.Data.List.DropRight
import DiscordTranscript.Foundation.Text

/-! # Searching and cutting text

`split_once`, `lines` and slices at byte positions of the Rust standard library, over lists
of characters. The first occurrence of a pattern depends on nothing behind it, and lines that
are joined by line feeds are the lines of what joins them.
-/

namespace Text

/-! ## First occurrences -/

/-- `str::split_once`: what stands before and behind the first occurrence. -/
def splitOnce (needle : List Char) : List Char → Option (List Char × List Char)
  | [] => if needle.isEmpty then some ([], []) else none
  | c :: rest =>
      if needle.isPrefixOf (c :: rest) then some ([], (c :: rest).drop needle.length)
      else (splitOnce needle rest).map fun halves => (c :: halves.1, halves.2)

/-- `str::contains`. -/
def contains (needle text : List Char) : Bool := (splitOnce needle text).isSome

section

variable {needle text before after : List Char}

theorem eq_append_of_splitOnce (hsplit : splitOnce needle text = some (before, after)) :
    text = before ++ (needle ++ after) := by
  induction text generalizing before with
  | nil =>
      unfold splitOnce at hsplit
      split at hsplit
      next hempty =>
        cases hsplit
        simpa using hempty
      next => cases hsplit
  | cons c rest ih =>
      unfold splitOnce at hsplit
      split at hsplit
      next hhere =>
        obtain ⟨tail, htail⟩ := List.isPrefixOf_iff_prefix.mp hhere
        cases hsplit
        rw [← htail, List.drop_left]
        rfl
      next =>
        obtain ⟨⟨front, back⟩, hrest, heq⟩ := Option.map_eq_some_iff.mp hsplit
        cases heq
        rw [ih hrest]
        rfl

/-- Where the first occurrence is does not depend on what follows it. -/
theorem splitOnce_retarget (hsplit : splitOnce needle text = some (before, after))
    (tail : List Char) : splitOnce needle (before ++ (needle ++ tail)) = some (before, tail) := by
  induction text generalizing before with
  | nil =>
      unfold splitOnce at hsplit
      split at hsplit
      next hempty =>
        cases hsplit
        rw [List.isEmpty_iff] at hempty
        subst hempty
        cases tail with
        | nil => rfl
        | cons c tail => rfl
      next => cases hsplit
  | cons c rest ih =>
      have htext := eq_append_of_splitOnce hsplit
      unfold splitOnce at hsplit
      split at hsplit
      next hhere =>
        cases hsplit
        cases needle with
        | nil =>
            cases tail with
            | nil => rfl
            | cons d tail => rfl
        | cons d needle =>
            have hlead : (d :: needle).isPrefixOf (d :: (needle ++ tail)) = true :=
              List.isPrefixOf_iff_prefix.mpr ⟨tail, rfl⟩
            simp [splitOnce, hlead]
      next hnot =>
        obtain ⟨⟨front, back⟩, hrest, heq⟩ := Option.map_eq_some_iff.mp hsplit
        cases heq
        have hnot' : needle.isPrefixOf (c :: (front ++ (needle ++ tail))) = false := by
          rw [Bool.eq_false_iff]
          intro hhere
          apply hnot
          -- The occurrence would lie in what both texts begin with.
          rw [htext]
          have hboth : c :: front ++ needle <+: c :: (front ++ (needle ++ tail)) :=
            ⟨tail, by simp⟩
          have hshort : needle <+: c :: front ++ needle :=
            List.prefix_of_prefix_length_le (List.isPrefixOf_iff_prefix.mp hhere) hboth
              (by rw [List.length_append]; omega)
          exact List.isPrefixOf_iff_prefix.mpr (hshort.trans ⟨back, by simp⟩)
        rw [List.cons_append, splitOnce, hnot', ih hrest]
        rfl

/-- A pattern that begins with a character the text does not have occurs behind it. -/
theorem splitOnce_append_of_notMem {c : Char} {front rest : List Char} (hc : c ∉ front) :
    splitOnce (c :: needle) (front ++ rest) =
      (splitOnce (c :: needle) rest).map fun halves => (front ++ halves.1, halves.2) := by
  induction front with
  | nil => simp
  | cons d front ih =>
      rw [List.mem_cons, not_or] at hc
      have hnot : (c :: needle).isPrefixOf (d :: (front ++ rest)) = false := by
        simp [List.isPrefixOf, hc.1]
      rw [List.cons_append, splitOnce, hnot, ih hc.2]
      simp [Option.map_map, Function.comp_def]

theorem splitOnce_self (c : Char) (needle tail : List Char) :
    splitOnce (c :: needle) (c :: needle ++ tail) = some ([], tail) := by
  have hlead : (c :: needle).isPrefixOf (c :: (needle ++ tail)) = true :=
    List.isPrefixOf_iff_prefix.mpr ⟨tail, rfl⟩
  simp [splitOnce, hlead]

theorem splitOnce_of_notMem {c : Char} {front : List Char} (hc : c ∉ front) (tail : List Char) :
    splitOnce (c :: needle) (front ++ (c :: needle ++ tail)) = some (front, tail) := by
  rw [splitOnce_append_of_notMem hc, splitOnce_self]
  simp

end

/-- A pattern whose last character stands nowhere else in it occurs where its last two
characters do. -/
theorem splitOnce_of_not_infix {start front : List Char} {c d : Char} (hd : d ∉ start ++ [c])
    (hfront : ¬ [c, d] <:+: front) (rest : List Char) :
    splitOnce (start ++ [c, d]) (front ++ (start ++ [c, d] ++ rest)) = some (front, rest) := by
  induction front with
  | nil =>
      cases hneedle : start ++ [c, d] with
      | nil => simp at hneedle
      | cons e needle => exact splitOnce_self e needle rest
  | cons e front ih =>
      have hlater : ¬ [c, d] <:+: front := by
        intro hpair
        exact hfront (hpair.trans (List.suffix_cons e front).isInfix)
      have hnot : (start ++ [c, d]).isPrefixOf (e :: (front ++ (start ++ [c, d] ++ rest))) =
          false := by
        rw [Bool.eq_false_iff]
        intro hhere
        obtain ⟨tail, htail⟩ := List.isPrefixOf_iff_prefix.mp hhere
        have htail' : (start ++ [c, d]) ++ tail = (e :: front) ++ (start ++ [c, d] ++ rest) := htail
        rcases List.append_eq_append_iff.mp htail' with ⟨more, hmore, -⟩ | ⟨more, hmore, hrest⟩
        · -- The pattern lies in the front.
          apply hfront
          exact ⟨start, more, by rw [hmore, List.append_assoc]⟩
        · -- The pattern reaches into itself: its last character would stand inside.
          rcases List.eq_nil_or_concat more with rfl | ⟨inner, last, rfl⟩
          · apply hfront
            rw [List.append_nil] at hmore
            exact ⟨start, [], by rw [← hmore]; simp⟩
          · rw [List.concat_eq_append] at hmore hrest
            have hlast : last = d := by
              have hsplit : (start ++ [c]) ++ [d] = (e :: front ++ inner) ++ [last] := by
                simpa using hmore
              simpa using (List.append_inj' hsplit rfl).2.symm
            subst hlast
            have hlength := congrArg List.length hmore
            have hwhole : inner ++ [last] <+: (start ++ [c]) ++ (last :: rest) :=
              ⟨tail, by rw [← hrest]; simp⟩
            have hinside : inner ++ [last] <+: start ++ [c] := by
              apply List.prefix_of_prefix_length_le hwhole (List.prefix_append _ _)
              simp only [List.length_append, List.length_cons, List.length_nil] at hlength ⊢
              omega
            exact hd (hinside.subset (by simp))
      rw [List.cons_append, splitOnce, hnot, ih hlater]
      rfl

theorem contains_append (front needle rest : List Char) :
    contains needle (front ++ (needle ++ rest)) = true := by
  unfold contains
  induction front with
  | nil =>
      cases htext : needle ++ rest with
      | nil =>
          have hneedle := (List.append_eq_nil_iff.mp htext).1
          simp [splitOnce, hneedle]
      | cons c tail =>
          have hhere : needle.isPrefixOf (c :: tail) = true :=
            List.isPrefixOf_iff_prefix.mpr ⟨rest, htext⟩
          simp [splitOnce, hhere]
  | cons c front ih =>
      rw [List.cons_append, splitOnce]
      split
      · rfl
      · simpa using ih

/-! ## Last occurrences -/

/-- `rfind` with a predicate: the last character that has it, and what is around it. -/
def splitLast (accepts : Char → Bool) : List Char → Option (List Char × Char × List Char)
  | [] => none
  | c :: rest =>
      match splitLast accepts rest with
      | some (before, found, after) => some (c :: before, found, after)
      | none => if accepts c then some ([], c, rest) else none

theorem splitLast_none {accepts : Char → Bool} {text : List Char}
    (hnone : splitLast accepts text = none) : ∀ c ∈ text, accepts c = false := by
  induction text with
  | nil => simp
  | cons d rest ih =>
      unfold splitLast at hnone
      split at hnone
      next => cases hnone
      next hrest =>
        split at hnone
        next => cases hnone
        next hd =>
          intro c hc
          rcases List.mem_cons.mp hc with rfl | hc
          · simpa using hd
          · exact ih hrest c hc

theorem splitLast_some {accepts : Char → Bool} {text before after : List Char} {found : Char}
    (hsome : splitLast accepts text = some (before, found, after)) :
    text = before ++ found :: after ∧ accepts found = true ∧ ∀ c ∈ after, accepts c = false := by
  induction text generalizing before with
  | nil => cases hsome
  | cons d rest ih =>
      unfold splitLast at hsome
      split at hsome
      next hrest =>
        cases hsome
        obtain ⟨hsplit, hfound, hafter⟩ := ih hrest
        exact ⟨by rw [hsplit]; rfl, hfound, hafter⟩
      next hrest =>
        split at hsome
        next hd =>
          cases hsome
          exact ⟨rfl, hd, splitLast_none hrest⟩
        next => cases hsome

/-! ## Lines -/

/-- `str::strip_suffix` with a character. -/
def stripSuffix (c : Char) (text : List Char) : List Char :=
  if text.getLast? = some c then text.dropLast else text

/-- A line without the line feed and the carriage return before it. -/
def stripLineEnding (line : List Char) : List Char :=
  if line.getLast? = some '\n' then stripSuffix '\r' line.dropLast else line

/-- `str::lines`. -/
def lines (text : List Char) : List (List Char) :=
  (splitInclusive '\n' text).map stripLineEnding

section

variable {line rest : List Char}

theorem splitInclusive_line (hline : '\n' ∉ line) (hne : line ≠ []) :
    splitInclusive '\n' line = [line] := by
  induction line with
  | nil => exact absurd rfl hne
  | cons c line ih =>
      rw [List.mem_cons, not_or] at hline
      unfold splitInclusive
      rw [if_neg (Ne.symm hline.1)]
      cases line with
      | nil => rfl
      | cons d line => rw [ih hline.2 (List.cons_ne_nil d line)]

theorem splitInclusive_line_append (hline : '\n' ∉ line) :
    splitInclusive '\n' (line ++ '\n' :: rest) =
      (line ++ ['\n']) :: splitInclusive '\n' rest := by
  induction line with
  | nil => simp [splitInclusive]
  | cons c line ih =>
      rw [List.mem_cons, not_or] at hline
      rw [List.cons_append, splitInclusive, if_neg (Ne.symm hline.1), ih hline.2]
      rfl

theorem lines_line (hline : '\n' ∉ line) (hne : line ≠ []) : lines line = [line] := by
  have hlast : line.getLast? ≠ some '\n' := fun hlast => hline (List.mem_of_getLast? hlast)
  simp [lines, splitInclusive_line hline hne, stripLineEnding, hlast]

theorem lines_line_append (hline : '\n' ∉ line) :
    lines (line ++ '\n' :: rest) = stripSuffix '\r' line :: lines rest := by
  simp [lines, splitInclusive_line_append hline, stripLineEnding]

theorem mem_of_mem_stripSuffix {c d : Char} (hc : c ∈ stripSuffix d line) : c ∈ line := by
  unfold stripSuffix at hc
  split at hc
  · exact List.mem_of_mem_dropLast hc
  · exact hc

/-- A text is read line by line: a last line, or a line with its line feed and more text. -/
theorem lines_induction {motive : List Char → Prop} (hnil : motive [])
    (hlast : ∀ line, '\n' ∉ line → line ≠ [] → motive line)
    (hline : ∀ line rest, '\n' ∉ line → motive rest → motive (line ++ '\n' :: rest))
    (text : List Char) : motive text := by
  induction hlength : text.length using Nat.strong_induction_on generalizing text with
  | _ length ih =>
      by_cases hmem : '\n' ∈ text
      · obtain ⟨line, rest, rfl, hfirst⟩ := List.eq_append_cons_of_mem hmem
        apply hline line rest hfirst
        exact ih rest.length (by rw [← hlength]; simp; omega) rest rfl
      · cases text with
        | nil => exact hnil
        | cons c text => exact hlast _ hmem (List.cons_ne_nil c text)

theorem newline_notMem_of_mem_lines {text : List Char} (hline : line ∈ lines text) :
    '\n' ∉ line := by
  revert hline
  apply lines_induction (motive := fun text => line ∈ lines text → '\n' ∉ line)
  · intro hline
    cases hline
  · intro last hnone hne hline
    rw [lines_line hnone hne, List.mem_singleton] at hline
    rw [hline]
    exact hnone
  · intro first rest hnone ih hline
    rw [lines_line_append hnone] at hline
    rcases List.mem_cons.mp hline with rfl | hline
    · exact fun hmem => hnone (mem_of_mem_stripSuffix hmem)
    · exact ih hline

/-- The last line of a text that ends with no line feed ends as the text does. -/
theorem getLast?_lines {text : List Char} {c : Char} (hlast : text.getLast? = some c)
    (hc : c ≠ '\n') : ∃ last, (lines text).getLast? = some last ∧ last.getLast? = some c := by
  revert hlast
  apply lines_induction (motive := fun text => text.getLast? = some c →
    ∃ last, (lines text).getLast? = some last ∧ last.getLast? = some c)
  · intro hlast
    cases hlast
  · intro last hnone hne hlast
    exact ⟨last, by rw [lines_line hnone hne]; rfl, hlast⟩
  · intro first rest hnone ih hlast
    cases rest with
    | nil =>
        rw [List.getLast?_concat, Option.some.injEq] at hlast
        exact absurd hlast.symm hc
    | cons d rest =>
        have hrest : (d :: rest).getLast? = some c := by
          rw [List.getLast?_append, List.getLast?_cons_cons] at hlast
          rw [List.getLast?_cons] at hlast ⊢
          exact hlast
        obtain ⟨last, hlines, hend⟩ := ih hrest
        refine ⟨last, ?_, hend⟩
        rw [lines_line_append hnone, List.getLast?_cons, hlines]
        rfl

theorem eq_nil_of_lines {text : List Char} (hlines : lines text = []) : text = [] := by
  have hpieces : splitInclusive '\n' text = [] := List.map_eq_nil_iff.mp hlines
  rw [← splitInclusive_flatten '\n' text, hpieces]
  rfl

/-- The lines of joined lines: a carriage return before a line feed belongs to the ending. -/
def settled : List (List Char) → List (List Char)
  | [] => []
  | [line] => [line]
  | line :: next :: rest => stripSuffix '\r' line :: settled (next :: rest)

theorem lines_join {rows : List (List Char)} (hrows : ∀ row ∈ rows, '\n' ∉ row ∧ row ≠ []) :
    lines (join ['\n'] rows) = settled rows := by
  induction rows with
  | nil => rfl
  | cons row rows ih =>
      obtain ⟨hrow, hne⟩ := hrows row List.mem_cons_self
      cases rows with
      | nil =>
          have hjoin : join ['\n'] [row] = row := by simp [join]
          rw [hjoin, lines_line hrow hne]
          rfl
      | cons next rest =>
          have hjoin : join ['\n'] (row :: next :: rest) =
              row ++ '\n' :: join ['\n'] (next :: rest) := by
            simp only [join]
            rw [List.intercalate_cons_cons]
            simp
          rw [hjoin, lines_line_append hrow,
            ih fun other hother => hrows other (List.mem_cons_of_mem _ hother)]
          rfl

theorem stripSuffix_of_notMem {c : Char} (hc : c ∉ line) : stripSuffix c line = line := by
  unfold stripSuffix
  rw [if_neg]
  exact fun hlast => hc (List.mem_of_getLast? hlast)

theorem settled_eq_self {rows : List (List Char)} (hrows : ∀ row ∈ rows, '\r' ∉ row) :
    settled rows = rows := by
  induction rows with
  | nil => rfl
  | cons row rows ih =>
      cases rows with
      | nil => rfl
      | cons next rest =>
          rw [settled, stripSuffix_of_notMem (hrows row List.mem_cons_self),
            ih fun other hother => hrows other (List.mem_cons_of_mem _ hother)]

/-! ## Line endings -/

def isLineEnding (c : Char) : Bool := c = '\r' || c = '\n'

/-- `trim_end_matches(['\r', '\n'])`. -/
def trimLineEndings (text : List Char) : List Char := text.rdropWhile isLineEnding

/-- The text does not end with a line ending. -/
def Unterminated (text : List Char) : Prop :=
  ∀ c, text.getLast? = some c → isLineEnding c = false

theorem Unterminated.append {front back : List Char} (hfront : Unterminated front)
    (hback : Unterminated back) : Unterminated (front ++ back) := by
  intro c hc
  rw [List.getLast?_append] at hc
  cases hlast : back.getLast? with
  | none =>
      rw [hlast] at hc
      exact hfront c hc
  | some d =>
      rw [hlast] at hc
      cases hc
      exact hback c hlast

theorem unterminated_of_notMem {text : List Char} (hreturn : '\r' ∉ text) (hfeed : '\n' ∉ text) :
    Unterminated text := by
  intro c hc
  have hmem := List.mem_of_getLast? hc
  have hne : c ≠ '\r' ∧ c ≠ '\n' := ⟨fun h => hreturn (h ▸ hmem), fun h => hfeed (h ▸ hmem)⟩
  simp [isLineEnding, hne]

theorem trimLineEndings_append {text endings : List Char} (htext : Unterminated text)
    (hendings : ∀ c ∈ endings, isLineEnding c = true) :
    trimLineEndings (text ++ endings) = text := by
  induction endings using List.reverseRecOn with
  | nil =>
      rw [List.append_nil, trimLineEndings, List.rdropWhile_eq_self_iff]
      intro hne hlast
      rw [htext _ (List.getLast?_eq_getLast_of_ne_nil hne)] at hlast
      cases hlast
  | append_singleton endings c ih =>
      have hc := hendings c (by simp)
      rw [← List.append_assoc, trimLineEndings, List.rdropWhile_concat_pos _ _ _ hc]
      exact ih fun d hd => hendings d (List.mem_append_left _ hd)

theorem trimLineEndings_eq_self {text : List Char} (htext : Unterminated text) :
    trimLineEndings text = text := by
  have hnone := trimLineEndings_append htext (fun c (hc : c ∈ []) => absurd hc List.not_mem_nil)
  simpa using hnone

theorem unterminated_trimLineEndings (text : List Char) : Unterminated (trimLineEndings text) := by
  intro c hlast
  have hne : trimLineEndings text ≠ [] := by
    intro hnil
    rw [hnil] at hlast
    cases hlast
  have hnot := List.rdropWhile_last_not isLineEnding text hne
  rw [List.getLast?_eq_getLast_of_ne_nil hne, Option.some.injEq] at hlast
  have hnot' : ¬ isLineEnding ((trimLineEndings text).getLast hne) = true := hnot
  rw [hlast] at hnot'
  simpa using hnot'

end

/-- A text of one line that does not end with a line ending is that line. -/
theorem eq_of_lines_eq_singleton {text line : List Char} (htext : Unterminated text)
    (hlines : lines text = [line]) : text = line ∧ '\n' ∉ text := by
  by_cases hmem : '\n' ∈ text
  · obtain ⟨first, rest, rfl, hfirst⟩ := List.eq_append_cons_of_mem hmem
    rw [lines_line_append hfirst, List.cons.injEq] at hlines
    have hrest := eq_nil_of_lines hlines.2
    subst hrest
    have hended := htext '\n' (by simp)
    cases hended
  · have hne : text ≠ [] := by
      rintro rfl
      cases hlines
    rw [lines_line hmem hne, List.cons.injEq] at hlines
    exact ⟨hlines.1, hmem⟩

theorem getLast?_join {rows : List (List Char)} {last : List Char}
    (hlast : rows.getLast? = some last) (hne : last ≠ []) :
    (join ['\n'] rows).getLast? = last.getLast? := by
  induction rows with
  | nil => cases hlast
  | cons row rows ih =>
      cases rows with
      | nil =>
          rw [List.getLast?_singleton, Option.some.injEq] at hlast
          simp [join, hlast]
      | cons next rest =>
          rw [List.getLast?_cons_cons] at hlast
          have hrest := ih hlast
          have hsome : (join ['\n'] (next :: rest)).getLast? ≠ none := by
            rw [hrest]
            simpa using hne
          simp only [join] at hrest hsome ⊢
          rw [List.intercalate_cons_cons, List.getLast?_append, hrest]
          rw [hrest] at hsome
          cases hend : last.getLast? with
          | none => exact absurd hend hsome
          | some c => rfl

/-- Joined lines end as the last of them does. -/
theorem unterminated_join {rows : List (List Char)} (hrows : ∀ row ∈ rows, row ≠ [])
    (hlast : ∀ row, rows.getLast? = some row → Unterminated row) :
    Unterminated (join ['\n'] rows) := by
  intro c hc
  cases hend : rows.getLast? with
  | none =>
      rw [List.getLast?_eq_none_iff.mp hend] at hc
      cases hc
  | some row =>
      rw [getLast?_join hend (hrows row (List.mem_of_getLast? hend))] at hc
      exact hlast row hend c hc

/-! ## Byte positions -/

/-- A slice up to a byte position, backed off to a character boundary. -/
def takeBytes : ℕ → List Char → List Char
  | _, [] => []
  | bytes, c :: rest =>
      if c.utf8Size ≤ bytes then c :: takeBytes (bytes - c.utf8Size) rest else []

/-- `str::split_at_checked`: the cut at a byte position that is a character boundary. -/
def splitAtByte : ℕ → List Char → Option (List Char × List Char)
  | 0, text => some ([], text)
  | _ + 1, [] => none
  | bytes + 1, c :: rest =>
      if c.utf8Size ≤ bytes + 1 then
        (splitAtByte (bytes + 1 - c.utf8Size) rest).map fun halves => (c :: halves.1, halves.2)
      else none

@[simp] theorem utf8Len_nil : utf8Len [] = 0 := rfl

@[simp] theorem utf8Len_cons (c : Char) (text : List Char) :
    utf8Len (c :: text) = c.utf8Size + utf8Len text := by
  simp [utf8Len]

theorem utf8Len_append (front back : List Char) :
    utf8Len (front ++ back) = utf8Len front + utf8Len back := by
  simp [utf8Len]

theorem length_le_utf8Len (text : List Char) : text.length ≤ utf8Len text := by
  induction text with
  | nil => exact le_rfl
  | cons c rest ih =>
      have hpos := c.utf8Size_pos
      rw [List.length_cons, utf8Len_cons]
      omega

theorem takeBytes_prefix (bytes : ℕ) (text : List Char) : takeBytes bytes text <+: text := by
  induction text generalizing bytes with
  | nil => exact List.prefix_rfl
  | cons c rest ih =>
      unfold takeBytes
      split
      · exact List.cons_prefix_cons.mpr ⟨rfl, ih _⟩
      · exact List.nil_prefix

theorem utf8Len_takeBytes_le (bytes : ℕ) (text : List Char) :
    utf8Len (takeBytes bytes text) ≤ bytes := by
  induction text generalizing bytes with
  | nil => exact Nat.zero_le _
  | cons c rest ih =>
      unfold takeBytes
      split
      next hfits =>
        have hrest := ih (bytes - c.utf8Size)
        rw [utf8Len_cons]
        omega
      next => exact Nat.zero_le _

/-- Every prefix that fits is in the slice. -/
theorem prefix_takeBytes {bytes : ℕ} {text front : List Char} (hfront : front <+: text)
    (hfits : utf8Len front ≤ bytes) : front <+: takeBytes bytes text := by
  induction front generalizing bytes text with
  | nil => exact List.nil_prefix
  | cons c front ih =>
      obtain ⟨tail, rfl⟩ := hfront
      rw [utf8Len_cons] at hfits
      rw [List.cons_append, takeBytes, if_pos (by omega)]
      exact List.cons_prefix_cons.mpr ⟨rfl, ih ⟨tail, rfl⟩ (by omega)⟩

theorem splitAtByte_append (front back : List Char) :
    splitAtByte (utf8Len front) (front ++ back) = some (front, back) := by
  induction front with
  | nil =>
      cases back with
      | nil => rfl
      | cons c back => rfl
  | cons c front ih =>
      have hpos := c.utf8Size_pos
      obtain ⟨k, hk⟩ : ∃ k, utf8Len (c :: front) = k + 1 :=
        ⟨utf8Len (c :: front) - 1, by rw [utf8Len_cons]; omega⟩
      rw [List.cons_append, hk, splitAtByte, ← hk, utf8Len_cons, if_pos (by omega),
        Nat.add_sub_cancel_left, ih]
      rfl

end Text
