import DiscordTranscript.Application.CorrectionChunks
import DiscordTranscript.Foundation.TextSlices

/-! # The splitting loop by byte positions

The loop of `split_transcript_body` as the source has it, over positions in the UTF-8 of the body. A
round from a character is the round on what is left of the body, so that no slice cuts a character.
The budget of a round is a number of characters that is used as a number of bytes.
-/

namespace DiscordTranscript.Application

open Text

/-! ## One round -/

/-- The end of the window, in front of a bracket that is not closed in it. -/
def unclosedEnd (body : List Char) (start stop : ℕ) : Option ℕ :=
  if stop < utf8Len body then
    (slice body start stop).bind fun window =>
      match splitLast (· = '[') window with
      | some (before, _, _) =>
          (slice body (start + utf8Len before) stop).map fun opened =>
            if ']' ∈ opened then stop else start + utf8Len before
      | none => some stop
  else some stop

/-- Where white space ends. -/
def separatorEnd (body : List Char) (position : ℕ) : Option ℕ :=
  if position < utf8Len body then
    match slice body position (utf8Len body) with
    | some (c :: _) =>
        if isWhitespace c then separatorEnd body (position + c.utf8Size) else some position
    | _ => none
  else some position
termination_by utf8Len body - position
decreasing_by
  have hpos := c.utf8Size_pos
  omega

/-- The end of the fragment and that of the separator. -/
def spaceEnds (body : List Char) (start stop : ℕ) : Option (ℕ × ℕ) :=
  if stop < utf8Len body then
    (slice body start stop).bind fun window =>
      match splitLast isWhitespace window with
      | some (before, whitespace, _) =>
          if 0 < utf8Len before then
            (separatorEnd body (start + utf8Len before + whitespace.utf8Size)).map
              fun last => (start + utf8Len before, last)
          else some (stop, stop)
      | none => some (stop, stop)
  else some (stop, stop)

structure SplitRound where
  fragment : List Char
  separator : List Char
  next : ℕ

/-- One round of the loop; nothing where a slice panics. -/
def splitRound (body : List Char) (maxChars start : ℕ) : Option SplitRound := do
  let window := backToBoundary body (min (start + maxChars) (utf8Len body))
  let stop ← unclosedEnd body start window
  let (stop, last) ← spaceEnds body start stop
  let (stop, last) := if stop ≤ start then (window, window) else (stop, last)
  let fragment ← slice body start stop
  let separator ← slice body stop last
  return { fragment, separator, next := last }

section

variable {front rest window : List Char}

theorem slice_rest (front rest : List Char) :
    slice (front ++ rest) (utf8Len front) (utf8Len (front ++ rest)) = some rest := by
  have hslice := Text.slice_append front rest []
  rw [List.append_nil] at hslice
  rw [utf8Len_append]
  exact hslice

theorem slice_prefix (front : List Char) (hwindow : window <+: rest) :
    slice (front ++ rest) (utf8Len front) (utf8Len front + utf8Len window) = some window := by
  obtain ⟨back, rfl⟩ := hwindow
  exact Text.slice_append front window back

/-- A window ends before the end of the body when characters are left. -/
theorem window_lt_iff (front : List Char) (hwindow : window <+: rest) :
    utf8Len front + utf8Len window < utf8Len (front ++ rest) ↔ window.length < rest.length := by
  obtain ⟨back, rfl⟩ := hwindow
  simp only [utf8Len_append, List.length_append]
  cases back with
  | nil => simp
  | cons c back =>
      have hpos := c.utf8Size_pos
      simp only [utf8Len_cons, List.length_cons]
      omega

theorem windowEnd_eq (front rest : List Char) (budget : ℕ) :
    backToBoundary (front ++ rest) (min (utf8Len front + budget) (utf8Len (front ++ rest))) =
      utf8Len front + utf8Len (takeBytes budget rest) := by
  rw [backToBoundary_eq _ _ (Nat.min_le_right _ _), takeBytes_min, takeBytes_append,
    utf8Len_append]

theorem unclosedEnd_eq (front : List Char) (hwindow : window <+: rest) :
    unclosedEnd (front ++ rest) (utf8Len front) (utf8Len front + utf8Len window) =
      some (utf8Len front + utf8Len
        (if window.length < rest.length then beforeUnclosed window else window)) := by
  unfold unclosedEnd beforeUnclosed
  simp only [window_lt_iff front hwindow, slice_prefix front hwindow, Option.bind_some]
  by_cases hshort : window.length < rest.length
  · simp only [hshort, if_true]
    cases hlast : splitLast (· = '[') window with
    | none => rfl
    | some parts =>
        obtain ⟨before, opening, inside⟩ := parts
        obtain ⟨hsplit, hopening, -⟩ := splitLast_some hlast
        obtain ⟨back, rfl⟩ := hwindow
        have hopened : slice (front ++ (window ++ back)) (utf8Len front + utf8Len before)
            (utf8Len front + utf8Len window) = some (opening :: inside) := by
          have hslice := Text.slice_append (front ++ before) (opening :: inside) back
          rw [utf8Len_append] at hslice
          rw [hsplit, utf8Len_append, ← Nat.add_assoc]
          simpa using hslice
        have hclosed : ']' ∈ opening :: inside ↔ ']' ∈ inside := by
          rw [List.mem_cons, or_iff_right]
          rintro rfl
          exact absurd hopening (by decide)
        dsimp only
        rw [hopened, Option.map_some]
        by_cases hinside : ']' ∈ inside
        · rw [if_pos (hclosed.mpr hinside), if_pos hinside]
        · rw [if_neg (mt hclosed.mp hinside), if_neg hinside]
  · simp only [hshort, if_false]

theorem separatorEnd_eq (front rest : List Char) :
    separatorEnd (front ++ rest) (utf8Len front) =
      some (utf8Len front + utf8Len (rest.takeWhile isWhitespace)) := by
  induction rest generalizing front with
  | nil =>
      unfold separatorEnd
      simp
  | cons c rest ih =>
      have hpos := c.utf8Size_pos
      unfold separatorEnd
      rw [if_pos (by rw [utf8Len_append, utf8Len_cons]; omega), slice_rest]
      dsimp only
      split
      next hspace =>
        have hnext := ih (front ++ [c])
        rw [List.append_assoc, utf8Len_append, List.singleton_append] at hnext
        rw [List.takeWhile_cons_of_pos hspace, utf8Len_cons, ← Nat.add_assoc]
        simpa using hnext
      next hplain => rw [List.takeWhile_cons_of_neg hplain, utf8Len_nil, Nat.add_zero]

theorem spaceEnds_eq (front : List Char) (hwindow : window <+: rest) :
    let cut := if window.length < rest.length then cutAtSpace window rest else (window, [])
    spaceEnds (front ++ rest) (utf8Len front) (utf8Len front + utf8Len window) =
      some (utf8Len front + utf8Len cut.1,
        utf8Len front + utf8Len cut.1 + utf8Len cut.2) := by
  dsimp only
  unfold spaceEnds cutAtSpace
  simp only [window_lt_iff front hwindow, slice_prefix front hwindow, Option.bind_some]
  by_cases hshort : window.length < rest.length
  · simp only [hshort, if_true]
    cases hlast : splitLast isWhitespace window with
    | none => rfl
    | some parts =>
        obtain ⟨before, whitespace, after⟩ := parts
        obtain ⟨hsplit, hspace, -⟩ := splitLast_some hlast
        obtain ⟨back, rfl⟩ := hwindow
        have hspaces : ((window ++ back).drop before.length).takeWhile isWhitespace =
            whitespace :: (after ++ back).takeWhile isWhitespace := by
          rw [hsplit, List.append_assoc, List.drop_left, List.cons_append,
            List.takeWhile_cons_of_pos hspace]
        have hlater : separatorEnd (front ++ (window ++ back))
            (utf8Len front + utf8Len before + whitespace.utf8Size) =
              some (utf8Len front + utf8Len before +
                (whitespace.utf8Size + utf8Len ((after ++ back).takeWhile isWhitespace))) := by
          have hend := separatorEnd_eq (front ++ before ++ [whitespace]) (after ++ back)
          simp only [utf8Len_append, utf8Len_cons, utf8Len_nil, Nat.add_zero] at hend
          rw [hsplit, ← Nat.add_assoc]
          simpa using hend
        dsimp only
        by_cases hbefore : before = []
        · simp [hbefore]
        · have hpos : 0 < utf8Len before :=
            (List.length_pos_of_ne_nil hbefore).trans_le (length_le_utf8Len before)
          rw [if_pos hpos, hlater, hspaces]
          simp [hbefore]
  · simp only [hshort, if_false, utf8Len_nil, Nat.add_zero]

end

/-- A round from a character is the round on what is left of the body. -/
theorem splitRound_eq (front rest : List Char) (budget : ℕ) :
    splitRound (front ++ rest) budget (utf8Len front) =
      some {
        fragment := (splitFragment budget rest).1
        separator := (splitFragment budget rest).2
        next := utf8Len front + utf8Len (splitFragment budget rest).1 +
          utf8Len (splitFragment budget rest).2 } := by
  have hwindow := takeBytes_prefix budget rest
  obtain ⟨back, hback⟩ := splitFragment_isPrefix budget rest
  -- The two checks for more text are one, as a shorter end has text behind it too.
  have hends : ((unclosedEnd (front ++ rest) (utf8Len front)
      (utf8Len front + utf8Len (takeBytes budget rest))).bind
        (spaceEnds (front ++ rest) (utf8Len front))) =
      let cut := if (takeBytes budget rest).length < rest.length then
        cutAtSpace (beforeUnclosed (takeBytes budget rest)) rest else (takeBytes budget rest, [])
      some (utf8Len front + utf8Len cut.1, utf8Len front + utf8Len cut.1 + utf8Len cut.2) := by
    rw [unclosedEnd_eq front hwindow, Option.bind_some]
    by_cases hshort : (takeBytes budget rest).length < rest.length
    · have hbefore := beforeUnclosed_isPrefix (takeBytes budget rest)
      have hpiece := spaceEnds_eq front (hbefore.trans hwindow)
      have hle := hbefore.length_le
      simp only [hshort, if_true] at hpiece ⊢
      rw [hpiece, if_pos (by omega)]
    · have hpiece := spaceEnds_eq front hwindow
      simp only [hshort, if_false] at hpiece ⊢
      exact hpiece
  obtain ⟨stop, hstop, hspace⟩ := Option.bind_eq_some_iff.mp hends
  generalize hcut : (if (takeBytes budget rest).length < rest.length then
    cutAtSpace (beforeUnclosed (takeBytes budget rest)) rest
      else (takeBytes budget rest, [])) = cut at hspace
  have hfragment : splitFragment budget rest =
      if cut.1.isEmpty then (takeBytes budget rest, []) else cut := by
    rw [← hcut]
    rfl
  have hempty : utf8Len front + utf8Len cut.1 ≤ utf8Len front ↔ cut.1.isEmpty = true := by
    have hlength := length_le_utf8Len cut.1
    rw [List.isEmpty_iff]
    constructor
    · intro hle
      exact List.eq_nil_of_length_eq_zero (by omega)
    · intro hnil
      simp [hnil]
  have hchosen : (if utf8Len front + utf8Len cut.1 ≤ utf8Len front then
      (utf8Len front + utf8Len (takeBytes budget rest),
        utf8Len front + utf8Len (takeBytes budget rest))
      else (utf8Len front + utf8Len cut.1, utf8Len front + utf8Len cut.1 + utf8Len cut.2)) =
      (utf8Len front + utf8Len (splitFragment budget rest).1,
        utf8Len front + utf8Len (splitFragment budget rest).1 +
          utf8Len (splitFragment budget rest).2) := by
    rw [hfragment]
    by_cases hnil : cut.1.isEmpty = true
    · rw [if_pos (hempty.mpr hnil), if_pos hnil]
      simp
    · rw [if_neg (mt hempty.mp hnil), if_neg hnil]
  have hslice : slice (front ++ rest) (utf8Len front)
      (utf8Len front + utf8Len (splitFragment budget rest).1) =
        some (splitFragment budget rest).1 :=
    slice_prefix front ((List.prefix_append _ _).trans ⟨back, hback⟩)
  have hseparator : slice (front ++ rest) (utf8Len front + utf8Len (splitFragment budget rest).1)
      (utf8Len front + utf8Len (splitFragment budget rest).1 +
        utf8Len (splitFragment budget rest).2) = some (splitFragment budget rest).2 := by
    have hlater := Text.slice_append (front ++ (splitFragment budget rest).1)
      (splitFragment budget rest).2 back
    have hbody : front ++ rest = front ++ (splitFragment budget rest).1 ++
        ((splitFragment budget rest).2 ++ back) := by
      rw [List.append_assoc, ← List.append_assoc _ _ back, hback]
    rw [utf8Len_append] at hlater
    rw [hbody]
    exact hlater
  unfold splitRound
  simp only [windowEnd_eq, hstop, hspace, hchosen, hslice, hseparator, Option.bind_eq_bind,
    Option.bind_some, Option.pure_def]

/-! ## The loop -/

/-- The loop ends with these fragments when it goes on from a position. -/
inductive SplitLoop (body : List Char) (maxChars : ℕ) : ℕ → List (List Char × List Char) → Prop
  | done {start : ℕ} (hend : utf8Len body ≤ start) : SplitLoop body maxChars start []
  | round {start : ℕ} {round : SplitRound} {later : List (List Char × List Char)}
      (hmore : start < utf8Len body) (hround : splitRound body maxChars start = some round)
      (hlater : SplitLoop body maxChars round.next later) :
      SplitLoop body maxChars start ((round.fragment, round.separator) :: later)

/-- The positions at which a round begins or the loop ends. -/
inductive RoundStart (body : List Char) (maxChars : ℕ) : ℕ → Prop
  | first : RoundStart body maxChars 0
  | next {start : ℕ} {round : SplitRound} (hstart : RoundStart body maxChars start)
      (hmore : start < utf8Len body) (hround : splitRound body maxChars start = some round) :
      RoundStart body maxChars round.next

def charAt (body : List Char) (position : ℕ) : Option Char :=
  (slice body position (utf8Len body)).bind List.head?

/-- No round begins at a character that is wider than the budget. -/
def FitsBudget (body : List Char) (maxChars : ℕ) : Prop :=
  ∀ start c, RoundStart body maxChars start → charAt body start = some c → c.utf8Size ≤ maxChars

theorem charAt_append (front rest : List Char) :
    charAt (front ++ rest) (utf8Len front) = rest.head? := by
  rw [charAt, slice_rest, Option.bind_some]

/-- A round takes something when the first character fits. -/
theorem splitFragment_nonempty_iff (budget : ℕ) (c : Char) (rest : List Char) :
    0 < (splitFragment budget (c :: rest)).1.length + (splitFragment budget (c :: rest)).2.length ↔
      c.utf8Size ≤ budget := by
  have hwindow : takeBytes budget (c :: rest) ≠ [] ↔ c.utf8Size ≤ budget := by
    unfold takeBytes
    split
    next hfits => simp [hfits]
    next hwide => simp [hwide]
  rw [← hwindow]
  rcases splitFragment_cases budget (c :: rest) with ⟨hcut, -⟩ | ⟨hcut, hne⟩
  · rw [hcut, List.length_nil, Nat.add_zero, List.length_pos_iff]
  · have hinside : (cutAtSpace (beforeUnclosed (takeBytes budget (c :: rest))) (c :: rest)).1 <+:
        beforeUnclosed (takeBytes budget (c :: rest)) := by
      unfold cutAtSpace
      split
      next hlast =>
        split
        next => exact List.prefix_rfl
        next =>
          rw [(splitLast_some hlast).1]
          exact List.prefix_append _ _
      next => exact List.prefix_rfl
    rw [hcut]
    constructor
    · intro _ hempty
      rw [hempty] at hinside hne
      exact hne (List.prefix_nil.mp hinside)
    · intro _
      have hlength := List.length_pos_of_ne_nil hne
      omega

theorem round_advances_iff (budget : ℕ) (front : List Char) (c : Char) (rest : List Char) :
    utf8Len front < utf8Len front + utf8Len (splitFragment budget (c :: rest)).1 +
        utf8Len (splitFragment budget (c :: rest)).2 ↔ c.utf8Size ≤ budget := by
  rw [← splitFragment_nonempty_iff budget c rest]
  have hsize : ∀ text : List Char, 0 < utf8Len text ↔ 0 < text.length := by
    intro text
    cases text with
    | nil => simp
    | cons d text =>
        have hpos := d.utf8Size_pos
        simp only [utf8Len_cons, List.length_cons]
        omega
  have hfragment := hsize (splitFragment budget (c :: rest)).1
  have hseparator := hsize (splitFragment budget (c :: rest)).2
  omega

/-- Every round begins at a character. -/
theorem RoundStart.boundary {body : List Char} {maxChars start : ℕ}
    (hstart : RoundStart body maxChars start) :
    ∃ front rest, body = front ++ rest ∧ utf8Len front = start := by
  induction hstart with
  | first => exact ⟨[], body, rfl, rfl⟩
  | next _ _ hround ih =>
      obtain ⟨front, rest, rfl, rfl⟩ := ih
      rw [splitRound_eq] at hround
      cases hround
      have hrest := splitFragment_append maxChars rest
      generalize splitFragment maxChars rest = cut at hrest ⊢
      generalize rest.drop (cut.1.length + cut.2.length) = later at hrest
      subst hrest
      exact ⟨front ++ (cut.1 ++ cut.2), later, by simp only [List.append_assoc],
        by simp only [utf8Len_append, Nat.add_assoc]⟩

/-- No slice of a round cuts a character, and the round takes something if and only if its first
character fits the budget. -/
theorem RoundStart.round {body : List Char} {maxChars start : ℕ}
    (hstart : RoundStart body maxChars start) (hmore : start < utf8Len body) :
    ∃ round c, splitRound body maxChars start = some round ∧ charAt body start = some c ∧
      (start < round.next ↔ c.utf8Size ≤ maxChars) := by
  obtain ⟨front, rest, rfl, rfl⟩ := hstart.boundary
  cases rest with
  | nil => simp at hmore
  | cons c rest =>
      exact ⟨_, c, splitRound_eq front (c :: rest) maxChars, charAt_append front (c :: rest),
        round_advances_iff maxChars front c rest⟩

theorem SplitLoop.advances {body : List Char} {maxChars start : ℕ}
    {fragments : List (List Char × List Char)} (hloop : SplitLoop body maxChars start fragments)
    {round : SplitRound} (hmore : start < utf8Len body)
    (hround : splitRound body maxChars start = some round) : round.next ≠ start := by
  induction hloop with
  | done hend => omega
  | round _ hround' _ ih =>
      rw [hround'] at hround
      cases hround
      intro hsame
      exact ih (by omega) (by rw [hsame]; exact hround') rfl

/-- The loop ends when every first character fits. -/
theorem exists_splitRounds {body : List Char} {budget : ℕ} (hfits : FitsBudget body budget)
    {front rest : List Char} (hbody : body = front ++ rest)
    (hstart : RoundStart body budget (utf8Len front)) {rounds : ℕ}
    (hrounds : rest.length ≤ rounds) :
    ∃ fragments, splitRounds budget rounds rest = some fragments := by
  induction rounds generalizing front rest with
  | zero =>
      obtain rfl := List.eq_nil_of_length_eq_zero (Nat.le_zero.mp hrounds)
      exact ⟨[], rfl⟩
  | succ rounds ih =>
      cases rest with
      | nil => exact ⟨[], rfl⟩
      | cons c rest =>
          have hc := hfits _ c hstart (by rw [hbody, charAt_append]; rfl)
          have htaken := (splitFragment_nonempty_iff budget c rest).mpr hc
          have hrest := splitFragment_append budget (c :: rest)
          have hround := splitRound_eq front (c :: rest) budget
          have hmore : utf8Len front < utf8Len (front ++ c :: rest) := by
            have hpos := c.utf8Size_pos
            rw [utf8Len_append, utf8Len_cons]
            omega
          rw [← hbody] at hround hmore
          have hnext := hstart.next hmore hround
          rw [splitRounds]
          generalize splitFragment budget (c :: rest) = cut at *
          have hlater : ((c :: rest).drop (cut.1.length + cut.2.length)).length ≤ rounds := by
            rw [List.length_drop]
            omega
          have hsplit : body = front ++ (cut.1 ++ cut.2) ++
              (c :: rest).drop (cut.1.length + cut.2.length) := by
            rw [List.append_assoc, List.append_assoc, hrest, hbody]
          have hposition : utf8Len (front ++ (cut.1 ++ cut.2)) =
              utf8Len front + utf8Len cut.1 + utf8Len cut.2 := by
            simp only [utf8Len_append, Nat.add_assoc]
          obtain ⟨fragments, hfragments⟩ := ih hsplit (by rw [hposition]; exact hnext) hlater
          exact ⟨cut :: fragments, by simp [hfragments]⟩

theorem splitLoop_of_fragments {body front rest : List Char} {budget : ℕ}
    {fragments : List (List Char × List Char)} (hbody : body = front ++ rest)
    (hfragments : Fragments budget rest fragments) :
    SplitLoop body budget (utf8Len front) fragments := by
  induction hfragments generalizing front with
  | done => exact .done (by rw [hbody, List.append_nil])
  | @round rest later fragments hne hrest _ ih =>
      have hround := splitRound_eq front rest budget
      have hmore : utf8Len front < utf8Len (front ++ rest) := by
        have hlength := length_le_utf8Len rest
        have hpos := List.length_pos_of_ne_nil hne
        rw [utf8Len_append]
        omega
      rw [← hbody] at hround hmore
      apply SplitLoop.round hmore hround
      have hsplit : body = front ++ ((splitFragment budget rest).1 ++
          (splitFragment budget rest).2) ++ later := by
        rw [hbody, List.append_assoc, List.append_assoc, ← hrest]
      simpa only [utf8Len_append, Nat.add_assoc] using ih hsplit

theorem SplitLoop.of_roundStart {body : List Char} {budget start : ℕ}
    {fragments : List (List Char × List Char)} (hloop : SplitLoop body budget 0 fragments)
    (hstart : RoundStart body budget start) : ∃ later, SplitLoop body budget start later := by
  induction hstart with
  | first => exact ⟨fragments, hloop⟩
  | next _ hmore hround ih =>
      obtain ⟨later, hlater⟩ := ih
      cases hlater with
      | done hend => omega
      | round _ hround' hrest =>
          rw [hround'] at hround
          cases hround
          exact ⟨_, hrest⟩

/-- The loop ends if and only if every first character fits. -/
theorem SplitLoop.fitsBudget {body : List Char} {budget : ℕ}
    {fragments : List (List Char × List Char)} (hloop : SplitLoop body budget 0 fragments) :
    FitsBudget body budget := by
  intro start c hstart hc
  obtain ⟨front, rest, rfl, rfl⟩ := hstart.boundary
  rw [charAt_append] at hc
  have hmore : utf8Len front < utf8Len (front ++ rest) := by
    cases rest with
    | nil => cases hc
    | cons d rest =>
        have hpos := d.utf8Size_pos
        rw [utf8Len_append, utf8Len_cons]
        omega
  obtain ⟨later, hlater⟩ := hloop.of_roundStart hstart
  obtain ⟨round, d, hround, hd, hadvances⟩ := hstart.round hmore
  rw [charAt_append, hc] at hd
  cases hd
  apply hadvances.mp
  have hne := hlater.advances hmore hround
  have hle : utf8Len front ≤ round.next := by
    rw [splitRound_eq] at hround
    cases hround
    dsimp only
    omega
  omega

theorem splitTranscriptBody_ne_none_iff (body : List Char) (budget : ℕ) :
    splitTranscriptBody body budget ≠ none ↔ FitsBudget body budget := by
  constructor
  · intro hsome
    obtain ⟨fragments, hfragments⟩ := Option.ne_none_iff_exists'.mp hsome
    exact (splitLoop_of_fragments (List.nil_append body).symm
      (fragments_of_splitTranscriptBody hfragments)).fitsBudget
  · intro hfits
    obtain ⟨fragments, hfragments⟩ :=
      exists_splitRounds hfits (List.nil_append body).symm .first le_rfl
    rw [splitTranscriptBody, hfragments]
    exact Option.some_ne_none fragments

theorem SplitLoop.unique {body : List Char} {budget start : ℕ}
    {fragments others : List (List Char × List Char)}
    (hloop : SplitLoop body budget start fragments)
    (hother : SplitLoop body budget start others) : fragments = others := by
  induction hloop generalizing others with
  | done hend =>
      cases hother with
      | done => rfl
      | round hmore => omega
  | round hmore hround _ ih =>
      cases hother with
      | done hend => omega
      | round _ hround' hlater =>
          rw [hround] at hround'
          cases hround'
          rw [ih hlater]

/-- The rounds that are allowed are enough for a loop that ends. -/
theorem splitTranscriptBody_eq_some_iff (body : List Char) (budget : ℕ)
    (fragments : List (List Char × List Char)) :
    splitTranscriptBody body budget = some fragments ↔ SplitLoop body budget 0 fragments := by
  have hloop : ∀ others, splitTranscriptBody body budget = some others →
      SplitLoop body budget 0 others := by
    intro others hothers
    exact splitLoop_of_fragments (List.nil_append body).symm
      (fragments_of_splitTranscriptBody hothers)
  refine ⟨hloop fragments, ?_⟩
  intro hends
  have hsome := (splitTranscriptBody_ne_none_iff body budget).mpr hends.fitsBudget
  obtain ⟨others, hothers⟩ := Option.ne_none_iff_exists'.mp hsome
  rw [hothers, hends.unique (hloop others hothers)]

/-! ## All lines -/

def PrefixTooLong (maxChars : ℕ) (line : List Char) : Prop :=
  ∃ linePrefix body, oversized maxChars line = some (linePrefix, body) ∧
    maxChars ≤ linePrefix.length + 2

/-- What a line alone makes of the run. -/
def lineFailure (maxChars : ℕ) (line : List Char) : Option CorrectionFailure :=
  (oversized maxChars line).bind fun (linePrefix, body) =>
    if linePrefix.length + 2 ≥ maxChars then
      some (.summary (.summaryEngine "transcript prefix exceeds correction chunk size"))
    else if (splitTranscriptBody body (maxChars - linePrefix.length - 2)).isNone then some .endless
    else none

theorem chunkLine_eq_error (maxChars : ℕ) (state : Chunking) (line : List Char)
    (failure : CorrectionFailure) :
    chunkLine maxChars state line = .error failure ↔ lineFailure maxChars line = some failure := by
  unfold chunkLine lineFailure
  cases oversized maxChars line with
  | none =>
      dsimp only
      split
      next => simp
      next => simp
  | some parts =>
      obtain ⟨linePrefix, body⟩ := parts
      dsimp only
      rw [Option.bind_some]
      split
      next => simp
      next =>
        cases splitTranscriptBody body (maxChars - linePrefix.length - 2) with
        | none => simp
        | some fragments => simp

theorem lineFailure_eq_endless {maxChars : ℕ} {line : List Char} :
    lineFailure maxChars line = some .endless ↔
      ∃ linePrefix body, oversized maxChars line = some (linePrefix, body) ∧
        linePrefix.length + 2 < maxChars ∧
        ¬FitsBudget body (maxChars - linePrefix.length - 2) := by
  simp only [← splitTranscriptBody_ne_none_iff, not_not, ← Option.isNone_iff_eq_none]
  unfold lineFailure
  cases oversized maxChars line with
  | none => simp
  | some parts =>
      obtain ⟨linePrefix, body⟩ := parts
      dsimp only [Option.bind_some]
      constructor
      · intro hfailure
        split at hfailure
        next => cases hfailure
        next hroom =>
          split at hfailure
          next hnone => exact ⟨linePrefix, body, rfl, by omega, hnone⟩
          next => cases hfailure
      · rintro ⟨linePrefix', body', heq, hroom, hnone⟩
        cases heq
        rw [if_neg (by omega), if_pos hnone]

/-- A line that does not stop the run with an error ends it in an endless loop or lets it go on. -/
theorem lineFailure_of_not_tooLong {maxChars : ℕ} {line : List Char} {failure : CorrectionFailure}
    (hroom : ¬PrefixTooLong maxChars line) (hfailure : lineFailure maxChars line = some failure) :
    failure = .endless := by
  obtain ⟨⟨linePrefix, body⟩, hoversized, hfailure⟩ := Option.bind_eq_some_iff.mp hfailure
  dsimp only at hfailure
  split at hfailure
  next hlong => exact absurd ⟨linePrefix, body, hoversized, hlong⟩ hroom
  next =>
    split at hfailure
    next =>
      cases hfailure
      rfl
    next => cases hfailure

theorem correctionTranscriptChunks_eq_error (transcript : List Char) (maxChars : ℕ)
    (failure : CorrectionFailure) :
    correctionTranscriptChunks transcript maxChars = .error failure ↔
      (lines transcript).findSome? (lineFailure maxChars) = some failure := by
  rw [← Except.foldlM_eq_error (chunkLine_eq_error maxChars) {}, correctionTranscriptChunks]
  cases (lines transcript).foldlM (chunkLine maxChars) {} with
  | error other => simp [Except.map]
  | ok state => simp [Except.map]

/-- Every round of every body slices between characters, and takes something if and only if its
first character is at most as wide in UTF-8 as the budget. The loop of a body ends if and only if
this is so in all its rounds, and the run over a transcript returns if and only if it is so for the
oversized lines before the first one whose prefix is too long. -/
theorem correction_chunks_end_iff (transcript : List Char) :
    (∀ body maxChars start, RoundStart body maxChars start → start < utf8Len body →
      ∃ round c, splitRound body maxChars start = some round ∧ charAt body start = some c ∧
        (start < round.next ↔ c.utf8Size ≤ maxChars)) ∧
    (∀ body maxChars fragments, splitTranscriptBody body maxChars = some fragments ↔
      SplitLoop body maxChars 0 fragments) ∧
    (correctionTranscriptChunks transcript 4000 ≠ .error .endless ↔
      ∀ front line back linePrefix body, lines transcript = front ++ line :: back →
        (∀ earlier ∈ front, ¬PrefixTooLong 4000 earlier) →
        oversized 4000 line = some (linePrefix, body) → linePrefix.length + 2 < 4000 →
        FitsBudget body (4000 - linePrefix.length - 2)) := by
  refine ⟨fun body maxChars start hstart hmore => hstart.round hmore,
    splitTranscriptBody_eq_some_iff, ?_⟩
  rw [Ne, correctionTranscriptChunks_eq_error]
  constructor
  · intro hreturns front line back linePrefix body hlines hearlier hoversized hroom
    by_contra hwide
    apply hreturns
    have hline := lineFailure_eq_endless.mpr ⟨linePrefix, body, hoversized, hroom, hwide⟩
    rw [hlines, List.findSome?_append, List.findSome?_cons, hline]
    cases hfront : front.findSome? (lineFailure 4000) with
    | none => rfl
    | some failure =>
        obtain ⟨earlier, hmem, hfailure⟩ := List.exists_of_findSome?_eq_some hfront
        rw [lineFailure_of_not_tooLong (hearlier earlier hmem) hfailure]
        rfl
  · intro hfits hendless
    obtain ⟨front, line, back, hlines, hline, hearlier⟩ :=
      List.findSome?_eq_some_iff.mp hendless
    obtain ⟨linePrefix, body, hoversized, hroom, hwide⟩ := lineFailure_eq_endless.mp hline
    apply hwide
    apply hfits front line back linePrefix body hlines _ hoversized hroom
    rintro earlier hmem ⟨linePrefix', body', hoversized', hlong⟩
    have hnone := hearlier earlier hmem
    rw [lineFailure, hoversized', Option.bind_some] at hnone
    dsimp only at hnone
    rw [if_pos hlong] at hnone
    cases hnone

/-- A prefix of 3997 characters, which leaves one byte for a fragment. -/
def longPrefix : List Char := '[' :: (List.replicate 3995 '1' ++ [']'])

/-- The first round takes nothing of a character of two bytes, and so do all others. -/
theorem wide_character_never_taken :
    oversized 4000 (longPrefix ++ ": éa".toList) = some (longPrefix, "éa".toList) ∧
      (splitRound "éa".toList 1 0).map (·.next) = some 0 ∧
      correctionTranscriptChunks (longPrefix ++ ": éa".toList) 4000 = .error .endless := by
  have hlength : longPrefix.length = 3997 := by
    rw [longPrefix, List.length_cons, List.length_append, List.length_replicate]
    rfl
  have hmem : ∀ c ∈ longPrefix, c = '[' ∨ c = '1' ∨ c = ']' := by
    intro c hc
    simp only [longPrefix, List.mem_cons, List.mem_append, List.not_mem_nil, or_false] at hc
    rcases hc with rfl | hc | rfl
    · exact .inl rfl
    · exact .inr (.inl (List.eq_of_mem_replicate hc))
    · exact .inr (.inr rfl)
  have hplain : ∀ c, c ≠ '[' → c ≠ '1' → c ≠ ']' → c ∉ longPrefix := by
    intro c hopen hone hclose hc
    rcases hmem c hc with rfl | rfl | rfl
    · exact hopen rfl
    · exact hone rfl
    · exact hclose rfl
  have hsplit : splitOnce ": ".toList (longPrefix ++ ": éa".toList) =
      some (longPrefix, "éa".toList) :=
    splitOnce_of_notMem (hplain ':' (by decide) (by decide) (by decide)) "éa".toList
  have hbody : ": éa".toList.length = 4 := rfl
  have hoversized : oversized 4000 (longPrefix ++ ": éa".toList) =
      some (longPrefix, "éa".toList) := by
    have hclose : ']' ∈ longPrefix :=
      List.mem_cons_of_mem _ (List.mem_append_right _ (List.mem_singleton_self ']'))
    have hopen : longPrefix.head? = some '[' := rfl
    unfold oversized transcriptLinePrefix
    rw [hsplit, List.length_append, hlength, hbody]
    simp [hopen, hclose]
  refine ⟨hoversized, by decide +kernel, ?_⟩
  have hline : lines (longPrefix ++ ": éa".toList) = [longPrefix ++ ": éa".toList] := by
    apply lines_line
    · rw [List.mem_append, not_or]
      exact ⟨hplain '\n' (by decide) (by decide) (by decide), by decide⟩
    · simp
  have hnone : (splitTranscriptBody "éa".toList 1).isNone = true := by decide +kernel
  rw [correctionTranscriptChunks_eq_error, hline, List.findSome?_singleton, lineFailure, hoversized,
    Option.bind_some]
  dsimp only
  rw [hlength, if_neg (by decide), if_pos hnone]

/-- A character has at most four bytes, so a prefix that leaves room for four is harmless. -/
theorem fitsBudget_of_four_le {body : List Char} {budget : ℕ} (hbudget : 4 ≤ budget) :
    FitsBudget body budget := by
  intro start c _ _
  exact (Char.utf8Size_le_four c).trans hbudget

end DiscordTranscript.Application
