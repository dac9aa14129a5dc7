import DiscordTranscript.Foundation.Text

/-! # Splitting a message for Discord

The model of `split_discord_message` in `interfaces/posting.rs`. Lines are packed
greedily into chunks whose length is measured in UTF-16 code units; a line above the
limit is first cut into pieces between characters.
-/

namespace DiscordTranscript.Interfaces

open Text

/-- The chunks that are complete and the one that is being filled. -/
structure MessagePacking where
  chunks : List (List Char) := []
  current : List Char := []

/-- The loop state of `split_hard`. -/
structure HardSplit where
  out : List (List Char) := []
  buf : List Char := []
  bufLen : ℕ := 0

def HardSplit.pushChar (limit : ℕ) (state : HardSplit) (ch : Char) : HardSplit :=
  let chLen := charLenUtf16 ch
  let state := if state.bufLen + chLen > limit then
      { out := state.out ++ [state.buf], buf := [], bufLen := 0 }
    else state
  { state with buf := state.buf ++ [ch], bufLen := state.bufLen + chLen }

def splitHard (input : List Char) (limit : ℕ) : List (List Char) :=
  let state := input.foldl (HardSplit.pushChar limit) {}
  if state.buf.isEmpty then state.out else state.out ++ [state.buf]

def MessagePacking.pushSegment (limit : ℕ) (packing : MessagePacking) (segment : List Char) :
    MessagePacking :=
  if utf16Len packing.current + utf16Len segment ≤ limit then
    { packing with current := packing.current ++ segment }
  else if packing.current.isEmpty then { packing with current := segment }
  else { chunks := packing.chunks ++ [packing.current], current := segment }

def MessagePacking.pushLine (limit : ℕ) (packing : MessagePacking) (line : List Char) :
    MessagePacking :=
  if utf16Len line ≤ limit then packing.pushSegment limit line
  else (splitHard line limit).foldl (MessagePacking.pushSegment limit) packing

def splitDiscordMessage (text : List Char) (limit : ℕ) : List (List Char) :=
  if limit = 0 then [text]
  else if text.isEmpty then []
  else
    let packing := (splitInclusive '\n' text).foldl (MessagePacking.pushLine limit) {}
    if packing.current.isEmpty then packing.chunks else packing.chunks ++ [packing.current]

/-! ## Cutting a long line -/

theorem charLenUtf16_le_two (ch : Char) : charLenUtf16 ch ≤ 2 := by
  unfold charLenUtf16
  split <;> omega

/-- Nothing of the characters read so far is lost, and no piece is empty or too long. -/
structure HardSplit.Sound (limit : ℕ) (state : HardSplit) (done : List Char) : Prop where
  joined : state.out.flatten ++ state.buf = done
  bufLen_eq : state.bufLen = utf16Len state.buf
  buf_le : utf16Len state.buf ≤ limit
  pieces : ∀ piece ∈ state.out, piece ≠ [] ∧ utf16Len piece ≤ limit

theorem HardSplit.Sound.pushChar {limit : ℕ} {state : HardSplit} {done : List Char}
    (hlimit : 2 ≤ limit) (hstate : state.Sound limit done) (ch : Char) :
    (state.pushChar limit ch).Sound limit (done ++ [ch]) := by
  have hsize := charLenUtf16_le_two ch
  have hone : utf16Len [ch] = charLenUtf16 ch := by simp [utf16Len]
  have hlen := hstate.bufLen_eq
  have hjoined := hstate.joined
  unfold HardSplit.pushChar
  by_cases hfull : state.bufLen + charLenUtf16 ch > limit
  · have hbuf : state.buf ≠ [] := by
      intro hempty
      rw [hempty, utf16Len_nil] at hlen
      omega
    simp only [hfull, if_true]
    constructor
    · simp [← hjoined]
    · simp [hone]
    · rw [List.nil_append, hone]
      omega
    · intro piece hpiece
      rcases List.mem_append.mp hpiece with hpiece | hpiece
      · exact hstate.pieces piece hpiece
      · rw [List.mem_singleton.mp hpiece]
        exact ⟨hbuf, hstate.buf_le⟩
  · simp only [hfull, if_false]
    constructor
    · simp [← hjoined]
    · rw [utf16Len_append, hone, hlen]
    · rw [utf16Len_append, hone]
      omega
    · exact hstate.pieces

theorem HardSplit.Sound.foldl {limit : ℕ} (hlimit : 2 ≤ limit) (input : List Char)
    {state : HardSplit} {done : List Char} (hstate : state.Sound limit done) :
    (input.foldl (HardSplit.pushChar limit) state).Sound limit (done ++ input) := by
  induction input generalizing state done with
  | nil => simpa using hstate
  | cons ch rest ih =>
      have hrest := ih (hstate.pushChar hlimit ch)
      rwa [List.append_assoc] at hrest

theorem splitHard_spec {limit : ℕ} (hlimit : 2 ≤ limit) (input : List Char) :
    (splitHard input limit).flatten = input ∧
      ∀ piece ∈ splitHard input limit, utf16Len piece ≤ limit := by
  have hstart : ({} : HardSplit).Sound limit [] := by
    constructor <;> simp
  have hend := hstart.foldl hlimit input
  unfold splitHard
  dsimp only
  split
  next hempty =>
    have hjoined := hend.joined
    rw [List.isEmpty_iff.mp hempty] at hjoined
    refine ⟨by simpa using hjoined, ?_⟩
    intro piece hpiece
    exact (hend.pieces piece hpiece).2
  next =>
    refine ⟨by simpa using hend.joined, ?_⟩
    intro piece hpiece
    rcases List.mem_append.mp hpiece with hpiece | hpiece
    · exact (hend.pieces piece hpiece).2
    · rw [List.mem_singleton.mp hpiece]
      exact hend.buf_le

/-! ## Packing -/

/-- A segment that begins after `before` lies inside one of the chunks. -/
def LiesInside (chunks : List (List Char)) (before segment : List Char) : Prop :=
  ∃ front chunk back head tail, chunks = front ++ chunk :: back ∧
    chunk = head ++ segment ++ tail ∧ front.flatten ++ head = before

theorem LiesInside.append {chunks : List (List Char)} {before segment : List Char}
    (hinside : LiesInside chunks before segment) (more : List (List Char)) :
    LiesInside (chunks ++ more) before segment := by
  obtain ⟨front, chunk, back, head, tail, rfl, hchunk, hbefore⟩ := hinside
  exact ⟨front, chunk, back ++ more, head, tail, by simp, hchunk, hbefore⟩

/-- The last chunk may still grow. -/
theorem LiesInside.extend {chunks : List (List Char)} {last before segment : List Char}
    (hinside : LiesInside (chunks ++ [last]) before segment) (more : List Char) :
    LiesInside (chunks ++ [last ++ more]) before segment := by
  obtain ⟨front, chunk, back, head, tail, hchunks, hchunk, hbefore⟩ := hinside
  rcases List.eq_nil_or_concat back with rfl | ⟨back, final, rfl⟩
  · obtain ⟨rfl, hlast⟩ := List.append_inj' hchunks rfl
    cases hlast
    exact ⟨chunks, last ++ more, [], head, tail ++ more, rfl, by simp [hchunk], hbefore⟩
  · have hsplit : chunks ++ [last] = (front ++ chunk :: back) ++ [final] := by
      simpa using hchunks
    obtain ⟨rfl, -⟩ := List.append_inj' hsplit rfl
    exact ⟨front, chunk, back ++ [last ++ more], head, tail, by simp, hchunk, hbefore⟩

namespace MessagePacking

/-- The chunks if no more text came. -/
def all (packing : MessagePacking) : List (List Char) := packing.chunks ++ [packing.current]

structure Sound (limit : ℕ) (packing : MessagePacking) (done : List Char) : Prop where
  joined : packing.all.flatten = done
  current_le : utf16Len packing.current ≤ limit
  complete : ∀ chunk ∈ packing.chunks, chunk ≠ [] ∧ utf16Len chunk ≤ limit
  nonempty : done ≠ [] → packing.current ≠ []

variable {limit : ℕ} {packing : MessagePacking} {done : List Char}

/-- A pushed segment lies at the end of the chunk being filled, and what lay inside a chunk
before still does. -/
theorem Sound.pushSegment (hpacking : packing.Sound limit done) {segment : List Char}
    (hsegment : utf16Len segment ≤ limit) :
    (packing.pushSegment limit segment).Sound limit (done ++ segment) ∧
      LiesInside (packing.pushSegment limit segment).all done segment ∧
      ∀ before other, LiesInside packing.all before other →
        LiesInside (packing.pushSegment limit segment).all before other := by
  have hjoined : packing.chunks.flatten ++ packing.current = done := by
    simpa [all] using hpacking.joined
  unfold MessagePacking.pushSegment
  split
  next hfits =>
    refine ⟨⟨?_, ?_, hpacking.complete, ?_⟩, ?_, ?_⟩
    · simp [all, ← hjoined]
    · rw [utf16Len_append]
      exact hfits
    · intro hdone hnil
      obtain ⟨hcurrent, rfl⟩ := List.append_eq_nil_iff.mp hnil
      exact hpacking.nonempty (by simpa using hdone) hcurrent
    · exact ⟨packing.chunks, packing.current ++ segment, [], packing.current, [], rfl, by simp,
        hjoined⟩
    · intro before other hinside
      exact hinside.extend segment
  next hfull =>
    have hsegmentNonempty : segment ≠ [] := by
      rintro rfl
      exact hfull (by simpa using hpacking.current_le)
    split
    next hempty =>
      have hcurrent := List.isEmpty_iff.mp hempty
      rw [hcurrent, List.append_nil] at hjoined
      refine ⟨⟨?_, hsegment, hpacking.complete, fun _ => hsegmentNonempty⟩, ?_, ?_⟩
      · simp [all, ← hjoined]
      · exact ⟨packing.chunks, segment, [], [], [], rfl, by simp, by simpa using hjoined⟩
      · intro before other hinside
        unfold all at hinside
        rw [hcurrent] at hinside
        exact hinside.extend segment
    next hcurrent =>
      refine ⟨⟨?_, hsegment, ?_, fun _ => hsegmentNonempty⟩, ?_, ?_⟩
      · simp [all, ← hjoined]
      · intro chunk hchunk
        rcases List.mem_append.mp hchunk with hchunk | hchunk
        · exact hpacking.complete chunk hchunk
        · rw [List.mem_singleton.mp hchunk]
          exact ⟨fun hnil => hcurrent (by rw [hnil]; rfl), hpacking.current_le⟩
      · exact ⟨packing.chunks ++ [packing.current], segment, [], [], [], rfl, by simp,
          by simpa using hjoined⟩
      · intro before other hinside
        exact hinside.append [segment]

theorem Sound.pushSegments (segments : List (List Char))
    (hsegments : ∀ segment ∈ segments, utf16Len segment ≤ limit)
    (hpacking : packing.Sound limit done) :
    (segments.foldl (MessagePacking.pushSegment limit) packing).Sound limit
        (done ++ segments.flatten) ∧
      ∀ before other, LiesInside packing.all before other →
        LiesInside (segments.foldl (MessagePacking.pushSegment limit) packing).all before other := by
  induction segments generalizing packing done with
  | nil => simpa using hpacking
  | cons segment rest ih =>
      obtain ⟨hfirst, -, hkept⟩ := hpacking.pushSegment (hsegments segment List.mem_cons_self)
      obtain ⟨hrest, hstays⟩ := ih
        (fun other hother => hsegments other (List.mem_cons_of_mem _ hother)) hfirst
      refine ⟨by simpa using hrest, ?_⟩
      intro before other hinside
      exact hstays before other (hkept before other hinside)

theorem Sound.pushLine (hlimit : 2 ≤ limit) (hpacking : packing.Sound limit done)
    (line : List Char) :
    (packing.pushLine limit line).Sound limit (done ++ line) ∧
      (utf16Len line ≤ limit → LiesInside (packing.pushLine limit line).all done line) ∧
      ∀ before other, LiesInside packing.all before other →
        LiesInside (packing.pushLine limit line).all before other := by
  unfold MessagePacking.pushLine
  split
  next hshort =>
    obtain ⟨hsound, hinside, hkept⟩ := hpacking.pushSegment hshort
    exact ⟨hsound, fun _ => hinside, hkept⟩
  next hlong =>
    obtain ⟨hjoined, hpieces⟩ := splitHard_spec hlimit line
    obtain ⟨hsound, hkept⟩ := hpacking.pushSegments (splitHard line limit) hpieces
    rw [hjoined] at hsound
    exact ⟨hsound, fun hshort => absurd hshort hlong, hkept⟩

/-- Over all lines: nothing is lost, and every line that fits lies inside one chunk. -/
theorem Sound.pushLines (hlimit : 2 ≤ limit) (lines : List (List Char))
    (hpacking : packing.Sound limit done) :
    (lines.foldl (MessagePacking.pushLine limit) packing).Sound limit (done ++ lines.flatten) ∧
      (∀ front line back, lines = front ++ line :: back → utf16Len line ≤ limit →
        LiesInside (lines.foldl (MessagePacking.pushLine limit) packing).all
          (done ++ front.flatten) line) ∧
      ∀ before other, LiesInside packing.all before other →
        LiesInside (lines.foldl (MessagePacking.pushLine limit) packing).all before other := by
  induction lines generalizing packing done with
  | nil =>
      refine ⟨by simpa using hpacking, ?_, fun _ _ hinside => hinside⟩
      intro front line back hlines
      cases front <;> simp at hlines
  | cons first rest ih =>
      obtain ⟨hfirst, hplaced, hkept⟩ := hpacking.pushLine hlimit first
      obtain ⟨hrest, hlater, hstays⟩ := ih hfirst
      refine ⟨by simpa using hrest, ?_, ?_⟩
      · intro front line back hlines hshort
        cases front with
        | nil =>
            obtain ⟨rfl, -⟩ := List.cons.inj hlines
            simpa using hstays done first (hplaced hshort)
        | cons head front =>
            obtain ⟨rfl, htail⟩ := List.cons.inj hlines
            simpa using hlater front line back htail hshort
      · intro before other hinside
        exact hstays before other (hkept before other hinside)

end MessagePacking

/-- The chunks of a message are its text again, none is empty or above the limit, and every
line that fits into a chunk lies inside one. -/
theorem split_discord_message_lossless (text : List Char) {limit : ℕ} (hlimit : 2 ≤ limit) :
    (∀ chunk ∈ splitDiscordMessage text limit, chunk ≠ [] ∧ utf16Len chunk ≤ limit) ∧
      (splitDiscordMessage text limit).flatten = text ∧
      ∀ front line back, splitInclusive '\n' text = front ++ line :: back →
        utf16Len line ≤ limit →
        LiesInside (splitDiscordMessage text limit) front.flatten line := by
  have hstart : ({} : MessagePacking).Sound limit [] := by
    constructor <;> simp [MessagePacking.all]
  obtain ⟨hsound, hlines, -⟩ := hstart.pushLines hlimit (splitInclusive '\n' text)
  rw [splitInclusive_flatten, List.nil_append] at hsound
  have hjoined := hsound.joined
  unfold splitDiscordMessage
  rw [if_neg (by omega)]
  split
  next hempty =>
    rw [List.isEmpty_iff.mp hempty]
    refine ⟨by simp, rfl, ?_⟩
    intro front line back hsplit
    cases front <;> simp [splitInclusive] at hsplit
  next htext =>
    have hcurrent := hsound.nonempty (by simpa using htext)
    dsimp only
    rw [if_neg (by simpa using hcurrent)]
    refine ⟨?_, hjoined, ?_⟩
    · intro chunk hchunk
      rcases List.mem_append.mp hchunk with hchunk | hchunk
      · exact hsound.complete chunk hchunk
      · rw [List.mem_singleton.mp hchunk]
        exact ⟨hcurrent, hsound.current_le⟩
    · intro front line back hsplit hshort
      exact hlines front line back hsplit hshort

/-- A line of five characters, one of them two units wide, at a limit of four. -/
theorem short_line_after_long_one :
    splitDiscordMessage ['a', 'b', 'c', '😀', '\n', 'd', '\n'] 4 =
        [['a', 'b', 'c'], ['😀', '\n'], ['d', '\n']] ∧
      LiesInside (splitDiscordMessage ['a', 'b', 'c', '😀', '\n', 'd', '\n'] 4)
        ['a', 'b', 'c', '😀', '\n'] ['d', '\n'] :=
  ⟨by decide, (split_discord_message_lossless ['a', 'b', 'c', '😀', '\n', 'd', '\n']
    (by decide)).2.2 [['a', 'b', 'c', '😀', '\n']] ['d', '\n'] [] (by decide) (by decide)⟩

end DiscordTranscript.Interfaces
