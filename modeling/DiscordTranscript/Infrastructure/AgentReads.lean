import DiscordTranscript.Foundation.Utf8

/-! # Paged reads of the agent

`read_input` of `infrastructure/agent.rs`. A page is read through a window of the file with
a few bytes more on each side, and both its ends are moved to where characters begin: the
start backwards, and the end, counted from the moved start, forwards.

What stands before the window (the resolved path, its metadata and its canonical location)
is an entry of the workspace; a regular file is read in one step.
-/

namespace DiscordTranscript.Infrastructure

open Text MachineInt

inductive ToolExecutionError where
  | notFound (message : String)
  | refused (message : String)
  | invalidArgs (message : String)
  | other (message : String)
  deriving DecidableEq

inductive ReadFailure where
  | tool (error : ToolExecutionError)
  | indexOutOfBounds
  deriving DecidableEq

/-- The length of a file is a `u64`. -/
structure RegularFile where
  bytes : List UInt8
  length_le : bytes.length ≤ u64Max

/-- What the workspace has under the path of a request. -/
inductive InputEntry where
  | unresolved (error : ToolExecutionError)
  | missing
  | unreadable (err : String)
  | special
  | outside
  | file (file : RegularFile)

/-- The loop that moves `start` back; no byte of the window means an index out of bounds. -/
def snapBack (buf : List UInt8) : ℕ → Option ℕ
  | 0 => some 0
  | start + 1 =>
      match buf[start + 1]? with
      | none => none
      | some byte => if isContinuation byte then snapBack buf start else some (start + 1)

/-- The loop that moves `end` forward, over what stands behind it. -/
def snapOver : List UInt8 → ℕ → ℕ
  | [], stop => stop
  | byte :: rest, stop => if isContinuation byte then snapOver rest (stop + 1) else stop

def snapForward (buf : List UInt8) (stop : ℕ) : ℕ := snapOver (buf.drop stop) stop

/-- The part of `read_input` behind its checks of the path. -/
def readWindow (maxReadBytes : ℕ) (file : RegularFile) (relative : String) (offset limit : ℕ) :
    Except ReadFailure String :=
  let fileLen := file.bytes.length
  if offset ≥ fileLen then .ok ""
  else
    let winStart := min (offset - 3) fileLen
    let winEnd := min (saturatingAdd u64Max
      (saturatingAdd u64Max offset (min limit maxReadBytes)) 4) fileLen
    let buf := (file.bytes.drop winStart).take (winEnd - winStart)
    match snapBack buf (offset - winStart) with
    | none => .error .indexOutOfBounds
    | some start =>
        let snapped := winStart + start
        let stop := snapForward buf
          (min (saturatingAdd usizeMax snapped (min limit maxReadBytes)) fileLen - winStart)
        if start ≤ stop ∧ stop ≤ buf.length then
          match String.fromUTF8? (ByteArray.mk ((buf.drop start).take (stop - start)).toArray) with
          | some page => .ok page
          | none => .error (.tool (.invalidArgs s!"input file is not valid UTF-8: {relative}"))
        else .error .indexOutOfBounds

def readInput (maxReadBytes : ℕ) (entry : InputEntry) (relative : String) (offset limit : ℕ) :
    Except ReadFailure String :=
  match entry with
  | .unresolved error => .error (.tool error)
  | .missing => .error (.tool (.notFound s!"input file not found: {relative}"))
  | .unreadable err => .error (.tool (.other s!"failed to stat {relative}: {err}"))
  | .special => .error (.tool (.refused s!"not a regular file: {relative}"))
  | .outside => .error (.tool (.refused "input path escapes the agent workspace"))
  | .file file => readWindow maxReadBytes file relative offset limit

/-! ## The two loops -/

theorem snapBack_spec {buf : List UInt8} {start : ℕ} (hstart : start < buf.length) :
    ∃ snapped, snapBack buf start = some snapped ∧ snapped ≤ start ∧
      (∀ i byte, snapped < i → i ≤ start → buf[i]? = some byte → isContinuation byte = true) ∧
      (snapped = 0 ∨ ∃ byte, buf[snapped]? = some byte ∧ isContinuation byte = false) := by
  induction start with
  | zero => exact ⟨0, rfl, le_rfl, fun i byte hlow hhigh => by omega, .inl rfl⟩
  | succ start ih =>
      have hbyte : buf[start + 1]? = some buf[start + 1] := List.getElem?_eq_getElem hstart
      unfold snapBack
      rw [hbyte]
      by_cases hcontinues : isContinuation buf[start + 1] = true
      · obtain ⟨snapped, hsnapped, hle, hbetween, hend⟩ := ih (by omega)
        refine ⟨snapped, by simpa [hcontinues] using hsnapped, by omega, ?_, hend⟩
        intro i byte hlow hhigh hi
        rcases Nat.lt_or_eq_of_le hhigh with hlt | rfl
        · exact hbetween i byte hlow (by omega) hi
        · rw [hbyte] at hi
          exact Option.some.inj hi ▸ hcontinues
      · refine ⟨start + 1, by simp [hcontinues], le_rfl, fun i byte hlow hhigh => by omega,
          .inr ⟨_, hbyte, by simpa using hcontinues⟩⟩

theorem snapOver_spec (rest : List UInt8) (stop : ℕ) :
    ∃ skipped, snapOver rest stop = stop + skipped ∧ skipped ≤ rest.length ∧
      (∀ i byte, i < skipped → rest[i]? = some byte → isContinuation byte = true) ∧
      (skipped = rest.length ∨
        ∃ byte, rest[skipped]? = some byte ∧ isContinuation byte = false) := by
  induction rest generalizing stop with
  | nil => exact ⟨0, rfl, le_rfl, fun i byte hi => by omega, .inl rfl⟩
  | cons first rest ih =>
      unfold snapOver
      by_cases hcontinues : isContinuation first = true
      · obtain ⟨skipped, hskipped, hle, hbetween, hend⟩ := ih (stop + 1)
        refine ⟨skipped + 1, ?_, by simpa using hle, ?_, by simpa using hend⟩
        · rw [if_pos hcontinues, hskipped]
          omega
        · intro i byte hi hbyte
          cases i with
          | zero =>
              obtain rfl : first = byte := by simpa using hbyte
              exact hcontinues
          | succ i => exact hbetween i byte (by omega) (by simpa using hbyte)
      · refine ⟨0, by simp [hcontinues], Nat.zero_le _, fun i byte hi => by omega,
          .inr ⟨first, rfl, by simpa using hcontinues⟩⟩

theorem snapForward_spec {buf : List UInt8} {stop : ℕ} (hstop : stop ≤ buf.length) :
    stop ≤ snapForward buf stop ∧ snapForward buf stop ≤ buf.length ∧
      (∀ i byte, stop ≤ i → i < snapForward buf stop → buf[i]? = some byte →
        isContinuation byte = true) ∧
      (snapForward buf stop = buf.length ∨
        ∃ byte, buf[snapForward buf stop]? = some byte ∧ isContinuation byte = false) := by
  obtain ⟨skipped, hskipped, hle, hbetween, hend⟩ := snapOver_spec (buf.drop stop) stop
  rw [List.length_drop] at hle hend
  rw [snapForward, hskipped]
  refine ⟨by omega, by omega, ?_, ?_⟩
  · intro i byte hlow hhigh hbyte
    apply hbetween (i - stop) byte (by omega)
    rw [List.getElem?_drop, Nat.add_sub_cancel' hlow]
    exact hbyte
  · rcases hend with hend | ⟨byte, hbyte, hfirst⟩
    · exact .inl (by omega)
    · rw [List.getElem?_drop] at hbyte
      exact .inr ⟨byte, hbyte, hfirst⟩

/-! ## One page -/

/-- The page of `size` bytes at an offset: it begins with the character that the offset lies
in, and ends with the first character that brings it to its size, or with the file. -/
structure PageAt (text : List Char) (size offset : ℕ) (front page back : List Char) : Prop where
  text_eq : text = front ++ page ++ back
  start : IsGreatest {position | Boundary text position ∧ position ≤ offset} (utf8Len front)
  stop : IsLeast {position | Boundary text position ∧
    min (utf8Len front + size) (utf8Len text) ≤ position} (utf8Len (front ++ page))

/-- The buffer holds the bytes of the text from `low` up to `high`. -/
structure Window (text : List Char) (buf : List UInt8) (low high : ℕ) : Prop where
  low_le : low ≤ high
  high_le : high ≤ utf8Len text
  buf_eq : buf = ((encode text).drop low).take (high - low)

namespace Window

variable {text : List Char} {buf : List UInt8} {low high : ℕ}

theorem length_eq (hwindow : Window text buf low high) : buf.length = high - low := by
  have hlow := hwindow.low_le
  have hhigh := hwindow.high_le
  rw [hwindow.buf_eq, List.length_take, List.length_drop, length_encode]
  omega

theorem boundary_iff (hwindow : Window text buf low high) {position : ℕ} (hlow : low ≤ position)
    (hhigh : position < high) : ∃ byte, buf[position - low]? = some byte ∧
      (isContinuation byte = false ↔ Boundary text position) := by
  have hin : position < (encode text).length := by
    rw [length_encode]
    exact hhigh.trans_le hwindow.high_le
  have hget : buf[position - low]? = some (encode text)[position] := by
    rw [hwindow.buf_eq, List.getElem?_take_of_lt (by omega), List.getElem?_drop,
      Nat.add_sub_cancel' hlow]
    exact List.getElem?_eq_getElem hin
  exact ⟨_, hget, isContinuation_encode (List.getElem?_eq_getElem hin)⟩

theorem boundary_of_getElem? (hwindow : Window text buf low high) {i : ℕ} {byte : UInt8}
    (hget : buf[i]? = some byte) (hlead : isContinuation byte = false) :
    Boundary text (low + i) := by
  have hin : i < buf.length := (List.getElem?_eq_some_iff.mp hget).1
  rw [hwindow.length_eq] at hin
  obtain ⟨byte', hget', hiff⟩ := hwindow.boundary_iff (Nat.le_add_right low i) (by omega)
  rw [Nat.add_sub_cancel_left, hget] at hget'
  cases hget'
  exact hiff.mp hlead

/-- The start moves back to the last boundary, if the window has one. -/
theorem snapBack_eq (hwindow : Window text buf low high) {offset first : ℕ} (hlow : low ≤ offset)
    (hhigh : offset < high) (hfirst : Boundary text first) (hfirstLow : low ≤ first)
    (hfirstHigh : first ≤ offset) :
    ∃ start, snapBack buf (offset - low) = some start ∧
      IsGreatest {position | Boundary text position ∧ position ≤ offset} (low + start) := by
  have hlength := hwindow.length_eq
  obtain ⟨start, hsnap, hle, hbetween, hend⟩ := @snapBack_spec buf (offset - low) (by omega)
  have hnoLater : ∀ position, Boundary text position → position ≤ offset →
      position ≤ low + start := by
    intro position hposition hbefore
    by_contra hlater
    obtain ⟨byte, hget, hiff⟩ := hwindow.boundary_iff (show low ≤ position by omega)
      (hbefore.trans_lt hhigh)
    have hcontinues := hbetween (position - low) byte (by omega) (by omega) hget
    rw [hiff.mpr hposition] at hcontinues
    cases hcontinues
  refine ⟨start, hsnap, ⟨?_, by omega⟩, fun position hposition =>
    hnoLater position hposition.1 hposition.2⟩
  rcases hend with rfl | ⟨byte, hget, hlead⟩
  · have heq : first = low + 0 := le_antisymm (hnoLater first hfirst hfirstHigh) hfirstLow
    exact heq ▸ hfirst
  · exact hwindow.boundary_of_getElem? hget hlead

/-- The end moves forward to the next boundary, if the window reaches one. -/
theorem snapForward_eq (hwindow : Window text buf low high) {wanted last : ℕ}
    (hlow : low ≤ wanted) (hlast : Boundary text last) (hlastLow : wanted ≤ last)
    (hlastHigh : last ≤ high) :
    IsLeast {position | Boundary text position ∧ wanted ≤ position}
        (low + snapForward buf (wanted - low)) ∧
      snapForward buf (wanted - low) ≤ buf.length := by
  have hlength := hwindow.length_eq
  obtain ⟨hge, hle, hbetween, hend⟩ := @snapForward_spec buf (wanted - low) (by omega)
  have hnoEarlier : ∀ position, Boundary text position → wanted ≤ position →
      low + snapForward buf (wanted - low) ≤ position := by
    intro position hposition hbehind
    by_contra hearlier
    obtain ⟨byte, hget, hiff⟩ := hwindow.boundary_iff (hlow.trans hbehind) (by omega)
    have hcontinues := hbetween (position - low) byte (by omega) (by omega) hget
    rw [hiff.mpr hposition] at hcontinues
    cases hcontinues
  refine ⟨⟨⟨?_, by omega⟩, fun position hposition =>
    hnoEarlier position hposition.1 hposition.2⟩, hle⟩
  rcases hend with hend | ⟨byte, hget, hlead⟩
  · have hreached := hnoEarlier last hlast hlastLow
    have heq : low + snapForward buf (wanted - low) = last := by omega
    exact heq ▸ hlast
  · exact hwindow.boundary_of_getElem? hget hlead

end Window

theorem encode_slice (front page back : List Char) :
    ((encode (front ++ page ++ back)).drop (utf8Len front)).take (utf8Len page) = encode page := by
  rw [encode_append, encode_append, List.append_assoc, List.drop_left' (length_encode front),
    List.take_left' (length_encode page)]

/-- Two boundaries cut a text in three. -/
theorem exists_page {text : List Char} {low high : ℕ} (hlow : Boundary text low)
    (hhigh : Boundary text high) (hle : low ≤ high) :
    ∃ front page back, text = front ++ page ++ back ∧ utf8Len front = low ∧
      utf8Len (front ++ page) = high := by
  obtain ⟨front, rest, htext, rfl⟩ := hlow
  obtain ⟨through, back, htext', rfl⟩ := hhigh
  obtain ⟨page, rfl, rfl⟩ := exists_between (htext.symm.trans htext') hle
  exact ⟨front, page, back, htext', rfl, rfl⟩

/-- What `read_input` returns for an offset in a file of valid UTF-8. -/
theorem readWindow_eq {file : RegularFile} {text : List Char} (hbytes : file.bytes = encode text)
    (maxReadBytes : ℕ) (relative : String) {offset : ℕ} (limit : ℕ)
    (hoffset : offset < utf8Len text) :
    ∃ front page back, PageAt text (min limit maxReadBytes) offset front page back ∧
      readWindow maxReadBytes file relative offset limit = .ok (String.ofList page) := by
  have hlength : file.bytes.length = utf8Len text := by rw [hbytes, length_encode]
  have hmax : utf8Len text ≤ u64Max := hlength ▸ file.length_le
  -- The additions saturate only beyond the end of the file.
  have hwinStart : min (offset - 3) (utf8Len text) = offset - 3 := by omega
  have hwinEnd : min (saturatingAdd u64Max (saturatingAdd u64Max offset (min limit maxReadBytes)) 4)
      (utf8Len text) = min (offset + min limit maxReadBytes + 4) (utf8Len text) := by
    have hinner := min_saturatingAdd hmax offset (min limit maxReadBytes)
    rw [min_saturatingAdd hmax]
    omega
  obtain ⟨winEnd, hwinEndEq⟩ :
      ∃ winEnd, min (offset + min limit maxReadBytes + 4) (utf8Len text) = winEnd := ⟨_, rfl⟩
  obtain ⟨buf, hbuf⟩ :
      ∃ buf, ((encode text).drop (offset - 3)).take (winEnd - (offset - 3)) = buf := ⟨_, rfl⟩
  have hwindow : Window text buf (offset - 3) winEnd := ⟨by omega, by omega, hbuf.symm⟩
  obtain ⟨first, hfirst, hfirstLow, hfirstHigh⟩ := exists_boundary_before hoffset.le
  obtain ⟨start, hsnap, hstart⟩ := hwindow.snapBack_eq (Nat.sub_le offset 3) (by omega) hfirst
    (by omega) hfirstLow
  have hstartLe := hstart.1.2
  obtain ⟨wanted, hwanted⟩ :
      ∃ wanted, min (offset - 3 + start + min limit maxReadBytes) (utf8Len text) = wanted :=
    ⟨_, rfl⟩
  obtain ⟨last, hlast, hlastLow, hlastHigh⟩ :=
    exists_boundary_after (show wanted ≤ utf8Len text by omega)
  have hlastLe := hlast.le
  obtain ⟨hstop, hstopLe⟩ :=
    hwindow.snapForward_eq (show offset - 3 ≤ wanted by omega) hlast hlastLow (by omega)
  obtain ⟨stop, hstopEq⟩ : ∃ stop, snapForward buf (wanted - (offset - 3)) = stop := ⟨_, rfl⟩
  rw [hstopEq] at hstop hstopLe
  have hstopGe := hstop.1.2
  obtain ⟨front, page, back, htext, hfront, hthrough⟩ :=
    exists_page hstart.1.1 hstop.1.1 (by omega)
  have hpage : utf8Len page = stop - start := by
    rw [utf8Len_append, hfront] at hthrough
    omega
  refine ⟨front, page, back, ⟨htext, hfront ▸ hstart, ?_⟩, ?_⟩
  · rw [hthrough, hfront, hwanted]
    exact hstop
  · have hslice : (buf.drop start).take (stop - start) = encode page := by
      have hlength := hwindow.length_eq
      rw [← hbuf, List.drop_take, List.take_take, List.drop_drop, min_eq_left (by omega), ← hpage,
        ← hfront, htext]
      exact encode_slice front page back
    have hdecoded : String.fromUTF8? (ByteArray.mk (encode page).toArray) =
        some (String.ofList page) := by
      rw [← utf8Bytes_ofList]
      exact fromUTF8?_utf8Bytes _
    have hsnapped : min (saturatingAdd usizeMax (offset - 3 + start) (min limit maxReadBytes))
        (utf8Len text) = wanted := by
      rw [← hwanted]
      exact min_saturatingAdd hmax _ _
    simp only [readWindow, hbytes, length_encode, hwinStart, hwinEnd, hwinEndEq, hbuf, hsnap, hsnapped,
      hstopEq, hslice, hdecoded]
    rw [if_neg (not_le.mpr hoffset), if_pos ⟨by omega, hstopLe⟩]

end DiscordTranscript.Infrastructure
