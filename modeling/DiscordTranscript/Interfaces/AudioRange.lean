import DiscordTranscript.Domain.TranscriptLines
import DiscordTranscript.Foundation.MachineInt
import DiscordTranscript.Foundation.TextSearch

/-! # Ranges of a recording

The model of `parse_range` in `interfaces/web.rs`. A range is cut at the end of the file before
its length is compared with the least one that is served, so the last of several requests for
equal windows may be refused.
-/

namespace DiscordTranscript.Interfaces

open Domain MachineInt Text

def minAudioRangeBytes : ℕ := 64 * 1024

/-- `str::strip_prefix`. -/
def stripPrefix (start text : List Char) : Option (List Char) :=
  if start.isPrefixOf text then some (text.drop start.length) else none

def parseU64 (text : List Char) : Option ℕ := parseUnsigned u64Max (String.ofList text)

def requestedEnd (endStr : List Char) (fileSize : ℕ) : Option ℕ :=
  if endStr.isEmpty then some (fileSize - 1)
  else (parseU64 endStr).map (min · (fileSize - 1))

/-- The first and the last byte that are asked for, cut at the end of the file. -/
def requestedBytes (startStr endStr : List Char) (fileSize : ℕ) : Option (ℕ × ℕ) :=
  if startStr.isEmpty then do
    let suffixLen ← parseU64 endStr
    if suffixLen = 0 then none else some (fileSize - suffixLen, fileSize - 1)
  else do
    let start ← parseU64 startStr
    if start ≥ fileSize then none
    else do
      let last ← requestedEnd endStr fileSize
      if start > last then none else some (start, last)

def parseRange (rangeStr : List Char) (fileSize : ℕ) : Option (ℕ × ℕ) :=
  if fileSize = 0 then none
  else do
    let rangeSpec ← stripPrefix "bytes=".toList (trim rangeStr)
    if ',' ∈ rangeSpec then none
    else do
      let (startStr, endStr) ← splitOnce ['-'] rangeSpec
      let startStr := trim startStr
      let endStr := trim endStr
      let isSuffixProbe := startStr.isEmpty
      let isOpenEnded := !startStr.isEmpty && endStr.isEmpty
      let (start, last) ← requestedBytes startStr endStr fileSize
      let length := saturatingAdd u64Max (last - start) 1
      if !isSuffixProbe && !isOpenEnded && fileSize > minAudioRangeBytes &&
          length < minAudioRangeBytes then none
      else some (start, last)

/-! ## Ranges lie in the file -/

theorem requestedEnd_le {endStr : List Char} {fileSize last : ℕ}
    (hend : requestedEnd endStr fileSize = some last) : last ≤ fileSize - 1 := by
  unfold requestedEnd at hend
  split at hend
  next =>
    cases hend
    exact le_rfl
  next =>
    obtain ⟨value, -, rfl⟩ := Option.map_eq_some_iff.mp hend
    exact min_le_right _ _

theorem requestedBytes_bounds {startStr endStr : List Char} {fileSize start last : ℕ}
    (hsize : fileSize ≠ 0) (hrange : requestedBytes startStr endStr fileSize = some (start, last)) :
    start ≤ last ∧ last < fileSize := by
  unfold requestedBytes at hrange
  split at hrange
  next =>
    obtain ⟨suffixLen, -, hrange⟩ := Option.bind_eq_some_iff.mp hrange
    split at hrange
    next => cases hrange
    next hsuffix =>
      cases hrange
      omega
  next =>
    obtain ⟨first, -, hrange⟩ := Option.bind_eq_some_iff.mp hrange
    split at hrange
    next => cases hrange
    next hfirst =>
      obtain ⟨end', hend, hrange⟩ := Option.bind_eq_some_iff.mp hrange
      have hle := requestedEnd_le hend
      split at hrange
      next => cases hrange
      next horder =>
        cases hrange
        omega

theorem parseRange_bounds {rangeStr : List Char} {fileSize start last : ℕ}
    (hrange : parseRange rangeStr fileSize = some (start, last)) :
    start ≤ last ∧ last < fileSize := by
  unfold parseRange at hrange
  split at hrange
  next => cases hrange
  next hsize =>
    obtain ⟨spec, -, hrange⟩ := Option.bind_eq_some_iff.mp hrange
    split at hrange
    next => cases hrange
    next =>
      obtain ⟨⟨startStr, endStr⟩, -, hrange⟩ := Option.bind_eq_some_iff.mp hrange
      obtain ⟨⟨first, end'⟩, hrequested, hrange⟩ := Option.bind_eq_some_iff.mp hrange
      dsimp only at hrange
      split at hrange
      next => cases hrange
      next =>
        cases hrange
        exact requestedBytes_bounds hsize hrequested

/-! ## Windows -/

/-- The request for one window of a file. -/
def windowRequest (size window : ℕ) : List Char :=
  "bytes=".toList ++ (decimal (window * size) ++ '-' :: decimal ((window + 1) * size - 1))

/-- Every window is served, and together they have every byte of the file once. -/
def FetchedInWindows (fileSize size : ℕ) : Prop :=
  ∃ ranges : List (ℕ × ℕ),
    (List.range (divCeil fileSize size)).map
        (fun window => parseRange (windowRequest size window) fileSize) = ranges.map some ∧
      ranges.flatMap (fun range => List.range' range.1 (range.2 - range.1 + 1)) =
        List.range fileSize

theorem isWhitespace_of_mem_decimal {value : ℕ} {c : Char} (hc : c ∈ decimal value) :
    isWhitespace c = false := by
  obtain ⟨hleast, hmost⟩ := Char.isDigit_iff_toNat.mp (isDigit_of_mem_decimal hc)
  have hzero : '0'.toNat = 48 := rfl
  have hnine : '9'.toNat = 57 := rfl
  exact isWhitespace_of_visible (by omega) (by omega)

theorem trim_decimal (value : ℕ) : trim (decimal value) = decimal value := by
  apply trim_of_trimmed
  constructor
  · intro c hc
    exact isWhitespace_of_mem_decimal (List.mem_of_head? hc)
  · intro c hc
    exact isWhitespace_of_mem_decimal (List.mem_of_getLast? hc)

theorem parseUnsigned_of_le {top top' n : ℕ} {text : String}
    (hparse : parseUnsigned top text = some n) (hn : n ≤ top') :
    parseUnsigned top' text = some n := by
  simp only [parseUnsigned] at hparse ⊢
  split at hparse
  next => cases hparse
  next hdigits =>
    split at hparse
    next =>
      cases hparse
      rw [if_neg hdigits, if_pos hn]
    next => cases hparse

theorem parseU64_decimal (value : ℕ) :
    parseU64 (decimal value) = if value ≤ u64Max then some value else none := by
  unfold parseU64 decimal
  rw [String.ofList_toList]
  split
  next hfits => exact parseUnsigned_toString hfits
  next hfits =>
    rw [Option.eq_none_iff_forall_ne_some]
    intro parsed hparse
    have hle := parseUnsigned_le hparse
    have hsame : parseUnsigned value (toString value) = some parsed :=
      parseUnsigned_of_le hparse (by omega)
    rw [parseUnsigned_toString le_rfl] at hsame
    cases hsame
    exact hfits hle

theorem trim_windowRequest (size window : ℕ) :
    trim (windowRequest size window) = windowRequest size window := by
  apply trim_of_trimmed
  constructor
  · intro c hc
    have hfirst : (windowRequest size window).head? = some 'b' := rfl
    rw [hfirst, Option.some.injEq] at hc
    rw [← hc]
    decide
  · intro c hc
    have hlast : (windowRequest size window).getLast? =
        (decimal ((window + 1) * size - 1)).getLast? := by
      have hsplit : windowRequest size window =
          ("bytes=".toList ++ decimal (window * size) ++ ['-']) ++
            decimal ((window + 1) * size - 1) := by
        delta windowRequest
        rw [List.append_assoc, List.append_assoc]
        rfl
      rw [hsplit, List.getLast?_append_of_ne_nil _ (decimal_ne_nil _)]
    rw [hlast] at hc
    exact isWhitespace_of_mem_decimal (List.mem_of_getLast? hc)

/-- A window is served when its numbers fit into the type and what it has of the file is long
enough. -/
theorem parseRange_windowRequest {fileSize size window : ℕ} (hfile : fileSize ≤ u64Max)
    (hsize : 0 < size) (hwindow : window * size < fileSize) :
    parseRange (windowRequest size window) fileSize =
      if (window + 1) * size - 1 ≤ u64Max ∧ (fileSize ≤ minAudioRangeBytes ∨
          minAudioRangeBytes ≤ min ((window + 1) * size) fileSize - window * size) then
        some (window * size, min ((window + 1) * size) fileSize - 1)
      else none := by
  have hnonempty : ∀ value, (decimal value).isEmpty = false := by
    intro value
    rw [List.isEmpty_eq_false_iff]
    exact decimal_ne_nil value
  have hspec : stripPrefix "bytes=".toList (windowRequest size window) =
      some (decimal (window * size) ++ '-' :: decimal ((window + 1) * size - 1)) := rfl
  have hcomma : ',' ∉ decimal (window * size) ++ '-' :: decimal ((window + 1) * size - 1) := by
    simp [notMem_decimal (c := ',') (by decide)]
  have hhyphen : '-' ∉ decimal (window * size) := notMem_decimal (by decide) _
  have hsplit := @splitOnce_of_notMem [] _ _ hhyphen (decimal ((window + 1) * size - 1))
  simp only [List.cons_append, List.nil_append] at hsplit
  have hstart : window * size ≤ u64Max := by omega
  unfold parseRange requestedBytes requestedEnd
  rw [if_neg (by omega), trim_windowRequest, hspec]
  simp only [Option.bind_eq_bind, Option.bind_some, hcomma, if_false, hsplit, trim_decimal,
    hnonempty, parseU64_decimal, if_pos hstart, Bool.false_eq_true]
  have hnext : (window + 1) * size = window * size + size := Nat.succ_mul window size
  generalize window * size = first at *
  generalize (window + 1) * size = next at *
  rw [if_neg (by omega)]
  by_cases hnumber : next - 1 ≤ u64Max
  · have hlast : min (next - 1) (fileSize - 1) = min next fileSize - 1 := by omega
    have hlength : saturatingAdd u64Max (min next fileSize - 1 - first) 1 =
        min next fileSize - first := by
      rw [saturatingAdd_of_le (by omega)]
      omega
    rw [if_pos hnumber, Option.map_some, Option.bind_some, hlast, if_neg (by omega),
      Option.bind_some]
    simp only [hlength, hnumber, true_and, Bool.not_false, Bool.and_true, Bool.true_and,
      Bool.and_eq_true, decide_eq_true_eq, gt_iff_lt]
    by_cases hserved : fileSize ≤ minAudioRangeBytes ∨
        minAudioRangeBytes ≤ min next fileSize - first
    · rw [if_pos hserved, if_neg (by omega)]
    · rw [if_neg hserved, if_pos (by omega)]
  · rw [if_neg hnumber, if_neg (fun hboth => hnumber hboth.1)]
    rfl

/-! ## Fetching a recording window by window -/

/-- Equal windows cover the beginning of a file. -/
theorem windows_flatMap (fileSize size windows : ℕ) :
    (List.range windows).flatMap (fun window =>
      List.range' (window * size) (min ((window + 1) * size) fileSize - window * size)) =
        List.range (min (windows * size) fileSize) := by
  induction windows with
  | zero => simp
  | succ windows ih =>
      have hnext : (windows + 1) * size = windows * size + size := Nat.succ_mul windows size
      rw [List.range_succ, List.flatMap_append, ih, List.flatMap_singleton]
      generalize windows * size = first at *
      generalize (windows + 1) * size = next at *
      rcases Nat.le_total fileSize first with hdone | hmore
      · have hnone : min next fileSize - first = 0 := by omega
        rw [hnone, List.range'_zero, List.append_nil, min_eq_right hdone, min_eq_right (by omega)]
      · have hsum : min next fileSize = first + (min next fileSize - first) := by omega
        rw [min_eq_left hmore, List.range_eq_range', List.range_eq_range', hsum,
          Nat.add_sub_cancel_left, ← List.range'_append_1, Nat.zero_add]

theorem lt_divCeil_iff {fileSize size window : ℕ} (hsize : 0 < size) :
    window < divCeil fileSize size ↔ window * size < fileSize := by
  unfold divCeil
  rw [Nat.lt_iff_add_one_le, Nat.le_div_iff_mul_le hsize, Nat.succ_mul]
  omega

theorem fetchedInWindows_iff_forall {fileSize size : ℕ} (hfile : fileSize ≤ u64Max)
    (hsize : 0 < size) :
    FetchedInWindows fileSize size ↔ ∀ window, window * size < fileSize →
      (window + 1) * size - 1 ≤ u64Max ∧ (fileSize ≤ minAudioRangeBytes ∨
        minAudioRangeBytes ≤ min ((window + 1) * size) fileSize - window * size) := by
  constructor
  · rintro ⟨ranges, hserved, -⟩ window hwindow
    by_contra hrefused
    have hmem : parseRange (windowRequest size window) fileSize ∈ ranges.map some := by
      rw [← hserved]
      exact List.mem_map_of_mem (List.mem_range.mpr ((lt_divCeil_iff hsize).mpr hwindow))
    rw [parseRange_windowRequest hfile hsize hwindow, if_neg hrefused] at hmem
    simp at hmem
  · intro hall
    refine ⟨(List.range (divCeil fileSize size)).map fun window =>
      (window * size, min ((window + 1) * size) fileSize - 1), ?_, ?_⟩
    · rw [List.map_map]
      apply List.map_congr_left
      intro window hwindow
      have hinside := (lt_divCeil_iff hsize).mp (List.mem_range.mp hwindow)
      rw [parseRange_windowRequest hfile hsize hinside, if_pos (hall window hinside)]
      rfl
    · have hcovered : fileSize ≤ divCeil fileSize size * size := by
        by_contra hshort
        exact lt_irrefl _ ((lt_divCeil_iff hsize).mpr (Nat.lt_of_not_le hshort))
      rw [List.flatMap_map, ← min_eq_right hcovered, ← windows_flatMap, min_eq_right hcovered]
      apply List.flatMap_congr
      intro window hwindow
      have hinside := (lt_divCeil_iff hsize).mp (List.mem_range.mp hwindow)
      have hnext : (window + 1) * size = window * size + size := Nat.succ_mul window size
      dsimp only
      congr 1
      omega

/-- The bytes of the last window are all of a window or the rest of the division. -/
theorem last_window {fileSize size last : ℕ} (hlast : last * size < fileSize)
    (hcovered : fileSize ≤ (last + 1) * size) :
    (fileSize - last * size = size ∧ fileSize % size = 0) ∨
      fileSize % size = fileSize - last * size := by
  rw [Nat.succ_mul] at hcovered
  have hfile : fileSize = fileSize - last * size + last * size := by omega
  have hmod : fileSize % size = (fileSize - last * size) % size := by
    conv_lhs => rw [hfile]
    exact Nat.add_mul_mod_self_right _ _ _
  rcases Nat.lt_or_ge (fileSize - last * size) size with hshort | hwhole
  · exact .inr (hmod.trans (Nat.mod_eq_of_lt hshort))
  · have hsame : fileSize - last * size = size := by omega
    rw [hsame, Nat.mod_self] at hmod
    exact .inl ⟨hsame, hmod⟩

theorem windows_served_iff {fileSize size : ℕ} (hpositive : 0 < fileSize)
    (hsize : minAudioRangeBytes ≤ size) :
    (∀ window, window * size < fileSize →
      (window + 1) * size - 1 ≤ u64Max ∧ (fileSize ≤ minAudioRangeBytes ∨
        minAudioRangeBytes ≤ min ((window + 1) * size) fileSize - window * size)) ↔
      divCeil fileSize size * size ≤ 2 ^ 64 ∧ (fileSize ≤ minAudioRangeBytes ∨
        fileSize % size = 0 ∨ minAudioRangeBytes ≤ fileSize % size) := by
  have hleast : 0 < minAudioRangeBytes := by decide
  have hsome : 0 < divCeil fileSize size :=
    (lt_divCeil_iff (by omega)).mpr (by rwa [Nat.zero_mul])
  obtain ⟨last, hwindows⟩ := Nat.exists_eq_add_of_lt hsome
  rw [Nat.zero_add] at hwindows
  have hlast : last * size < fileSize := (lt_divCeil_iff (by omega)).mp (by omega)
  have hcovered : fileSize ≤ (last + 1) * size := by
    by_contra hshort
    have hmore := (lt_divCeil_iff (show 0 < size by omega)).mpr (Nat.lt_of_not_le hshort)
    omega
  have htop : u64Max = 2 ^ 64 - 1 := rfl
  have hrest := last_window hlast hcovered
  rw [hwindows]
  constructor
  · intro hall
    obtain ⟨hnumber, hlong⟩ := hall last hlast
    rw [min_eq_right hcovered] at hlong
    refine ⟨by omega, ?_⟩
    rcases hlong with hsmall | hlong
    · exact .inl hsmall
    · rcases hrest with ⟨-, hzero⟩ | hrest
      · exact .inr (.inl hzero)
      · exact .inr (.inr (hrest ▸ hlong))
  · rintro ⟨hnumber, hlong⟩ window hwindow
    have hle : window ≤ last := by
      have hinside := (lt_divCeil_iff (show 0 < size by omega)).mpr hwindow
      omega
    have hnext : (window + 1) * size ≤ (last + 1) * size := Nat.mul_le_mul_right size (by omega)
    refine ⟨by omega, ?_⟩
    rcases Nat.lt_or_eq_of_le hle with hearlier | rfl
    · -- An earlier window has all its bytes in the file.
      have hinside : (window + 1) * size ≤ last * size := Nat.mul_le_mul_right size hearlier
      have hstep : (window + 1) * size = window * size + size := Nat.succ_mul window size
      exact .inr (by omega)
    · rw [min_eq_right hcovered]
      rcases hlong with hsmall | hzero | hlong
      · exact .inl hsmall
      · rcases hrest with ⟨hwhole, -⟩ | hrest <;> exact .inr (by omega)
      · rcases hrest with ⟨hwhole, hzero⟩ | hrest <;> exact .inr (by omega)

/-- A recording is fetched completely by requests for equal windows exactly where the number of
the last byte asked for fits into the type, and the last window has the least length of a range
or the whole file does not exceed it. Every range that is served lies in its file. -/
theorem recording_fetched_in_windows_iff {fileSize size : ℕ} (hpositive : 0 < fileSize)
    (hfile : fileSize ≤ u64Max) (hsize : minAudioRangeBytes ≤ size) :
    (FetchedInWindows fileSize size ↔
      divCeil fileSize size * size ≤ 2 ^ 64 ∧ (fileSize ≤ minAudioRangeBytes ∨
        fileSize % size = 0 ∨ minAudioRangeBytes ≤ fileSize % size)) ∧
    ∀ rangeStr length start last, length ≤ u64Max →
      parseRange rangeStr length = some (start, last) → start ≤ last ∧ last < length ∧
        checkedAdd u64Max (last - start) 1 = some (last - start + 1) := by
  have hleast : 0 < minAudioRangeBytes := by decide
  constructor
  · rw [fetchedInWindows_iff_forall hfile (by omega), windows_served_iff hpositive hsize]
  · intro rangeStr length start last hlength hrange
    obtain ⟨horder, hinside⟩ := parseRange_bounds hrange
    refine ⟨horder, hinside, checkedAdd_eq_some.mpr ⟨?_, rfl⟩⟩
    omega

/-- One byte more than the least length: the second window is refused. -/
theorem last_window_refused : ¬FetchedInWindows (minAudioRangeBytes + 1) minAudioRangeBytes := by
  rw [fetchedInWindows_iff_forall (by decide) (by decide)]
  intro hall
  exact absurd (hall 1 (by decide)) (by decide)

theorem recording_fetched_in_two_windows :
    FetchedInWindows (2 * minAudioRangeBytes) minAudioRangeBytes :=
  (recording_fetched_in_windows_iff (by decide) (by decide) (by decide)).1.mpr (by decide)

end DiscordTranscript.Interfaces
