import DiscordTranscript.Audio.ChunkFile

/-! # Chunk file names are read back

`chunk_file_path` names a staged chunk after its speaker, sequence number and
start time, and `parse_chunk_filename` takes the name apart again. The encoding
of the speaker is inverted byte by byte; the two numbers are split off from the
right, where no separator can come from the speaker.
-/

namespace DiscordTranscript.Audio

open MachineInt Infrastructure

/-! ## Percent encoding -/

/-- What one byte of a text becomes in a component, as bytes. -/
def encodedBytes (byte : UInt8) : List UInt8 :=
  (encodePathComponentByte byte).map fun c => UInt8.ofNat c.toNat

/-- The characters that a component is made of. -/
def isComponentChar (c : Char) : Bool :=
  c.isAlphanum || c = '-' || c = '_' || c = '.' || c = '%'

/-- A property of bytes is checked at the 256 of them. -/
theorem forall_byte (good : UInt8 → Prop) (hgood : ∀ n < 256, good (UInt8.ofNat n))
    (byte : UInt8) : good byte := by
  have hbyte := hgood byte.toNat byte.toNat_lt
  rwa [UInt8.ofNat_toNat] at hbyte

theorem isComponentChar_encode (byte : UInt8) :
    (encodePathComponentByte byte).all isComponentChar = true :=
  forall_byte (fun byte => (encodePathComponentByte byte).all isComponentChar = true)
    (by decide +kernel) byte

theorem ascii_encode (byte : UInt8) :
    ∀ c ∈ encodePathComponentByte byte, c.toNat < 128 := by
  have hall := forall_byte
    (fun byte => (encodePathComponentByte byte).all (fun c => c.toNat < 128) = true)
    (by decide +kernel) byte
  intro c hc
  exact of_decide_eq_true (List.all_eq_true.mp hall c hc)

/-- A plain byte stands for itself and is not the escape character. -/
theorem encodedBytes_plain {byte : UInt8} (hplain : isPlainPathComponentByte byte = true) :
    encodedBytes byte = [byte] ∧ byte.toNat ≠ '%'.toNat := by
  revert hplain
  exact forall_byte
    (fun byte => isPlainPathComponentByte byte = true →
      encodedBytes byte = [byte] ∧ byte.toNat ≠ '%'.toNat) (by decide +kernel) byte

/-- An escaped byte is a percent sign and two upper-case digits that give it back. -/
theorem encodedBytes_escaped {byte : UInt8} (hescaped : isPlainPathComponentByte byte = false) :
    ∃ high low, encodedBytes byte = [UInt8.ofNat '%'.toNat, high, low] ∧
      hexValue high = some (byte.toNat / 16) ∧ hexValue low = some (byte.toNat % 16) := by
  refine ⟨UInt8.ofNat (upperHexDigit (byte.toNat / 16)).toNat,
    UInt8.ofNat (upperHexDigit (byte.toNat % 16)).toNat, ?_, ?_⟩
  · simp [encodedBytes, encodePathComponentByte, hescaped]
  · exact forall_byte
      (fun byte =>
        hexValue (UInt8.ofNat (upperHexDigit (byte.toNat / 16)).toNat) = some (byte.toNat / 16) ∧
        hexValue (UInt8.ofNat (upperHexDigit (byte.toNat % 16)).toNat) = some (byte.toNat % 16))
      (by decide +kernel) byte

theorem percentDecodeBytes_encodedBytes (byte : UInt8) (rest : List UInt8) :
    percentDecodeBytes (encodedBytes byte ++ rest) =
      (percentDecodeBytes rest).map (byte :: ·) := by
  cases hplain : isPlainPathComponentByte byte with
  | true =>
      obtain ⟨hbytes, hpercent⟩ := encodedBytes_plain hplain
      rw [hbytes, List.singleton_append]
      conv_lhs => unfold percentDecodeBytes
      rw [if_pos hpercent]
  | false =>
      obtain ⟨high, low, hbytes, hhigh, hlow⟩ := encodedBytes_escaped hplain
      have hvalue : UInt8.ofNat (byte.toNat / 16 * 16 + byte.toNat % 16) = byte := by
        rw [Nat.div_add_mod', UInt8.ofNat_toNat]
      rw [hbytes]
      simp only [List.cons_append, List.nil_append, percentDecodeBytes, hhigh, hlow]
      rw [if_neg (by decide)]
      cases percentDecodeBytes rest with
      | none => rfl
      | some decoded =>
          simp only [Option.bind_eq_bind, Option.bind_some, Option.map_some, hvalue]
          rfl

theorem percentDecodeBytes_flatMap (bytes : List UInt8) :
    percentDecodeBytes (bytes.flatMap encodedBytes) = some bytes := by
  induction bytes with
  | nil => rfl
  | cons byte rest ih =>
      rw [List.flatMap_cons, percentDecodeBytes_encodedBytes, ih]
      rfl

/-- The encoding before the three names with a meaning of their own are replaced. -/
def encodeText (text : String) : String :=
  String.ofList ((utf8Bytes text).flatMap encodePathComponentByte)

theorem percentDecodeComponent_encodeText (text : String) :
    percentDecodeComponent (encodeText text) = some (utf8Bytes text) := by
  have hascii : ∀ c ∈ (utf8Bytes text).flatMap encodePathComponentByte, c.toNat < 128 := by
    intro c hc
    obtain ⟨byte, -, hbyte⟩ := List.mem_flatMap.mp hc
    exact ascii_encode byte c hbyte
  rw [percentDecodeComponent, encodeText, utf8Bytes_ofList_ascii hascii, List.map_flatMap]
  exact percentDecodeBytes_flatMap _

/-- Only one text is encoded as a given component. -/
theorem eq_of_encodeText {text other : String} (bytes : List UInt8)
    (hdecode : percentDecodeComponent (encodeText text) = some bytes)
    (hother : bytes = utf8Bytes other) : text = other := by
  rw [percentDecodeComponent_encodeText] at hdecode
  exact utf8Bytes_injective ((Option.some.inj hdecode).trans hother)

/-! ## Sanitized components -/

/-- The encoding of a text, by the branch that produced it. -/
theorem sanitizePathComponent_cases (text : String) :
    (text = "" ∧ sanitizePathComponent text = "%EMPTY") ∨
      (text = "." ∧ sanitizePathComponent text = "%2E") ∨
      (text = ".." ∧ sanitizePathComponent text = "%2E%2E") ∨
      (sanitizePathComponent text = encodeText text ∧ encodeText text ≠ "" ∧
        encodeText text ≠ "." ∧ encodeText text ≠ "..") := by
  have hdecode := percentDecodeComponent_encodeText text
  have hsanitize : sanitizePathComponent text =
      if encodeText text = "" then "%EMPTY"
      else if encodeText text = "." then "%2E"
      else if encodeText text = ".." then "%2E%2E"
      else encodeText text := rfl
  by_cases hempty : encodeText text = ""
  · have htext : text = "" := eq_of_encodeText [] (by rw [hempty]; decide) (by decide)
    exact .inl ⟨htext, by rw [hsanitize, if_pos hempty]⟩
  by_cases hdot : encodeText text = "."
  · have htext : text = "." := eq_of_encodeText [46] (by rw [hdot]; decide) (by decide)
    exact .inr (.inl ⟨htext, by rw [hsanitize, if_neg hempty, if_pos hdot]⟩)
  by_cases hdots : encodeText text = ".."
  · have htext : text = ".." :=
      eq_of_encodeText [46, 46] (by rw [hdots]; decide) (by decide)
    exact .inr (.inr (.inl ⟨htext, by rw [hsanitize, if_neg hempty, if_neg hdot, if_pos hdots]⟩))
  · refine .inr (.inr (.inr ⟨?_, hempty, hdot, hdots⟩))
    rw [hsanitize, if_neg hempty, if_neg hdot, if_neg hdots]

/-- Decoding past the special case of the empty text. -/
theorem decodeSanitizedPathComponent_of_bytes {component text : String}
    (hcanonical : sanitizePathComponent text = component) (hempty : component ≠ "%EMPTY")
    (hdecode : percentDecodeComponent component = some (utf8Bytes text)) :
    decodeSanitizedPathComponent component = some text := by
  rw [decodeSanitizedPathComponent, if_neg hempty, hdecode]
  simp only [Option.bind_eq_bind, Option.bind_some, fromUTF8?_utf8Bytes]
  rw [if_pos hcanonical]

theorem decodeSanitizedPathComponent_sanitize (text : String) :
    decodeSanitizedPathComponent (sanitizePathComponent text) = some text := by
  rcases sanitizePathComponent_cases text with
    ⟨rfl, heq⟩ | ⟨rfl, heq⟩ | ⟨rfl, heq⟩ | ⟨heq, -, -, -⟩
  · rw [heq]
    rfl
  · rw [heq]
    exact decodeSanitizedPathComponent_of_bytes heq (by decide) (by decide)
  · rw [heq]
    exact decodeSanitizedPathComponent_of_bytes heq (by decide) (by decide)
  · have hdecode := percentDecodeComponent_encodeText text
    -- `%EM` is not an escape, so no encoding is the name of the empty text.
    have hempty : encodeText text ≠ "%EMPTY" := by
      intro hname
      rw [hname] at hdecode
      exact absurd hdecode (by rw [show percentDecodeComponent "%EMPTY" = none by decide]; simp)
    rw [heq]
    exact decodeSanitizedPathComponent_of_bytes heq hempty hdecode

/-- A component is decoded exactly when it is the encoding of the result. -/
theorem decodeSanitizedPathComponent_eq_some_iff {component text : String} :
    decodeSanitizedPathComponent component = some text ↔
      component = sanitizePathComponent text := by
  constructor
  · intro hdecode
    unfold decodeSanitizedPathComponent at hdecode
    split at hdecode
    next hempty =>
      cases hdecode
      rw [hempty]
      rfl
    next =>
      obtain ⟨bytes, -, hbytes⟩ := Option.bind_eq_some_iff.mp hdecode
      obtain ⟨decoded, -, hdecoded⟩ := Option.bind_eq_some_iff.mp hbytes
      split at hdecoded
      next hcanonical =>
        cases hdecoded
        exact hcanonical.symm
      next => cases hdecoded
  · rintro rfl
    exact decodeSanitizedPathComponent_sanitize text

theorem all_isComponentChar_sanitize (text : String) :
    (sanitizePathComponent text).toList.all isComponentChar = true := by
  rcases sanitizePathComponent_cases text with
    ⟨-, heq⟩ | ⟨-, heq⟩ | ⟨-, heq⟩ | ⟨heq, -, -, -⟩
  · rw [heq]
    decide
  · rw [heq]
    decide
  · rw [heq]
    decide
  · rw [heq, encodeText, String.toList_ofList, List.all_eq_true]
    intro c hc
    obtain ⟨byte, -, hbyte⟩ := List.mem_flatMap.mp hc
    exact List.all_eq_true.mp (isComponentChar_encode byte) c hbyte

theorem sanitizePathComponent_ne_special (text : String) :
    sanitizePathComponent text ≠ "" ∧ sanitizePathComponent text ≠ "." ∧
      sanitizePathComponent text ≠ ".." := by
  rcases sanitizePathComponent_cases text with
    ⟨-, heq⟩ | ⟨-, heq⟩ | ⟨-, heq⟩ | ⟨heq, hempty, hdot, hdots⟩
  · rw [heq]
    decide
  · rw [heq]
    decide
  · rw [heq]
    decide
  · rw [heq]
    exact ⟨hempty, hdot, hdots⟩

/-! ## Taking a name apart -/

theorem rsplitOnce_append {separator : Char} {front back : List Char}
    (hback : separator ∉ back) :
    rsplitOnce separator (front ++ separator :: back) = some (front, back) := by
  have htake : ((front ++ separator :: back).reverse.takeWhile (· ≠ separator)).reverse = back := by
    have hreverse : (front ++ separator :: back).reverse =
        back.reverse ++ separator :: front.reverse := by simp
    rw [hreverse, List.takeWhile_append_of_pos]
    · simp
    · intro c hc
      have hne : c ≠ separator := fun heq => hback (heq ▸ List.mem_reverse.mp hc)
      simpa using hne
  unfold rsplitOnce
  simp only [htake]
  have hlength : (front ++ separator :: back).length = front.length + (back.length + 1) := by
    rw [List.length_append, List.length_cons]
  rw [hlength, if_pos (by omega), List.take_left' (by omega)]

/-- What a split took apart. -/
theorem eq_of_rsplitOnce {separator : Char} {text front back : List Char}
    (hsplit : rsplitOnce separator text = some (front, back)) :
    text = front ++ separator :: back := by
  have hparts : text = (text.reverse.dropWhile (· ≠ separator)).reverse ++
      (text.reverse.takeWhile (· ≠ separator)).reverse := by
    rw [← List.reverse_append, List.takeWhile_append_dropWhile, List.reverse_reverse]
  unfold rsplitOnce at hsplit
  simp only at hsplit
  split at hsplit
  next hshort =>
    obtain ⟨hfront, hback⟩ := Prod.mk.inj (Option.some.inj hsplit)
    rw [hback] at hparts hfront hshort
    cases hrest : text.reverse.dropWhile (· ≠ separator) with
    | nil =>
        rw [hrest, List.reverse_nil, List.nil_append] at hparts
        rw [hparts] at hshort
        exact absurd hshort (Nat.lt_irrefl _)
    | cons first rest =>
        have hfirst : first = separator := by
          have hhead := List.head?_dropWhile_not (· ≠ separator) text.reverse
          rw [hrest] at hhead
          simpa using hhead
        rw [hrest, hfirst, List.reverse_cons, List.append_assoc] at hparts
        have hlength : text.length - back.length - 1 = rest.reverse.length := by
          rw [hparts]
          simp
          omega
        have hrestFront : rest.reverse = front := by
          rw [← hfront, hlength]
          conv_rhs => rw [hparts]
          rw [List.take_left]
        rw [← hrestFront]
        exact hparts
  next => cases hsplit

theorem digit_of_mem_toString {n : ℕ} {c : Char} (hc : c ∈ (toString n).toList) :
    c.isDigit = true := by
  have hdigits : c ∈ Nat.toDigits 10 n := by simpa using hc
  exact Nat.isDigit_of_mem_toDigits (by decide) (by decide) hdigits

theorem notMem_toString (separator : Char) (hseparator : separator.isDigit = false) (n : ℕ) :
    separator ∉ (toString n).toList := by
  intro hmem
  rw [digit_of_mem_toString hmem] at hseparator
  cases hseparator

/-- `chunk_file_path` under the audio directory of the workspace. -/
def chunkFilePath (audioDir userId : String) (sequence startMs : ℕ) : String :=
  audioDir ++ "/" ++ chunkFileName userId sequence startMs

/-- A path split before its last component, as `Path::file_name` does. -/
def ChunkPath.ofText (path : String) : ChunkPath :=
  match rsplitOnce '/' path.toList with
  | some (dir, name) => { dir := String.ofList dir, name := String.ofList name }
  | none => { dir := "", name := path }

/-- The name in the order in which it is split. -/
theorem toList_chunkFileName (userId : String) (sequence startMs : ℕ) :
    (chunkFileName userId sequence startMs).toList =
      ((sanitizePathComponent userId).toList ++ '_' :: (toString sequence).toList ++
        '_' :: (toString startMs).toList) ++ '.' :: "wav".toList := by
  simp [chunkFileName, String.toList_append]

theorem slash_notMem_chunkFileName (userId : String) (sequence startMs : ℕ) :
    '/' ∉ (chunkFileName userId sequence startMs).toList := by
  have huser : '/' ∉ (sanitizePathComponent userId).toList := by
    intro hmem
    have hclass := List.all_eq_true.mp (all_isComponentChar_sanitize userId) '/' hmem
    exact absurd hclass (by decide)
  have hsequence := notMem_toString '/' rfl sequence
  have hstart := notMem_toString '/' rfl startMs
  rw [toList_chunkFileName]
  simp only [List.mem_append, List.mem_cons, huser, hsequence, hstart, or_false, false_or]
  decide

theorem ChunkPath.ofText_chunkFilePath (audioDir userId : String) (sequence startMs : ℕ) :
    ChunkPath.ofText (chunkFilePath audioDir userId sequence startMs) =
      { dir := audioDir, name := chunkFileName userId sequence startMs } := by
  have hlist : (chunkFilePath audioDir userId sequence startMs).toList =
      audioDir.toList ++ '/' :: (chunkFileName userId sequence startMs).toList := by
    simp [chunkFilePath, String.toList_append]
  unfold ChunkPath.ofText
  rw [hlist, rsplitOnce_append (slash_notMem_chunkFileName userId sequence startMs)]
  simp

theorem splitExtension_chunkFileName (userId : String) (sequence startMs : ℕ) :
    (splitExtension (chunkFileName userId sequence startMs)).1 =
      String.ofList ((sanitizePathComponent userId).toList ++ '_' :: (toString sequence).toList ++
        '_' :: (toString startMs).toList) := by
  have hname : chunkFileName userId sequence startMs ≠ ".." := by
    intro heq
    have hlength := congrArg (fun name => name.toList.length) heq
    simp only [toList_chunkFileName, List.length_append, List.length_cons] at hlength
    simp at hlength
  unfold splitExtension
  rw [toList_chunkFileName, rsplitOnce_append (by decide)]
  simp [hname]

theorem splitStem_chunkFileName (userId : String) (sequence startMs : ℕ) :
    splitStem (String.ofList ((sanitizePathComponent userId).toList ++
        '_' :: (toString sequence).toList ++ '_' :: (toString startMs).toList)) =
      [sanitizePathComponent userId, toString sequence, toString startMs] := by
  unfold splitStem
  rw [String.toList_ofList, rsplitOnce_append (notMem_toString '_' rfl startMs)]
  simp only
  rw [rsplitOnce_append (notMem_toString '_' rfl sequence)]
  simp only [String.ofList_toList]

theorem parseChunkFilename_chunkFilePath (audioDir userId : String) {sequence startMs : ℕ}
    (hsequence : sequence ≤ u64Max) (hstart : startMs ≤ u64Max) :
    parseChunkFilename (ChunkPath.ofText (chunkFilePath audioDir userId sequence startMs)) =
      { userId := userId, sequence := sequence, startMs := some startMs } := by
  rw [ChunkPath.ofText_chunkFilePath]
  simp only [parseChunkFilename, splitExtension_chunkFileName, splitStem_chunkFileName,
    decodeSanitizedPathComponent_sanitize, Option.getD_some, Option.bind_some,
    parseUnsigned_toString hsequence, parseUnsigned_toString hstart]

theorem toNat_le_u64Max (n : UInt64) : n.toNat ≤ u64Max := by
  have hlt := n.toNat_lt
  unfold u64Max
  omega

/-- Every chunk is read back from its path as it was named, and the component
that stands for a speaker is a plain, unambiguous name. -/
theorem chunk_file_names_read_back :
    (∀ (audioDir userId : String) (sequence startMs : UInt64),
      parseChunkFilename (ChunkPath.ofText
          (chunkFilePath audioDir userId sequence.toNat startMs.toNat)) =
        { userId := userId, sequence := sequence.toNat, startMs := some startMs.toNat }) ∧
    (∀ text, decodeSanitizedPathComponent (sanitizePathComponent text) = some text) ∧
    (∀ (userId other : String) (sequence startMs sequence' startMs' : UInt64),
      chunkFileName userId sequence.toNat startMs.toNat =
          chunkFileName other sequence'.toNat startMs'.toNat ↔
        userId = other ∧ sequence = sequence' ∧ startMs = startMs') ∧
    (∀ text, (sanitizePathComponent text).toList.all isComponentChar = true ∧
      sanitizePathComponent text ∉ ["", ".", ".."]) ∧
    ∀ component text, decodeSanitizedPathComponent component = some text ↔
      component = sanitizePathComponent text := by
  have hread : ∀ (audioDir userId : String) (sequence startMs : UInt64),
      parseChunkFilename (ChunkPath.ofText
          (chunkFilePath audioDir userId sequence.toNat startMs.toNat)) =
        { userId := userId, sequence := sequence.toNat, startMs := some startMs.toNat } := by
    intro audioDir userId sequence startMs
    exact parseChunkFilename_chunkFilePath audioDir userId (toNat_le_u64Max sequence)
      (toNat_le_u64Max startMs)
  refine ⟨hread, decodeSanitizedPathComponent_sanitize, ?_, ?_, ?_⟩
  · intro userId other sequence startMs sequence' startMs'
    constructor
    · intro hname
      have hleft := hread "" userId sequence startMs
      rw [chunkFilePath, hname, ← chunkFilePath, hread] at hleft
      obtain ⟨huser, hsequence, hstart⟩ := ParsedFilename.mk.injEq .. ▸ hleft
      exact ⟨huser.symm, (UInt64.toNat_inj.mp hsequence).symm,
        (UInt64.toNat_inj.mp (Option.some.inj hstart)).symm⟩
    · rintro ⟨rfl, rfl, rfl⟩
      rfl
  · intro text
    obtain ⟨hempty, hdot, hdots⟩ := sanitizePathComponent_ne_special text
    exact ⟨all_isComponentChar_sanitize text, by simp [hempty, hdot, hdots]⟩
  · intro component text
    exact decodeSanitizedPathComponent_eq_some_iff

end DiscordTranscript.Audio
