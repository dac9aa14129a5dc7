import DiscordTranscript.Foundation.Fallible
import DiscordTranscript.Audio.Wav
import DiscordTranscript.Infrastructure.StorageFs

/-! # Reading staged chunk files

The model of the per-file half of `audio/meeting_audio.rs`. A staged WAV is read
in two ways: `read_wav_pcm` loads and checks the whole file, while
`load_chunk_metadata` checks the header against the file size only. Errors of
`stat`, `open` and `read` themselves are not modelled: a file is its name, its
bytes and its modification time.
-/

namespace DiscordTranscript.Audio

open MachineInt Infrastructure

def maxLoadedWavFileBytes : ℕ := maxWavChunkPcmBytes + wavHeaderBytes

/-- A path of a file in a meeting's audio directory. -/
structure ChunkPath where
  dir : String
  name : String
  deriving DecidableEq, Repr

def ChunkPath.display (path : ChunkPath) : String := path.dir ++ "/" ++ path.name

/-- A staged file. `modifiedMs` is its modification time in milliseconds since
the epoch, absent when it is unknown or before the epoch. -/
structure StagedFile where
  path : ChunkPath
  bytes : List UInt8
  modifiedMs : Option ℕ := none

structure LoadedChunk where
  userId : String
  sequence : ℕ
  startMs : ℕ
  durationMs : ℕ
  sampleRate : ℕ
  pcm : List UInt8
  path : ChunkPath
  deriving DecidableEq, Repr

structure AudioChunkManifestEntry where
  speakerId : String
  sequence : ℕ
  startMs : ℕ
  durationMs : ℕ
  sampleRate : ℕ
  fileSizeBytes : ℕ
  pcmDataSizeBytes : ℕ
  path : ChunkPath
  deriving DecidableEq, Repr

structure ParsedFilename where
  userId : String
  sequence : ℕ
  startMs : Option ℕ
  deriving DecidableEq, Repr

/-! ## File names -/

/-- The text before and after the last separator. -/
def rsplitOnce (separator : Char) (text : List Char) : Option (List Char × List Char) :=
  let back := (text.reverse.takeWhile (· ≠ separator)).reverse
  if back.length < text.length then some (text.take (text.length - back.length - 1), back)
  else none

/-- `Path::file_stem` and `Path::extension` of a file name. A leading dot does
not start an extension. -/
def splitExtension (name : String) : String × Option String :=
  match rsplitOnce '.' name.toList with
  | some (before, after) =>
      if before.isEmpty || name = ".." then (name, none)
      else (String.ofList before, some (String.ofList after))
  | none => (name, none)

/-- `rsplitn(3, '_')`, reversed. -/
def splitStem (stem : String) : List String :=
  match rsplitOnce '_' stem.toList with
  | none => [stem]
  | some (front, last) =>
      match rsplitOnce '_' front with
      | none => [String.ofList front, String.ofList last]
      | some (first, middle) => [String.ofList first, String.ofList middle, String.ofList last]

def parseChunkFilename (path : ChunkPath) : ParsedFilename :=
  let stem := (splitExtension path.name).1
  let (userPart, seqPart, startPart) := match splitStem stem with
    | [user, seq] => (user, some seq, none)
    | [user, seq, start] => (user, some seq, some start)
    | _ => (stem, none, none)
  { userId := (decodeSanitizedPathComponent userPart).getD userPart
    sequence := (seqPart.bind (parseUnsigned u64Max)).getD 0
    startMs := startPart.bind (parseUnsigned u64Max) }

/-- Times that do not fit `u64` count as zero. -/
def fallbackStartMs (file : StagedFile) (durationMs : ℕ) : ℕ :=
  match file.modifiedMs with
  | some modified => if modified - durationMs ≤ u64Max then modified - durationMs else 0
  | none => 0

/-! ## The header -/

def slice (bytes : List UInt8) (start stop : ℕ) : List UInt8 :=
  (bytes.drop start).take (stop - start)

/-- The fields of the canonical 44-byte header. -/
structure WavFields where
  riffTag : List UInt8
  riffSize : ℕ
  waveTag : List UInt8
  fmtTag : List UInt8
  fmtSize : ℕ
  audioFormat : ℕ
  channels : ℕ
  sampleRate : ℕ
  byteRate : ℕ
  blockAlign : ℕ
  bitsPerSample : ℕ
  dataTag : List UInt8
  dataSize : ℕ
  deriving DecidableEq

def wavFields (header : List UInt8) : WavFields where
  riffTag := slice header 0 4
  riffSize := ofLeBytes (slice header 4 8)
  waveTag := slice header 8 12
  fmtTag := slice header 12 16
  fmtSize := ofLeBytes (slice header 16 20)
  audioFormat := ofLeBytes (slice header 20 22)
  channels := ofLeBytes (slice header 22 24)
  sampleRate := ofLeBytes (slice header 24 28)
  byteRate := ofLeBytes (slice header 28 32)
  blockAlign := ofLeBytes (slice header 32 34)
  bitsPerSample := ofLeBytes (slice header 34 36)
  dataTag := slice header 36 40
  dataSize := ofLeBytes (slice header 40 44)

/-- The part of `load_chunk_metadata` that reads the file. The returned triple is
the duration, the sample rate and the size of the PCM data. -/
def readWavMetadata (path : ChunkPath) (bytes : List UInt8) : Except String (ℕ × ℕ × ℕ) :=
  let fileSizeBytes := bytes.length
  let header := bytes.take wavHeaderBytes
  let fields := wavFields header
  if fileSizeBytes > maxLoadedWavFileBytes then
    .error s!"WAV file too large in {path.display}: {fileSizeBytes} bytes (max {maxLoadedWavFileBytes})"
  else if fileSizeBytes < wavHeaderBytes then
    .error s!"failed to read WAV header {path.display}: failed to fill whole buffer"
  else if fields.riffTag ≠ utf8Bytes "RIFF" ∨ fields.waveTag ≠ utf8Bytes "WAVE" ∨
      fields.fmtTag ≠ utf8Bytes "fmt " then
    .error s!"invalid PCM WAV header in {path.display}"
  else if fields.fmtSize ≠ 16 ∨ fields.audioFormat ≠ 1 ∨ fields.channels ≠ 1 ∨
      fields.bitsPerSample ≠ 16 ∨ !isSupportedWavSampleRate fields.sampleRate ∨
      fields.blockAlign ≠ 2 ∨ fields.byteRate ≠ saturatingMul u32Max fields.sampleRate 2 ∨
      fields.dataTag ≠ utf8Bytes "data" ∨ fields.dataSize = 0 ∨
      fields.dataSize > maxWavChunkPcmBytes ∨ fields.dataSize % fields.blockAlign ≠ 0 ∨
      fields.riffSize < saturatingAdd u64Max 36 fields.dataSize ∨
      saturatingAdd u64Max 8 fields.riffSize > fileSizeBytes ∨
      saturatingAdd u64Max 44 fields.dataSize > fileSizeBytes then
    .error s!"invalid or unsupported PCM WAV metadata in {path.display}"
  else
    .ok (fields.dataSize * 1000 / (fields.sampleRate * 2), fields.sampleRate, fields.dataSize)

def loadChunkMetadata (file : StagedFile) : Except String AudioChunkManifestEntry := do
  let (durationMs, sampleRate, dataSize) ← readWavMetadata file.path file.bytes
  let parsed := parseChunkFilename file.path
  return {
    speakerId := parsed.userId
    sequence := parsed.sequence
    startMs := parsed.startMs.getD (fallbackStartMs file durationMs)
    durationMs := durationMs
    sampleRate := sampleRate
    fileSizeBytes := file.bytes.length
    pcmDataSizeBytes := dataSize
    path := file.path }

/-! ## The whole file -/

def readWavPcm (path : ChunkPath) (data : List UInt8) : Except String (ℕ × List UInt8) :=
  let fields := wavFields data
  let expectedBlockAlign := fields.channels * (fields.bitsPerSample / 8)
  let minimumRiffChunkSize := 36 + fields.dataSize
  if data.length > maxLoadedWavFileBytes then
    .error s!"WAV file too large in {path.display}: {data.length} bytes (max {maxLoadedWavFileBytes})"
  else if data.length < 44 ∨ fields.riffTag ≠ utf8Bytes "RIFF" ∨
      fields.waveTag ≠ utf8Bytes "WAVE" then
    .error s!"invalid WAV header for {path.display} (too small or missing RIFF/WAVE)"
  else match checkedAdd usizeMax 8 fields.riffSize with
  | none => .error s!"invalid RIFF chunk size in {path.display}"
  | some riffEnd =>
      if riffEnd > data.length then
        .error s!"truncated RIFF chunk in {path.display}: declared {fields.riffSize} bytes, file has {data.length - 8} bytes after RIFF header"
      else if fields.fmtTag ≠ utf8Bytes "fmt " then
        .error s!"missing fmt chunk in WAV header for {path.display}"
      else if fields.fmtSize ≠ 16 then
        .error s!"unsupported WAV fmt chunk size for {path.display}: {fields.fmtSize}"
      else if fields.audioFormat ≠ 1 then
        .error s!"unsupported WAV audio format for {path.display}: format={fields.audioFormat}"
      else if fields.channels ≠ 1 ∨ fields.bitsPerSample ≠ 16 then
        .error s!"unsupported WAV format for {path.display}: channels={fields.channels}, bits_per_sample={fields.bitsPerSample}"
      else if !isSupportedWavSampleRate fields.sampleRate then
        .error s!"unsupported WAV sample rate for {path.display}: sample_rate={fields.sampleRate} (supported {minSupportedWavSampleRate}..={maxSupportedWavSampleRate} Hz)"
      else if fields.blockAlign ≠ expectedBlockAlign then
        .error s!"inconsistent WAV block align for {path.display}: block_align={fields.blockAlign}, expected={expectedBlockAlign}"
      else match checkedMul u32Max fields.sampleRate expectedBlockAlign with
      | none => .error s!"invalid byte rate in {path.display}"
      | some expectedByteRate =>
          if fields.byteRate ≠ expectedByteRate then
            .error s!"inconsistent WAV byte rate for {path.display}: byte_rate={fields.byteRate}, expected={expectedByteRate}"
          else if fields.dataTag ≠ utf8Bytes "data" then
            .error s!"missing data chunk in WAV header for {path.display}"
          else if fields.dataSize > maxWavChunkPcmBytes then
            .error s!"PCM data too large in {path.display}: {fields.dataSize} bytes (max {maxWavChunkPcmBytes})"
          else if fields.riffSize < minimumRiffChunkSize then
            .error s!"inconsistent WAV chunk size in {path.display}: riff_chunk_size={fields.riffSize}, expected at least {minimumRiffChunkSize}"
          else if fields.dataSize = 0 then
            .error s!"empty PCM data chunk in {path.display}"
          else if fields.dataSize % fields.blockAlign ≠ 0 then
            .error s!"invalid PCM byte length in {path.display}: {fields.dataSize}"
          else match checkedAdd usizeMax 44 fields.dataSize with
          | none => .error s!"invalid PCM data size in {path.display}"
          | some pcmEnd =>
              if pcmEnd > data.length then
                .error s!"truncated PCM data in {path.display}: expected {fields.dataSize} bytes, found {data.length - 44}"
              else .ok (fields.sampleRate, slice data 44 pcmEnd)

def loadSingleChunk (file : StagedFile) : Except String LoadedChunk := do
  let parsed := parseChunkFilename file.path
  let (sampleRate, pcm) ← readWavPcm file.path file.bytes
  let durationMs := pcmDurationMs pcm sampleRate
  return {
    userId := parsed.userId
    sequence := parsed.sequence
    startMs := parsed.startMs.getD (fallbackStartMs file durationMs)
    durationMs := durationMs
    sampleRate := sampleRate
    pcm := pcm
    path := file.path }

/-! ## Agreement of the two readers -/

/-- What both readers require of a file. -/
structure ValidWav (bytes : List UInt8) (fields : WavFields) : Prop where
  size_ge : wavHeaderBytes ≤ bytes.length
  size_le : bytes.length ≤ maxLoadedWavFileBytes
  riffTag : fields.riffTag = utf8Bytes "RIFF"
  waveTag : fields.waveTag = utf8Bytes "WAVE"
  fmtTag : fields.fmtTag = utf8Bytes "fmt "
  fmtSize : fields.fmtSize = 16
  audioFormat : fields.audioFormat = 1
  channels : fields.channels = 1
  bitsPerSample : fields.bitsPerSample = 16
  sampleRate : isSupportedWavSampleRate fields.sampleRate = true
  blockAlign : fields.blockAlign = 2
  byteRate : fields.byteRate = fields.sampleRate * 2
  dataTag : fields.dataTag = utf8Bytes "data"
  dataSize_pos : fields.dataSize ≠ 0
  dataSize_le : fields.dataSize ≤ maxWavChunkPcmBytes
  dataSize_even : fields.dataSize % 2 = 0
  riffSize_ge : 36 + fields.dataSize ≤ fields.riffSize
  riffSize_le : 8 + fields.riffSize ≤ bytes.length
  data_le : 44 + fields.dataSize ≤ bytes.length

theorem slice_take {bytes : List UInt8} {start stop : ℕ} (hstop : stop ≤ wavHeaderBytes) :
    slice (bytes.take wavHeaderBytes) start stop = slice bytes start stop := by
  unfold slice
  rw [List.drop_take, List.take_take]
  congr 1
  omega

theorem wavFields_take (bytes : List UInt8) :
    wavFields (bytes.take wavHeaderBytes) = wavFields bytes := by
  simp (disch := decide) only [wavFields, slice_take]

theorem length_slice {bytes : List UInt8} {start stop : ℕ} (hstop : stop ≤ bytes.length) :
    (slice bytes start stop).length = stop - start := by
  simp only [slice, List.length_take, List.length_drop]
  omega

theorem ofLeBytes_slice_lt (bytes : List UInt8) (start width : ℕ) :
    ofLeBytes (slice bytes start (start + width)) < 256 ^ width := by
  refine (ofLeBytes_lt _).trans_le (Nat.pow_le_pow_right (by decide) ?_)
  simp only [slice, List.length_take]
  omega

theorem wavFields_riffSize_lt (bytes : List UInt8) : (wavFields bytes).riffSize < 2 ^ 32 :=
  ofLeBytes_slice_lt bytes 4 4

theorem wavFields_dataSize_lt (bytes : List UInt8) : (wavFields bytes).dataSize < 2 ^ 32 :=
  ofLeBytes_slice_lt bytes 40 4

section Readers

variable {path : ChunkPath} {bytes : List UInt8}

theorem readWavMetadata_of_valid (hvalid : ValidWav bytes (wavFields bytes)) :
    readWavMetadata path bytes = .ok
      ((wavFields bytes).dataSize * 1000 / ((wavFields bytes).sampleRate * 2),
        (wavFields bytes).sampleRate, (wavFields bytes).dataSize) := by
  have hrate := supportedSampleRate_bounds hvalid.sampleRate
  have hinner := hvalid.riffSize_ge
  have houter := hvalid.riffSize_le
  have hbody := hvalid.data_le
  simp only [readWavMetadata, wavFields_take]
  rw [if_neg (Nat.not_lt.mpr hvalid.size_le), if_neg (Nat.not_lt.mpr hvalid.size_ge),
    if_neg (by simp [hvalid.riffTag, hvalid.waveTag, hvalid.fmtTag]), if_neg]
  simp only [hvalid.fmtSize, hvalid.audioFormat, hvalid.channels, hvalid.bitsPerSample,
    hvalid.sampleRate, hvalid.blockAlign, hvalid.byteRate, hvalid.dataTag, hvalid.dataSize_even,
    hvalid.dataSize_pos, Nat.not_lt.mpr hvalid.dataSize_le, saturatingMul_of_le hrate.2,
    saturatingAdd, ne_eq, not_true_eq_false, Bool.not_true, Bool.false_eq_true, false_or,
    gt_iff_lt]
  omega

theorem valid_of_readWavMetadata {result : ℕ × ℕ × ℕ}
    (hread : readWavMetadata path bytes = .ok result) : ValidWav bytes (wavFields bytes) := by
  have hriff := wavFields_riffSize_lt bytes
  have hdata := wavFields_dataSize_lt bytes
  simp only [readWavMetadata, wavFields_take] at hread
  obtain ⟨hsize, hread⟩ := Except.ok_of_guard hread
  obtain ⟨hheader, hread⟩ := Except.ok_of_guard hread
  obtain ⟨htags, hread⟩ := Except.ok_of_guard hread
  obtain ⟨hfields, -⟩ := Except.ok_of_guard hread
  simp only [not_or, not_not, not_lt, Bool.not_eq_true, Bool.not_eq_false', ne_eq]
    at hsize hheader htags hfields
  obtain ⟨hriffTag, hwaveTag, hfmtTag⟩ := htags
  obtain ⟨hfmt, hformat, hchannels, hbits, hrate, halign, hbyteRate, hdataTag, hpos, hmax, heven,
    hinner, houter, hbody⟩ := hfields
  -- Within the header's field widths the saturating forms are exact.
  rw [saturatingMul_of_le (supportedSampleRate_bounds hrate).2] at hbyteRate
  rw [halign] at heven
  simp only [saturatingAdd, u64Max] at hinner houter hbody
  exact ⟨hheader, hsize, hriffTag, hwaveTag, hfmtTag, hfmt, hformat, hchannels, hbits, hrate,
    halign, hbyteRate, hdataTag, hpos, hmax, heven, by omega, by omega, by omega⟩

theorem readWavPcm_of_valid (hvalid : ValidWav bytes (wavFields bytes)) :
    readWavPcm path bytes = .ok
      ((wavFields bytes).sampleRate, slice bytes 44 (44 + (wavFields bytes).dataSize)) := by
  have hriff := wavFields_riffSize_lt bytes
  have hdata := wavFields_dataSize_lt bytes
  have hrate := supportedSampleRate_bounds hvalid.sampleRate
  have hriffEnd : checkedAdd usizeMax 8 (wavFields bytes).riffSize =
      some (8 + (wavFields bytes).riffSize) :=
    checkedAdd_eq_some.mpr ⟨by simp only [usizeMax, u64Max]; omega, rfl⟩
  have hpcmEnd : checkedAdd usizeMax 44 (wavFields bytes).dataSize =
      some (44 + (wavFields bytes).dataSize) :=
    checkedAdd_eq_some.mpr ⟨by simp only [usizeMax, u64Max]; omega, rfl⟩
  have hbyteRate : checkedMul u32Max (wavFields bytes).sampleRate (1 * (16 / 8)) =
      some ((wavFields bytes).sampleRate * 2) := if_pos hrate.2
  have hheader : ¬(bytes.length < 44 ∨ (wavFields bytes).riffTag ≠ utf8Bytes "RIFF" ∨
      (wavFields bytes).waveTag ≠ utf8Bytes "WAVE") := by
    simp only [hvalid.riffTag, hvalid.waveTag, ne_eq, not_true_eq_false, or_false]
    exact Nat.not_lt.mpr hvalid.size_ge
  simp only [readWavPcm]
  rw [if_neg (Nat.not_lt.mpr hvalid.size_le), if_neg hheader, hriffEnd]
  simp only [hvalid.fmtTag, hvalid.fmtSize, hvalid.audioFormat, hvalid.channels,
    hvalid.bitsPerSample, hvalid.sampleRate, hvalid.blockAlign, hvalid.byteRate, hvalid.dataTag,
    hvalid.dataSize_even, hvalid.dataSize_pos, Nat.not_lt.mpr hvalid.riffSize_le,
    Nat.not_lt.mpr hvalid.dataSize_le, Nat.not_lt.mpr hvalid.riffSize_ge,
    Nat.not_lt.mpr hvalid.data_le, hbyteRate, hpcmEnd, ne_eq, not_true_eq_false, or_self,
    ↓reduceIte, Bool.not_true, Bool.false_eq_true]

theorem valid_of_readWavPcm {result : ℕ × List UInt8}
    (hread : readWavPcm path bytes = .ok result) : ValidWav bytes (wavFields bytes) := by
  simp only [readWavPcm] at hread
  obtain ⟨hsize, hread⟩ := Except.ok_of_guard hread
  obtain ⟨hheader, hread⟩ := Except.ok_of_guard hread
  -- The reader's checks are peeled off in its own order.
  cases hriffEnd : checkedAdd usizeMax 8 (wavFields bytes).riffSize with
  | none =>
      rw [hriffEnd] at hread
      cases hread
  | some riffEnd =>
  rw [hriffEnd] at hread
  obtain ⟨houter, hread⟩ := Except.ok_of_guard hread
  obtain ⟨hfmtTag, hread⟩ := Except.ok_of_guard hread
  obtain ⟨hfmt, hread⟩ := Except.ok_of_guard hread
  obtain ⟨hformat, hread⟩ := Except.ok_of_guard hread
  obtain ⟨hlayout, hread⟩ := Except.ok_of_guard hread
  obtain ⟨hrate, hread⟩ := Except.ok_of_guard hread
  obtain ⟨halign, hread⟩ := Except.ok_of_guard hread
  obtain ⟨hchannels, hbits⟩ := not_or.mp hlayout
  rw [not_not.mp hchannels, not_not.mp hbits] at halign hread
  have hsupported : isSupportedWavSampleRate (wavFields bytes).sampleRate = true := by
    simpa using hrate
  have hexpected : checkedMul u32Max (wavFields bytes).sampleRate (1 * (16 / 8)) =
      some ((wavFields bytes).sampleRate * 2) := if_pos (supportedSampleRate_bounds hsupported).2
  rw [hexpected] at hread
  obtain ⟨hbyteRate, hread⟩ := Except.ok_of_guard hread
  obtain ⟨hdataTag, hread⟩ := Except.ok_of_guard hread
  obtain ⟨hmax, hread⟩ := Except.ok_of_guard hread
  obtain ⟨hinner, hread⟩ := Except.ok_of_guard hread
  obtain ⟨hpos, hread⟩ := Except.ok_of_guard hread
  obtain ⟨heven, hread⟩ := Except.ok_of_guard hread
  cases hpcmEnd : checkedAdd usizeMax 44 (wavFields bytes).dataSize with
  | none =>
      rw [hpcmEnd] at hread
      cases hread
  | some pcmEnd =>
  rw [hpcmEnd] at hread
  obtain ⟨hbody, -⟩ := Except.ok_of_guard hread
  obtain ⟨-, rfl⟩ := checkedAdd_eq_some.mp hriffEnd
  obtain ⟨-, rfl⟩ := checkedAdd_eq_some.mp hpcmEnd
  obtain ⟨hge, htags⟩ := not_or.mp hheader
  obtain ⟨hriffTag, hwaveTag⟩ := not_or.mp htags
  rw [not_not.mp halign] at heven
  exact ⟨not_lt.mp hge, not_lt.mp hsize, not_not.mp hriffTag, not_not.mp hwaveTag,
    not_not.mp hfmtTag, not_not.mp hfmt, not_not.mp hformat, not_not.mp hchannels,
    not_not.mp hbits, hsupported, not_not.mp halign, not_not.mp hbyteRate, not_not.mp hdataTag,
    hpos, not_lt.mp hmax, not_not.mp heven, not_lt.mp hinner, not_lt.mp houter, not_lt.mp hbody⟩

/-- The two forms of the duration agree on bodies of whole samples. -/
theorem duration_eq_pcmDurationMs {size sampleRate : ℕ} {pcm : List UInt8}
    (hlength : pcm.length = size) (heven : size % 2 = 0) (hrate : 0 < sampleRate) :
    size * 1000 / (sampleRate * 2) = pcmDurationMs pcm sampleRate := by
  rw [pcmDurationMs_of_pos hrate, hlength]
  obtain ⟨samples, rfl⟩ := Nat.dvd_of_mod_eq_zero heven
  rw [Nat.mul_div_cancel_left _ (by decide), Nat.mul_comm sampleRate, Nat.mul_assoc,
    Nat.mul_div_mul_left _ _ (by decide)]

theorem readWavMetadata_eq_ok_iff {durationMs sampleRate dataSize : ℕ} :
    readWavMetadata path bytes = .ok (durationMs, sampleRate, dataSize) ↔
      ∃ pcm, readWavPcm path bytes = .ok (sampleRate, pcm) ∧ dataSize = pcm.length ∧
        durationMs = pcmDurationMs pcm sampleRate := by
  have hbody : ValidWav bytes (wavFields bytes) →
      (slice bytes 44 (44 + (wavFields bytes).dataSize)).length = (wavFields bytes).dataSize := by
    intro hvalid
    rw [length_slice hvalid.data_le, Nat.add_sub_cancel_left]
  have hduration : ∀ hvalid : ValidWav bytes (wavFields bytes),
      (wavFields bytes).dataSize * 1000 / ((wavFields bytes).sampleRate * 2) =
        pcmDurationMs (slice bytes 44 (44 + (wavFields bytes).dataSize))
          (wavFields bytes).sampleRate := fun hvalid =>
    duration_eq_pcmDurationMs (hbody hvalid) hvalid.dataSize_even
      (supportedSampleRate_bounds hvalid.sampleRate).1
  constructor
  · intro hread
    have hvalid := valid_of_readWavMetadata hread
    rw [readWavMetadata_of_valid hvalid] at hread
    cases hread
    exact ⟨_, readWavPcm_of_valid hvalid, (hbody hvalid).symm, hduration hvalid⟩
  · rintro ⟨pcm, hread, rfl, rfl⟩
    have hvalid := valid_of_readWavPcm hread
    rw [readWavPcm_of_valid hvalid] at hread
    cases hread
    rw [readWavMetadata_of_valid hvalid, hbody hvalid, hduration hvalid]

end Readers

/-- What the manifest keeps of a chunk read in full. -/
def LoadedChunk.manifestEntry (chunk : LoadedChunk) (fileSizeBytes : ℕ) :
    AudioChunkManifestEntry where
  speakerId := chunk.userId
  sequence := chunk.sequence
  startMs := chunk.startMs
  durationMs := chunk.durationMs
  sampleRate := chunk.sampleRate
  fileSizeBytes := fileSizeBytes
  pcmDataSizeBytes := chunk.pcm.length
  path := chunk.path

theorem loadChunkMetadata_of_ok {file : StagedFile} {durationMs sampleRate dataSize : ℕ}
    (hread : readWavMetadata file.path file.bytes = .ok (durationMs, sampleRate, dataSize)) :
    loadChunkMetadata file = .ok {
      speakerId := (parseChunkFilename file.path).userId
      sequence := (parseChunkFilename file.path).sequence
      startMs := (parseChunkFilename file.path).startMs.getD (fallbackStartMs file durationMs)
      durationMs := durationMs
      sampleRate := sampleRate
      fileSizeBytes := file.bytes.length
      pcmDataSizeBytes := dataSize
      path := file.path } := by
  simp only [loadChunkMetadata, hread]
  rfl

theorem readWavMetadata_of_loadChunkMetadata {file : StagedFile}
    {entry : AudioChunkManifestEntry} (hload : loadChunkMetadata file = .ok entry) :
    ∃ result, readWavMetadata file.path file.bytes = .ok result := by
  cases hread : readWavMetadata file.path file.bytes with
  | ok result => exact ⟨result, rfl⟩
  | error reason =>
      simp only [loadChunkMetadata, hread] at hload
      cases hload

theorem loadSingleChunk_of_ok {file : StagedFile} {body : ℕ × List UInt8}
    (hread : readWavPcm file.path file.bytes = .ok body) :
    loadSingleChunk file = .ok {
      userId := (parseChunkFilename file.path).userId
      sequence := (parseChunkFilename file.path).sequence
      startMs := (parseChunkFilename file.path).startMs.getD
        (fallbackStartMs file (pcmDurationMs body.2 body.1))
      durationMs := pcmDurationMs body.2 body.1
      sampleRate := body.1
      pcm := body.2
      path := file.path } := by
  simp only [loadSingleChunk, hread]
  rfl

/-- The header reader and the full reader accept the same files and report the
same rate, size and duration, so the manifest holds exactly the chunks that the
in-memory loader keeps, at the same times. -/
theorem wav_readers_agree (file : StagedFile) :
    (∀ durationMs sampleRate dataSize,
      readWavMetadata file.path file.bytes = .ok (durationMs, sampleRate, dataSize) ↔
        ∃ pcm, readWavPcm file.path file.bytes = .ok (sampleRate, pcm) ∧
          dataSize = pcm.length ∧ durationMs = pcmDurationMs pcm sampleRate) ∧
    ∀ entry, loadChunkMetadata file = .ok entry ↔
      ∃ chunk, loadSingleChunk file = .ok chunk ∧
        entry = chunk.manifestEntry file.bytes.length := by
  refine ⟨fun _ _ _ => readWavMetadata_eq_ok_iff, fun entry => ?_⟩
  cases hpcm : readWavPcm file.path file.bytes with
  | ok body =>
      have hmetadata := readWavMetadata_eq_ok_iff.mpr ⟨body.2, hpcm, rfl, rfl⟩
      rw [loadChunkMetadata_of_ok hmetadata, loadSingleChunk_of_ok hpcm]
      simp [LoadedChunk.manifestEntry, eq_comm]
  | error reason =>
      have hsingle : loadSingleChunk file = .error reason := by
        simp only [loadSingleChunk, hpcm]
        rfl
      simp only [hsingle, reduceCtorEq, false_and, exists_false, iff_false]
      intro hload
      obtain ⟨result, hmetadata⟩ := readWavMetadata_of_loadChunkMetadata hload
      obtain ⟨pcm, hread, -⟩ := readWavMetadata_eq_ok_iff.mp hmetadata
      rw [hpcm] at hread
      cases hread

/-! ## Reading back a written file -/

theorem wavFields_wavFileBytes (pcm : List UInt8) (sampleRate channels byteRate blockAlign
    bitsPerSample : ℕ) :
    wavFields (wavFileBytes pcm sampleRate channels byteRate blockAlign bitsPerSample) = {
      riffTag := utf8Bytes "RIFF"
      riffSize := ofLeBytes (toLeBytes 4 (36 + pcm.length))
      waveTag := utf8Bytes "WAVE"
      fmtTag := utf8Bytes "fmt "
      fmtSize := 16
      audioFormat := 1
      channels := ofLeBytes (toLeBytes 2 channels)
      sampleRate := ofLeBytes (toLeBytes 4 sampleRate)
      byteRate := ofLeBytes (toLeBytes 4 byteRate)
      blockAlign := ofLeBytes (toLeBytes 2 blockAlign)
      bitsPerSample := ofLeBytes (toLeBytes 2 bitsPerSample)
      dataTag := utf8Bytes "data"
      dataSize := ofLeBytes (toLeBytes 4 pcm.length) } := by
  have hriff : utf8Bytes "RIFF" = [82, 73, 70, 70] := by decide
  have hwave : utf8Bytes "WAVE" = [87, 65, 86, 69] := by decide
  have hfmt : utf8Bytes "fmt " = [102, 109, 116, 32] := by decide
  have hdata : utf8Bytes "data" = [100, 97, 116, 97] := by decide
  simp only [wavFields, wavFileBytes, slice, toLeBytes, hriff, hwave, hfmt, hdata,
    List.cons_append, List.nil_append, List.drop_succ_cons, List.drop_zero, List.take_succ_cons,
    List.take_zero, Nat.reduceSub]
  rfl

theorem buildWavBytesRaw_eq_ok {pcm wav : List UInt8} {sampleRate : ℕ}
    (hbuild : buildWavBytesRaw pcm sampleRate 1 16 = .ok wav) :
    isSupportedWavSampleRate sampleRate = true ∧ pcm.length % 2 = 0 ∧
      wav = wavFileBytes pcm sampleRate 1 (sampleRate * 2) 2 16 := by
  simp only [buildWavBytesRaw, buildWavBytes, bind, Except.bind, pure, Except.pure, throw, throwThe,
    MonadExceptOf.throw, checkedMul, one_ne_zero, Nat.reduceMul, Nat.reduceDiv, Nat.reduceMod,
    OfNat.ofNat_ne_zero, or_self, if_false, ne_eq, not_true_eq_false, u32Max, u16Max,
    Nat.reducePow, Nat.reduceSub, Nat.reduceLeDiff, if_true, gt_iff_lt] at hbuild
  split at hbuild
  next => cases hbuild
  next hsupported =>
    rw [Bool.not_eq_true', Bool.not_eq_false] at hsupported
    have hbyteRate := (supportedSampleRate_bounds hsupported).2
    simp only [u32Max, Nat.reducePow, Nat.reduceSub] at hbyteRate
    simp only [hbyteRate, if_true, Nat.reduceLT, if_false] at hbuild
    obtain ⟨heven, hbuild⟩ := Except.ok_of_guard hbuild
    obtain ⟨-, hbuild⟩ := Except.ok_of_guard hbuild
    exact ⟨hsupported, not_not.mp heven, (Except.ok.inj hbuild).symm⟩

/-- A file that was just written reads back as what was put into it. -/
theorem readWavPcm_buildWavBytesRaw {pcm wav : List UInt8} {sampleRate : ℕ} {path : ChunkPath}
    (hbuild : buildWavBytesRaw pcm sampleRate 1 16 = .ok wav) (hpcm : pcm ≠ [])
    (hmax : pcm.length ≤ maxWavChunkPcmBytes) : readWavPcm path wav = .ok (sampleRate, pcm) := by
  obtain ⟨hsupported, heven, rfl⟩ := buildWavBytesRaw_eq_ok hbuild
  have hrate := supportedSampleRate_bounds hsupported
  simp only [u32Max, maxWavChunkPcmBytes] at hrate hmax
  have hlength : (wavFileBytes pcm sampleRate 1 (sampleRate * 2) 2 16).length =
      44 + pcm.length := by
    simp only [wavFileBytes, List.length_append, length_toLeBytes]
    rfl
  have hfields := wavFields_wavFileBytes pcm sampleRate 1 (sampleRate * 2) 2 16
  have hdataSize : (wavFields (wavFileBytes pcm sampleRate 1 (sampleRate * 2) 2 16)).dataSize =
      pcm.length := by
    rw [hfields]
    exact ofLeBytes_toLeBytes (by omega)
  have hvalid : ValidWav (wavFileBytes pcm sampleRate 1 (sampleRate * 2) 2 16)
      (wavFields (wavFileBytes pcm sampleRate 1 (sampleRate * 2) 2 16)) := by
    have hpositive : 0 < pcm.length := List.length_pos_of_ne_nil hpcm
    rw [hfields]
    simp (disch := omega) only [ofLeBytes_toLeBytes]
    refine ⟨?_, ?_, rfl, rfl, rfl, rfl, rfl, rfl, rfl, hsupported, rfl, rfl, rfl, hpositive.ne',
      hmax, heven, le_rfl, ?_, ?_⟩
    all_goals simp only [hlength, wavHeaderBytes, maxLoadedWavFileBytes, maxWavChunkPcmBytes]
    all_goals omega
  have hbody : slice (wavFileBytes pcm sampleRate 1 (sampleRate * 2) 2 16) 44
      (44 + pcm.length) = pcm := by
    rw [slice, Nat.add_sub_cancel_left]
    unfold wavFileBytes
    rw [List.drop_left', List.take_length]
    simp only [List.length_append, length_toLeBytes]
    rfl
  rw [readWavPcm_of_valid hvalid, hdataSize, hbody, hfields]
  exact congrArg (fun rate => Except.ok (rate, pcm)) (ofLeBytes_toLeBytes (by omega))

/-- What the readers guarantee of a body. -/
theorem readWavPcm_body {path : ChunkPath} {bytes : List UInt8} {sampleRate : ℕ}
    {pcm : List UInt8} (hread : readWavPcm path bytes = .ok (sampleRate, pcm)) :
    pcm ≠ [] ∧ pcm.length % 2 = 0 ∧ pcm.length ≤ maxWavChunkPcmBytes ∧ 0 < sampleRate := by
  have hvalid := valid_of_readWavPcm hread
  rw [readWavPcm_of_valid hvalid] at hread
  cases hread
  have hlength : (slice bytes 44 (44 + (wavFields bytes).dataSize)).length =
      (wavFields bytes).dataSize := by
    rw [length_slice hvalid.data_le, Nat.add_sub_cancel_left]
  refine ⟨?_, ?_, ?_, (supportedSampleRate_bounds hvalid.sampleRate).1⟩
  · apply List.ne_nil_of_length_pos
    rw [hlength]
    exact Nat.pos_of_ne_zero hvalid.dataSize_pos
  · rw [hlength]
    exact hvalid.dataSize_even
  · rw [hlength]
    exact hvalid.dataSize_le

theorem readWavPcm_sampleRate {path : ChunkPath} {bytes : List UInt8} {sampleRate : ℕ}
    {pcm : List UInt8} (hread : readWavPcm path bytes = .ok (sampleRate, pcm)) :
    isSupportedWavSampleRate sampleRate = true := by
  have hvalid := valid_of_readWavPcm hread
  rw [readWavPcm_of_valid hvalid] at hread
  cases hread
  exact hvalid.sampleRate

/-- A body that the writer accepts is what both readers find in the file written for it. -/
theorem readers_buildWavBytesRaw {pcm : List UInt8} {sampleRate : ℕ}
    (hrate : isSupportedWavSampleRate sampleRate = true) (hpcm : pcm ≠ [])
    (heven : pcm.length % 2 = 0) (hmax : pcm.length ≤ maxWavChunkPcmBytes) :
    ∃ wav, buildWavBytesRaw pcm sampleRate 1 16 = .ok wav ∧
      ∀ path, readWavPcm path wav = .ok (sampleRate, pcm) ∧
        readWavMetadata path wav = .ok (pcmDurationMs pcm sampleRate, sampleRate, pcm.length) := by
  obtain ⟨wav, hbuild⟩ := buildWavBytes_of_fits hrate heven hmax
  refine ⟨wav, hbuild, fun path => ?_⟩
  have hread : readWavPcm path wav = .ok (sampleRate, pcm) :=
    readWavPcm_buildWavBytesRaw hbuild hpcm hmax
  exact ⟨hread, readWavMetadata_eq_ok_iff.mpr ⟨pcm, hread, rfl, rfl⟩⟩

/-- The writer and the two readers agree on every body up to the limit, and encoding what
`read_wav_pcm` returned reads back the same, whatever else the file held. -/
theorem wav_round_trip :
    (∀ (sampleRate : ℕ) (pcm : List UInt8), isSupportedWavSampleRate sampleRate = true →
      pcm ≠ [] → pcm.length % 2 = 0 → pcm.length ≤ maxWavChunkPcmBytes →
      ∃ wav, buildWavBytesRaw pcm sampleRate 1 16 = .ok wav ∧
        (∀ path, readWavPcm path wav = .ok (sampleRate, pcm)) ∧
        ∀ file : StagedFile, file.bytes = wav →
          ∃ entry, loadChunkMetadata file = .ok entry ∧ entry.sampleRate = sampleRate ∧
            entry.pcmDataSizeBytes = pcm.length) ∧
    ∀ (path : ChunkPath) (bytes : List UInt8) (sampleRate : ℕ) (pcm : List UInt8),
      readWavPcm path bytes = .ok (sampleRate, pcm) →
      ∃ wav, buildWavBytesRaw pcm sampleRate 1 16 = .ok wav ∧
        ∀ other, readWavPcm other wav = .ok (sampleRate, pcm) := by
  constructor
  · intro sampleRate pcm hrate hpcm heven hmax
    obtain ⟨wav, hbuild, hreaders⟩ := readers_buildWavBytesRaw hrate hpcm heven hmax
    refine ⟨wav, hbuild, fun path => (hreaders path).1, ?_⟩
    rintro file rfl
    exact ⟨_, loadChunkMetadata_of_ok (hreaders file.path).2, rfl, rfl⟩
  · intro path bytes sampleRate pcm hread
    obtain ⟨hpcm, heven, hmax, -⟩ := readWavPcm_body hread
    obtain ⟨wav, hbuild, hreaders⟩ :=
      readers_buildWavBytesRaw (readWavPcm_sampleRate hread) hpcm heven hmax
    exact ⟨wav, hbuild, fun other => (hreaders other).1⟩

theorem one_sample_round_trip :
    ∃ wav, buildWavBytesRaw [1, 0] 48000 1 16 = .ok wav ∧
      ∀ other, readWavPcm other wav = .ok (48000, [1, 0]) := by
  obtain ⟨wav, hbuild, hread, -⟩ :=
    wav_round_trip.1 48000 [1, 0] (by decide) (by decide) (by decide) (by decide)
  exact ⟨wav, hbuild, hread⟩

end DiscordTranscript.Audio
