import DiscordTranscript.Foundation.MachineInt
import DiscordTranscript.Foundation.OrderedList

/-! # PCM assembly and WAV encoding

The model of `audio/wav.rs`: the frame assembler with its silence padding, the
44-byte header writer, the duration arithmetic, and the 48 kHz to 16 kHz
resampler. Allocation failures of `try_reserve` are not modelled. The low-pass
filter works in floating point and is a parameter of the resampler.
-/

namespace DiscordTranscript.Audio

open MachineInt

structure WavChunk where
  bytes : List UInt8
  deriving DecidableEq, Repr

/-- One received frame of 16-bit little-endian PCM (`audio/receiver.rs`). -/
structure BufferedFrame where
  timestampMs : ℕ
  pcm16leBytes : List UInt8
  deriving DecidableEq, Repr

inductive AudioError where
  | invalidPcmLength (length : ℕ)
  | pcmTooLarge (length : ℕ)
  | pcmAssemblyTooLarge (attempted max : ℕ)
  | unsupportedSampleRate (sampleRate : ℕ)
  | invalidWavFormat (reason : String)
  deriving DecidableEq, Repr

def maxWavChunkPcmBytes : ℕ := 64 * 1024 * 1024
def wavHeaderBytes : ℕ := 44
def minSupportedWavSampleRate : ℕ := 1
def maxSupportedWavSampleRate : ℕ := 192000

def AudioError.display : AudioError → String
  | .invalidPcmLength length =>
      s!"invalid PCM byte length (must align to complete sample frames): {length}"
  | .pcmTooLarge length => s!"PCM data too large for WAV format (max ~4GB): {length} bytes"
  | .pcmAssemblyTooLarge attempted max =>
      s!"PCM assembly too large: attempted {attempted} bytes (max {max})"
  | .unsupportedSampleRate sampleRate =>
      s!"unsupported WAV sample rate: {sampleRate} Hz (supported {minSupportedWavSampleRate}..={maxSupportedWavSampleRate} Hz)"
  | .invalidWavFormat reason => s!"invalid WAV format: {reason}"

def isSupportedWavSampleRate (sampleRate : ℕ) : Bool :=
  minSupportedWavSampleRate ≤ sampleRate && sampleRate ≤ maxSupportedWavSampleRate

def checkedPcmGrowth (current additional max : ℕ) : Except AudioError ℕ :=
  match checkedAdd usizeMax current additional with
  | none => .error (.pcmAssemblyTooLarge usizeMax max)
  | some next => if next > max then .error (.pcmAssemblyTooLarge next max) else .ok next

def pcmByteLenForDurationMs (durationMs sampleRate : ℕ) : Option ℕ :=
  let bytes := durationMs * sampleRate / 1000 * 2
  if bytes ≤ usizeMax then some bytes else none

/-- The `u128` product cannot overflow and the quotient fits `u64`. -/
def pcmDurationMs (pcm16le : List UInt8) (sampleRate : ℕ) : ℕ :=
  if sampleRate = 0 then 0 else pcm16le.length / 2 * 1000 / sampleRate

theorem pcmDurationMs_of_pos {pcm16le : List UInt8} {sampleRate : ℕ} (hrate : 0 < sampleRate) :
    pcmDurationMs pcm16le sampleRate = pcm16le.length / 2 * 1000 / sampleRate :=
  if_neg hrate.ne'

/-! ## The WAV writer -/

/-- The header and body written once every format check has passed. -/
def wavFileBytes (pcm16le : List UInt8) (sampleRate channels byteRate blockAlign
    bitsPerSample : ℕ) : List UInt8 :=
  utf8Bytes "RIFF" ++ toLeBytes 4 (36 + pcm16le.length) ++ utf8Bytes "WAVE" ++
    utf8Bytes "fmt " ++ toLeBytes 4 16 ++ toLeBytes 2 1 ++ toLeBytes 2 channels ++
    toLeBytes 4 sampleRate ++ toLeBytes 4 byteRate ++ toLeBytes 2 blockAlign ++
    toLeBytes 2 bitsPerSample ++ utf8Bytes "data" ++ toLeBytes 4 pcm16le.length ++ pcm16le

def buildWavBytes (pcm16le : List UInt8) (sampleRate channels bitsPerSample : ℕ) :
    Except AudioError (List UInt8) := do
  if !isSupportedWavSampleRate sampleRate then
    throw (.unsupportedSampleRate sampleRate)
  if channels = 0 then
    throw (.invalidWavFormat "channel count must be greater than zero")
  if bitsPerSample = 0 ∨ bitsPerSample % 8 ≠ 0 then
    throw (.invalidWavFormat "bits per sample must be a non-zero multiple of 8")
  let bytesPerSample := bitsPerSample / 8
  let some blockAlign := checkedMul u32Max channels bytesPerSample
    | throw (.invalidWavFormat "block align overflow")
  if blockAlign > u16Max then
    throw (.invalidWavFormat "block align exceeds WAV header range")
  let some byteRate := checkedMul u32Max sampleRate blockAlign
    | throw (.invalidWavFormat "byte rate overflow")
  if pcm16le.length % blockAlign ≠ 0 then
    throw (.invalidPcmLength pcm16le.length)
  if pcm16le.length > u32Max - 36 then
    throw (.pcmTooLarge pcm16le.length)
  return wavFileBytes pcm16le sampleRate channels byteRate blockAlign bitsPerSample

def buildWavBytesRaw (pcm16le : List UInt8) (sampleRate channels bitsPerSample : ℕ) :
    Except AudioError (List UInt8) :=
  buildWavBytes pcm16le sampleRate channels bitsPerSample

theorem supportedSampleRate_bounds {sampleRate : ℕ}
    (hrate : isSupportedWavSampleRate sampleRate = true) :
    0 < sampleRate ∧ sampleRate * 2 ≤ u32Max := by
  obtain ⟨hlow, hhigh⟩ := Bool.and_eq_true_iff.mp hrate
  have hlow := of_decide_eq_true hlow
  have hhigh := of_decide_eq_true hhigh
  simp only [minSupportedWavSampleRate, maxSupportedWavSampleRate, u32Max] at hlow hhigh ⊢
  omega

/-- Up to the size limit the writer accepts all whole samples at a supported rate. -/
theorem buildWavBytes_of_fits {pcm : List UInt8} {sampleRate : ℕ}
    (hrate : isSupportedWavSampleRate sampleRate = true) (heven : pcm.length % 2 = 0)
    (hmax : pcm.length ≤ maxWavChunkPcmBytes) :
    ∃ wav, buildWavBytes pcm sampleRate 1 16 = .ok wav := by
  have hsize : ¬ pcm.length > u32Max - 36 := by
    simp only [maxWavChunkPcmBytes] at hmax
    simp only [u32Max]
    omega
  have halign : checkedMul u32Max 1 2 = some 2 := rfl
  have hbyteRate : checkedMul u32Max sampleRate 2 = some (sampleRate * 2) :=
    if_pos (supportedSampleRate_bounds hrate).2
  refine ⟨wavFileBytes pcm sampleRate 1 (sampleRate * 2) 2 16, ?_⟩
  simp [buildWavBytes, hrate, halign, hbyteRate, u16Max, heven, hsize, pure, Except.pure]

/-! ## Frame assembly -/

/-- The frames in the order in which the assembler writes them. The sort is stable. -/
def sortFrames (frames : List BufferedFrame) : List BufferedFrame :=
  frames.insertionSort fun left right => left.timestampMs ≤ right.timestampMs

/-- The assembler's loop state: the PCM written and the timeline position of its end. -/
structure PcmAssembly where
  pcm : List UInt8 := []
  outputEndMs : Option ℕ := none

/-- Silence up to the frame when it starts after the audio written so far. -/
def PcmAssembly.padGap (assembly : PcmAssembly) (frame : BufferedFrame) (sampleRate : ℕ) :
    Except AudioError PcmAssembly :=
  match assembly.outputEndMs with
  | none => .ok assembly
  | some endMs =>
      if frame.timestampMs > endMs then do
        let gapMs := frame.timestampMs - endMs
        let gapBytes := (pcmByteLenForDurationMs gapMs sampleRate).getD usizeMax
        let nextLen ← checkedPcmGrowth assembly.pcm.length gapBytes maxWavChunkPcmBytes
        return {
          pcm := assembly.pcm ++ List.replicate (nextLen - assembly.pcm.length) 0
          outputEndMs := some frame.timestampMs }
      else .ok assembly

/-- One iteration of the assembler's loop. -/
def PcmAssembly.writeFrame (sampleRate : ℕ) (assembly : PcmAssembly) (frame : BufferedFrame) :
    Except AudioError PcmAssembly := do
  if frame.pcm16leBytes.length % 2 ≠ 0 then
    throw (.invalidPcmLength frame.pcm16leBytes.length)
  let padded ← assembly.padGap frame sampleRate
  let _ ← checkedPcmGrowth padded.pcm.length frame.pcm16leBytes.length maxWavChunkPcmBytes
  return {
    pcm := padded.pcm ++ frame.pcm16leBytes
    outputEndMs := some (saturatingAdd u64Max (padded.outputEndMs.getD frame.timestampMs)
      (pcmDurationMs frame.pcm16leBytes sampleRate)) }

def buildWavChunk (frames : List BufferedFrame) (sampleRate : ℕ) : Except AudioError WavChunk := do
  let assembly ← (sortFrames frames).foldlM (PcmAssembly.writeFrame sampleRate) {}
  let wav ← buildWavBytes assembly.pcm sampleRate 1 16
  return { bytes := wav }

/-! ## Resampling -/

def resampleFirTaps : ℕ := 45

/-- Sample `index` of a little-endian PCM body. -/
def sampleAt (pcm : List UInt8) (index : ℕ) : ℤ :=
  i16OfLeBytes (pcm.getD (index * 2) 0) (pcm.getD (index * 2 + 1) 0)

/-- The filter taps around one centre, with zeros outside the input. -/
def firTaps (input : List UInt8) (center : ℕ) : List ℤ :=
  (List.range resampleFirTaps).map fun k : ℕ =>
    let index : ℤ := (center : ℤ) + k - ((resampleFirTaps - 1) / 2 : ℕ)
    if index < 0 ∨ index ≥ (input.length / 2 : ℕ) then 0 else sampleAt input index.toNat

/-- `fir` stands for the windowed-sinc inner product, rounded and clamped to `i16`. -/
def resamplePcm16le (fir : List ℤ → ℤ) (input : List UInt8) (fromRate toRate : ℕ) :
    List UInt8 × ℕ :=
  if input.length < 4 ∨ fromRate = toRate then (input, fromRate)
  else if fromRate ≠ 48000 ∨ toRate ≠ 16000 then (input, fromRate)
  else if input.length / 2 < 3 then (input, fromRate)
  else
    ((List.range (input.length / 2 / 3)).flatMap fun i =>
      i16ToLeBytes (fir (firTaps input (i * 3))), toRate)

end DiscordTranscript.Audio
