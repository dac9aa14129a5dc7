import DiscordTranscript.Audio.Manifest

/-! # The streaming mixdown

The model of the mixdown writer of `application/runtime.rs`: the staged chunks of
a meeting are placed on one timeline, grouped into clusters of nearby chunks, and
mixed window by window into a WAV file whose sizes are patched in at the end.
`files` gives the content of a staged chunk, `fir` the low-pass filter of the
resampler. Creating, writing and renaming the output are taken to succeed. All
sample counts are bounded by the 24-hour cap, so none of the source's saturating
`usize` operations saturates.
-/

namespace DiscordTranscript.Application

open MachineInt Audio

/-! ## Placement -/

structure StreamMixdownCluster where
  startSamples : ℕ
  endSamples : ℕ
  /-- Offset in meeting samples, sample count, and metadata of each chunk. -/
  chunks : List (ℕ × ℕ × AudioChunkManifestEntry)
  deriving DecidableEq

def StreamMixdownCluster.span (cluster : StreamMixdownCluster) : ℕ :=
  cluster.endSamples - cluster.startSamples

/-- Where a chunk goes: the tuple that `stream_mixdown_clusters` sorts. -/
structure MixdownPlacement where
  startSamples : ℕ
  endSamples : ℕ
  samples : ℕ
  chunk : AudioChunkManifestEntry
  samples_pos : 0 < samples
  end_eq : endSamples = startSamples + samples

/-- The cap on the length of the mixdown. -/
def capSamples (sampleRate : ℕ) : ℕ := maxMeetingAudioSpanMs * sampleRate / 1000

/-- The first loop of `stream_mixdown_clusters` on one chunk. -/
def mixdownPlacement (meetingStartMs sampleRate : ℕ) (chunk : AudioChunkManifestEntry) :
    Option MixdownPlacement :=
  let offsetMs := chunk.startMs - meetingStartMs
  if offsetMs > maxMeetingAudioSpanMs then none
  else
    let offset := offsetMs * sampleRate / 1000
    let sourceSamples := chunk.pcmDataSizeBytes / 2
    let usableSamples := min sourceSamples (capSamples sampleRate - offset)
    if husable : usableSamples = 0 then none
    else some {
      startSamples := offset
      endSamples := offset + usableSamples
      samples := usableSamples
      chunk := chunk
      samples_pos := Nat.pos_of_ne_zero husable
      end_eq := rfl }

def mixdownPlacements (chunks : List AudioChunkManifestEntry) (sampleRate : ℕ) :
    List MixdownPlacement :=
  chunks.filterMap (mixdownPlacement (manifestMeetingStartMs chunks) sampleRate)

def MixdownPlacement.source (placement : MixdownPlacement) : ℕ × ℕ × AudioChunkManifestEntry :=
  (placement.startSamples, placement.samples, placement.chunk)

/-- The second loop: a chunk close to the end of the last cluster joins it. -/
def addPlacement (clusters : List StreamMixdownCluster) (placement : MixdownPlacement) :
    List StreamMixdownCluster :=
  let fresh : StreamMixdownCluster := {
    startSamples := placement.startSamples
    endSamples := placement.endSamples
    chunks := [placement.source] }
  match clusters.getLast? with
  | none => clusters ++ [fresh]
  | some cluster =>
      if placement.startSamples - cluster.endSamples < 2 * resampleFirTaps then
        clusters.dropLast ++ [{ cluster with
          endSamples := max cluster.endSamples placement.endSamples
          chunks := cluster.chunks ++ [placement.source] }]
      else clusters ++ [fresh]

/-- `sort_by_key` is stable. -/
def sortPlacements (placements : List MixdownPlacement) : List MixdownPlacement :=
  placements.insertionSort fun left right => left.startSamples ≤ right.startSamples

def streamMixdownClusters (chunks : List AudioChunkManifestEntry) (sampleRate : ℕ) :
    List StreamMixdownCluster :=
  (sortPlacements (mixdownPlacements chunks sampleRate)).foldl addPlacement []

/-! ## Mixing a window -/

section

variable (files : ChunkPath → Option (List UInt8))

/-- Opening a chunk, seeking behind its header and reading a window of samples. -/
def readSource (path : ChunkPath) (sourceSample sampleCount : ℕ) : Except String (List UInt8) :=
  match files path with
  | none => .error (s!"failed to open mixdown source {path.display}: " ++
      "No such file or directory (os error 2)")
  | some bytes =>
      let start := 44 + sourceSample * 2
      let byteCount := sampleCount * 2
      if start + byteCount > bytes.length then
        .error s!"failed to read mixdown source {path.display}: failed to fill whole buffer"
      else .ok (slice bytes start (start + byteCount))

/-- One iteration of the loop of `mix_manifest_window`. -/
def mixSource (absoluteStart absoluteEnd : ℕ) (mixed : List ℤ)
    (source : ℕ × ℕ × AudioChunkManifestEntry) : Except String (List ℤ) :=
  let (offset, samples, chunk) := source
  let overlapStart := max absoluteStart offset
  let overlapEnd := min absoluteEnd (offset + samples)
  if overlapStart ≥ overlapEnd then .ok mixed
  else
    let sampleCount := overlapEnd - overlapStart
    match readSource files chunk.path (overlapStart - offset) sampleCount with
    | .error err => .error err
    | .ok bytes =>
        let target := overlapStart - absoluteStart
        .ok (mixed.mapIdx fun index sum =>
          if target ≤ index ∧ index < target + sampleCount then
            i32SaturatingAdd sum (sampleAt bytes (index - target))
          else sum)

def mixManifestWindow (cluster : StreamMixdownCluster) (start stop : ℕ) :
    Except String (List UInt8) := do
  let mixed ← cluster.chunks.foldlM
    (mixSource files (cluster.startSamples + start) (cluster.startSamples + stop))
    (List.replicate (stop - start) 0)
  return mixed.flatMap fun sample => i16ToLeBytes (clampI16 sample)

end

/-! ## The output -/

def mixdownWavHeader (sampleRate dataSize : ℕ) : List UInt8 :=
  utf8Bytes "RIFF" ++ toLeBytes 4 (36 + dataSize) ++ utf8Bytes "WAVE" ++ utf8Bytes "fmt " ++
    toLeBytes 4 16 ++ toLeBytes 2 1 ++ toLeBytes 2 1 ++ toLeBytes 4 sampleRate ++
    toLeBytes 4 (saturatingMul u32Max sampleRate 2) ++ toLeBytes 2 2 ++ toLeBytes 2 16 ++
    utf8Bytes "data" ++ toLeBytes 4 dataSize

def mixdownSilenceBlockBytes : ℕ := 8192

/-- The bytes that the silence loop writes. -/
def silenceBlocks (gapBytes : ℕ) : List UInt8 :=
  if gapBytes > 0 then
    let count := min gapBytes mixdownSilenceBlockBytes
    List.replicate count 0 ++ silenceBlocks (gapBytes - count)
  else []
termination_by gapBytes
decreasing_by
  have hblock : 0 < mixdownSilenceBlockBytes := by decide
  omega

/-- The fallback resampler for clips that are too short for the filter. -/
def decimatePcm16le (pcm : List UInt8) (fromRate toRate : ℕ) : List UInt8 :=
  let samples := pcm.length / 2
  let outSamples := samples * toRate / max fromRate 1
  (List.range outSamples).flatMap fun i =>
    let src := i * fromRate / toRate
    if src < samples then slice pcm (src * 2) (src * 2 + 2) else []

def streamMixdownWindowSamples : ℕ := 48000
def mixdownResampleHaloSamples : ℕ := resampleFirTaps / 2

structure MixdownFormat where
  sampleRate : ℕ
  outRate : ℕ
  resample : Bool

def mixdownFormat (sampleRate : ℕ) (resampleTo16k : Bool) : MixdownFormat :=
  if resampleTo16k ∧ sampleRate = 48000 then
    { sampleRate := sampleRate, outRate := 16000, resample := true }
  else { sampleRate := sampleRate, outRate := sampleRate, resample := false }

namespace MixdownFormat

def outStart (format : MixdownFormat) (cluster : StreamMixdownCluster) : ℕ :=
  cluster.startSamples * format.outRate / format.sampleRate

def plannedSamples (format : MixdownFormat) (clusters : List StreamMixdownCluster) : ℕ :=
  ((clusters.map fun cluster => format.outStart cluster +
    if format.resample then cluster.span / 3 else cluster.span).max?).getD 0

/-- The input range of a window: with a halo when it is resampled, aligned to
the decimation grid of the cluster. -/
def readRange (format : MixdownFormat) (coreStart coreEnd span : ℕ) : ℕ × ℕ :=
  if format.resample then
    let start := coreStart - mixdownResampleHaloSamples
    let stop := min (coreEnd + mixdownResampleHaloSamples) span
    (start - start % 3, min ((stop + 2) / 3 * 3) span)
  else (coreStart, coreEnd)

end MixdownFormat

/-- The output samples that belong to the core of a resampled window. -/
def trimWindow (coreStart coreEnd span readStart : ℕ) (windowPcm : List UInt8) : List UInt8 :=
  let firstOut := divCeil coreStart 3
  let endOut := min (divCeil coreEnd 3) (span / 3)
  let readStartOut := readStart / 3
  let localStart := min (firstOut - readStartOut) (windowPcm.length / 2)
  let localEnd := max (min (endOut - readStartOut) (windowPcm.length / 2)) localStart
  slice windowPcm (localStart * 2) (localEnd * 2)

/-- What follows the header in the file, and the writer's own count of it. -/
structure MixdownStream where
  pcm : List UInt8 := []
  outSamplesWritten : ℕ := 0

section

variable (fir : List ℤ → ℤ) (files : ChunkPath → Option (List UInt8))

/-- The source trims alike whether or not the resampler reached the output rate. -/
def windowOutput (format : MixdownFormat) (cluster : StreamMixdownCluster)
    (coreStart coreEnd : ℕ) : Except String (List UInt8) := do
  let (readStart, readEnd) := format.readRange coreStart coreEnd cluster.span
  let input ← mixManifestWindow files cluster readStart readEnd
  if format.resample then
    let (windowPcm, _) := resamplePcm16le fir input format.sampleRate format.outRate
    return trimWindow coreStart coreEnd cluster.span readStart windowPcm
  else return input

/-- The window loop of a cluster, from `coreStart` on. -/
def writeWindows (format : MixdownFormat) (cluster : StreamMixdownCluster) (coreStart : ℕ)
    (stream : MixdownStream) : Except String MixdownStream :=
  if coreStart < cluster.span then
    let coreEnd := min (coreStart + streamMixdownWindowSamples) cluster.span
    match windowOutput fir files format cluster coreStart coreEnd with
    | .error err => .error err
    | .ok outputPcm =>
        let outputOffset := if format.resample then divCeil coreStart 3 else coreStart
        writeWindows format cluster coreEnd {
          pcm := stream.pcm ++ outputPcm
          outSamplesWritten := max stream.outSamplesWritten
            (format.outStart cluster + outputOffset + outputPcm.length / 2) }
  else .ok stream
termination_by cluster.span - coreStart
decreasing_by
  have hwindow : 0 < streamMixdownWindowSamples := by decide
  omega

def writeCluster (format : MixdownFormat) (stream : MixdownStream)
    (cluster : StreamMixdownCluster) : Except String MixdownStream :=
  let gapBytes := (format.outStart cluster - stream.outSamplesWritten) * 2
  let padded : MixdownStream := { stream with pcm := stream.pcm ++ silenceBlocks gapBytes }
  if format.resample ∧ cluster.span < 3 then
    match mixManifestWindow files cluster 0 cluster.span with
    | .error err => .error err
    | .ok pcm =>
        let (resampled, actualRate) := resamplePcm16le fir pcm format.sampleRate format.outRate
        let finalPcm := if actualRate = format.outRate then resampled
          else decimatePcm16le resampled actualRate format.outRate
        .ok {
          pcm := padded.pcm ++ finalPcm
          outSamplesWritten :=
            max padded.outSamplesWritten (format.outStart cluster + finalPcm.length / 2) }
  else writeWindows fir files format cluster 0 padded

/-- Overwriting a part of a file in place. -/
def patchBytes (file : List UInt8) (offset : ℕ) (bytes : List UInt8) : List UInt8 :=
  file.take offset ++ bytes ++ file.drop (offset + bytes.length)

def maxMixdownDataBytes : ℕ := u32Max - 36

def mixdownTooLarge (bytes : ℕ) : String :=
  s!"mixdown exceeds WAV size limit ({bytes} bytes > {maxMixdownDataBytes} bytes)"

/-- The bytes of the finished mixdown. -/
def writeStreamingMixdownWav (chunks : List AudioChunkManifestEntry) (sampleRate : ℕ)
    (resampleTo16k : Bool) : Except String (List UInt8) :=
  let format := mixdownFormat sampleRate resampleTo16k
  let clusters := streamMixdownClusters chunks sampleRate
  let plannedBytes := format.plannedSamples clusters * 2
  if plannedBytes > maxMixdownDataBytes then .error (mixdownTooLarge plannedBytes)
  else
    match clusters.foldlM (writeCluster fir files format) {} with
    | .error err => .error err
    | .ok stream =>
        let dataSize := stream.outSamplesWritten * 2
        if dataSize > maxMixdownDataBytes then .error (mixdownTooLarge dataSize)
        else
          let file := mixdownWavHeader format.outRate 0 ++ stream.pcm
          .ok (patchBytes (patchBytes file 4 (toLeBytes 4 (36 + dataSize))) 40
            (toLeBytes 4 dataSize))

end

end DiscordTranscript.Application
