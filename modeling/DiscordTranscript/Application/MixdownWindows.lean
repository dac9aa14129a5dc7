import DiscordTranscript.Foundation.Rendering
import DiscordTranscript.Application.MixdownClusters

/-! # Mixing by windows

What a window of a cluster holds, as a signal on the meeting's timeline: the
window read from any range of the cluster is the rendering of one and the same
signal, so where the windows are cut cannot be observed.
-/

namespace DiscordTranscript.Application

open MachineInt Audio Rendering

section

variable (files : ChunkPath → Option (List UInt8))

/-- The audio of a staged chunk, behind the header. -/
def chunkBody (chunk : AudioChunkManifestEntry) : List UInt8 :=
  ((files chunk.path).getD []).drop 44

/-- A source added to the sum at one position of the timeline. -/
def addSample (position : ℕ) (sum : ℤ) (source : ℕ × ℕ × AudioChunkManifestEntry) : ℤ :=
  if source.1 ≤ position ∧ position < source.1 + source.2.1 then
    i32SaturatingAdd sum (sampleAt (chunkBody files source.2.2) (position - source.1))
  else sum

def mixedSample (sources : List (ℕ × ℕ × AudioChunkManifestEntry)) (position : ℕ) : ℤ :=
  sources.foldl (addSample files position) 0

def mixedBlock (sources : List (ℕ × ℕ × AudioChunkManifestEntry)) (position : ℕ) : List UInt8 :=
  i16ToLeBytes (clampI16 (mixedSample files sources position))

/-- The file holds the samples of the source before `stop`. -/
def ReadableUpTo (source : ℕ × ℕ × AudioChunkManifestEntry) (stop : ℕ) : Prop :=
  ∃ bytes, files source.2.2.path = some bytes ∧
    44 + (min stop (source.1 + source.2.1) - source.1) * 2 ≤ bytes.length

/-- The file holds all samples of the source. -/
def Readable (source : ℕ × ℕ × AudioChunkManifestEntry) : Prop :=
  ∃ bytes, files source.2.2.path = some bytes ∧ 44 + source.2.1 * 2 ≤ bytes.length

end

variable {files : ChunkPath → Option (List UInt8)}

@[simp]
theorem length_mixedBlock (sources : List (ℕ × ℕ × AudioChunkManifestEntry)) (position : ℕ) :
    (mixedBlock files sources position).length = 2 :=
  length_i16ToLeBytes _

theorem sampleAt_slice {bytes : List UInt8} {first count index : ℕ} (hindex : index < count) :
    sampleAt (slice bytes (44 + first * 2) (44 + first * 2 + count * 2)) index =
      sampleAt (bytes.drop 44) (first + index) := by
  have hcount : 44 + first * 2 + count * 2 - (44 + first * 2) = count * 2 := by omega
  have hlow : 44 + first * 2 + index * 2 = 44 + (first + index) * 2 := by omega
  have hhigh : 44 + first * 2 + (index * 2 + 1) = 44 + ((first + index) * 2 + 1) := by omega
  simp only [sampleAt, slice, List.getD_eq_getElem?_getD, hcount]
  rw [List.getElem?_take_of_lt (by omega), List.getElem?_take_of_lt (by omega),
    List.getElem?_drop, List.getElem?_drop, List.getElem?_drop, List.getElem?_drop, hlow, hhigh]

theorem readSource_ok_iff {path : ChunkPath} {first count : ℕ} {bytes : List UInt8} :
    readSource files path first count = .ok bytes ↔
      ∃ content, files path = some content ∧ 44 + first * 2 + count * 2 ≤ content.length ∧
        bytes = slice content (44 + first * 2) (44 + first * 2 + count * 2) := by
  unfold readSource
  cases hfile : files path with
  | none => simp
  | some content =>
      simp only [Option.some.injEq, exists_eq_left']
      split
      next hshort =>
        refine iff_of_false (by simp) fun hread => ?_
        omega
      next hlong => simp [Nat.not_lt.mp hlong, eq_comm]

/-- The running sums over a window, one for each position. -/
def sumsOver (sums : ℕ → ℤ) (start stop : ℕ) : List ℤ :=
  (List.range' start (stop - start)).map sums

/-- The inner loop of `mix_manifest_window` on bytes read from the overlap. -/
theorem mapIdx_sumsOver {start stop offset samples : ℕ} {sums : ℕ → ℤ} {content : List UInt8}
    {chunk : AudioChunkManifestEntry} (hfile : files chunk.path = some content) :
    ((sumsOver sums start stop).mapIdx fun index sum =>
      if max start offset - start ≤ index ∧
          index < max start offset - start + (min stop (offset + samples) - max start offset) then
        i32SaturatingAdd sum (sampleAt
          (slice content (44 + (max start offset - offset) * 2)
            (44 + (max start offset - offset) * 2 +
              (min stop (offset + samples) - max start offset) * 2))
          (index - (max start offset - start)))
      else sum) =
      sumsOver (fun position => addSample files position (sums position)
        (offset, samples, chunk)) start stop := by
  refine List.ext_getElem (by simp [sumsOver]) fun index hindex hindex' => ?_
  simp only [sumsOver, List.length_map, List.length_range'] at hindex'
  simp only [sumsOver, List.getElem_mapIdx, List.getElem_map, List.getElem_range', addSample,
    chunkBody, hfile, Option.getD_some, Nat.one_mul]
  by_cases hcovered : offset ≤ start + index ∧ start + index < offset + samples
  · have hsample : max start offset - offset + (index - (max start offset - start)) =
        start + index - offset := by omega
    rw [if_pos hcovered, if_pos (by omega), sampleAt_slice (by omega), hsample]
  · rw [if_neg hcovered, if_neg (by omega)]

theorem mixSource_ok_iff {start stop : ℕ} {sums : ℕ → ℤ} {next : List ℤ}
    {source : ℕ × ℕ × AudioChunkManifestEntry} :
    mixSource files start stop (sumsOver sums start stop) source = .ok next ↔
      (max start source.1 < min stop (source.1 + source.2.1) → ReadableUpTo files source stop) ∧
        next = sumsOver (fun position => addSample files position (sums position) source)
          start stop := by
  obtain ⟨offset, samples, chunk⟩ := source
  unfold mixSource
  dsimp only
  split
  next hapart =>
    -- The source ends before the window or starts after it, and is not even opened.
    have hsame : sumsOver (fun position => addSample files position (sums position)
        (offset, samples, chunk)) start stop = sumsOver sums start stop := by
      refine List.map_congr_left fun position hposition => ?_
      rw [List.mem_range'_1] at hposition
      unfold addSample
      dsimp only
      exact if_neg (by omega)
    rw [hsame, Except.ok.injEq, eq_comm]
    simp [Nat.not_lt.mpr hapart]
  next hoverlap =>
    have hends : 44 + (max start offset - offset) * 2 +
        (min stop (offset + samples) - max start offset) * 2 =
          44 + (min stop (offset + samples) - offset) * 2 := by omega
    split
    next err hread =>
      refine iff_of_false (by simp) fun hnext => ?_
      obtain ⟨content, hfile, hlength⟩ := hnext.1 (Nat.not_le.mp hoverlap)
      have hok := readSource_ok_iff.mpr ⟨content, hfile, hends ▸ hlength, rfl⟩
      rw [hread] at hok
      cases hok
    next bytes hread =>
      obtain ⟨content, hfile, hlength, rfl⟩ := readSource_ok_iff.mp hread
      rw [Except.ok.injEq, mapIdx_sumsOver hfile, eq_comm]
      exact ⟨fun hnext => ⟨fun _ => ⟨content, hfile, hends ▸ hlength⟩, hnext⟩, And.right⟩

theorem foldlM_mixSource_ok_iff {start stop : ℕ} {sums : ℕ → ℤ} {final : List ℤ}
    {sources : List (ℕ × ℕ × AudioChunkManifestEntry)} :
    sources.foldlM (mixSource files start stop) (sumsOver sums start stop) = .ok final ↔
      (∀ source ∈ sources, max start source.1 < min stop (source.1 + source.2.1) →
        ReadableUpTo files source stop) ∧
        final = sumsOver (fun position => sources.foldl (addSample files position)
          (sums position)) start stop := by
  induction sources generalizing sums with
  | nil => simp [pure, Except.pure, eq_comm]
  | cons source rest ih =>
      rw [List.foldlM_cons]
      simp only [bind, Except.bind_eq_ok, mixSource_ok_iff, List.forall_mem_cons, List.foldl_cons]
      constructor
      · rintro ⟨next, ⟨hsource, rfl⟩, hrest⟩
        obtain ⟨hreadable, hfinal⟩ := ih.mp hrest
        exact ⟨⟨hsource, hreadable⟩, hfinal⟩
      · rintro ⟨⟨hsource, hreadable⟩, hfinal⟩
        exact ⟨_, ⟨hsource, rfl⟩, ih.mpr ⟨hreadable, hfinal⟩⟩

/-- The files hold what a window from `start` to `stop` of the cluster overlaps. -/
def WindowReadable (files : ChunkPath → Option (List UInt8)) (cluster : StreamMixdownCluster)
    (start stop : ℕ) : Prop :=
  ∀ source ∈ cluster.chunks,
    max (cluster.startSamples + start) source.1 <
      min (cluster.startSamples + stop) (source.1 + source.2.1) →
    ReadableUpTo files source (cluster.startSamples + stop)

/-- A window succeeds when the files hold what it overlaps, and then it is a
stretch of the signal of the whole cluster. -/
theorem mixManifestWindow_ok_iff {cluster : StreamMixdownCluster} {start stop : ℕ}
    {pcm : List UInt8} :
    mixManifestWindow files cluster start stop = .ok pcm ↔
      WindowReadable files cluster start stop ∧
        pcm = render (mixedBlock files cluster.chunks) (cluster.startSamples + start)
          (cluster.startSamples + stop) := by
  have hzero : List.replicate (stop - start) (0 : ℤ) =
      sumsOver (fun _ => 0) (cluster.startSamples + start) (cluster.startSamples + stop) := by
    have hlength : cluster.startSamples + stop - (cluster.startSamples + start) = stop - start := by
      omega
    simp [sumsOver, hlength]
  unfold mixManifestWindow
  rw [hzero]
  simp only [bind, Except.bind_eq_ok, foldlM_mixSource_ok_iff, pure, Except.pure,
    Except.ok.injEq]
  constructor
  · rintro ⟨mixed, ⟨hreadable, rfl⟩, rfl⟩
    exact ⟨hreadable, List.flatMap_map _ _ _⟩
  · rintro ⟨hreadable, rfl⟩
    exact ⟨_, ⟨hreadable, rfl⟩, List.flatMap_map _ _ _⟩

/-! ## Resampled windows -/

section

variable {signal : ℕ → List UInt8} (hwidth : ∀ position, (signal position).length = 2)

include hwidth

/-- Rendered PCM has one sample for each position. -/
theorem samples_render (start stop : ℕ) :
    (render signal start stop).length / 2 = stop - start := by
  rw [length_render hwidth]
  omega

theorem sampleAt_render {start stop index : ℕ} (hindex : start + index < stop) :
    sampleAt (render signal start stop) index =
      i16OfLeBytes ((signal (start + index)).getD 0 0) ((signal (start + index)).getD 1 0) := by
  have hlow := getD_render hwidth hindex Nat.zero_lt_two 0
  have hhigh := getD_render hwidth hindex Nat.one_lt_two 0
  rw [sampleAt, hhigh]
  rw [Nat.add_zero] at hlow
  rw [hlow]

/-- A filter whose taps stay inside the window, or leave it only where the input
itself ends, cannot tell the window from the whole input. -/
theorem firTaps_window {origin span readStart readEnd center : ℕ} (hstop : readEnd ≤ span)
    (hleft : readStart = 0 ∨ 22 ≤ center) (hright : readEnd = span ∨ readStart + center + 22 < readEnd)
    (hcenter : readStart + center < readEnd) :
    firTaps (render signal (origin + readStart) (origin + readEnd)) center =
      firTaps (render signal origin (origin + span)) (readStart + center) := by
  have hwindow : (render signal (origin + readStart) (origin + readEnd)).length / 2 =
      readEnd - readStart := by
    rw [samples_render hwidth]
    omega
  have hwhole : (render signal origin (origin + span)).length / 2 = span := by
    rw [samples_render hwidth]
    omega
  refine List.map_congr_left fun tap htap => ?_
  rw [List.mem_range] at htap
  have htaps : resampleFirTaps = 45 := rfl
  simp only [hwindow, hwhole, htaps] at htap ⊢
  -- By `hleft` and `hright`, a tap outside the window is outside the whole input.
  by_cases hinside : (readStart : ℤ) ≤ readStart + center + tap - 22 ∧
      (readStart : ℤ) + center + tap - 22 < readEnd
  · obtain ⟨index, hindex⟩ : ∃ index : ℕ, (index : ℤ) = center + tap - 22 :=
      ⟨(center + tap - 22 : ℤ).toNat, by omega⟩
    rw [if_neg (by omega), if_neg (by omega)]
    have hlocal : ((center : ℤ) + tap - ((45 - 1) / 2 : ℕ)).toNat = index := by omega
    have hglobal : (((readStart + center : ℕ) : ℤ) + tap - ((45 - 1) / 2 : ℕ)).toNat =
        readStart + index := by omega
    rw [hlocal, hglobal, sampleAt_render hwidth (by omega), sampleAt_render hwidth (by omega),
      Nat.add_assoc]
  · rw [if_pos (by omega), if_pos (by omega)]

end

/-- One output sample of the resampler. -/
def resampledBlock (fir : List ℤ → ℤ) (input : List UInt8) (n : ℕ) : List UInt8 :=
  i16ToLeBytes (fir (firTaps input (n * 3)))

@[simp]
theorem length_resampledBlock (fir : List ℤ → ℤ) (input : List UInt8) (n : ℕ) :
    (resampledBlock fir input n).length = 2 :=
  length_i16ToLeBytes _

theorem resamplePcm16le_eq_render {fir : List ℤ → ℤ} {input : List UInt8}
    (hinput : 3 ≤ input.length / 2) :
    resamplePcm16le fir input 48000 16000 =
      (render (resampledBlock fir input) 0 (input.length / 2 / 3), 16000) := by
  unfold resamplePcm16le render
  rw [if_neg (by omega), if_neg (by omega), if_neg (by omega), Nat.sub_zero,
    List.range_eq_range']
  rfl

/-- Samples cut out of rendered PCM by their byte positions. -/
theorem slice_render {block : ℕ → List UInt8} (hwidth : ∀ n, (block n).length = 2)
    {left right stop : ℕ} (hmiddle : left ≤ right) (hright : right ≤ stop) :
    slice (render block 0 stop) (left * 2) (right * 2) = render block left right := by
  have hlength : right * 2 - left * 2 = (right - left) * 2 := by omega
  have hcut := take_drop_render hwidth (Nat.zero_le left) hmiddle hright
  rw [Nat.sub_zero] at hcut
  rw [slice, hlength, hcut]

/-- What `readRange` guarantees about the window of a core. -/
structure HaloRange (span coreStart coreEnd readStart readEnd : ℕ) : Prop where
  aligned : readStart % 3 = 0
  start_le : readStart ≤ coreStart
  left : readStart = 0 ∨ readStart + 22 ≤ coreStart
  right : readEnd = span ∨ coreEnd + 22 ≤ readEnd
  core_le : coreEnd ≤ readEnd
  stop_le : readEnd ≤ span
  wide : readStart + 3 ≤ readEnd

/-- A core of the window loop. -/
structure WindowCore (span coreStart coreEnd : ℕ) : Prop where
  aligned : coreStart % streamMixdownWindowSamples = 0
  start_lt : coreStart < span
  end_eq : coreEnd = min (coreStart + streamMixdownWindowSamples) span

/-- Cores start on the decimation grid, since the window length is a multiple of three. -/
theorem WindowCore.onGrid {span coreStart coreEnd : ℕ} (hcore : WindowCore span coreStart coreEnd) :
    coreStart % 3 = 0 ∧ coreStart < coreEnd ∧ coreEnd ≤ span := by
  obtain ⟨haligned, hlt, hend⟩ := hcore
  have hwindow : streamMixdownWindowSamples = 48000 := rfl
  rw [hwindow] at haligned hend
  refine ⟨?_, ?_, ?_⟩ <;> omega

theorem haloRange_readRange {format : MixdownFormat} (hresample : format.resample = true)
    {span coreStart coreEnd : ℕ} (hcore : WindowCore span coreStart coreEnd) (hspan : 3 ≤ span) :
    HaloRange span coreStart coreEnd (format.readRange coreStart coreEnd span).1
      (format.readRange coreStart coreEnd span).2 := by
  obtain ⟨-, hadvance, hend⟩ := hcore.onGrid
  have hhalo : mixdownResampleHaloSamples = 22 := rfl
  simp only [MixdownFormat.readRange, hresample, if_true, hhalo]
  constructor <;> omega

/-- The output samples of a core, by number. -/
def firstOut (coreStart : ℕ) : ℕ := divCeil coreStart 3

def endOut (span coreEnd : ℕ) : ℕ := min (divCeil coreEnd 3) (span / 3)

section

variable {span coreStart coreEnd readStart readEnd : ℕ}

theorem WindowCore.firstOut_le_endOut (hcore : WindowCore span coreStart coreEnd) :
    firstOut coreStart ≤ endOut span coreEnd := by
  obtain ⟨hgrid, hadvance, hend⟩ := hcore.onGrid
  unfold firstOut endOut divCeil
  omega

theorem HaloRange.readStart_le_firstOut
    (hrange : HaloRange span coreStart coreEnd readStart readEnd) :
    readStart / 3 ≤ firstOut coreStart := by
  have hstart := hrange.start_le
  unfold firstOut divCeil
  omega

/-- The window has every output sample of its core. -/
theorem HaloRange.endOut_le (hrange : HaloRange span coreStart coreEnd readStart readEnd) :
    endOut span coreEnd - readStart / 3 ≤ (readEnd - readStart) / 3 := by
  obtain ⟨haligned, -, -, hright, -, -, -⟩ := hrange
  unfold endOut divCeil
  omega

/-- The taps of an output sample of the core stay in the window. -/
theorem HaloRange.taps_inside (hrange : HaloRange span coreStart coreEnd readStart readEnd)
    {n : ℕ} (hfirst : firstOut coreStart ≤ readStart / 3 + n)
    (hlast : readStart / 3 + n < endOut span coreEnd) :
    (readStart = 0 ∨ 22 ≤ n * 3) ∧ (readEnd = span ∨ readStart + n * 3 + 22 < readEnd) ∧
      readStart + n * 3 < readEnd := by
  obtain ⟨haligned, hstart, hleft, hright, hcoreLe, hstop, -⟩ := hrange
  unfold firstOut divCeil at hfirst
  unfold endOut divCeil at hlast
  refine ⟨?_, ?_, ?_⟩ <;> omega

end

/-- The core of a resampled window is a stretch of the resampled whole. -/
theorem trimWindow_resampled (fir : List ℤ → ℤ) {signal : ℕ → List UInt8}
    (hwidth : ∀ position, (signal position).length = 2) (origin : ℕ)
    {span coreStart coreEnd readStart readEnd : ℕ}
    (hcore : WindowCore span coreStart coreEnd)
    (hrange : HaloRange span coreStart coreEnd readStart readEnd) :
    trimWindow coreStart coreEnd span readStart
        (resamplePcm16le fir (render signal (origin + readStart) (origin + readEnd))
          48000 16000).1 =
      render (resampledBlock fir (render signal origin (origin + span)))
        (firstOut coreStart) (endOut span coreEnd) := by
  have horder := hcore.firstOut_le_endOut
  have hfirst := hrange.readStart_le_firstOut
  have hend := hrange.endOut_le
  have hsamples : (render signal (origin + readStart) (origin + readEnd)).length / 2 =
      readEnd - readStart := by
    rw [samples_render hwidth]
    omega
  have hwide := hrange.wide
  rw [resamplePcm16le_eq_render (by omega), hsamples]
  have hlength : (render (resampledBlock fir
      (render signal (origin + readStart) (origin + readEnd))) 0
        ((readEnd - readStart) / 3)).length / 2 = (readEnd - readStart) / 3 := by
    rw [samples_render (length_resampledBlock fir _), Nat.sub_zero]
  have htrim : ∀ pcm : List UInt8, pcm.length / 2 = (readEnd - readStart) / 3 →
      trimWindow coreStart coreEnd span readStart pcm =
        slice pcm ((firstOut coreStart - readStart / 3) * 2)
          ((endOut span coreEnd - readStart / 3) * 2) := by
    intro pcm hpcm
    simp only [trimWindow, hpcm]
    rw [← firstOut, ← endOut, min_eq_left (by omega), min_eq_left hend, max_eq_left (by omega)]
  rw [htrim _ hlength, slice_render (length_resampledBlock fir _) (by omega) hend]
  -- Output `n` of the window has its centre where output `readStart / 3 + n` of the whole has it.
  have hshift : ∀ n, firstOut coreStart - readStart / 3 ≤ n →
      n < endOut span coreEnd - readStart / 3 →
      resampledBlock fir (render signal (origin + readStart) (origin + readEnd)) n =
        resampledBlock fir (render signal origin (origin + span)) (readStart / 3 + n) := by
    intro n hlow hhigh
    obtain ⟨hleft, hright, hinside⟩ : _ ∧ _ ∧ _ :=
      hrange.taps_inside (show _ ≤ readStart / 3 + n by omega) (by omega)
    have haligned := hrange.aligned
    have hcenter : readStart + n * 3 = (readStart / 3 + n) * 3 := by omega
    rw [resampledBlock, resampledBlock, ← hcenter,
      firTaps_window hwidth hrange.stop_le hleft hright hinside]
  rw [render_congr hshift, ← render_add, Nat.add_sub_cancel' hfirst,
    Nat.add_sub_cancel' (hfirst.trans horder)]

end DiscordTranscript.Application
