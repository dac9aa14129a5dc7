import Mathlib.Data.List.Find
import DiscordTranscript.Foundation.Timeline
import DiscordTranscript.Audio.Manifest

/-! # Stitching one speaker's chunks

The model of the assembly loop in the speaker half of `audio/meeting_audio.rs`: the
chunks of one speaker are joined. A gap becomes silence, and a chunk that begins
before the end of what is written loses its head. On a timeline of whole milliseconds
what comes out is the first-writer timeline of the speaker's chunks.
-/

namespace DiscordTranscript.Audio

open MachineInt Infrastructure Timeline

def maxSpeakerAudioPcmBytes : ℕ := 512 * 1024 * 1024

/-! ## The assembly loop -/

def appendPcmBounded (pcmOut bytes : List UInt8) (max : ℕ) (context : String) :
    Except String (List UInt8) :=
  match checkedPcmGrowth pcmOut.length bytes.length max with
  | .error err => .error s!"{context} exceeds PCM limit: {err.display}"
  | .ok _ => .ok (pcmOut ++ bytes)

def appendSilenceBounded (pcmOut : List UInt8) (durationMs sampleRate max : ℕ)
    (context : String) : Except String (List UInt8) :=
  let silenceBytes := (pcmByteLenForDurationMs durationMs sampleRate).getD usizeMax
  match checkedPcmGrowth pcmOut.length silenceBytes max with
  | .error err => .error s!"{context} exceeds PCM limit: {err.display}"
  | .ok nextLen => .ok (pcmOut ++ List.replicate (nextLen - pcmOut.length) 0)

def speakerChunkKey (chunk : LoadedChunk) : ℕ ×ₗ ℕ := toLex (chunk.startMs, chunk.sequence)

/-- The stable sort by start time and sequence. -/
def sortSpeakerChunks (chunks : List LoadedChunk) : List LoadedChunk :=
  chunks.insertionSort fun left right => speakerChunkKey left ≤ speakerChunkKey right

/-- The loop variables: the PCM written so far and the time of its end. -/
structure SpeakerAssembly where
  pcmOut : List UInt8
  currentMs : ℕ
  deriving DecidableEq

namespace SpeakerAssembly

def context : String := "speaker audio assembly"

/-- Silence up to a chunk that begins after the end. -/
def fillGap (sampleRate : ℕ) (assembly : SpeakerAssembly) (chunk : LoadedChunk) :
    Except String SpeakerAssembly :=
  if chunk.startMs > assembly.currentMs then do
    let pcmOut ← appendSilenceBounded assembly.pcmOut (chunk.startMs - assembly.currentMs)
      sampleRate maxSpeakerAudioPcmBytes context
    return { pcmOut := pcmOut, currentMs := chunk.startMs }
  else .ok assembly

/-- The bytes of a chunk before the end. The product saturates as `u64`; halved to
samples it fits `usize` again. -/
def bytesToSkip (sampleRate : ℕ) (assembly : SpeakerAssembly) (chunk : LoadedChunk) : ℕ :=
  saturatingMul u64Max (assembly.currentMs - chunk.startMs) sampleRate / 1000 * 2

/-- One iteration of the loop over the sorted chunks. -/
def stitch (sampleRate : ℕ) (assembly : SpeakerAssembly) (chunk : LoadedChunk) :
    Except String SpeakerAssembly := do
  let filled ← assembly.fillGap sampleRate chunk
  if chunk.startMs < filled.currentMs then
    let bytesToSkip := filled.bytesToSkip sampleRate chunk
    if bytesToSkip ≥ chunk.pcm.length then return filled
    else
      let trimmed := chunk.pcm.drop bytesToSkip
      let pcmOut ← appendPcmBounded filled.pcmOut trimmed maxSpeakerAudioPcmBytes context
      return {
        pcmOut := pcmOut
        currentMs := saturatingAdd u64Max filled.currentMs (pcmDurationMs trimmed sampleRate) }
  else
    let pcmOut ← appendPcmBounded filled.pcmOut chunk.pcm maxSpeakerAudioPcmBytes context
    return {
      pcmOut := pcmOut
      currentMs := saturatingAdd u64Max chunk.startMs chunk.durationMs }

end SpeakerAssembly

/-- The first chunk is written whole and the others follow it. -/
def stitchSpeakerAudio (sampleRate : ℕ) (userChunks : List LoadedChunk) :
    Except String (List UInt8) :=
  match sortSpeakerChunks userChunks with
  | [] => .ok []
  | first :: rest => do
      let pcmOut ← appendPcmBounded [] first.pcm maxSpeakerAudioPcmBytes SpeakerAssembly.context
      let assembly ← rest.foldlM (SpeakerAssembly.stitch sampleRate) {
        pcmOut := pcmOut
        currentMs := saturatingAdd u64Max first.startMs first.durationMs }
      return assembly.pcmOut

/-! ## The loop lays pieces on a timeline -/

theorem checkedPcmGrowth_eq_ok {current additional max next : ℕ}
    (hok : checkedPcmGrowth current additional max = .ok next) :
    next = current + additional ∧ next ≤ max := by
  simp only [checkedPcmGrowth] at hok
  split at hok
  next => cases hok
  next sum hsum =>
    obtain ⟨hle, hnext⟩ := Except.ok_of_guard hok
    cases hnext
    exact ⟨(checkedAdd_eq_some.mp hsum).2, not_lt.mp hle⟩

theorem appendPcmBounded_eq_ok {pcmOut bytes out : List UInt8} {max : ℕ} {context : String}
    (hok : appendPcmBounded pcmOut bytes max context = .ok out) :
    out = pcmOut ++ bytes ∧ out.length ≤ max := by
  simp only [appendPcmBounded] at hok
  split at hok
  next => cases hok
  next length hgrowth =>
    cases hok
    obtain ⟨rfl, hle⟩ := checkedPcmGrowth_eq_ok hgrowth
    exact ⟨rfl, by rwa [List.length_append]⟩

theorem appendSilenceBounded_eq_ok {pcmOut out : List UInt8} {durationMs sampleRate max : ℕ}
    {context : String} (hmax : max < usizeMax)
    (hok : appendSilenceBounded pcmOut durationMs sampleRate max context = .ok out) :
    out = pcmOut ++ List.replicate (durationMs * sampleRate / 1000 * 2) 0 ∧ out.length ≤ max := by
  simp only [appendSilenceBounded] at hok
  split at hok
  next => cases hok
  next length hgrowth =>
    cases hok
    obtain ⟨rfl, hle⟩ := checkedPcmGrowth_eq_ok hgrowth
    -- A length that does not fit `usize` would have passed the limit.
    have hbytes : (pcmByteLenForDurationMs durationMs sampleRate).getD usizeMax =
        durationMs * sampleRate / 1000 * 2 := by
      simp only [pcmByteLenForDurationMs] at hle ⊢
      split at hle
      next => simp only [*, if_true, Option.getD_some]
      next => exact absurd hle (by simp only [Option.getD_none]; omega)
    rw [hbytes] at hle ⊢
    rw [Nat.add_sub_cancel_left]
    refine ⟨rfl, ?_⟩
    rwa [List.length_append, List.length_replicate]

/-- Bytes of one millisecond at a whole number of kilohertz. -/
def bytesPerMs (sampleRate : ℕ) : ℕ := sampleRate / 1000 * 2

/-- A loaded chunk on the timeline of a common rate: its duration is that of its PCM,
its PCM is a whole number of milliseconds, and its end is a time. -/
structure LoadedChunk.OnTimeline (sampleRate : ℕ) (chunk : LoadedChunk) : Prop where
  sampleRate_eq : chunk.sampleRate = sampleRate
  durationMs_eq : chunk.durationMs = pcmDurationMs chunk.pcm sampleRate
  wholeMs : chunk.pcm.length % bytesPerMs sampleRate = 0
  endMs_le : chunk.startMs + chunk.durationMs ≤ u64Max

/-- The rate is a positive multiple of 1000 Hz. -/
def WholeKilohertz (sampleRate : ℕ) : Prop := 0 < sampleRate ∧ sampleRate % 1000 = 0

instance (sampleRate : ℕ) : Decidable (WholeKilohertz sampleRate) :=
  inferInstanceAs (Decidable (_ ∧ _))

section

variable {sampleRate : ℕ} (hrate : WholeKilohertz sampleRate)

include hrate

theorem WholeKilohertz.bytesPerMs_pos : 0 < bytesPerMs sampleRate := by
  obtain ⟨hpos, hdvd⟩ := hrate
  simp only [bytesPerMs]
  omega

theorem WholeKilohertz.bytes_eq (durationMs : ℕ) :
    durationMs * sampleRate / 1000 * 2 = durationMs * bytesPerMs sampleRate := by
  have hmul : durationMs * sampleRate = durationMs * (sampleRate / 1000) * 1000 := by
    rw [mul_assoc, Nat.div_mul_cancel (Nat.dvd_of_mod_eq_zero hrate.2)]
  rw [hmul, Nat.mul_div_cancel _ (by decide), bytesPerMs, mul_assoc]

theorem WholeKilohertz.pcmDurationMs_eq (pcm : List UInt8) :
    pcmDurationMs pcm sampleRate = pcm.length / bytesPerMs sampleRate := by
  have hsplit : sampleRate = sampleRate / 1000 * 1000 :=
    (Nat.div_mul_cancel (Nat.dvd_of_mod_eq_zero hrate.2)).symm
  rw [pcmDurationMs_of_pos hrate.1, bytesPerMs]
  nth_rewrite 1 [hsplit]
  rw [Nat.mul_div_mul_right _ _ (by decide), Nat.div_div_eq_div_mul, mul_comm 2]

theorem LoadedChunk.OnTimeline.length_eq {chunk : LoadedChunk}
    (hchunk : chunk.OnTimeline sampleRate) :
    chunk.pcm.length = chunk.durationMs * bytesPerMs sampleRate := by
  rw [hchunk.durationMs_eq, hrate.pcmDurationMs_eq]
  exact (Nat.div_mul_cancel (Nat.dvd_of_mod_eq_zero hchunk.wholeMs)).symm

end

/-- The PCM written reaches from the first start to the current time. -/
structure SpeakerAssembly.Aligned (sampleRate startMs : ℕ) (assembly : SpeakerAssembly) : Prop where
  start_le : startMs ≤ assembly.currentMs
  length_eq : assembly.pcmOut.length = (assembly.currentMs - startMs) * bytesPerMs sampleRate
  length_le : assembly.pcmOut.length ≤ maxSpeakerAudioPcmBytes

/-- A chunk as a piece of the timeline of bytes. -/
def LoadedChunk.piece (sampleRate startMs : ℕ) (chunk : LoadedChunk) : Piece UInt8 where
  start := (chunk.startMs - startMs) * bytesPerMs sampleRate
  values := chunk.pcm

namespace SpeakerAssembly

variable {sampleRate startMs : ℕ} {assembly next : SpeakerAssembly} {chunk : LoadedChunk}

/-- What the loop writes for one chunk is what the timeline lays. -/
theorem lay_eq_of_le (hend : chunk.startMs ≤ assembly.currentMs)
    (hstart : startMs ≤ chunk.startMs) (haligned : assembly.Aligned sampleRate startMs) :
    lay 0 assembly.pcmOut (chunk.piece sampleRate startMs) =
      assembly.pcmOut ++ chunk.pcm.drop
        ((assembly.currentMs - chunk.startMs) * bytesPerMs sampleRate) := by
  have hlength := haligned.length_eq
  have hle : (chunk.piece sampleRate startMs).start ≤ assembly.pcmOut.length := by
    rw [hlength]
    exact Nat.mul_le_mul_right _ (Nat.sub_le_sub_right hend startMs)
  have hdrop : assembly.pcmOut.length - (chunk.piece sampleRate startMs).start =
      (assembly.currentMs - chunk.startMs) * bytesPerMs sampleRate := by
    rw [hlength, LoadedChunk.piece, ← Nat.sub_mul]
    congr 1
    omega
  rw [lay, hdrop, Nat.sub_eq_zero_of_le hle, List.replicate_zero, List.append_nil]
  rfl

theorem lay_eq_of_gt (hgap : assembly.currentMs < chunk.startMs)
    (haligned : assembly.Aligned sampleRate startMs) :
    lay 0 assembly.pcmOut (chunk.piece sampleRate startMs) =
      assembly.pcmOut ++
        List.replicate ((chunk.startMs - assembly.currentMs) * bytesPerMs sampleRate) 0 ++
        chunk.pcm := by
  have hlength := haligned.length_eq
  have hstart := haligned.start_le
  have hle : assembly.pcmOut.length ≤ (chunk.piece sampleRate startMs).start := by
    rw [hlength]
    exact Nat.mul_le_mul_right _ (by omega)
  have hfill : (chunk.piece sampleRate startMs).start - assembly.pcmOut.length =
      (chunk.startMs - assembly.currentMs) * bytesPerMs sampleRate := by
    rw [hlength, LoadedChunk.piece, ← Nat.sub_mul]
    congr 1
    omega
  rw [lay, hfill, Nat.sub_eq_zero_of_le hle, List.drop_zero]
  rfl

/-- Overlaps stay far below the width of `u64`, since the written audio is bounded. -/
theorem Aligned.bytesToSkip_eq (hrate : WholeKilohertz sampleRate)
    (haligned : assembly.Aligned sampleRate startMs) (hstart : startMs ≤ chunk.startMs) :
    assembly.bytesToSkip sampleRate chunk =
      (assembly.currentMs - chunk.startMs) * bytesPerMs sampleRate := by
  have hbytes : (assembly.currentMs - chunk.startMs) * bytesPerMs sampleRate ≤
      maxSpeakerAudioPcmBytes := by
    refine le_trans (Nat.mul_le_mul_right _ ?_) (haligned.length_eq ▸ haligned.length_le)
    exact Nat.sub_le_sub_left hstart _
  have hproduct : (assembly.currentMs - chunk.startMs) * sampleRate ≤ u64Max := by
    rw [← hrate.bytes_eq, maxSpeakerAudioPcmBytes] at hbytes
    rw [u64Max]
    omega
  rw [bytesToSkip, saturatingMul_of_le hproduct, hrate.bytes_eq]

/-- One iteration lays one piece. -/
theorem stitch_lay (hrate : WholeKilohertz sampleRate)
    (haligned : assembly.Aligned sampleRate startMs) (hchunk : chunk.OnTimeline sampleRate)
    (hstart : startMs ≤ chunk.startMs) (hok : assembly.stitch sampleRate chunk = .ok next) :
    next.pcmOut = lay 0 assembly.pcmOut (chunk.piece sampleRate startMs) ∧
      next.Aligned sampleRate startMs := by
  have hlength := hchunk.length_eq hrate
  have hfits := hchunk.endMs_le
  obtain ⟨filled, hfill, hok⟩ := Except.bind_eq_ok.mp hok
  simp only [fillGap] at hfill
  split at hfill
  next hgap =>
    obtain ⟨pcmOut, hsilence, hfilled⟩ := Except.bind_eq_ok.mp hfill
    cases hfilled
    obtain ⟨hpcm, -⟩ := appendSilenceBounded_eq_ok (by decide) hsilence
    simp only [lt_irrefl, if_false] at hok
    obtain ⟨whole, happend, hnext⟩ := Except.bind_eq_ok.mp hok
    cases hnext
    obtain ⟨rfl, hle⟩ := appendPcmBounded_eq_ok happend
    have hout : pcmOut ++ chunk.pcm =
        lay 0 assembly.pcmOut (chunk.piece sampleRate startMs) := by
      rw [lay_eq_of_gt hgap haligned, hpcm, hrate.bytes_eq]
    refine ⟨hout, ?_, ?_, hle⟩
    · rw [saturatingAdd_of_le hfits]
      exact le_trans hstart (Nat.le_add_right _ _)
    · rw [saturatingAdd_of_le hfits, hpcm, List.length_append, List.length_append,
        List.length_replicate, haligned.length_eq, hlength, hrate.bytes_eq, ← Nat.add_mul,
        ← Nat.add_mul]
      congr 1
      have := haligned.start_le
      dsimp only
      omega
  next hreached =>
    cases hfill
    split at hok
    next hoverlap =>
      simp only [haligned.bytesToSkip_eq hrate hstart] at hok
      split at hok
      next hinside =>
        cases hok
        refine ⟨?_, haligned⟩
        rw [lay_eq_of_le hoverlap.le hstart haligned, List.drop_eq_nil_of_le hinside,
          List.append_nil]
      next hpast =>
        obtain ⟨whole, happend, hnext⟩ := Except.bind_eq_ok.mp hok
        cases hnext
        obtain ⟨rfl, hle⟩ := appendPcmBounded_eq_ok happend
        -- What is left of the chunk ends where the chunk ends.
        have htrimmed : pcmDurationMs (chunk.pcm.drop
            ((assembly.currentMs - chunk.startMs) * bytesPerMs sampleRate)) sampleRate =
            chunk.durationMs - (assembly.currentMs - chunk.startMs) := by
          rw [hrate.pcmDurationMs_eq, List.length_drop, hlength, ← Nat.sub_mul,
            Nat.mul_div_cancel _ hrate.bytesPerMs_pos]
        have hshort : assembly.currentMs - chunk.startMs < chunk.durationMs := by
          rw [hlength] at hpast
          exact Nat.lt_of_mul_lt_mul_right (not_le.mp hpast)
        refine ⟨(lay_eq_of_le hoverlap.le hstart haligned).symm, ?_, ?_, hle⟩
        · rw [htrimmed, saturatingAdd_of_le (by omega)]
          exact le_trans haligned.start_le (Nat.le_add_right _ _)
        · rw [htrimmed, saturatingAdd_of_le (by omega), List.length_append, List.length_drop,
            haligned.length_eq, hlength, ← Nat.sub_mul, ← Nat.add_mul]
          congr 1
          have := haligned.start_le
          dsimp only
          omega
    next hnot =>
      have hmeets : chunk.startMs = assembly.currentMs :=
        le_antisymm (not_lt.mp hreached) (not_lt.mp hnot)
      obtain ⟨whole, happend, hnext⟩ := Except.bind_eq_ok.mp hok
      cases hnext
      obtain ⟨rfl, hle⟩ := appendPcmBounded_eq_ok happend
      refine ⟨?_, ?_, ?_, hle⟩
      · rw [lay_eq_of_le hmeets.le hstart haligned, hmeets, Nat.sub_self, Nat.zero_mul,
          List.drop_zero]
      · rw [saturatingAdd_of_le hfits]
        exact le_trans hstart (Nat.le_add_right _ _)
      · rw [saturatingAdd_of_le hfits, List.length_append, haligned.length_eq, hlength,
          ← Nat.add_mul]
        congr 1
        have := haligned.start_le
        dsimp only
        omega

/-- The whole loop lays the chunks one after the other. -/
theorem stitch_run (hrate : WholeKilohertz sampleRate) {done rest : List LoadedChunk}
    (hlaid : Laid 0 (done.map (·.piece sampleRate startMs)) assembly.pcmOut)
    (haligned : assembly.Aligned sampleRate startMs)
    (hchunks : ∀ chunk ∈ rest, chunk.OnTimeline sampleRate ∧ startMs ≤ chunk.startMs)
    (hsorted : (done ++ rest).Pairwise fun left right => left.startMs ≤ right.startMs)
    {final : SpeakerAssembly} (hok : rest.foldlM (stitch sampleRate) assembly = .ok final) :
    Laid 0 ((done ++ rest).map (·.piece sampleRate startMs)) final.pcmOut ∧
      final.Aligned sampleRate startMs := by
  induction rest generalizing assembly done with
  | nil =>
      cases hok
      rw [List.append_nil]
      exact ⟨hlaid, haligned⟩
  | cons chunk rest ih =>
      obtain ⟨next, hnext, hrest⟩ := Except.bind_eq_ok.mp hok
      obtain ⟨hchunk, hstart⟩ := hchunks chunk List.mem_cons_self
      obtain ⟨hout, hnextAligned⟩ := stitch_lay hrate haligned hchunk hstart hnext
      have hafter : ∀ earlier ∈ done.map (·.piece sampleRate startMs),
          earlier.start ≤ (chunk.piece sampleRate startMs).start := by
        intro earlier hearlier
        obtain ⟨other, hother, rfl⟩ := List.mem_map.mp hearlier
        refine Nat.mul_le_mul_right _ (Nat.sub_le_sub_right ?_ startMs)
        exact (List.pairwise_append.mp hsorted).2.2 other hother chunk List.mem_cons_self
      have hnextLaid : Laid 0 ((done ++ [chunk]).map (·.piece sampleRate startMs)) next.pcmOut := by
        rw [hout, List.map_append]
        exact hlaid.lay hafter
      rw [List.append_cons] at hsorted ⊢
      exact ih hnextLaid hnextAligned
        (fun other hother => hchunks other (List.mem_cons_of_mem _ hother)) hsorted hrest

end SpeakerAssembly

theorem pairwise_sortSpeakerChunks (chunks : List LoadedChunk) :
    (sortSpeakerChunks chunks).Pairwise fun left right => left.startMs ≤ right.startMs := by
  refine (List.pairwise_insertionSort_key speakerChunkKey chunks).imp fun hle => ?_
  rcases Prod.Lex.le_iff.mp hle with hlt | ⟨heq, -⟩
  · exact hlt.le
  · exact heq.le

theorem mem_sortSpeakerChunks {chunks : List LoadedChunk} {chunk : LoadedChunk} :
    chunk ∈ sortSpeakerChunks chunks ↔ chunk ∈ chunks :=
  List.mem_insertionSort _

/-! ## The first-writer timeline of a speaker -/

/-- Sample `index` after the first start falls into the chunk's interval. -/
def LoadedChunk.coversSample (sampleRate startMs index : ℕ) (chunk : LoadedChunk) : Bool :=
  decide (chunk.startMs * sampleRate ≤ startMs * sampleRate + index * 1000) &&
    decide (startMs * sampleRate + index * 1000 <
      (chunk.startMs + chunk.durationMs) * sampleRate)

/-- The sample of the first chunk, in the given order, whose interval covers it, or
silence. -/
def firstWriterSample (sampleRate startMs : ℕ) (ordered : List LoadedChunk) (index : ℕ) : ℤ :=
  (ordered.find? (·.coversSample sampleRate startMs index)).elim 0 fun chunk =>
    sampleAt chunk.pcm (index - (chunk.startMs - startMs) * sampleRate / 1000)

/-- The latest end of a chunk. -/
def latestEndMs (chunks : List LoadedChunk) : ℕ :=
  ((chunks.map fun chunk => chunk.startMs + chunk.durationMs).max?).getD 0

section

variable {sampleRate startMs : ℕ} (hrate : WholeKilohertz sampleRate)

include hrate

theorem WholeKilohertz.samples_eq (durationMs : ℕ) :
    durationMs * sampleRate / 1000 * 2 = durationMs * bytesPerMs sampleRate ∧
      durationMs * sampleRate = durationMs * sampleRate / 1000 * 1000 := by
  refine ⟨hrate.bytes_eq durationMs, ?_⟩
  exact (Nat.div_mul_cancel
    (Dvd.dvd.mul_left (Nat.dvd_of_mod_eq_zero hrate.2) durationMs)).symm

/-- Both bytes of a sample are covered where the sample is. -/
theorem LoadedChunk.covers_piece {chunk : LoadedChunk} (hchunk : chunk.OnTimeline sampleRate)
    (hstart : startMs ≤ chunk.startMs) {index half : ℕ} (hhalf : half < 2) :
    (chunk.piece sampleRate startMs).covers (index * 2 + half) =
      chunk.coversSample sampleRate startMs index := by
  obtain ⟨hoffsetBytes, hoffset⟩ := hrate.samples_eq (chunk.startMs - startMs)
  obtain ⟨hlengthBytes, hlength⟩ := hrate.samples_eq chunk.durationMs
  have hpiece : (chunk.piece sampleRate startMs).start =
      (chunk.startMs - startMs) * bytesPerMs sampleRate := rfl
  have hstop : (chunk.piece sampleRate startMs).stop =
      (chunk.piece sampleRate startMs).start + chunk.durationMs * bytesPerMs sampleRate := by
    rw [Piece.stop, ← hchunk.length_eq hrate]
    rfl
  have hbegin : chunk.startMs * sampleRate =
      startMs * sampleRate + (chunk.startMs - startMs) * sampleRate := by
    rw [← Nat.add_mul, Nat.add_sub_cancel' hstart]
  rw [Bool.eq_iff_iff, Piece.covers_iff, coversSample, Bool.and_eq_true, decide_eq_true_eq,
    decide_eq_true_eq, Nat.add_mul, hbegin, hstop, hpiece, ← hoffsetBytes, ← hlengthBytes]
  omega

theorem firstWriter_piece {ordered : List LoadedChunk}
    (hchunks : ∀ chunk ∈ ordered, chunk.OnTimeline sampleRate ∧ startMs ≤ chunk.startMs)
    {index half : ℕ} (hhalf : half < 2) :
    firstWriter 0 (ordered.map (·.piece sampleRate startMs)) (index * 2 + half) =
      (ordered.find? (·.coversSample sampleRate startMs index)).elim 0 fun chunk =>
        chunk.pcm.getD
          ((index - (chunk.startMs - startMs) * sampleRate / 1000) * 2 + half) 0 := by
  have hfind : ordered.find? (fun chunk =>
      (chunk.piece sampleRate startMs).covers (index * 2 + half)) =
      ordered.find? (·.coversSample sampleRate startMs index) := by
    apply List.find?_congr
    intro chunk hchunk
    obtain ⟨honTimeline, hstart⟩ := hchunks chunk hchunk
    exact LoadedChunk.covers_piece hrate honTimeline hstart hhalf
  rw [firstWriter, List.find?_map, Function.comp_def, hfind]
  cases hfirst : ordered.find? (·.coversSample sampleRate startMs index) with
  | none => rfl
  | some chunk =>
      obtain ⟨honTimeline, hstart⟩ := hchunks chunk (List.mem_of_find?_eq_some hfirst)
      have hcovers := List.find?_some hfirst
      rw [← LoadedChunk.covers_piece hrate honTimeline hstart hhalf, Piece.covers_iff] at hcovers
      obtain ⟨hoffset, -⟩ := hrate.samples_eq (chunk.startMs - startMs)
      have hpiece : (chunk.piece sampleRate startMs).start =
          (chunk.startMs - startMs) * sampleRate / 1000 * 2 := hoffset.symm
      simp only [Option.map_some, Option.elim_some, hpiece]
      rw [hpiece] at hcovers
      congr 1
      omega

/-- The timeline ends with the chunk that ends last. -/
theorem length_eq_latestEndMs {chunks ordered : List LoadedChunk} {pcm : List UInt8}
    (hall : ∀ chunk ∈ ordered, chunk.OnTimeline sampleRate ∧ startMs ≤ chunk.startMs)
    (hmem : ∀ chunk, chunk ∈ ordered ↔ chunk ∈ chunks) (hnonempty : ordered ≠ [])
    (hlaid : Laid 0 (ordered.map (·.piece sampleRate startMs)) pcm) :
    pcm.length = (latestEndMs chunks - startMs) * bytesPerMs sampleRate := by
  have hstop : ∀ chunk ∈ ordered, (chunk.piece sampleRate startMs).stop =
      (chunk.startMs + chunk.durationMs - startMs) * bytesPerMs sampleRate := by
    intro chunk hchunk
    obtain ⟨honTimeline, hstart⟩ := hall chunk hchunk
    rw [Piece.stop, LoadedChunk.piece, honTimeline.length_eq hrate, ← Nat.add_mul,
      ← Nat.sub_add_comm hstart]
  have hlatest : ∀ chunk ∈ ordered, chunk.startMs + chunk.durationMs ≤ latestEndMs chunks := by
    intro chunk hchunk
    refine List.max?_getD_le_iff.mp le_rfl _ ?_
    exact List.mem_map_of_mem ((hmem chunk).mp hchunk)
  apply le_antisymm
  · rcases hlaid.length_eq with rfl | ⟨piece, hpiece, heq⟩
    · exact Nat.zero_le _
    · obtain ⟨chunk, hchunk, rfl⟩ := List.mem_map.mp hpiece
      rw [← heq, hstop chunk hchunk]
      exact Nat.mul_le_mul_right _ (Nat.sub_le_sub_right (hlatest chunk hchunk) startMs)
  · obtain ⟨chunk, hchunk, hend⟩ : ∃ chunk ∈ ordered,
        latestEndMs chunks = chunk.startMs + chunk.durationMs := by
      cases hmax : (chunks.map fun chunk => chunk.startMs + chunk.durationMs).max? with
      | none =>
          rw [List.max?_eq_none_iff, List.map_eq_nil_iff] at hmax
          obtain ⟨chunk, hchunk⟩ := List.exists_mem_of_ne_nil ordered hnonempty
          have := (hmem chunk).mp hchunk
          rw [hmax] at this
          cases this
      | some latest =>
          obtain ⟨chunk, hchunk, heq⟩ := List.mem_map.mp (List.max?_mem hmax)
          refine ⟨chunk, (hmem chunk).mpr hchunk, ?_⟩
          rw [latestEndMs, hmax, Option.getD_some, heq]
    rw [hend, ← hstop chunk hchunk]
    exact hlaid.reached _ (List.mem_map_of_mem hchunk)

end

/-- For the chunks of one speaker with a common rate of whole kilohertz, whole-millisecond
PCM and ends that are times, whatever the assembly loop returns is the first-writer
timeline of the chunks in the order of start time and sequence, from the first start to
the latest end. -/
theorem speaker_audio_eq_first_writer (sampleRate : ℕ) (hrate : WholeKilohertz sampleRate)
    (chunks : List LoadedChunk) (hchunks : ∀ chunk ∈ chunks, chunk.OnTimeline sampleRate)
    {first : LoadedChunk} (hfirst : (sortSpeakerChunks chunks).head? = some first)
    {pcm : List UInt8} (hok : stitchSpeakerAudio sampleRate chunks = .ok pcm) :
    pcm.length = (latestEndMs chunks - first.startMs) * bytesPerMs sampleRate ∧
      ∀ index < pcm.length / 2, sampleAt pcm index =
        firstWriterSample sampleRate first.startMs (sortSpeakerChunks chunks) index := by
  have hsorted := pairwise_sortSpeakerChunks chunks
  have hmem : ∀ chunk, chunk ∈ sortSpeakerChunks chunks ↔ chunk ∈ chunks :=
    fun _ => mem_sortSpeakerChunks
  simp only [stitchSpeakerAudio] at hok
  cases hordered : sortSpeakerChunks chunks with
  | nil => simp [hordered] at hfirst
  | cons head rest =>
      rw [hordered] at hfirst hok hsorted hmem
      cases hfirst
      obtain ⟨pcmOut, happend, hok⟩ := Except.bind_eq_ok.mp hok
      obtain ⟨final, hfold, hpcm⟩ := Except.bind_eq_ok.mp hok
      cases hpcm
      obtain ⟨rfl, hlength⟩ := appendPcmBounded_eq_ok happend
      have hall : ∀ chunk ∈ first :: rest,
          chunk.OnTimeline sampleRate ∧ first.startMs ≤ chunk.startMs := by
        intro chunk hchunk
        refine ⟨hchunks chunk ((hmem chunk).mp hchunk), ?_⟩
        rcases List.mem_cons.mp hchunk with rfl | hrest
        · exact le_rfl
        · exact (List.pairwise_cons.mp hsorted).1 chunk hrest
      have hhead := (hall first List.mem_cons_self).1
      have hlaid : Laid 0 ([first].map (·.piece sampleRate first.startMs)) ([] ++ first.pcm) := by
        have hlay : Laid 0 ([] ++ [first.piece sampleRate first.startMs])
            (lay 0 [] (first.piece sampleRate first.startMs)) :=
          Laid.lay (Laid.nil 0) fun _ hearlier => nomatch hearlier
        have hpiece : lay 0 [] (first.piece sampleRate first.startMs) = [] ++ first.pcm := by
          simp [lay, LoadedChunk.piece]
        rwa [hpiece] at hlay
      have haligned : SpeakerAssembly.Aligned sampleRate first.startMs
          ⟨[] ++ first.pcm, saturatingAdd u64Max first.startMs first.durationMs⟩ := by
        refine ⟨?_, ?_, hlength⟩
        · rw [saturatingAdd_of_le hhead.endMs_le]
          exact Nat.le_add_right _ _
        · rw [saturatingAdd_of_le hhead.endMs_le, List.nil_append, hhead.length_eq hrate]
          dsimp only
          rw [Nat.add_sub_cancel_left]
      obtain ⟨hfinal, -⟩ := SpeakerAssembly.stitch_run hrate hlaid haligned
        (fun chunk hchunk => hall chunk (List.mem_cons_of_mem _ hchunk)) hsorted hfold
      rw [List.singleton_append] at hfinal
      refine ⟨length_eq_latestEndMs hrate hall hmem (List.cons_ne_nil _ _) hfinal, fun index hindex => ?_⟩
      have hlow := hfinal.value (index * 2 + 0) (by omega)
      have hhigh := hfinal.value (index * 2 + 1) (by omega)
      rw [firstWriter_piece hrate hall (by decide)] at hlow hhigh
      rw [sampleAt, firstWriterSample, ← Nat.add_zero (index * 2), hlow, hhigh]
      cases (first :: rest).find? (·.coversSample sampleRate first.startMs index) with
      | none => rfl
      | some chunk => rfl

/-- A chunk as it is loaded from its file. -/
def speakerChunk (sequence startMs : ℕ) (pcm : List UInt8) : LoadedChunk where
  userId := "42"
  sequence := sequence
  startMs := startMs
  durationMs := pcmDurationMs pcm 1000
  sampleRate := 1000
  pcm := pcm
  path := ⟨"audio", chunkFileName "42" sequence startMs⟩

/-- A gap, then a chunk that straddles the end of an earlier one that also covers a
third. -/
theorem stitched_gap_and_overlap :
    let chunks := [speakerChunk 3 15 [9, 9], speakerChunk 2 14 [5, 0, 6, 0, 7, 0],
      speakerChunk 1 10 [1, 0, 2, 0], speakerChunk 4 16 [0, 8, 1, 8]]
    stitchSpeakerAudio 1000 chunks =
        .ok [1, 0, 2, 0, 0, 0, 0, 0, 5, 0, 6, 0, 7, 0, 1, 8] ∧
      ∀ index < 8, sampleAt [1, 0, 2, 0, 0, 0, 0, 0, 5, 0, 6, 0, 7, 0, 1, 8] index =
        firstWriterSample 1000 10 (sortSpeakerChunks chunks) index := by
  intro chunks
  have hok : stitchSpeakerAudio 1000 chunks =
      .ok [1, 0, 2, 0, 0, 0, 0, 0, 5, 0, 6, 0, 7, 0, 1, 8] := by decide +kernel
  have honTimeline : ∀ chunk ∈ chunks, chunk.OnTimeline 1000 := by
    have hfields : ∀ chunk ∈ chunks, chunk.sampleRate = 1000 ∧
        chunk.durationMs = pcmDurationMs chunk.pcm 1000 ∧
        chunk.pcm.length % bytesPerMs 1000 = 0 ∧ chunk.startMs + chunk.durationMs ≤ u64Max := by
      decide +kernel
    exact fun chunk hchunk => ⟨(hfields chunk hchunk).1, (hfields chunk hchunk).2.1,
      (hfields chunk hchunk).2.2.1, (hfields chunk hchunk).2.2.2⟩
  have hfirst : (sortSpeakerChunks chunks).head? = some (speakerChunk 1 10 [1, 0, 2, 0]) := by
    decide +kernel
  exact ⟨hok, (speaker_audio_eq_first_writer 1000 (by decide) chunks honTimeline hfirst hok).2⟩

/-- Two chunks that overlap by one millisecond at the largest time. -/
def lateChunks : List LoadedChunk :=
  [speakerChunk 1 (u64Max - 1) [1, 0, 2, 0], speakerChunk 2 u64Max [3, 0, 4, 0]]

/-- The end of the first chunk saturates, so the overlap is written twice. -/
theorem late_chunks_played_twice :
    (∀ chunk ∈ lateChunks, chunk.sampleRate = 1000 ∧
        chunk.durationMs = pcmDurationMs chunk.pcm 1000 ∧
        chunk.pcm.length % bytesPerMs 1000 = 0 ∧ chunk.startMs ≤ u64Max) ∧
      stitchSpeakerAudio 1000 lateChunks = .ok [1, 0, 2, 0, 3, 0, 4, 0] ∧
      ([1, 0, 2, 0, 3, 0, 4, 0] : List UInt8).length ≠
        (latestEndMs lateChunks - (u64Max - 1)) * bytesPerMs 1000 ∧
      sampleAt [1, 0, 2, 0, 3, 0, 4, 0] 2 ≠
        firstWriterSample 1000 (u64Max - 1) (sortSpeakerChunks lateChunks) 2 := by
  decide +kernel

end DiscordTranscript.Audio
