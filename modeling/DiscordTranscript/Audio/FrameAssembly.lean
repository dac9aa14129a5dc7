import DiscordTranscript.Audio.ReceiverTimeline
import DiscordTranscript.Foundation.Fallible

/-! # Where the assembler places each frame

`build_wav_chunk` keeps its position in whole milliseconds and appends audio in
samples. Without the size limit the loop is a pure fold; the limit only decides whether
its result is returned. Frames keep their order and their bytes, silence stands only
between them, and no frame is placed before its timestamp. With frames of whole
milliseconds that do not overlap every frame is placed exactly at its timestamp.
-/

namespace DiscordTranscript.Audio

open MachineInt

/-! ## The loop without its limit -/

namespace PcmAssembly

/-- The silence in front of a frame. -/
def gapBytes (assembly : PcmAssembly) (frame : BufferedFrame) (sampleRate : ℕ) : ℕ :=
  match assembly.outputEndMs with
  | none => 0
  | some endMs => (frame.timestampMs - endMs) * sampleRate / 1000 * 2

/-- Where a frame begins on the timeline that the output follows. -/
def frameStartMs (assembly : PcmAssembly) (frame : BufferedFrame) : ℕ :=
  assembly.outputEndMs.elim frame.timestampMs (max · frame.timestampMs)

def layFrame (sampleRate : ℕ) (assembly : PcmAssembly) (frame : BufferedFrame) : PcmAssembly :=
  { pcm := assembly.pcm ++ List.replicate (assembly.gapBytes frame sampleRate) 0 ++
      frame.pcm16leBytes
    outputEndMs := some (saturatingAdd u64Max (assembly.frameStartMs frame)
      (pcmDurationMs frame.pcm16leBytes sampleRate)) }

def layFrames (sampleRate : ℕ) (frames : List BufferedFrame) (assembly : PcmAssembly) :
    PcmAssembly :=
  frames.foldl (layFrame sampleRate) assembly

end PcmAssembly

theorem maxWavChunkPcmBytes_le_usizeMax : maxWavChunkPcmBytes ≤ usizeMax := by
  simp only [maxWavChunkPcmBytes, usizeMax, u64Max]
  omega

theorem checkedPcmGrowth_ok_iff {current additional next : ℕ} :
    checkedPcmGrowth current additional maxWavChunkPcmBytes = .ok next ↔
      current + additional ≤ maxWavChunkPcmBytes ∧ next = current + additional := by
  have hmax := maxWavChunkPcmBytes_le_usizeMax
  unfold checkedPcmGrowth checkedAdd
  by_cases hfits : current + additional ≤ maxWavChunkPcmBytes
  · have husize : current + additional ≤ usizeMax := by omega
    have hbelow : ¬ current + additional > maxWavChunkPcmBytes := by omega
    simp only [husize, hbelow, hfits, if_true, if_false, Except.ok.injEq, true_and]
    exact eq_comm
  · simp only [hfits, false_and, iff_false]
    by_cases husize : current + additional ≤ usizeMax
    · have habove : current + additional > maxWavChunkPcmBytes := by omega
      simp [husize, habove]
    · simp [husize]

/-- The gap is written when it fits, and the position moves to the frame. -/
theorem padGap_ok_iff {assembly padded : PcmAssembly} {frame : BufferedFrame} {sampleRate : ℕ}
    (hlength : assembly.pcm.length ≤ maxWavChunkPcmBytes) :
    assembly.padGap frame sampleRate = .ok padded ↔
      assembly.pcm.length + assembly.gapBytes frame sampleRate ≤ maxWavChunkPcmBytes ∧
        padded.pcm = assembly.pcm ++ List.replicate (assembly.gapBytes frame sampleRate) 0 ∧
        padded.outputEndMs = assembly.outputEndMs.map (max · frame.timestampMs) := by
  have husize := maxWavChunkPcmBytes_le_usizeMax
  obtain ⟨pcm, outputEndMs⟩ := assembly
  obtain ⟨paddedPcm, paddedEndMs⟩ := padded
  cases outputEndMs with
  | none =>
      simp only [PcmAssembly.padGap, PcmAssembly.gapBytes, Except.ok.injEq, PcmAssembly.mk.injEq,
        Option.map_none, List.replicate_zero, List.append_nil, Nat.add_zero]
      constructor
      · rintro ⟨rfl, rfl⟩
        exact ⟨hlength, rfl, rfl⟩
      · rintro ⟨-, rfl, rfl⟩
        exact ⟨rfl, rfl⟩
  | some endMs =>
      by_cases hlater : frame.timestampMs > endMs
      · have hmax : max endMs frame.timestampMs = frame.timestampMs := by omega
        simp only [PcmAssembly.padGap, hlater, if_true, PcmAssembly.gapBytes, Option.map_some, hmax]
        generalize hgap : (frame.timestampMs - endMs) * sampleRate / 1000 * 2 = gap
        have hbytes : (pcmByteLenForDurationMs (frame.timestampMs - endMs) sampleRate).getD
            usizeMax = if gap ≤ usizeMax then gap else usizeMax := by
          unfold pcmByteLenForDurationMs
          dsimp only
          rw [hgap]
          split <;> rfl
        rw [hbytes]
        refine Except.bind_eq_ok.trans ?_
        simp only [checkedPcmGrowth_ok_iff]
        by_cases hgapFits : gap ≤ usizeMax
        · simp only [hgapFits, if_true]
          constructor
          · rintro ⟨next, ⟨hfits, rfl⟩, hnext⟩
            cases hnext
            refine ⟨hfits, ?_, rfl⟩
            rw [Nat.add_sub_cancel_left]
          · rintro ⟨hfits, rfl, rfl⟩
            refine ⟨_, ⟨hfits, rfl⟩, ?_⟩
            rw [Nat.add_sub_cancel_left]
            rfl
        · simp only [hgapFits, if_false]
          constructor
          · rintro ⟨next, ⟨hfits, -⟩, -⟩
            simp only [maxWavChunkPcmBytes, usizeMax, u64Max] at hfits
            omega
          · rintro ⟨hfits, -⟩
            omega
      · have hzero : (frame.timestampMs - endMs) * sampleRate / 1000 * 2 = 0 := by
          rw [Nat.sub_eq_zero_of_le (by omega)]
          simp
        have hmax : max endMs frame.timestampMs = endMs := by omega
        simp only [PcmAssembly.padGap, hlater, if_false, PcmAssembly.gapBytes, hzero,
          Except.ok.injEq, PcmAssembly.mk.injEq, Option.map_some, hmax, List.replicate_zero,
          List.append_nil, Nat.add_zero]
        constructor
        · rintro ⟨rfl, rfl⟩
          exact ⟨hlength, rfl, rfl⟩
        · rintro ⟨-, rfl, rfl⟩
          exact ⟨rfl, rfl⟩

theorem length_layFrame (sampleRate : ℕ) (assembly : PcmAssembly) (frame : BufferedFrame) :
    (assembly.layFrame sampleRate frame).pcm.length =
      assembly.pcm.length + assembly.gapBytes frame sampleRate + frame.pcm16leBytes.length := by
  simp [PcmAssembly.layFrame, Nat.add_assoc]

/-- A round of the loop lays the frame, or it fails at an odd length or at the limit. -/
theorem writeFrame_ok_iff {assembly next : PcmAssembly} {frame : BufferedFrame} {sampleRate : ℕ}
    (hlength : assembly.pcm.length ≤ maxWavChunkPcmBytes) :
    assembly.writeFrame sampleRate frame = .ok next ↔
      frame.pcm16leBytes.length % 2 = 0 ∧
        (assembly.layFrame sampleRate frame).pcm.length ≤ maxWavChunkPcmBytes ∧
        next = assembly.layFrame sampleRate frame := by
  rw [length_layFrame]
  unfold PcmAssembly.writeFrame
  by_cases heven : frame.pcm16leBytes.length % 2 = 0
  · simp only [heven, ne_eq, not_true_eq_false, if_false, true_and]
    refine Except.bind_eq_ok.trans ?_
    simp only [padGap_ok_iff hlength]
    have hstart : ∀ padded : PcmAssembly,
        padded.outputEndMs = assembly.outputEndMs.map (max · frame.timestampMs) →
        padded.outputEndMs.getD frame.timestampMs = assembly.frameStartMs frame := by
      intro padded hpadded
      rw [hpadded]
      unfold PcmAssembly.frameStartMs
      cases assembly.outputEndMs <;> rfl
    constructor
    · rintro ⟨padded, ⟨hgap, hpcm, hend⟩, hrest⟩
      obtain ⟨grown, hgrown, hnext⟩ := Except.bind_eq_ok.mp hrest
      obtain ⟨hfits, -⟩ := checkedPcmGrowth_ok_iff.mp hgrown
      cases hnext
      rw [hpcm, List.length_append, List.length_replicate] at hfits
      refine ⟨hfits, ?_⟩
      simp only [PcmAssembly.layFrame, hstart padded hend, hpcm]
    · rintro ⟨hfits, rfl⟩
      refine ⟨⟨assembly.pcm ++ List.replicate (assembly.gapBytes frame sampleRate) 0,
        assembly.outputEndMs.map (max · frame.timestampMs)⟩, ⟨by omega, rfl, rfl⟩, ?_⟩
      refine Except.bind_eq_ok.mpr ⟨_, checkedPcmGrowth_ok_iff.mpr ⟨?_, rfl⟩, ?_⟩
      · simpa [Nat.add_assoc] using hfits
      · rw [hstart _ rfl]
        rfl
  · simp only [heven, ne_eq, not_false_eq_true, if_true, false_and, iff_false]
    intro hok
    cases hok

theorem length_le_layFrames (sampleRate : ℕ) (frames : List BufferedFrame)
    (assembly : PcmAssembly) :
    assembly.pcm.length ≤ (assembly.layFrames sampleRate frames).pcm.length := by
  induction frames generalizing assembly with
  | nil => exact Nat.le_refl _
  | cons frame rest ih =>
      have hrest := ih (assembly.layFrame sampleRate frame)
      rw [length_layFrame] at hrest
      exact le_trans (by omega) hrest

/-- The loop returns the pure fold exactly when all lengths are even and the result fits. -/
theorem foldlM_writeFrame_ok_iff (sampleRate : ℕ) (frames : List BufferedFrame)
    (assembly : PcmAssembly) {final : PcmAssembly} (hlength : assembly.pcm.length ≤ maxWavChunkPcmBytes) :
    frames.foldlM (PcmAssembly.writeFrame sampleRate) assembly = .ok final ↔
      (∀ frame ∈ frames, frame.pcm16leBytes.length % 2 = 0) ∧
        (assembly.layFrames sampleRate frames).pcm.length ≤ maxWavChunkPcmBytes ∧
        final = assembly.layFrames sampleRate frames := by
  induction frames generalizing assembly with
  | nil =>
      simp only [List.foldlM_nil, PcmAssembly.layFrames, List.foldl_nil, List.not_mem_nil,
        false_implies, implies_true, true_and, hlength]
      constructor
      · intro hok
        cases hok
        rfl
      · rintro rfl
        rfl
  | cons frame rest ih =>
      rw [List.foldlM_cons]
      refine Except.bind_eq_ok.trans ?_
      have hlay : assembly.layFrames sampleRate (frame :: rest) =
          (assembly.layFrame sampleRate frame).layFrames sampleRate rest := rfl
      rw [hlay, List.forall_mem_cons]
      constructor
      · rintro ⟨next, hnext, hrest⟩
        obtain ⟨heven, hfits, rfl⟩ := (writeFrame_ok_iff hlength).mp hnext
        obtain ⟨hevens, hall, hfinal⟩ := (ih _ hfits).mp hrest
        exact ⟨⟨heven, hevens⟩, hall, hfinal⟩
      · rintro ⟨⟨heven, hevens⟩, hall, hfinal⟩
        have hfits := (length_le_layFrames sampleRate rest
          (assembly.layFrame sampleRate frame)).trans hall
        exact ⟨_, (writeFrame_ok_iff hlength).mpr ⟨heven, hfits, rfl⟩,
          (ih _ hfits).mpr ⟨hevens, hall, hfinal⟩⟩

/-! ## Placement -/

/-- The body consists of the frames in order, each at its byte offset, with only zero bytes
between them. -/
inductive Assembled : List UInt8 → List (BufferedFrame × ℕ) → Prop
  | nil : Assembled [] []
  | first (frame : BufferedFrame) : Assembled frame.pcm16leBytes [(frame, 0)]
  | next {pcm : List UInt8} {placed : List (BufferedFrame × ℕ)} (gap : ℕ) (frame : BufferedFrame)
      (hplaced : Assembled pcm placed) (hne : placed ≠ []) :
      Assembled (pcm ++ List.replicate gap 0 ++ frame.pcm16leBytes)
        (placed ++ [(frame, pcm.length + gap)])

/-- The state of the loop after the frames `placed`, at `perMs` samples a millisecond. -/
structure PcmAssembly.Places (perMs origin : ℕ) (assembly : PcmAssembly)
    (placed : List (BufferedFrame × ℕ)) : Prop where
  assembled : Assembled assembly.pcm placed
  even : assembly.pcm.length % 2 = 0
  nonempty : placed ≠ []
  ahead : ∃ endMs, assembly.outputEndMs = some endMs ∧
    (endMs - origin) * perMs * 2 ≤ assembly.pcm.length
  offsets : ∀ entry ∈ placed, entry.2 % 2 = 0 ∧
    (entry.1.timestampMs - origin) * perMs * 2 ≤ entry.2

theorem pcmDurationMs_mul_le {pcm : List UInt8} {perMs : ℕ} (hrate : 0 < perMs)
    (heven : pcm.length % 2 = 0) :
    pcmDurationMs pcm (1000 * perMs) * perMs * 2 ≤ pcm.length := by
  rw [pcmDurationMs_of_pos (by omega), Nat.mul_comm 1000 perMs,
    Nat.mul_div_mul_right _ _ (by omega : 0 < 1000)]
  have hle := Nat.div_mul_le_self (pcm.length / 2) perMs
  omega

variable {perMs origin : ℕ} {assembly : PcmAssembly} {placed : List (BufferedFrame × ℕ)}

variable (perMs) in
theorem gapBytes_eq {endMs : ℕ} (frame : BufferedFrame)
    (hend : assembly.outputEndMs = some endMs) :
    assembly.gapBytes frame (1000 * perMs) = (frame.timestampMs - endMs) * perMs * 2 := by
  unfold PcmAssembly.gapBytes
  rw [hend]
  dsimp only
  rw [← Nat.mul_assoc, Nat.mul_comm (frame.timestampMs - endMs) 1000, Nat.mul_assoc,
    Nat.mul_div_cancel_left _ (by omega : 0 < 1000)]

theorem places_first (hrate : 0 < perMs) {frame : BufferedFrame}
    (heven : frame.pcm16leBytes.length % 2 = 0) :
    (PcmAssembly.layFrame (1000 * perMs) {} frame).Places perMs frame.timestampMs [(frame, 0)] := by
  have hpcm : (PcmAssembly.layFrame (1000 * perMs) {} frame).pcm = frame.pcm16leBytes := by
    simp [PcmAssembly.layFrame, PcmAssembly.gapBytes]
  constructor
  · rw [hpcm]
    exact Assembled.first frame
  · rw [hpcm]
    exact heven
  · simp
  · refine ⟨_, rfl, ?_⟩
    rw [hpcm]
    have hlasts := pcmDurationMs_mul_le hrate heven
    refine le_trans ?_ hlasts
    gcongr
    simp only [PcmAssembly.frameStartMs, Option.elim_none, saturatingAdd]
    omega
  · intro entry hentry
    rw [List.mem_singleton.mp hentry]
    simp

theorem PcmAssembly.Places.layFrame (hplaces : assembly.Places perMs origin placed)
    (hrate : 0 < perMs) {frame : BufferedFrame} (heven : frame.pcm16leBytes.length % 2 = 0) :
    (assembly.layFrame (1000 * perMs) frame).Places perMs origin
      (placed ++ [(frame, assembly.pcm.length + assembly.gapBytes frame (1000 * perMs))]) := by
  obtain ⟨endMs, hend, hahead⟩ := hplaces.ahead
  have hgap := gapBytes_eq perMs frame hend
  have hlasts := pcmDurationMs_mul_le hrate heven
  have hlength := hplaces.even
  -- Up to the frame the output has at least its samples, with or without a gap.
  have hstart : (max endMs frame.timestampMs - origin) * perMs * 2 ≤
      assembly.pcm.length + assembly.gapBytes frame (1000 * perMs) := by
    rw [hgap]
    have hsplit : (max endMs frame.timestampMs - origin) * perMs * 2 ≤
        (endMs - origin) * perMs * 2 + (frame.timestampMs - endMs) * perMs * 2 := by
      rw [← Nat.add_mul, ← Nat.add_mul]
      gcongr
      omega
    omega
  constructor
  · exact Assembled.next _ frame hplaces.assembled hplaces.nonempty
  · rw [length_layFrame, hgap]
    omega
  · simp
  · refine ⟨_, rfl, ?_⟩
    rw [length_layFrame]
    have hend' : saturatingAdd u64Max (assembly.frameStartMs frame)
        (pcmDurationMs frame.pcm16leBytes (1000 * perMs)) - origin ≤
        (max endMs frame.timestampMs - origin) +
          pcmDurationMs frame.pcm16leBytes (1000 * perMs) := by
      simp only [PcmAssembly.frameStartMs, hend, Option.elim_some, saturatingAdd]
      omega
    have hscaled := Nat.mul_le_mul_right 2 (Nat.mul_le_mul_right perMs hend')
    rw [Nat.add_mul, Nat.add_mul] at hscaled
    omega
  · intro entry hentry
    rcases List.mem_append.mp hentry with hentry | hentry
    · exact hplaces.offsets entry hentry
    · rw [List.mem_singleton.mp hentry]
      refine ⟨by rw [hgap]; omega, le_trans ?_ hstart⟩
      gcongr
      exact le_max_right _ _

/-- The byte offset of every frame that is still to be laid. -/
def PcmAssembly.placements (sampleRate : ℕ) :
    PcmAssembly → List BufferedFrame → List (BufferedFrame × ℕ)
  | _, [] => []
  | assembly, frame :: rest =>
      (frame, assembly.pcm.length + assembly.gapBytes frame sampleRate) ::
        placements sampleRate (assembly.layFrame sampleRate frame) rest

theorem map_fst_placements (sampleRate : ℕ) (assembly : PcmAssembly)
    (frames : List BufferedFrame) :
    (assembly.placements sampleRate frames).map Prod.fst = frames := by
  induction frames generalizing assembly with
  | nil => rfl
  | cons frame rest ih => simp [PcmAssembly.placements, ih]

theorem PcmAssembly.Places.layFrames (hplaces : assembly.Places perMs origin placed)
    (hrate : 0 < perMs) (frames : List BufferedFrame)
    (heven : ∀ frame ∈ frames, frame.pcm16leBytes.length % 2 = 0) :
    (assembly.layFrames (1000 * perMs) frames).Places perMs origin
      (placed ++ assembly.placements (1000 * perMs) frames) := by
  induction frames generalizing assembly placed with
  | nil => simpa [PcmAssembly.layFrames, PcmAssembly.placements] using hplaces
  | cons frame rest ih =>
      have hrest := ih (hplaces.layFrame hrate (heven frame List.mem_cons_self))
        (fun other hother => heven other (List.mem_cons_of_mem _ hother))
      simpa [PcmAssembly.layFrames, PcmAssembly.placements] using hrest

/-! ## Exact placement -/

/-- The audio of the frame lasts a whole number of milliseconds. -/
def BufferedFrame.WholeMs (perMs : ℕ) (frame : BufferedFrame) : Prop :=
  frame.pcm16leBytes.length % (perMs * 2) = 0

def BufferedFrame.endMs (perMs : ℕ) (frame : BufferedFrame) : ℕ :=
  frame.timestampMs + pcmDurationMs frame.pcm16leBytes (1000 * perMs)

/-- The intervals of two frames do not overlap. A frame without audio has no interval. -/
def BufferedFrame.Disjoint (perMs : ℕ) (left right : BufferedFrame) : Prop :=
  left.pcm16leBytes = [] ∨ right.pcm16leBytes = [] ∨
    left.endMs perMs ≤ right.timestampMs ∨ right.endMs perMs ≤ left.timestampMs

theorem pcmDurationMs_mul_eq (hrate : 0 < perMs) {frame : BufferedFrame}
    (hwhole : frame.WholeMs perMs) :
    pcmDurationMs frame.pcm16leBytes (1000 * perMs) * perMs * 2 =
      frame.pcm16leBytes.length := by
  rw [pcmDurationMs_of_pos (by omega), Nat.mul_comm 1000 perMs,
    Nat.mul_div_mul_right _ _ (by omega : 0 < 1000), Nat.div_div_eq_div_mul, Nat.mul_assoc,
    Nat.mul_comm 2 perMs]
  exact Nat.div_mul_cancel (Nat.dvd_of_mod_eq_zero hwhole)

/-- In timestamp order, of two disjoint frames with audio the first ends before the second. -/
theorem BufferedFrame.Disjoint.ends_before {left right : BufferedFrame} (hrate : 0 < perMs)
    (hdisjoint : left.Disjoint perMs right) (hle : left.timestampMs ≤ right.timestampMs)
    (hleft : left.pcm16leBytes ≠ []) (hright : right.pcm16leBytes ≠ [])
    (hwhole : right.WholeMs perMs) : left.endMs perMs ≤ right.timestampMs := by
  rcases hdisjoint with hnil | hnil | hbefore | hafter
  · exact absurd hnil hleft
  · exact absurd hnil hright
  · exact hbefore
  · have hlasts := pcmDurationMs_mul_eq hrate hwhole
    have hpositive := List.length_pos_of_ne_nil hright
    unfold BufferedFrame.endMs at hafter
    have hzero : pcmDurationMs right.pcm16leBytes (1000 * perMs) = 0 := by omega
    rw [hzero] at hlasts
    omega

variable (origin assembly) in
/-- As long as audio is to come, the output ends exactly where its position says, and not after
the audio to come. -/
theorem placements_exact (hrate : 0 < perMs) (frames : List BufferedFrame) {endMs : ℕ}
    (hend : assembly.outputEndMs = some endMs)
    (hsorted : frames.Pairwise fun left right => left.timestampMs ≤ right.timestampMs)
    (hdisjoint : frames.Pairwise (BufferedFrame.Disjoint perMs))
    (hwhole : ∀ frame ∈ frames, frame.WholeMs perMs)
    (htime : ∀ frame ∈ frames, frame.timestampMs ≤ u64Max)
    (hexact : ∀ frame ∈ frames, frame.pcm16leBytes ≠ [] → origin ≤ endMs ∧
      endMs ≤ frame.timestampMs ∧ assembly.pcm.length = (endMs - origin) * perMs * 2) :
    ∀ entry ∈ assembly.placements (1000 * perMs) frames, entry.1.pcm16leBytes ≠ [] →
      entry.2 = (entry.1.timestampMs - origin) * perMs * 2 := by
  induction frames generalizing assembly endMs with
  | nil => simp [PcmAssembly.placements]
  | cons frame rest ih =>
      obtain ⟨hle, hrestSorted⟩ := List.pairwise_cons.mp hsorted
      obtain ⟨hapart, hrestDisjoint⟩ := List.pairwise_cons.mp hdisjoint
      have hgap := gapBytes_eq perMs frame hend
      have hframeTime := htime frame List.mem_cons_self
      have hlasts := pcmDurationMs_mul_eq hrate (hwhole frame List.mem_cons_self)
      -- Up to the frame the output is exact when the position is not after the frame.
      have hstart (hbefore : origin ≤ endMs ∧ endMs ≤ frame.timestampMs ∧
          assembly.pcm.length = (endMs - origin) * perMs * 2) :
          assembly.pcm.length + assembly.gapBytes frame (1000 * perMs) =
            (frame.timestampMs - origin) * perMs * 2 := by
        rw [hgap, hbefore.2.2, ← Nat.add_mul, ← Nat.add_mul]
        congr 2
        omega
      intro entry hentry haudio
      rcases List.mem_cons.mp hentry with rfl | hentry
      · exact hstart (hexact frame List.mem_cons_self haudio)
      · refine ih (assembly.layFrame (1000 * perMs) frame) rfl hrestSorted
          hrestDisjoint (fun other hother => hwhole other (List.mem_cons_of_mem _ hother))
          (fun other hother => htime other (List.mem_cons_of_mem _ hother)) ?_ entry hentry haudio
        intro other hother hotherAudio
        obtain ⟨horigin, hbefore, hlength⟩ :=
          hexact other (List.mem_cons_of_mem _ hother) hotherAudio
        have hotherTime := htime other (List.mem_cons_of_mem _ hother)
        have hotherLe := hle other hother
        rw [length_layFrame]
        by_cases hframeAudio : frame.pcm16leBytes = []
        · -- A frame without audio only moves the position.
          have hduration : pcmDurationMs frame.pcm16leBytes (1000 * perMs) = 0 := by
            rw [hframeAudio]
            simp [pcmDurationMs]
          simp only [PcmAssembly.frameStartMs, hend, Option.elim_some, hduration, saturatingAdd,
            Nat.add_zero]
          refine ⟨by omega, by omega, ?_⟩
          rw [hgap, hlength, hframeAudio, List.length_nil, Nat.add_zero, ← Nat.add_mul,
            ← Nat.add_mul]
          congr 2
          omega
        · have hframeExact := hexact frame List.mem_cons_self hframeAudio
          have hends := (hapart other hother).ends_before hrate hotherLe hframeAudio hotherAudio
            (hwhole other (List.mem_cons_of_mem _ hother))
          unfold BufferedFrame.endMs at hends
          simp only [PcmAssembly.frameStartMs, hend, Option.elim_some, saturatingAdd]
          refine ⟨by omega, by omega, ?_⟩
          rw [hstart hframeExact, ← hlasts, ← Nat.add_mul, ← Nat.add_mul]
          congr 2
          omega

/-! ## The chunk -/

theorem buildWavChunk_pcm {frames : List BufferedFrame} {sampleRate : ℕ} {wav : WavChunk}
    (hbuild : buildWavChunk frames sampleRate = .ok wav) :
    (∀ frame ∈ frames, frame.pcm16leBytes.length % 2 = 0) ∧
      wav.bytes.drop wavHeaderBytes =
        (PcmAssembly.layFrames sampleRate (sortFrames frames) {}).pcm := by
  obtain ⟨assembly, hfold, hrest⟩ := Except.bind_eq_ok.mp hbuild
  obtain ⟨bytes, hbytes, hwav⟩ := Except.bind_eq_ok.mp hrest
  obtain ⟨heven, -, rfl⟩ := (foldlM_writeFrame_ok_iff _ (sortFrames frames) {} (by simp)).mp hfold
  cases hwav
  refine ⟨?_, buildWavBytes_body hbytes⟩
  intro frame hframe
  exact heven frame ((List.mem_insertionSort _).mpr hframe)

variable (perMs) in
theorem places_sortFrames {frames : List BufferedFrame} {first : BufferedFrame}
    {rest : List BufferedFrame} (hrate : 0 < perMs) (hsorted : sortFrames frames = first :: rest)
    (heven : ∀ frame ∈ frames, frame.pcm16leBytes.length % 2 = 0) :
    (PcmAssembly.layFrames (1000 * perMs) (sortFrames frames) {}).Places perMs first.timestampMs
      (PcmAssembly.placements (1000 * perMs) {} (sortFrames frames)) := by
  have hmem : ∀ frame ∈ first :: rest, frame.pcm16leBytes.length % 2 = 0 := by
    intro frame hframe
    rw [← hsorted] at hframe
    exact heven frame ((List.mem_insertionSort _).mp hframe)
  have hplaces := (places_first hrate (hmem first List.mem_cons_self)).layFrames hrate rest
    (fun frame hframe => hmem frame (List.mem_cons_of_mem _ hframe))
  rw [hsorted]
  exact hplaces

/-- The PCM of a chunk is the bytes of its frames in stable timestamp order with only zero bytes
between them; no frame is placed before its timestamp, and every frame with audio exactly at
its timestamp when all audio lasts whole milliseconds and does not overlap. -/
theorem chunk_frames_placed {frames : List BufferedFrame} {sampleRate : ℕ} {wav : WavChunk}
    (hsupported : isSupportedWavSampleRate sampleRate = true) (hrate : sampleRate % 1000 = 0)
    (htime : ∀ frame ∈ frames, frame.timestampMs ≤ u64Max)
    (hbuild : buildWavChunk frames sampleRate = .ok wav) :
    ∃ placed, Assembled (wav.bytes.drop wavHeaderBytes) placed ∧
      (placed.map Prod.fst).Pairwise
        (fun left right => left.timestampMs ≤ right.timestampMs) ∧
      (∀ timestampMs, (placed.map Prod.fst).filter (·.timestampMs = timestampMs) =
        frames.filter (·.timestampMs = timestampMs)) ∧
      ∀ earliest, (frames.map (·.timestampMs)).min? = some earliest →
        (∀ entry ∈ placed, entry.2 % 2 = 0 ∧
          (entry.1.timestampMs - earliest) * sampleRate / 1000 ≤ entry.2 / 2) ∧
        ((∀ frame ∈ frames, frame.WholeMs (sampleRate / 1000)) →
          frames.Pairwise (BufferedFrame.Disjoint (sampleRate / 1000)) →
          ∀ entry ∈ placed, entry.1.pcm16leBytes ≠ [] →
            entry.2 / 2 = (entry.1.timestampMs - earliest) * sampleRate / 1000) := by
  obtain ⟨heven, hpcm⟩ := buildWavChunk_pcm hbuild
  obtain ⟨perMs, rfl⟩ : ∃ perMs, sampleRate = 1000 * perMs := ⟨sampleRate / 1000, by omega⟩
  have hpositive : 0 < perMs := by
    rcases Nat.eq_zero_or_pos perMs with rfl | hpositive
    · simp [isSupportedWavSampleRate, minSupportedWavSampleRate] at hsupported
    · exact hpositive
  have hscale (ms : ℕ) : ms * (1000 * perMs) / 1000 = ms * perMs := by
    rw [← Nat.mul_assoc, Nat.mul_comm ms 1000, Nat.mul_assoc,
      Nat.mul_div_cancel_left _ (by omega : 0 < 1000)]
  have hframes := map_fst_placements (1000 * perMs) {} (sortFrames frames)
  have hsorted : (sortFrames frames).Pairwise
      fun left right => left.timestampMs ≤ right.timestampMs :=
    List.pairwise_insertionSort_key (fun frame : BufferedFrame => frame.timestampMs) frames
  refine ⟨PcmAssembly.placements (1000 * perMs) {} (sortFrames frames), ?_, ?_, ?_, ?_⟩
  · rw [hpcm]
    cases hcases : sortFrames frames with
    | nil => exact Assembled.nil
    | cons first rest =>
        have hplaces := places_sortFrames perMs hpositive hcases heven
        rw [hcases] at hplaces
        exact hplaces.assembled
  · rw [hframes]
    exact hsorted
  · intro timestampMs
    rw [hframes]
    exact List.filter_insertionSort_key (fun frame : BufferedFrame => frame.timestampMs) frames
      timestampMs
  · intro earliest hearliest
    rw [Nat.mul_div_cancel_left _ (by omega : 0 < 1000)]
    cases hcases : sortFrames frames with
    | nil => simp [PcmAssembly.placements]
    | cons first rest =>
        have hfirst : first.timestampMs = earliest := by
          obtain ⟨hmem, hle⟩ := sortFrames_head_le hcases
          obtain ⟨hleast, hall⟩ := List.min?_eq_some_iff.mp hearliest
          obtain ⟨frame, hframe, rfl⟩ := List.mem_map.mp hleast
          exact le_antisymm (hle frame hframe) (hall _ (List.mem_map_of_mem hmem))
        have hplaces := places_sortFrames perMs hpositive hcases heven
        rw [hcases, hfirst] at hplaces
        constructor
        · intro entry hentry
          obtain ⟨hevenOffset, hle⟩ := hplaces.offsets entry hentry
          rw [hscale]
          exact ⟨hevenOffset, by omega⟩
        · intro hwhole hdisjoint entry hentry haudio
          rw [hscale]
          have hmem (frame : BufferedFrame) (hframe : frame ∈ first :: rest) : frame ∈ frames := by
            rw [← hcases] at hframe
            exact (List.mem_insertionSort _).mp hframe
          have hperm : (first :: rest).Perm frames := by
            rw [← hcases]
            exact List.perm_insertionSort _ _
          have hsymm : ∀ {left right : BufferedFrame}, left.Disjoint perMs right →
              right.Disjoint perMs left := by
            intro left right hapart
            rcases hapart with hnil | hnil | hbefore | hafter
            · exact .inr (.inl hnil)
            · exact .inl hnil
            · exact .inr (.inr (.inr hbefore))
            · exact .inr (.inr (.inl hafter))
          have hapart : (first :: rest).Pairwise (BufferedFrame.Disjoint perMs) :=
            (hperm.pairwise_iff hsymm).mpr hdisjoint
          rw [hcases] at hsorted
          obtain ⟨hle, hrestSorted⟩ := List.pairwise_cons.mp hsorted
          obtain ⟨hfirstApart, hrestApart⟩ := List.pairwise_cons.mp hapart
          have hfirstTime := htime first (hmem first List.mem_cons_self)
          have hlasts := pcmDurationMs_mul_eq hpositive
            (hwhole first (hmem first List.mem_cons_self))
          rcases List.mem_cons.mp hentry with rfl | hrest
          · simp [PcmAssembly.gapBytes, hfirst]
          · have hexact := placements_exact earliest
              (PcmAssembly.layFrame (1000 * perMs) {} first) hpositive rest rfl
              hrestSorted hrestApart
              (fun frame hframe => hwhole frame (hmem frame (List.mem_cons_of_mem _ hframe)))
              (fun frame hframe => htime frame (hmem frame (List.mem_cons_of_mem _ hframe))) ?_
              entry hrest haudio
            · omega
            · intro other hother hotherAudio
              have hotherTime := htime other (hmem other (List.mem_cons_of_mem _ hother))
              have hotherLe := hle other hother
              have hends : first.endMs perMs ≤ other.timestampMs := by
                by_cases hfirstAudio : first.pcm16leBytes = []
                · simpa [BufferedFrame.endMs, hfirstAudio, pcmDurationMs] using hotherLe
                · exact (hfirstApart other hother).ends_before hpositive hotherLe hfirstAudio
                    hotherAudio (hwhole other (hmem other (List.mem_cons_of_mem _ hother)))
              unfold BufferedFrame.endMs at hends
              rw [length_layFrame]
              simp only [PcmAssembly.frameStartMs, Option.elim_none, saturatingAdd,
                PcmAssembly.gapBytes, List.length_nil, Nat.zero_add]
              refine ⟨by omega, by omega, ?_⟩
              rw [← hlasts]
              congr 2
              omega

/-- Two frames out of order with a gap of one millisecond. -/
def gappedFrames : List BufferedFrame := [⟨1003, [5, 0]⟩, ⟨1000, [1, 0, 2, 0]⟩]

theorem gapped_frames_placed :
    ∃ wav placed, buildWavChunk gappedFrames 1000 = .ok wav ∧
      wav.bytes.drop wavHeaderBytes = [1, 0, 2, 0, 0, 0, 5, 0] ∧
      Assembled (wav.bytes.drop wavHeaderBytes) placed ∧
      ∀ entry ∈ placed, entry.1.pcm16leBytes ≠ [] →
        entry.2 / 2 = (entry.1.timestampMs - 1000) * 1000 / 1000 := by
  obtain ⟨wav, hbuild⟩ : ∃ wav, buildWavChunk gappedFrames 1000 = .ok wav := ⟨_, rfl⟩
  have hbody : wav.bytes.drop wavHeaderBytes = [1, 0, 2, 0, 0, 0, 5, 0] := by
    rw [(buildWavChunk_pcm hbuild).2]
    decide
  have htime : ∀ frame ∈ gappedFrames, frame.timestampMs ≤ u64Max := by decide
  obtain ⟨placed, hassembled, -, -, hoffsets⟩ :=
    chunk_frames_placed (by decide) (by decide) htime hbuild
  refine ⟨wav, placed, hbuild, hbody, hassembled, ?_⟩
  apply (hoffsets 1000 (by decide)).2
  · intro frame hframe
    simp only [gappedFrames, List.mem_cons, List.not_mem_nil, or_false] at hframe
    rcases hframe with rfl | rfl <;> simp [BufferedFrame.WholeMs]
  · simp [gappedFrames, BufferedFrame.Disjoint, BufferedFrame.endMs, pcmDurationMs]

end DiscordTranscript.Audio
