import DiscordTranscript.Audio.FrameAssembly

/-! # When a buffered chunk fits into a WAV

The receiver bounds the bytes and the time span of a user's buffer separately, each by
what one WAV chunk can hold. The assembler writes the silence before late audio and then
all audio that overlaps back to back, so the two bounds together do not bound its output.
What does is stated here frame by frame: the silence and the rests up to a frame, and all
audio from that frame on.
-/

namespace DiscordTranscript.Audio

open MachineInt

/-- Bytes of audio that one millisecond holds at 48 kHz. -/
def receiverBytesPerMs : ℕ := 96

/-- What the audio of the frames has beyond whole milliseconds. -/
def subMsBytes (frames : List BufferedFrame) : ℕ :=
  (frames.map fun frame => frame.pcm16leBytes.length % receiverBytesPerMs).sum

/-- From every frame on, in timestamp order, the audio fits behind the time that has passed
since the first frame and behind the rests of the frames before. -/
def FitsWavChunk (frames : List BufferedFrame) : Prop :=
  ∀ earliest, (frames.map (·.timestampMs)).min? = some earliest →
    ∀ front frame back, sortFrames frames = front ++ frame :: back →
      (frame.timestampMs - earliest) * receiverBytesPerMs + subMsBytes front +
        totalBytes (frame :: back) ≤ maxWavChunkPcmBytes

theorem fitsWavChunk_iff (frames : List BufferedFrame) : FitsWavChunk frames ↔
    ∀ earliest ∈ (frames.map (·.timestampMs)).min?, ∀ place : Fin (sortFrames frames).length,
      (((sortFrames frames).get place).timestampMs - earliest) * receiverBytesPerMs +
          subMsBytes ((sortFrames frames).take place) + totalBytes ((sortFrames frames).drop place) ≤
        maxWavChunkPcmBytes := by
  constructor
  · intro hfits earliest hearliest place
    have hsplit := List.getElem_cons_drop place.isLt
    have hfront := hfits earliest hearliest ((sortFrames frames).take place)
      ((sortFrames frames).get place) ((sortFrames frames).drop (place + 1))
    rw [List.get_eq_getElem, hsplit, List.take_append_drop] at hfront
    exact hfront rfl
  · intro hplaces earliest hearliest front frame back hsplit
    have hplace := hplaces earliest hearliest ⟨front.length, by simp [hsplit]⟩
    simpa [hsplit] using hplace

instance (frames : List BufferedFrame) : Decidable (FitsWavChunk frames) :=
  decidable_of_iff _ (fitsWavChunk_iff frames).symm

/-! ## The length of the output -/

theorem duration_add_rest {frame : BufferedFrame} (heven : frame.pcm16leBytes.length % 2 = 0) :
    pcmDurationMs frame.pcm16leBytes receiverSpanSampleRate * receiverBytesPerMs +
      frame.pcm16leBytes.length % receiverBytesPerMs = frame.pcm16leBytes.length := by
  rw [pcmDurationMs_of_pos (by decide)]
  simp only [receiverSpanSampleRate, receiverBytesPerMs]
  omega

theorem subMsBytes_le_totalBytes (frames : List BufferedFrame) :
    subMsBytes frames ≤ totalBytes frames := by
  induction frames with
  | nil => rfl
  | cons frame rest ih =>
      have hrest : subMsBytes (frame :: rest) =
          frame.pcm16leBytes.length % receiverBytesPerMs + subMsBytes rest := by
        simp [subMsBytes]
      have hmod := Nat.mod_le frame.pcm16leBytes.length receiverBytesPerMs
      rw [hrest, totalBytes_cons]
      omega

theorem gapBytes_receiver {assembly : PcmAssembly} {endMs : ℕ} (frame : BufferedFrame)
    (hend : assembly.outputEndMs = some endMs) :
    assembly.gapBytes frame receiverSpanSampleRate =
      (frame.timestampMs - endMs) * receiverBytesPerMs := by
  simp only [PcmAssembly.gapBytes, hend, receiverSpanSampleRate, receiverBytesPerMs]
  omega

/-- Whether the output stays within a bound, from a position of the loop on. -/
theorem length_layFrames_le_iff {assembly : PcmAssembly} {endMs : ℕ} (limit : ℕ)
    (frames : List BufferedFrame) (hend : assembly.outputEndMs = some endMs)
    (hendMax : endMs ≤ u64Max)
    (htime : ∀ frame ∈ frames, frame.timestampMs ≤ u64Max)
    (heven : ∀ frame ∈ frames, frame.pcm16leBytes.length % 2 = 0) :
    (assembly.layFrames receiverSpanSampleRate frames).pcm.length ≤ limit ↔
      assembly.pcm.length + totalBytes frames ≤ limit ∧
        ∀ front frame back, frames = front ++ frame :: back →
          assembly.pcm.length + (frame.timestampMs - endMs) * receiverBytesPerMs +
            subMsBytes front + totalBytes (frame :: back) ≤ limit := by
  induction frames generalizing assembly endMs with
  | nil => simp [PcmAssembly.layFrames, totalBytes]
  | cons frame rest ih =>
      have hrest := duration_add_rest (heven frame List.mem_cons_self)
      have hgap := gapBytes_receiver frame hend
      have hframeTime := htime frame List.mem_cons_self
      set duration := pcmDurationMs frame.pcm16leBytes receiverSpanSampleRate with hduration
      have hnext : (assembly.layFrame receiverSpanSampleRate frame).outputEndMs =
          some (saturatingAdd u64Max (max endMs frame.timestampMs) duration) := by
        simp [PcmAssembly.layFrame, PcmAssembly.frameStartMs, hend, hduration]
      have hlay : assembly.layFrames receiverSpanSampleRate (frame :: rest) =
          (assembly.layFrame receiverSpanSampleRate frame).layFrames receiverSpanSampleRate rest :=
        rfl
      rw [hlay, ih hnext (by simp only [saturatingAdd]; omega)
        (fun other hother => htime other (List.mem_cons_of_mem _ hother))
        (fun other hother => heven other (List.mem_cons_of_mem _ hother)),
        length_layFrame, hgap]
      have htotal : totalBytes (frame :: rest) =
          frame.pcm16leBytes.length + totalBytes rest := totalBytes_cons _ _
      constructor
      · rintro ⟨hall, hlater⟩
        refine ⟨by omega, ?_⟩
        intro front other back hsplit
        cases front with
        | nil =>
            obtain ⟨rfl, rfl⟩ := List.cons.inj hsplit
            simp only [subMsBytes, List.map_nil, List.sum_nil]
            omega
        | cons head front =>
            obtain ⟨rfl, hrestSplit⟩ := List.cons.inj hsplit
            have hother := hlater front other back hrestSplit
            have hotherTime := htime other (by simp [hrestSplit])
            have hmore : subMsBytes (frame :: front) =
                frame.pcm16leBytes.length % receiverBytesPerMs + subMsBytes front := by
              simp [subMsBytes]
            simp only [saturatingAdd, receiverBytesPerMs] at hother hrest hmore ⊢
            omega
      · rintro ⟨hall, hlater⟩
        have hfirst := hlater [] frame rest rfl
        simp only [subMsBytes, List.map_nil, List.sum_nil] at hfirst
        refine ⟨by omega, ?_⟩
        intro front other back hsplit
        have hother := hlater (frame :: front) other back (by rw [hsplit]; rfl)
        have hotherTime := htime other (by simp [hsplit])
        have hmore : subMsBytes (frame :: front) =
            frame.pcm16leBytes.length % receiverBytesPerMs + subMsBytes front := by
          simp [subMsBytes]
        have hback : subMsBytes front + totalBytes (other :: back) ≤ totalBytes rest := by
          rw [hsplit, totalBytes_append]
          have hfront := subMsBytes_le_totalBytes front
          omega
        simp only [saturatingAdd, receiverBytesPerMs] at hother hrest hmore hfirst ⊢
        omega

/-! ## Building a chunk -/

theorem pcmLength_sortFrames_le_iff {frames : List BufferedFrame}
    (htime : ∀ frame ∈ frames, frame.timestampMs ≤ u64Max)
    (heven : ∀ frame ∈ frames, frame.pcm16leBytes.length % 2 = 0) :
    (PcmAssembly.layFrames receiverSpanSampleRate (sortFrames frames) {}).pcm.length ≤
        maxWavChunkPcmBytes ↔ FitsWavChunk frames := by
  have hmem (frame : BufferedFrame) : frame ∈ sortFrames frames ↔ frame ∈ frames :=
    List.mem_insertionSort _
  unfold FitsWavChunk
  cases hsorted : sortFrames frames with
  | nil => simp [PcmAssembly.layFrames]
  | cons first rest =>
      obtain ⟨hfirst, hle⟩ := sortFrames_head_le hsorted
      have hearliest : (frames.map (·.timestampMs)).min? = some first.timestampMs := by
        apply List.min?_eq_some_iff.mpr
        refine ⟨List.mem_map_of_mem hfirst, ?_⟩
        intro timestampMs htimestamp
        obtain ⟨frame, hframe, rfl⟩ := List.mem_map.mp htimestamp
        exact hle frame hframe
      have hrestMem (frame : BufferedFrame) (hframe : frame ∈ rest) : frame ∈ frames := by
        rw [← hmem, hsorted]
        exact List.mem_cons_of_mem _ hframe
      have hduration := duration_add_rest (heven first hfirst)
      have hfirstTime := htime first hfirst
      have hlay : PcmAssembly.layFrames receiverSpanSampleRate (first :: rest) {} =
          (PcmAssembly.layFrame receiverSpanSampleRate {} first).layFrames
            receiverSpanSampleRate rest := rfl
      have hlength : (PcmAssembly.layFrame receiverSpanSampleRate {} first).pcm.length =
          first.pcm16leBytes.length := by
        simp [length_layFrame, PcmAssembly.gapBytes]
      rw [hlay, length_layFrames_le_iff maxWavChunkPcmBytes rest rfl
        (by simp only [saturatingAdd]; omega)
        (fun frame hframe => htime frame (hrestMem frame hframe))
        (fun frame hframe => heven frame (hrestMem frame hframe)), hlength]
      simp only [PcmAssembly.frameStartMs, Option.elim_none, hearliest, Option.some.injEq,
        forall_eq']
      have hmore (front : List BufferedFrame) : subMsBytes (first :: front) =
          first.pcm16leBytes.length % receiverBytesPerMs + subMsBytes front := by
        simp [subMsBytes]
      have htotal : totalBytes (first :: rest) =
          first.pcm16leBytes.length + totalBytes rest := totalBytes_cons _ _
      constructor
      · rintro ⟨hall, hlater⟩ front frame back hsplit
        cases front with
        | nil =>
            obtain ⟨rfl, rfl⟩ := List.cons.inj hsplit
            simp only [subMsBytes, List.map_nil, List.sum_nil, Nat.sub_self, Nat.zero_mul]
            omega
        | cons head front =>
            obtain ⟨rfl, hrestSplit⟩ := List.cons.inj hsplit
            have hframe := hlater front frame back hrestSplit
            have hframeTime := htime frame (hrestMem frame (by simp [hrestSplit]))
            have hmoreFront := hmore front
            simp only [saturatingAdd, receiverBytesPerMs] at hframe hduration hmoreFront ⊢
            omega
      · intro hall
        have hwhole := hall [] first rest rfl
        simp only [subMsBytes, List.map_nil, List.sum_nil] at hwhole
        refine ⟨by omega, ?_⟩
        intro front frame back hsplit
        have hframe := hall (first :: front) frame back (by rw [hsplit]; rfl)
        have hframeTime := htime frame (hrestMem frame (by simp [hsplit]))
        have hmoreFront := hmore front
        have hback : subMsBytes front + totalBytes (frame :: back) ≤ totalBytes rest := by
          rw [hsplit, totalBytes_append]
          have hfront := subMsBytes_le_totalBytes front
          omega
        simp only [saturatingAdd, receiverBytesPerMs] at hframe hduration hmoreFront ⊢
        omega

/-- At the receiver's sample rate a chunk is built exactly when it fits. -/
theorem buildWavChunk_ok_iff {frames : List BufferedFrame}
    (htime : ∀ frame ∈ frames, frame.timestampMs ≤ u64Max)
    (heven : ∀ frame ∈ frames, frame.pcm16leBytes.length % 2 = 0) :
    (∃ wav, buildWavChunk frames receiverSpanSampleRate = .ok wav) ↔ FitsWavChunk frames := by
  rw [← pcmLength_sortFrames_le_iff htime heven]
  have hevenSorted : ∀ frame ∈ sortFrames frames, frame.pcm16leBytes.length % 2 = 0 := by
    intro frame hframe
    exact heven frame ((List.mem_insertionSort _).mp hframe)
  constructor
  · rintro ⟨wav, hbuild⟩
    obtain ⟨assembly, hfold, -⟩ := Except.bind_eq_ok.mp hbuild
    exact ((foldlM_writeFrame_ok_iff _ (sortFrames frames) {} (by simp)).mp hfold).2.1
  · intro hfits
    have hfold := (foldlM_writeFrame_ok_iff receiverSpanSampleRate
      (sortFrames frames) {} (by simp)).mpr ⟨hevenSorted, hfits, rfl⟩
    have hlength : (PcmAssembly.layFrames receiverSpanSampleRate (sortFrames frames)
        {}).pcm.length % 2 = 0 := by
      cases hsorted : sortFrames frames with
      | nil => rfl
      | cons first rest =>
          rw [← hsorted]
          exact (places_sortFrames 48 (by decide) hsorted heven).even
    obtain ⟨bytes, hbytes⟩ :=
      @buildWavBytes_of_fits _ receiverSpanSampleRate (by decide) hlength hfits
    refine ⟨⟨bytes⟩, ?_⟩
    unfold buildWavChunk
    exact Except.bind_eq_ok.mpr ⟨_, hfold, Except.bind_eq_ok.mpr ⟨bytes, hbytes, rfl⟩⟩

/-! ## Every run of the receiver -/

/-- All buffered frames have a property. -/
def ReceiverState.Holds (good : BufferedFrame → Prop) (state : ReceiverState) : Prop :=
  ∀ key buffer, state.perUser.lookup key = some buffer → ∀ frame ∈ buffer.frames, good frame

/-- The frame of the call, if it brings one, has the property. -/
def ReceiverCall.Brings (good : BufferedFrame → Prop) : ReceiverCall → Prop
  | .trackFrame _ frame _ => good frame
  | _ => True

theorem mem_dropOldestOverLimits {buffer : UserAudioBuffer} {frame : BufferedFrame}
    (hframe : frame ∈ buffer.dropOldestOverLimits.2.frames) : frame ∈ buffer.frames := by
  unfold UserAudioBuffer.dropOldestOverLimits at hframe
  dsimp only at hframe
  split at hframe
  · exact List.mem_of_mem_drop hframe
  · exact hframe

theorem ReceiverState.Holds.step {good : BufferedFrame → Prop} {state : ReceiverState}
    (hwellFormed : state.WellFormed) (hstate : state.Holds good) {call : ReceiverCall}
    (hcall : call.Brings good) : (state.step call).Holds good := by
  intro key buffer hlookup
  cases call with
  | trackFrame userId frame now =>
      rcases trackFrame_lookup hlookup with hold | ⟨-, -, rfl⟩
      · exact hstate key buffer hold
      · intro other hother
        have hframes : ((state.ensureUser userId).pushFrame frame now).frames =
            (state.ensureUser userId).frames ++ [frame] := rfl
        rw [hframes] at hother
        rcases List.mem_append.mp hother with hother | hother
        · unfold ReceiverState.ensureUser at hother
          cases huser : state.perUser.lookup userId with
          | none => simp [huser] at hother
          | some user =>
              rw [huser] at hother
              exact hstate userId user huser other hother
        · rw [List.mem_singleton.mp hother]
          exact hcall
  | takeUserChunk userId => exact hstate key buffer (takeUserChunk_lookup hlookup)
  | flushDueChunks now config order => exact hstate key buffer (takeUserChunks_lookup _ hlookup)
  | flushAllChunks order => exact hstate key buffer (takeUserChunks_lookup _ hlookup)
  | rekeyUser oldId newId =>
      rcases rekeyUser_lookup hlookup with hsame | ⟨oldBuf, hold, rfl⟩ |
        ⟨oldBuf, existing, hold, hnew, rfl⟩
      · exact hstate key buffer hsame
      · exact hstate oldId oldBuf hold
      · intro frame hframe
        obtain ⟨hperm, -, -⟩ := mergeFrom_frames
          (hwellFormed.buffers newId existing hnew).frameInstants_length
          (hwellFormed.buffers oldId oldBuf hold).frameInstants_length
        have hmerged := hperm.mem_iff.mp (mem_dropOldestOverLimits hframe)
        rcases List.mem_append.mp hmerged with hexisting | hmoved
        · exact hstate newId existing hnew frame hexisting
        · exact hstate oldId oldBuf hold frame hmoved

theorem run_holds {good : BufferedFrame → Prop} {calls : List ReceiverCall}
    (hcalls : ∀ call ∈ calls, call.Brings good) :
    (Machine.run ReceiverState.step {} calls).Holds good := by
  have hrun := Machine.run_invariant_of_mem ReceiverState.step
    (fun state => state.WellFormed ∧ state.Holds good)
    (fun state call hcall hstate => ⟨hstate.1.step call, hstate.2.step hstate.1 (hcalls call hcall)⟩)
    ⟨ReceiverState.WellFormed.default, by
      intro key buffer hlookup
      rw [AList.lookup_empty] at hlookup
      cases hlookup⟩
  exact hrun.2

/-- A candidate holds the frames buffered for its user. -/
theorem takeUserChunks_frames {state : ReceiverState} (hstate : state.WellFormed)
    (userIds : List String) {candidate : UserChunkCandidate}
    (hcandidate : candidate ∈ (state.takeUserChunks userIds).1) :
    ∃ buffer, state.perUser.lookup candidate.userId = some buffer ∧
      candidate.frames = buffer.frames := by
  induction userIds generalizing state with
  | nil => simp [ReceiverState.takeUserChunks] at hcandidate
  | cons userId rest ih =>
      simp only [ReceiverState.takeUserChunks] at hcandidate
      rcases List.mem_append.mp hcandidate with hfirst | hlater
      · unfold ReceiverState.takeUserChunk at hfirst
        cases hlookup : state.perUser.lookup userId with
        | none => simp [hlookup] at hfirst
        | some user =>
            rw [hlookup] at hfirst
            dsimp only at hfirst
            split at hfirst
            next => simp at hfirst
            next =>
              rw [Option.toList_some, List.mem_singleton] at hfirst
              rw [hfirst]
              refine ⟨user, ?_, rfl⟩
              dsimp only
              rw [(hstate.buffers userId user hlookup).userId_eq]
              exact hlookup
      · obtain ⟨buffer, hbuffer, hframes⟩ := ih (hstate.takeUserChunk userId) hlater
        exact ⟨buffer, takeUserChunk_lookup hbuffer, hframes⟩

theorem FrameAdmitted.timestamp_le {frame : BufferedFrame} (hframe : FrameAdmitted frame) :
    frame.timestampMs ≤ u64Max := by
  obtain ⟨endMs, hend⟩ := Option.isSome_iff_exists.mp hframe.end_isSome
  obtain ⟨hle, rfl⟩ := checkedAdd_eq_some.mp hend
  omega

/-- The buffers of the users that a flush takes fit into a WAV. -/
def ReceiverState.FlushFits (state : ReceiverState) (candidates : List UserChunkCandidate) : Prop :=
  ∀ candidate ∈ candidates, ∀ buffer, state.perUser.lookup candidate.userId = some buffer →
    FitsWavChunk buffer.frames

instance (state : ReceiverState) (candidates : List UserChunkCandidate) :
    Decidable (state.FlushFits candidates) :=
  inferInstanceAs (Decidable (∀ candidate ∈ candidates,
    ∀ buffer ∈ state.perUser.lookup candidate.userId, FitsWavChunk buffer.frames))

/-- In every reachable state, a flush turns all its candidates into WAVs exactly when the
buffers it takes fit. -/
theorem flushed_chunks_built_iff {calls : List ReceiverCall}
    (hcalls : ∀ call ∈ calls, call.Brings fun frame => frame.pcm16leBytes.length % 2 = 0)
    (now : ℕ) (config : ReceiverConfig) (order : List String) :
    let state := Machine.run ReceiverState.step {} calls
    ∀ candidates ∈ [(state.flushDueChunks now config order).1, (state.flushAllChunks order).1],
      (∀ candidate ∈ candidates,
        ∃ wav, buildWavChunk candidate.frames receiverSpanSampleRate = .ok wav) ↔
        state.FlushFits candidates := by
  intro state candidates hcandidates
  have hwellFormed : state.WellFormed := receiver_run_wellFormed calls
  have heven := run_holds hcalls
  have hflushed : ∀ candidate ∈ candidates, ∃ buffer,
      state.perUser.lookup candidate.userId = some buffer ∧ candidate.frames = buffer.frames := by
    intro candidate hcandidate
    simp only [List.mem_cons, List.not_mem_nil, or_false] at hcandidates
    rcases hcandidates with rfl | rfl
    · exact takeUserChunks_frames hwellFormed _ hcandidate
    · exact takeUserChunks_frames hwellFormed _ hcandidate
  have hone : ∀ candidate ∈ candidates, ∀ buffer,
      state.perUser.lookup candidate.userId = some buffer →
      ((∃ wav, buildWavChunk candidate.frames receiverSpanSampleRate = .ok wav) ↔
        FitsWavChunk buffer.frames) := by
    intro candidate hcandidate buffer hbuffer
    obtain ⟨held, hheld, hframes⟩ := hflushed candidate hcandidate
    cases hbuffer.symm.trans hheld
    rw [hframes]
    apply buildWavChunk_ok_iff
    · intro frame hframe
      exact ((hwellFormed.buffers _ buffer hbuffer).admitted frame hframe).timestamp_le
    · exact heven _ buffer hbuffer
  constructor
  · intro hbuilt candidate hcandidate buffer hbuffer
    exact (hone candidate hcandidate buffer hbuffer).mp (hbuilt candidate hcandidate)
  · intro hfits candidate hcandidate
    obtain ⟨buffer, hbuffer, -⟩ := hflushed candidate hcandidate
    exact (hone candidate hcandidate buffer hbuffer).mpr
      (hfits candidate hcandidate buffer hbuffer)

/-- A millisecond of audio, three milliseconds after two of silence, and one in the middle of
these three. -/
def talkedFrames : List BufferedFrame :=
  [⟨1000, List.replicate 96 0⟩, ⟨1003, List.replicate 288 0⟩, ⟨1004, List.replicate 96 0⟩]

theorem talked_frames_built :
    ((Machine.run ReceiverState.step {} (talkedFrames.map (.trackFrame "alice" · 0))).flushAllChunks
        ["alice"]).1 = [⟨"alice", 1000, talkedFrames⟩] ∧
      ∀ candidate ∈ ((Machine.run ReceiverState.step {}
          (talkedFrames.map (.trackFrame "alice" · 0))).flushAllChunks ["alice"]).1,
        ∃ wav, buildWavChunk candidate.frames receiverSpanSampleRate = .ok wav := by
  refine ⟨by decide +kernel, ?_⟩
  refine (flushed_chunks_built_iff ?_ 0 ⟨0, 0⟩ ["alice"] _
    (List.mem_cons_of_mem _ List.mem_cons_self)).mpr (by decide +kernel)
  have heven : ∀ frame ∈ talkedFrames, frame.pcm16leBytes.length % 2 = 0 := by decide +kernel
  intro call hcall
  obtain ⟨frame, hframe, rfl⟩ := List.mem_map.mp hcall
  exact heven frame hframe
/-- A sample at the beginning, and twice the same twenty milliseconds at the end of the span. -/
def lateFrames : List BufferedFrame :=
  [⟨0, [1, 0]⟩, ⟨699030, List.replicate 1920 0⟩, ⟨699030, List.replicate 1920 0⟩]

/-- Both limits of the receiver accept the frames, and no WAV can be built from them. -/
theorem late_overlap_discarded :
    (∀ call ∈ lateFrames.map (ReceiverCall.trackFrame "alice" · 0),
        call.Brings fun frame => frame.pcm16leBytes.length % 2 = 0) ∧
      ∃ candidate ∈ ((Machine.run ReceiverState.step {}
          (lateFrames.map (.trackFrame "alice" · 0))).flushAllChunks ["alice"]).1,
        ¬ ∃ wav, buildWavChunk candidate.frames receiverSpanSampleRate = .ok wav := by
  have hflush : ((Machine.run ReceiverState.step {}
      (lateFrames.map (.trackFrame "alice" · 0))).flushAllChunks ["alice"]).1 =
        [⟨"alice", 0, lateFrames⟩] := by decide +kernel
  have heven : ∀ frame ∈ lateFrames, frame.pcm16leBytes.length % 2 = 0 := by decide +kernel
  refine ⟨?_, ⟨"alice", 0, lateFrames⟩, ?_, ?_⟩
  · intro call hcall
    obtain ⟨frame, hframe, rfl⟩ := List.mem_map.mp hcall
    exact heven frame hframe
  · rw [hflush]
    exact List.mem_cons_self
  · rw [buildWavChunk_ok_iff (by decide +kernel) heven]
    intro hfits
    have hlate := hfits 0 (by decide +kernel) [⟨0, [1, 0]⟩] ⟨699030, List.replicate 1920 0⟩
      [⟨699030, List.replicate 1920 0⟩] (by decide +kernel)
    revert hlate
    decide +kernel

end DiscordTranscript.Audio
