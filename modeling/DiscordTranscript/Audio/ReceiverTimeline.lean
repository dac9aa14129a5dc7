import DiscordTranscript.Audio.ReceiverInvariant

/-! # Where a chunk starts on the meeting timeline

A chunk candidate carries the timestamp of the frame that arrived first, while
the WAV assembler writes the frames in timestamp order. The two agree exactly
as long as no accepted frame is earlier than every frame already buffered for
its user: merging and dropping re-establish the agreement, arrival order does not.
-/

namespace DiscordTranscript.Audio

open MachineInt

/-- The candidate's start is its smallest timestamp, and that is where the
first PCM of every WAV assembled from it belongs. -/
def UserChunkCandidate.OnTimeline (candidate : UserChunkCandidate) : Prop :=
  (candidate.frames.map (·.timestampMs)).min? = some candidate.startMs ∧
    ∀ sampleRate wav, buildWavChunk candidate.frames sampleRate = .ok wav →
      ∃ first ∈ candidate.frames, first.timestampMs = candidate.startMs ∧
        first.pcm16leBytes <+: wav.bytes.drop wavHeaderBytes

/-- Whichever user is flushed next, the chunk starts on the timeline. -/
def ReceiverState.CandidatesOnTimeline (state : ReceiverState) : Prop :=
  ∀ userId candidate, (state.takeUserChunk userId).1 = some candidate → candidate.OnTimeline

/-- An accepted frame is not earlier than all the frames it joins. -/
def ReceiverState.KeepsArrivalOrder (state : ReceiverState) : ReceiverCall → Prop
  | .trackFrame userId frame _ =>
      state.frameDropReason userId frame = none →
        ∀ buffer, state.perUser.lookup userId = some buffer →
          ∃ earlier ∈ buffer.frames, earlier.timestampMs ≤ frame.timestampMs
  | _ => True

/-! ## What the assembler writes first -/

theorem padGap_pcm_extends {assembly padded : PcmAssembly} {frame : BufferedFrame}
    {sampleRate : ℕ} (hpad : assembly.padGap frame sampleRate = .ok padded) :
    assembly.pcm <+: padded.pcm := by
  unfold PcmAssembly.padGap at hpad
  split at hpad
  · cases hpad
    exact List.prefix_rfl
  · split at hpad
    · simp only [bind, Except.bind, pure, Except.pure] at hpad
      split at hpad
      · cases hpad
      · cases hpad
        exact List.prefix_append _ _
    · cases hpad
      exact List.prefix_rfl

theorem writeFrame_pcm_prefix {assembly written : PcmAssembly} {frame : BufferedFrame}
    {sampleRate : ℕ} (hwrite : assembly.writeFrame sampleRate frame = .ok written) :
    ∃ padded, assembly.padGap frame sampleRate = .ok padded ∧
      written.pcm = padded.pcm ++ frame.pcm16leBytes := by
  unfold PcmAssembly.writeFrame at hwrite
  simp only [bind, Except.bind, pure, Except.pure, throw, throwThe, MonadExceptOf.throw] at hwrite
  split at hwrite
  · cases hwrite
  · split at hwrite
    · cases hwrite
    next padded hpadded =>
      split at hwrite
      · cases hwrite
      · cases hwrite
        exact ⟨padded, hpadded, rfl⟩

theorem foldlM_writeFrame_prefix {sampleRate : ℕ} (frames : List BufferedFrame)
    {assembly final : PcmAssembly}
    (hfold : frames.foldlM (PcmAssembly.writeFrame sampleRate) assembly = .ok final) :
    assembly.pcm <+: final.pcm := by
  induction frames generalizing assembly with
  | nil =>
      cases hfold
      exact List.prefix_rfl
  | cons frame rest ih =>
      simp only [List.foldlM_cons, bind, Except.bind] at hfold
      split at hfold
      · cases hfold
      next written hwrite =>
        obtain ⟨padded, hpad, hpcm⟩ := writeFrame_pcm_prefix hwrite
        have hfirst : assembly.pcm <+: written.pcm := by
          rw [hpcm]
          exact (padGap_pcm_extends hpad).trans (List.prefix_append _ _)
        exact hfirst.trans (ih hfold)

theorem buildWavBytes_body {pcm wav : List UInt8} {sampleRate channels bitsPerSample : ℕ}
    (hbuild : buildWavBytes pcm sampleRate channels bitsPerSample = .ok wav) :
    wav.drop wavHeaderBytes = pcm := by
  have hshape : ∃ byteRate blockAlign,
      wav = wavFileBytes pcm sampleRate channels byteRate blockAlign bitsPerSample := by
    unfold buildWavBytes at hbuild
    simp only [bind, Except.bind, pure, Except.pure, throw, throwThe, MonadExceptOf.throw] at hbuild
    repeat' split at hbuild
    all_goals first
      | cases hbuild; exact ⟨_, _, rfl⟩
      | cases hbuild
  obtain ⟨byteRate, blockAlign, rfl⟩ := hshape
  unfold wavFileBytes
  apply List.drop_left'
  simp only [List.length_append, length_toLeBytes]
  rfl

/-- The first bytes of an assembled body are those of the earliest frame. -/
theorem buildWavChunk_first {frames : List BufferedFrame} {first : BufferedFrame}
    {rest : List BufferedFrame} {sampleRate : ℕ} {wav : WavChunk}
    (hsorted : sortFrames frames = first :: rest)
    (hbuild : buildWavChunk frames sampleRate = .ok wav) :
    first.pcm16leBytes <+: wav.bytes.drop wavHeaderBytes := by
  unfold buildWavChunk at hbuild
  simp only [hsorted, List.foldlM_cons, bind, Except.bind, pure, Except.pure] at hbuild
  split at hbuild
  · cases hbuild
  next final hfold =>
    split at hbuild
    · cases hbuild
    next bytes hbytes =>
      cases hbuild
      rw [buildWavBytes_body hbytes]
      split at hfold
      · cases hfold
      next written hwrite =>
        obtain ⟨padded, hpad, hpcm⟩ := writeFrame_pcm_prefix hwrite
        -- Nothing precedes the first frame, so there is no gap to pad.
        cases hpad
        have hprefix := foldlM_writeFrame_prefix rest hfold
        rw [hpcm] at hprefix
        exact hprefix

theorem sortFrames_head_le {frames : List BufferedFrame} {first : BufferedFrame}
    {rest : List BufferedFrame} (hsorted : sortFrames frames = first :: rest) :
    first ∈ frames ∧ ∀ frame ∈ frames, first.timestampMs ≤ frame.timestampMs := by
  have hperm : (first :: rest).Perm frames := hsorted ▸ List.perm_insertionSort _ _
  have hpairwise : (first :: rest).Pairwise
      (fun left right => left.timestampMs ≤ right.timestampMs) :=
    hsorted ▸ List.pairwise_insertionSort_key (fun frame : BufferedFrame => frame.timestampMs) _
  refine ⟨hperm.mem_iff.mp List.mem_cons_self, fun frame hmem => ?_⟩
  rcases List.mem_cons.mp (hperm.mem_iff.mpr hmem) with rfl | hrest
  · exact Nat.le_refl _
  · exact List.rel_of_pairwise_cons hpairwise hrest

/-- The timeline property is decided by the smallest timestamp alone. -/
theorem onTimeline_iff (candidate : UserChunkCandidate) :
    candidate.OnTimeline ↔
      (candidate.frames.map (·.timestampMs)).min? = some candidate.startMs := by
  refine ⟨And.left, fun hmin => ⟨hmin, fun sampleRate wav hbuild => ?_⟩⟩
  rw [List.min?_eq_some_iff] at hmin
  obtain ⟨⟨frame, hframe, hstart⟩, hleast⟩ := And.imp_left List.mem_map.mp hmin
  cases hsorted : sortFrames candidate.frames with
  | nil =>
      have hperm : (sortFrames candidate.frames).Perm candidate.frames :=
        List.perm_insertionSort _ _
      rw [hsorted] at hperm
      rw [← hperm.nil_eq] at hframe
      cases hframe
  | cons first rest =>
      obtain ⟨hmem, hle⟩ := sortFrames_head_le hsorted
      refine ⟨first, hmem, ?_, buildWavChunk_first hsorted hbuild⟩
      have hlow := hleast _ (List.mem_map_of_mem hmem)
      have hhigh := hle frame hframe
      omega

/-! ## Arrival order along a run -/

/-- The well-formed states in which the cached first timestamp is that of the
first frame in the buffer; every reachable state is one. -/
structure ReceiverState.FirstFrameCached (state : ReceiverState) : Prop where
  wellFormed : state.WellFormed
  firstFrameMs_eq : ∀ key buffer, state.perUser.lookup key = some buffer →
    buffer.firstFrameMs = buffer.frames.head?.map (·.timestampMs)

/-- The cached first timestamp is the smallest one of the buffer. -/
def UserAudioBuffer.StartsEarliest (buffer : UserAudioBuffer) : Prop :=
  (buffer.frames.map (·.timestampMs)).min? = buffer.firstFrameMs

theorem takeUserChunk_candidate {state : ReceiverState} (hstate : state.FirstFrameCached)
    {key : String} {buffer : UserAudioBuffer} (hlookup : state.perUser.lookup key = some buffer) :
    ∃ startMs, buffer.firstFrameMs = some startMs ∧
      (state.takeUserChunk key).1 =
        some { userId := buffer.userId, startMs := startMs, frames := buffer.frames } := by
  have hne := (hstate.wellFormed.buffers key buffer hlookup).frames_ne_nil
  have hfirst := hstate.firstFrameMs_eq key buffer hlookup
  obtain ⟨first, rest, hframes⟩ := List.exists_cons_of_ne_nil hne
  refine ⟨first.timestampMs, by rw [hfirst, hframes]; rfl, ?_⟩
  simp [ReceiverState.takeUserChunk, hlookup, UserAudioBuffer.takeFrames, hfirst, hframes]

theorem candidatesOnTimeline_iff {state : ReceiverState} (hstate : state.FirstFrameCached) :
    state.CandidatesOnTimeline ↔
      ∀ key buffer, state.perUser.lookup key = some buffer → buffer.StartsEarliest := by
  constructor
  · intro hall key buffer hlookup
    obtain ⟨startMs, hfirst, htake⟩ := takeUserChunk_candidate hstate hlookup
    rw [UserAudioBuffer.StartsEarliest, hfirst]
    exact (onTimeline_iff _).mp (hall key _ htake)
  · intro hall key candidate hcandidate
    cases hlookup : state.perUser.lookup key with
    | none => simp [ReceiverState.takeUserChunk, hlookup] at hcandidate
    | some buffer =>
        obtain ⟨startMs, hfirst, htake⟩ := takeUserChunk_candidate hstate hlookup
        rw [htake] at hcandidate
        cases hcandidate
        rw [onTimeline_iff]
        exact (hall key buffer hlookup).trans hfirst

/-- A buffer in timestamp order starts with its earliest frame. -/
theorem refreshMetadata_startsEarliest {buffer : UserAudioBuffer}
    (hsorted : buffer.frames.Pairwise fun left right => left.timestampMs ≤ right.timestampMs) :
    buffer.refreshMetadata.StartsEarliest := by
  exact List.min?_map_of_pairwise (fun frame : BufferedFrame => frame.timestampMs) hsorted

/-- After a merge the frames are in timestamp order, also when the oldest ones
are dropped, so the cached first timestamp is both the first and the smallest. -/
theorem mergeFrom_dropOldest_first {buffer other : UserAudioBuffer}
    (hbuffer : buffer.frameInstants.length = buffer.frames.length)
    (hother : other.frameInstants.length = other.frames.length) :
    (buffer.mergeFrom other).dropOldestOverLimits.2.StartsEarliest ∧
      (buffer.mergeFrom other).dropOldestOverLimits.2.firstFrameMs =
        (buffer.mergeFrom other).dropOldestOverLimits.2.frames.head?.map (·.timestampMs) := by
  have hsorted := (mergeFrom_frames hbuffer hother).2.1
  unfold UserAudioBuffer.dropOldestOverLimits
  dsimp only
  split
  · exact ⟨refreshMetadata_startsEarliest hsorted.drop, rfl⟩
  · exact ⟨refreshMetadata_startsEarliest hsorted, rfl⟩

/-- Each buffer after a re-key is an old one, a renamed one, or a merged one. -/
theorem rekeyUser_lookup {state : ReceiverState} {oldId newId key : String}
    {buffer : UserAudioBuffer}
    (hlookup : (state.rekeyUser oldId newId).2.perUser.lookup key = some buffer) :
    state.perUser.lookup key = some buffer ∨
      (∃ oldBuf, state.perUser.lookup oldId = some oldBuf ∧
        buffer = { oldBuf with userId := newId }) ∨
      ∃ oldBuf existing, state.perUser.lookup oldId = some oldBuf ∧
        state.perUser.lookup newId = some existing ∧
        buffer = (existing.mergeFrom oldBuf).dropOldestOverLimits.2 := by
  unfold ReceiverState.rekeyUser at hlookup
  cases hold : state.perUser.lookup oldId with
  | none =>
      rw [hold] at hlookup
      exact Or.inl hlookup
  | some oldBuf =>
      rw [hold] at hlookup
      dsimp only at hlookup
      cases hnew : (state.perUser.erase oldId).lookup newId with
      | none =>
          rw [hnew] at hlookup
          rcases AList.lookup_insert_cases hlookup with ⟨-, hrenamed⟩ | hkept
          · exact Or.inr (Or.inl ⟨oldBuf, rfl, hrenamed⟩)
          · exact Or.inl (AList.lookup_of_lookup_erase hkept)
      | some existing =>
          rw [hnew] at hlookup
          rcases AList.lookup_insert_cases hlookup with ⟨-, hmerged⟩ | hkept
          · exact Or.inr (Or.inr ⟨oldBuf, existing, rfl, AList.lookup_of_lookup_erase hnew,
              hmerged⟩)
          · exact Or.inl (AList.lookup_of_lookup_erase hkept)

/-- Taking chunks only removes buffers. -/
theorem takeUserChunk_lookup {state : ReceiverState} {userId key : String}
    {buffer : UserAudioBuffer}
    (hlookup : (state.takeUserChunk userId).2.perUser.lookup key = some buffer) :
    state.perUser.lookup key = some buffer := by
  unfold ReceiverState.takeUserChunk at hlookup
  cases huser : state.perUser.lookup userId with
  | none =>
      rw [huser] at hlookup
      exact hlookup
  | some user =>
      rw [huser] at hlookup
      dsimp only at hlookup
      split at hlookup
      · exact AList.lookup_of_lookup_erase hlookup
      · exact AList.lookup_of_lookup_erase hlookup

theorem takeUserChunks_lookup {state : ReceiverState} (userIds : List String) {key : String}
    {buffer : UserAudioBuffer}
    (hlookup : (state.takeUserChunks userIds).2.perUser.lookup key = some buffer) :
    state.perUser.lookup key = some buffer := by
  induction userIds generalizing state with
  | nil => exact hlookup
  | cons userId rest ih => exact takeUserChunk_lookup (ih hlookup)

/-- Tracking a frame changes at most the buffer of its user. -/
theorem trackFrame_lookup {state : ReceiverState} {userId key : String} {frame : BufferedFrame}
    {now : ℕ} {buffer : UserAudioBuffer}
    (hlookup : (state.trackFrame userId frame now).perUser.lookup key = some buffer) :
    state.perUser.lookup key = some buffer ∨
      (state.frameDropReason userId frame = none ∧ key = userId ∧
        buffer = (state.ensureUser userId).pushFrame frame now) := by
  unfold ReceiverState.trackFrame at hlookup
  split at hlookup
  · exact Or.inl hlookup
  next haccept =>
    rcases AList.lookup_insert_cases hlookup with ⟨hkey, hpushed⟩ | hkept
    · exact Or.inr ⟨haccept, hkey, hpushed⟩
    · exact Or.inl hkept

theorem ReceiverState.FirstFrameCached.step {state : ReceiverState}
    (hstate : state.FirstFrameCached) (call : ReceiverCall) :
    (state.step call).FirstFrameCached := by
  refine ⟨hstate.wellFormed.step call, fun key buffer hlookup => ?_⟩
  cases call with
  | trackFrame userId frame now =>
      rcases trackFrame_lookup hlookup with hold | ⟨_, _, rfl⟩
      · exact hstate.firstFrameMs_eq key buffer hold
      · unfold ReceiverState.ensureUser
        cases huser : state.perUser.lookup userId with
        | none => rfl
        | some user =>
            have hne := (hstate.wellFormed.buffers userId user huser).frames_ne_nil
            obtain ⟨first, rest, hframes⟩ := List.exists_cons_of_ne_nil hne
            have hfirst := hstate.firstFrameMs_eq userId user huser
            simp [UserAudioBuffer.pushFrame, hfirst, hframes]
  | takeUserChunk userId => exact hstate.firstFrameMs_eq key buffer (takeUserChunk_lookup hlookup)
  | flushDueChunks now config order =>
      exact hstate.firstFrameMs_eq key buffer (takeUserChunks_lookup _ hlookup)
  | flushAllChunks order =>
      exact hstate.firstFrameMs_eq key buffer (takeUserChunks_lookup _ hlookup)
  | rekeyUser oldId newId =>
      rcases rekeyUser_lookup hlookup with hsame | ⟨oldBuf, hold, rfl⟩ |
        ⟨oldBuf, existing, hold, hnew, rfl⟩
      · exact hstate.firstFrameMs_eq key buffer hsame
      · exact hstate.firstFrameMs_eq oldId oldBuf hold
      · exact (mergeFrom_dropOldest_first
          (hstate.wellFormed.buffers newId existing hnew).frameInstants_length
          (hstate.wellFormed.buffers oldId oldBuf hold).frameInstants_length).2

/-- Pushing onto a buffer that starts earliest keeps it so exactly when some
buffered frame is not later than the new one. -/
theorem pushFrame_startsEarliest_iff {buffer : UserAudioBuffer} (frame : BufferedFrame) (now : ℕ)
    (hne : buffer.frames ≠ []) (hearliest : buffer.StartsEarliest) :
    (buffer.pushFrame frame now).StartsEarliest ↔
      ∃ earlier ∈ buffer.frames, earlier.timestampMs ≤ frame.timestampMs := by
  obtain ⟨least, hleast⟩ := Option.isSome_iff_exists.mp
    (List.isSome_min?_of_ne_nil (mt List.map_eq_nil_iff.mp hne) :
      ((buffer.frames.map (·.timestampMs)).min?).isSome)
  have hfirst : buffer.firstFrameMs = some least := hearliest.symm.trans hleast
  obtain ⟨hmem, hle⟩ := List.min?_eq_some_iff.mp hleast
  obtain ⟨witness, hwitness, rfl⟩ := List.mem_map.mp hmem
  -- The cached first timestamp stays, so it is still the least one unless the new one is smaller.
  have hpushed : (buffer.pushFrame frame now).StartsEarliest ↔
      witness.timestampMs ≤ frame.timestampMs := by
    simp [UserAudioBuffer.StartsEarliest, UserAudioBuffer.pushFrame, List.min?_concat, hleast, hfirst]
  rw [hpushed]
  constructor
  · exact fun hearlier => ⟨witness, hwitness, hearlier⟩
  · rintro ⟨earlier, hearlier, hbefore⟩
    exact (hle _ (List.mem_map_of_mem hearlier)).trans hbefore

/-- One call keeps all candidates on the timeline exactly when it is not the
arrival of a frame earlier than everything it joins. -/
theorem step_candidatesOnTimeline_iff {state : ReceiverState} (call : ReceiverCall)
    (hstate : state.FirstFrameCached) (hgood : state.CandidatesOnTimeline) :
    (state.step call).CandidatesOnTimeline ↔ state.KeepsArrivalOrder call := by
  rw [candidatesOnTimeline_iff (hstate.step call)]
  rw [candidatesOnTimeline_iff hstate] at hgood
  cases call with
  | trackFrame userId frame now =>
      constructor
      · intro hall haccept buffer hlookup
        have hne := (hstate.wellFormed.buffers userId buffer hlookup).frames_ne_nil
        rw [← pushFrame_startsEarliest_iff frame now hne (hgood userId buffer hlookup)]
        refine hall userId _ ?_
        simp [ReceiverState.step, ReceiverState.trackFrame, haccept, ReceiverState.ensureUser,
          hlookup]
      · intro hkeeps key buffer hlookup
        rcases trackFrame_lookup hlookup with hold | ⟨haccept, _, rfl⟩
        · exact hgood key buffer hold
        · unfold ReceiverState.ensureUser
          cases huser : state.perUser.lookup userId with
          | none => rfl
          | some user =>
              have hne := (hstate.wellFormed.buffers userId user huser).frames_ne_nil
              exact (pushFrame_startsEarliest_iff frame now hne (hgood userId user huser)).mpr
                (hkeeps haccept user huser)
  | takeUserChunk userId =>
      exact iff_of_true (fun key buffer hlookup =>
        hgood key buffer (takeUserChunk_lookup hlookup)) trivial
  | flushDueChunks now config order =>
      exact iff_of_true (fun key buffer hlookup =>
        hgood key buffer (takeUserChunks_lookup _ hlookup)) trivial
  | flushAllChunks order =>
      exact iff_of_true (fun key buffer hlookup =>
        hgood key buffer (takeUserChunks_lookup _ hlookup)) trivial
  | rekeyUser oldId newId =>
      -- A renamed buffer keeps its frames, and a merged one is sorted again.
      refine iff_of_true (fun key buffer hlookup => ?_) trivial
      rcases rekeyUser_lookup hlookup with hsame | ⟨oldBuf, hold, rfl⟩ |
        ⟨oldBuf, existing, hold, hnew, rfl⟩
      · exact hgood key buffer hsame
      · exact hgood oldId oldBuf hold
      · exact (mergeFrom_dropOldest_first
          (hstate.wellFormed.buffers newId existing hnew).frameInstants_length
          (hstate.wellFormed.buffers oldId oldBuf hold).frameInstants_length).1

theorem ReceiverState.FirstFrameCached.default : ReceiverState.FirstFrameCached {} := by
  refine ⟨ReceiverState.WellFormed.default, fun key buffer hlookup => ?_⟩
  rw [AList.lookup_empty] at hlookup
  cases hlookup

/-- In every run from the default state, all chunks that could be taken at any
point start on the timeline if and only if no accepted frame was earlier than
every frame then buffered for its user. -/
theorem receiver_candidates_onTimeline_iff (calls : List ReceiverCall) :
    Machine.Always ReceiverState.step ReceiverState.CandidatesOnTimeline {} calls ↔
      Machine.EveryStep ReceiverState.step ReceiverState.KeepsArrivalOrder {} calls := by
  refine Machine.always_iff_everyStep ReceiverState.step
    (fun _ call hstate => hstate.step call)
    (fun _ call hstate hgood => step_candidatesOnTimeline_iff call hstate hgood)
    ReceiverState.FirstFrameCached.default ?_ calls
  rw [candidatesOnTimeline_iff ReceiverState.FirstFrameCached.default]
  intro key buffer hlookup
  rw [AList.lookup_empty] at hlookup
  cases hlookup

/-- After the wall clock steps back by half a second, the chunk is placed at
1000 ms although its audio starts at 500 ms. -/
theorem receiver_candidate_start_after_clock_step :
    ¬ (Machine.run ReceiverState.step {}
      [.trackFrame "alice" ⟨1000, [1, 0]⟩ 0,
        .trackFrame "alice" ⟨500, [2, 0]⟩ 1]).CandidatesOnTimeline := by
  intro hall
  have hbad := (onTimeline_iff _).mp (hall "alice"
    ⟨"alice", 1000, [⟨1000, [1, 0]⟩, ⟨500, [2, 0]⟩]⟩ (by decide))
  exact absurd hbad (by decide)

end DiscordTranscript.Audio
