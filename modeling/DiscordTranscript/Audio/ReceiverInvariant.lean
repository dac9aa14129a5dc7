import DiscordTranscript.Audio.Receiver

/-! # The receiver's cached counters and limits

Five quantities are cached beside the frames and updated incrementally. The
invariant says that each cache equals the value recomputed from the frames and
that every limit holds; it is preserved by each call and so holds after every
run from the default state. The delicate call is `rekey_user`: it merges two
buffers that are legal on their own and restores the limits by dropping a
prefix found with the suffix maxima of the frame ends.
-/

namespace DiscordTranscript.Audio

open MachineInt

def totalBytes (frames : List BufferedFrame) : ℕ :=
  (frames.map (·.pcm16leBytes.length)).sum

/-- The largest frame end minus the smallest timestamp. -/
def spanMs (frames : List BufferedFrame) : ℕ :=
  (frames.map frameEndOrMax).max?.getD 0 - (frames.map (·.timestampMs)).min?.getD 0

/-- What `track_frame` checks about a frame on its own. -/
structure FrameAdmitted (frame : BufferedFrame) : Prop where
  bytes_le : frame.pcm16leBytes.length ≤ maxReceiverFrameBytes
  end_isSome : (frameEndMs frame).isSome

/-- A buffer under the key of the user map it is stored at. -/
structure UserAudioBuffer.WellFormed (key : String) (buffer : UserAudioBuffer) : Prop where
  userId_eq : buffer.userId = key
  frames_ne_nil : buffer.frames ≠ []
  frameInstants_length : buffer.frameInstants.length = buffer.frames.length
  bufferedBytes_eq : buffer.bufferedBytes = totalBytes buffer.frames
  minStartMs_eq : buffer.minStartMs = (buffer.frames.map (·.timestampMs)).min?
  maxEndMs_eq : buffer.maxEndMs = (buffer.frames.map frameEndOrMax).max?
  frames_le : buffer.frames.length ≤ maxReceiverBufferedFramesPerUser
  bytes_le : buffer.bufferedBytes ≤ maxReceiverBufferedBytesPerUser
  span_le : spanMs buffer.frames ≤ maxReceiverBufferedSpanMs
  admitted : ∀ frame ∈ buffer.frames, FrameAdmitted frame

structure ReceiverState.WellFormed (state : ReceiverState) : Prop where
  bufferedBytes_eq : state.bufferedBytes =
    state.perUser.sumBy fun buffer => totalBytes buffer.frames
  buffers : ∀ key buffer, state.perUser.lookup key = some buffer → buffer.WellFormed key
  users_le : state.perUser.entries.length ≤ maxReceiverUsers
  total_le : state.bufferedBytes ≤ maxReceiverBufferedBytesTotal

/-! ## Recomputed quantities -/

@[simp] theorem totalBytes_nil : totalBytes [] = 0 := rfl

@[simp] theorem totalBytes_cons (frame : BufferedFrame) (frames : List BufferedFrame) :
    totalBytes (frame :: frames) = frame.pcm16leBytes.length + totalBytes frames := rfl

@[simp] theorem totalBytes_append (front back : List BufferedFrame) :
    totalBytes (front ++ back) = totalBytes front + totalBytes back := by
  simp [totalBytes]

theorem totalBytes_perm {left right : List BufferedFrame} (hperm : left.Perm right) :
    totalBytes left = totalBytes right :=
  (hperm.map _).sum_eq

theorem frameEndOrMax_of_some {frame : BufferedFrame} {frameEnd : ℕ}
    (hend : frameEndMs frame = some frameEnd) : frameEndOrMax frame = frameEnd := by
  simp only [frameEndOrMax, hend, Option.getD_some]

/-- The span a new frame would give is the span recomputed after it is pushed. -/
theorem bufferedSpanAfter_eq {buffer : UserAudioBuffer} {frame : BufferedFrame} {frameEnd : ℕ}
    (hmin : buffer.minStartMs = (buffer.frames.map (·.timestampMs)).min?)
    (hmax : buffer.maxEndMs = (buffer.frames.map frameEndOrMax).max?)
    (hend : frameEndMs frame = some frameEnd) :
    buffer.bufferedSpanAfter frame frameEnd = spanMs (buffer.frames ++ [frame]) := by
  have horMax := frameEndOrMax_of_some hend
  simp only [UserAudioBuffer.bufferedSpanAfter, spanMs, List.map_append, List.map_cons,
    List.map_nil, List.min?_concat, List.max?_concat, hmin, hmax, horMax, Option.getD_some]

/-- An admitted frame alone is far below the span limit. -/
theorem FrameAdmitted.frame_span_le {frame : BufferedFrame} (hframe : FrameAdmitted frame) :
    frame.timestampMs ≤ frameEndOrMax frame ∧
      frameEndOrMax frame - frame.timestampMs ≤ maxReceiverBufferedSpanMs := by
  obtain ⟨frameEnd, hend⟩ := Option.isSome_iff_exists.mp hframe.end_isSome
  have hlimit : maxReceiverBufferedSpanMs = 699050 := by decide
  have hbytes : frame.pcm16leBytes.length ≤ 1048576 := hframe.bytes_le
  have hsum := (checkedAdd_eq_some.mp hend).2
  rw [pcmDurationMs_of_pos (by decide), receiverSpanSampleRate] at hsum
  rw [frameEndOrMax_of_some hend, hlimit]
  omega

/-! ## Pushing a frame -/

/-- Everything `track_frame` has established when it pushes the frame. -/
theorem frameDropReason_eq_none {state : ReceiverState} {userId : String} {frame : BufferedFrame}
    (haccept : state.frameDropReason userId frame = none) :
    FrameAdmitted frame ∧
      (userId ∈ state.perUser ∨ state.perUser.entries.length < maxReceiverUsers) ∧
      state.bufferedBytes + frame.pcm16leBytes.length ≤ maxReceiverBufferedBytesTotal ∧
      ∃ frameEnd, frameEndMs frame = some frameEnd ∧
        match state.perUser.lookup userId with
        | some user => user.canAcceptFrame frame frameEnd = true
        | none => frameEnd - frame.timestampMs ≤ maxReceiverBufferedSpanMs := by
  unfold ReceiverState.frameDropReason at haccept
  dsimp only at haccept
  split at haccept
  · cases haccept
  next hbytes =>
    split at haccept
    · cases haccept
    next frameEnd hend =>
      split at haccept
      · cases haccept
      next husers =>
        split at haccept
        · cases haccept
        next htotal =>
          have hroom : userId ∈ state.perUser ∨
              state.perUser.entries.length < maxReceiverUsers := by
            by_cases hmem : userId ∈ state.perUser
            · exact Or.inl hmem
            · exact Or.inr (not_le.mp fun hfull => husers ⟨hmem, hfull⟩)
          have hsum : state.bufferedBytes + frame.pcm16leBytes.length ≤
              maxReceiverBufferedBytesTotal := by
            unfold checkedAdd at htotal
            split at htotal <;> simp at htotal
            exact htotal
          refine ⟨⟨not_lt.mp hbytes, by rw [hend]; rfl⟩, hroom, hsum, frameEnd, hend, ?_⟩
          cases hlookup : state.perUser.lookup userId with
          | some user =>
              simp only [hlookup] at haccept
              split at haccept
              next hcan => exact hcan
              next => cases haccept
          | none =>
              simp only [hlookup] at haccept
              split at haccept
              next => cases haccept
              next hspan => exact not_lt.mp hspan

/-- Pushing keeps the caches equal to the recomputed values. The limits are
premises here: each caller gets them from its own check. -/
theorem pushFrame_wellFormed {key : String} {buffer : UserAudioBuffer} {frame : BufferedFrame}
    {now : ℕ} (huser : buffer.userId = key)
    (hinstants : buffer.frameInstants.length = buffer.frames.length)
    (hbytes : buffer.bufferedBytes = totalBytes buffer.frames)
    (hmin : buffer.minStartMs = (buffer.frames.map (·.timestampMs)).min?)
    (hmax : buffer.maxEndMs = (buffer.frames.map frameEndOrMax).max?)
    (hadmitted : ∀ old ∈ buffer.frames, FrameAdmitted old) (hframe : FrameAdmitted frame)
    (hlength : buffer.frames.length < maxReceiverBufferedFramesPerUser)
    (htotal : buffer.bufferedBytes + frame.pcm16leBytes.length ≤ maxReceiverBufferedBytesPerUser)
    (hspan : spanMs (buffer.frames ++ [frame]) ≤ maxReceiverBufferedSpanMs) :
    (buffer.pushFrame frame now).WellFormed key := by
  have hsum : saturatingAdd usizeMax buffer.bufferedBytes frame.pcm16leBytes.length =
      buffer.bufferedBytes + frame.pcm16leBytes.length := by
    -- The per-user limit is far below `usize::MAX`, so the sum is exact.
    apply saturatingAdd_of_le
    simp only [maxReceiverBufferedBytesPerUser, maxWavChunkPcmBytes] at htotal
    simp only [usizeMax, u64Max]
    omega
  constructor
  case userId_eq => exact huser
  case frames_ne_nil => simp [UserAudioBuffer.pushFrame]
  case frameInstants_length => simp [UserAudioBuffer.pushFrame, hinstants]
  case bufferedBytes_eq =>
    change saturatingAdd usizeMax buffer.bufferedBytes frame.pcm16leBytes.length =
      totalBytes (buffer.frames ++ [frame])
    rw [hsum, hbytes, totalBytes_append, totalBytes_cons, totalBytes_nil, Nat.add_zero]
  case minStartMs_eq => simp [UserAudioBuffer.pushFrame, List.min?_concat, hmin]
  case maxEndMs_eq => simp [UserAudioBuffer.pushFrame, List.max?_concat, hmax]
  case frames_le => simpa [UserAudioBuffer.pushFrame] using Nat.succ_le_of_lt hlength
  case bytes_le => simpa [UserAudioBuffer.pushFrame, hsum] using htotal
  case span_le => exact hspan
  case admitted =>
    intro old hold
    rcases List.mem_append.mp hold with hold | hold
    · exact hadmitted old hold
    · rw [List.mem_singleton.mp hold]
      exact hframe

/-- A frame on its own is within every limit of a new buffer. -/
theorem pushFrame_new_wellFormed {userId : String} {frame : BufferedFrame} {now : ℕ}
    (hframe : FrameAdmitted frame) :
    (UserAudioBuffer.pushFrame { userId := userId } frame now).WellFormed userId := by
  refine pushFrame_wellFormed rfl rfl rfl rfl rfl (by simp) hframe
    (show 0 < maxReceiverBufferedFramesPerUser by decide) ?_ ?_
  · have hbytes := hframe.bytes_le
    simp only [maxReceiverFrameBytes] at hbytes
    simp only [maxReceiverBufferedBytesPerUser, maxWavChunkPcmBytes]
    omega
  · simpa [spanMs] using hframe.frame_span_le.2

/-- A frame that `can_accept_frame` admits keeps an existing buffer within its limits. -/
theorem pushFrame_existing_wellFormed {key : String} {buffer : UserAudioBuffer}
    {frame : BufferedFrame} {now frameEnd : ℕ} (hbuffer : buffer.WellFormed key)
    (hframe : FrameAdmitted frame) (hend : frameEndMs frame = some frameEnd)
    (haccept : buffer.canAcceptFrame frame frameEnd = true) :
    (buffer.pushFrame frame now).WellFormed key := by
  simp only [UserAudioBuffer.canAcceptFrame, Bool.and_eq_true, decide_eq_true_eq] at haccept
  obtain ⟨⟨hlength, hbytes⟩, hspan⟩ := haccept
  refine pushFrame_wellFormed hbuffer.userId_eq hbuffer.frameInstants_length
    hbuffer.bufferedBytes_eq hbuffer.minStartMs_eq hbuffer.maxEndMs_eq hbuffer.admitted hframe
    hlength ?_ ?_
  · unfold checkedAdd at hbytes
    split at hbytes <;> simp at hbytes
    exact hbytes
  · rwa [bufferedSpanAfter_eq hbuffer.minStartMs_eq hbuffer.maxEndMs_eq hend] at hspan

theorem ReceiverState.WellFormed.trackFrame {state : ReceiverState} (hstate : state.WellFormed)
    (userId : String) (frame : BufferedFrame) (now : ℕ) :
    (state.trackFrame userId frame now).WellFormed := by
  unfold ReceiverState.trackFrame
  split
  · exact hstate
  next haccept =>
    obtain ⟨hframe, hroom, htotal, frameEnd, hend, hcheck⟩ := frameDropReason_eq_none haccept
    have hsum : saturatingAdd usizeMax state.bufferedBytes frame.pcm16leBytes.length =
        state.bufferedBytes + frame.pcm16leBytes.length := by
      apply saturatingAdd_of_le
      simp only [maxReceiverBufferedBytesTotal] at htotal
      simp only [usizeMax, u64Max]
      omega
    have hbuffer : ((state.ensureUser userId).pushFrame frame now).WellFormed userId := by
      unfold ReceiverState.ensureUser
      cases hlookup : state.perUser.lookup userId with
      | none => exact pushFrame_new_wellFormed hframe
      | some user =>
          rw [hlookup] at hcheck
          exact pushFrame_existing_wellFormed (hstate.buffers userId user hlookup) hframe hend
            hcheck
    refine ⟨?_, ?_, ?_, ?_⟩
    · rw [hsum, hstate.bufferedBytes_eq, AList.sumBy_insert]
      have hnew : totalBytes ((state.ensureUser userId).pushFrame frame now).frames =
          totalBytes (state.ensureUser userId).frames + frame.pcm16leBytes.length := by
        simp [UserAudioBuffer.pushFrame]
      rw [hnew]
      unfold ReceiverState.ensureUser
      cases hlookup : state.perUser.lookup userId with
      | none =>
          rw [AList.erase_of_lookup_none hlookup]
          simp [Nat.add_comm]
      | some user =>
          rw [AList.sumBy_erase _ hlookup]
          simp only [Option.getD_some]
          omega
    · intro key buffer hlookup
      rcases AList.lookup_insert_cases hlookup with ⟨rfl, rfl⟩ | hold
      · exact hbuffer
      · exact hstate.buffers key buffer hold
    · rw [AList.length_insert]
      -- Only a new user makes the map longer, and only then the user limit was checked.
      cases hlookup : state.perUser.lookup userId with
      | none =>
          have habsent : userId ∉ state.perUser := AList.lookup_eq_none.mp hlookup
          rw [AList.erase_of_lookup_none hlookup]
          exact hroom.resolve_left habsent
      | some user =>
          rw [← AList.length_erase hlookup]
          exact hstate.users_le
    · rw [hsum]
      exact htotal

/-! ## Taking buffers -/

theorem ReceiverState.WellFormed.takeUserChunk {state : ReceiverState} (hstate : state.WellFormed)
    (userId : String) : (state.takeUserChunk userId).2.WellFormed := by
  unfold ReceiverState.takeUserChunk
  cases hlookup : state.perUser.lookup userId with
  | none => exact hstate
  | some user =>
      have huser := hstate.buffers userId user hlookup
      have hsum := hstate.bufferedBytes_eq
      rw [AList.sumBy_erase _ hlookup, ← huser.bufferedBytes_eq] at hsum
      have hnext : ReceiverState.WellFormed {
          perUser := state.perUser.erase userId
          bufferedBytes := state.bufferedBytes - user.bufferedBytes } := by
        refine ⟨?_, ?_, ?_, ?_⟩
        · dsimp only
          omega
        · intro key buffer hkey
          exact hstate.buffers key buffer (AList.lookup_of_lookup_erase hkey)
        · have hlength := AList.length_erase hlookup
          have husers := hstate.users_le
          dsimp only
          omega
        · have htotal := hstate.total_le
          dsimp only
          omega
      dsimp only
      split <;> exact hnext

theorem ReceiverState.WellFormed.takeUserChunks {state : ReceiverState}
    (hstate : state.WellFormed) (userIds : List String) :
    (state.takeUserChunks userIds).2.WellFormed := by
  induction userIds generalizing state with
  | nil => exact hstate
  | cons userId rest ih => exact ih (hstate.takeUserChunk userId)

/-! ## Merging two buffers -/

/-- Merging permutes the frames of both buffers and leaves them in timestamp order. -/
theorem mergeFrom_frames {buffer other : UserAudioBuffer}
    (hbuffer : buffer.frameInstants.length = buffer.frames.length)
    (hother : other.frameInstants.length = other.frames.length) :
    (buffer.mergeFrom other).frames.Perm (buffer.frames ++ other.frames) ∧
      (buffer.mergeFrom other).frames.Pairwise
        (fun left right => left.timestampMs ≤ right.timestampMs) ∧
      (buffer.mergeFrom other).frameInstants.length = (buffer.mergeFrom other).frames.length := by
  refine ⟨?_, ?_, ?_⟩
  · change ((buffer.mergeTimedFrames other).map Prod.fst).Perm _
    refine ((List.perm_insertionSort _ _).map Prod.fst).trans ?_
    rw [List.map_append, List.map_fst_zip hbuffer.ge, List.map_fst_zip hother.ge]
  · change ((buffer.mergeTimedFrames other).map Prod.fst).Pairwise _
    rw [List.pairwise_map]
    exact List.pairwise_insertionSort_key (fun timed : BufferedFrame × ℕ => timed.1.timestampMs) _
  · change ((buffer.mergeTimedFrames other).map Prod.snd).length =
      ((buffer.mergeTimedFrames other).map Prod.fst).length
    rw [List.length_map, List.length_map]

/-! ## Dropping the oldest frames -/

theorem suffixMaxEndMs_drop (frames : List BufferedFrame) (count : ℕ) :
    (UserAudioBuffer.suffixMaxEndMs frames).drop count =
      UserAudioBuffer.suffixMaxEndMs (frames.drop count) := by
  induction frames generalizing count with
  | nil => simp [UserAudioBuffer.suffixMaxEndMs]
  | cons frame rest ih =>
      cases count with
      | zero => rfl
      | succ count => exact ih count

theorem suffixMaxEndMs_head? (frames : List BufferedFrame) :
    (UserAudioBuffer.suffixMaxEndMs frames).head? = (frames.map frameEndOrMax).max? := by
  induction frames with
  | nil => rfl
  | cons frame rest ih =>
      have hhead : (UserAudioBuffer.suffixMaxEndMs rest).headD 0 =
          (rest.map frameEndOrMax).max?.getD 0 := by
        rw [List.headD_eq_head?_getD, ih]
      change some (max ((UserAudioBuffer.suffixMaxEndMs rest).headD 0) (frameEndOrMax frame)) = _
      rw [hhead, List.map_cons, List.max?_cons, Option.some.injEq]
      cases (rest.map frameEndOrMax).max? with
      | none => simp
      | some value => simp [max_comm]

/-- In timestamp order, the loop's suffix maximum and first frame give the span. -/
theorem withinLimitsAfter_span {frames : List BufferedFrame} {scan : UserAudioBuffer.DropScan}
    (hsorted : frames.Pairwise fun left right => left.timestampMs ≤ right.timestampMs)
    (hcount : scan.dropCount < frames.length)
    (hwithin : UserAudioBuffer.withinLimitsAfter frames scan = true) :
    (frames.drop scan.dropCount).length ≤ maxReceiverBufferedFramesPerUser ∧
      scan.retainedBytes ≤ maxReceiverBufferedBytesPerUser ∧
      spanMs (frames.drop scan.dropCount) ≤ maxReceiverBufferedSpanMs := by
  have hend : (UserAudioBuffer.suffixMaxEndMs frames)[scan.dropCount]? =
      ((frames.drop scan.dropCount).map frameEndOrMax).max? := by
    rw [← suffixMaxEndMs_head?, ← suffixMaxEndMs_drop, List.head?_drop]
  -- In timestamp order the first frame that is left is the earliest one.
  have hstart : ((frames.drop scan.dropCount).map (·.timestampMs)).min? =
      frames[scan.dropCount]?.map (·.timestampMs) := by
    rw [List.min?_map_of_pairwise _ hsorted.drop, List.head?_drop]
  have hremaining : frames.length - scan.dropCount ≠ 0 := by omega
  simp only [UserAudioBuffer.withinLimitsAfter, Bool.and_eq_true, Bool.or_eq_true,
    decide_eq_true_eq, hremaining, false_or, hend] at hwithin
  obtain ⟨⟨hlength, hbytes⟩, hspan⟩ := hwithin
  refine ⟨by rwa [List.length_drop], hbytes, ?_⟩
  rw [spanMs, hstart]
  split at hspan
  next suffixEnd first hsuffix hfirst =>
    simp only [Bool.and_eq_true, decide_eq_true_eq] at hspan
    rw [hsuffix, hfirst]
    exact hspan.2
  next => cases hspan

/-- The loop's counters describe the frames not yet dropped. -/
structure UserAudioBuffer.DropScan.Counts (frames : List BufferedFrame) (scan : DropScan) :
    Prop where
  retained : scan.retainedBytes = totalBytes (frames.drop scan.dropCount)
  dropped : scan.droppedBytes + scan.retainedBytes = totalBytes frames

/-- An admitted last frame is within all limits, so the loop stops before it. -/
theorem withinLimitsAfter_last {frames : List BufferedFrame} {scan : UserAudioBuffer.DropScan}
    {last : BufferedFrame} (hlast : frames.drop scan.dropCount = [last])
    (hcounts : scan.Counts frames) (hframe : FrameAdmitted last) :
    UserAudioBuffer.withinLimitsAfter frames scan = true := by
  have hremaining : frames.length - scan.dropCount = 1 := by
    rw [← List.length_drop, hlast]
    rfl
  have hend : (UserAudioBuffer.suffixMaxEndMs frames)[scan.dropCount]? =
      some (frameEndOrMax last) := by
    rw [← List.head?_drop, suffixMaxEndMs_drop, suffixMaxEndMs_head?, hlast]
    rfl
  have hstart : frames[scan.dropCount]? = some last := by
    rw [← List.head?_drop, hlast]
    rfl
  have hretained := hcounts.retained
  rw [hlast, totalBytes_cons, totalBytes_nil, Nat.add_zero] at hretained
  have hbytes : last.pcm16leBytes.length ≤ 1048576 := hframe.bytes_le
  have hfits : scan.retainedBytes ≤ maxReceiverBufferedBytesPerUser := by
    simp only [maxReceiverBufferedBytesPerUser, maxWavChunkPcmBytes]
    omega
  have hone : 1 ≤ maxReceiverBufferedFramesPerUser := by decide
  simp only [UserAudioBuffer.withinLimitsAfter, hremaining, hend, hstart, hone, hfits,
    hframe.frame_span_le.1, hframe.frame_span_le.2, decide_true, Bool.and_self, Bool.or_true]

/-- The drop loop keeps exact counters and stops on a non-empty rest that is
within every limit. -/
theorem dropLoop_spec {frames : List BufferedFrame} (rest : List BufferedFrame)
    (scan : UserAudioBuffer.DropScan)
    (hadmitted : ∀ frame ∈ frames, FrameAdmitted frame) (htotal : totalBytes frames ≤ usizeMax)
    (hrest : frames.drop scan.dropCount = rest) (hcount : scan.dropCount < frames.length)
    (hcounts : scan.Counts frames) :
    (UserAudioBuffer.dropLoop frames rest scan).Counts frames ∧
      (UserAudioBuffer.dropLoop frames rest scan).dropCount < frames.length ∧
      UserAudioBuffer.withinLimitsAfter frames (UserAudioBuffer.dropLoop frames rest scan) =
        true := by
  induction rest generalizing scan with
  | nil =>
      have hlength := congrArg List.length hrest
      simp only [List.length_drop, List.length_nil] at hlength
      omega
  | cons frame tail ih =>
      unfold UserAudioBuffer.dropLoop
      split
      next hwithin => exact ⟨hcounts, hcount, hwithin⟩
      next hover =>
        have htail : frames.drop (scan.dropCount + 1) = tail := by
          rw [← List.tail_drop, hrest, List.tail_cons]
        have hretained := hcounts.retained
        have hdropped := hcounts.dropped
        rw [hrest, totalBytes_cons] at hretained
        -- If this were the last frame, it alone would be within all limits.
        have hmore : scan.dropCount + 1 < frames.length := by
          by_contra hend
          have hnil : tail = [] := by
            rw [← htail, List.drop_eq_nil_iff]
            omega
          subst hnil
          have hmem : frame ∈ frames :=
            List.mem_of_mem_drop (hrest ▸ List.mem_singleton_self frame)
          exact hover (withinLimitsAfter_last hrest hcounts (hadmitted frame hmem))
        apply ih _ htail hmore
        refine ⟨?_, ?_⟩
        · dsimp only
          rw [htail]
          omega
        · dsimp only
          rw [saturatingAdd_of_le (by omega)]
          omega

/-- What re-keying relies on: a merged buffer with exact caches, in timestamp
order, is brought back within all limits and the dropped bytes are reported. -/
theorem dropOldestOverLimits_spec {key : String} {buffer : UserAudioBuffer}
    (huser : buffer.userId = key) (hne : buffer.frames ≠ [])
    (hinstants : buffer.frameInstants.length = buffer.frames.length)
    (hbytes : buffer.bufferedBytes = totalBytes buffer.frames)
    (hmin : buffer.minStartMs = (buffer.frames.map (·.timestampMs)).min?)
    (hmax : buffer.maxEndMs = (buffer.frames.map frameEndOrMax).max?)
    (hsorted : buffer.frames.Pairwise fun left right => left.timestampMs ≤ right.timestampMs)
    (hadmitted : ∀ frame ∈ buffer.frames, FrameAdmitted frame)
    (htotal : totalBytes buffer.frames ≤ usizeMax) :
    buffer.dropOldestOverLimits.2.WellFormed key ∧
      buffer.dropOldestOverLimits.1 + totalBytes buffer.dropOldestOverLimits.2.frames =
        totalBytes buffer.frames := by
  obtain ⟨hcounts, hcount, hwithin⟩ := dropLoop_spec buffer.frames
    { dropCount := 0, retainedBytes := buffer.bufferedBytes, droppedBytes := 0 }
    hadmitted htotal rfl (List.length_pos_iff.mpr hne) ⟨hbytes, by simpa using hbytes⟩
  obtain ⟨hframes, hretained, hspan⟩ := withinLimitsAfter_span hsorted hcount hwithin
  unfold UserAudioBuffer.dropOldestOverLimits
  dsimp only
  -- From here on the loop's specification is all that matters.
  generalize UserAudioBuffer.dropLoop buffer.frames buffer.frames
    { dropCount := 0, retainedBytes := buffer.bufferedBytes, droppedBytes := 0 } = scan at *
  split
  next hpos =>
    refine ⟨?_, ?_⟩
    · constructor
      case userId_eq => exact huser
      case frames_ne_nil =>
        change buffer.frames.drop scan.dropCount ≠ []
        rw [Ne, List.drop_eq_nil_iff]
        omega
      case frameInstants_length =>
        change (buffer.frameInstants.drop scan.dropCount).length =
          (buffer.frames.drop scan.dropCount).length
        rw [List.length_drop, List.length_drop, hinstants]
      case bufferedBytes_eq => exact hcounts.retained
      case minStartMs_eq => rfl
      case maxEndMs_eq => rfl
      case frames_le => exact hframes
      case bytes_le => exact hretained
      case span_le => exact hspan
      case admitted => exact fun frame hmem => hadmitted frame (List.mem_of_mem_drop hmem)
    · have hdropped := hcounts.dropped
      rw [hcounts.retained] at hdropped
      exact hdropped
  next hzero =>
    have hcount0 : scan.dropCount = 0 := by omega
    have hdropped := hcounts.dropped
    rw [hcounts.retained] at hdropped
    rw [hcounts.retained] at hretained
    rw [hcount0, List.drop_zero] at hframes hretained hspan hdropped
    exact ⟨⟨huser, hne, hinstants, hbytes, hmin, hmax, hframes, by rw [hbytes]; exact hretained,
      hspan, hadmitted⟩, hdropped⟩

/-! ## Re-keying and runs -/

theorem totalBytes_le_usizeMax {frames : List BufferedFrame}
    (hbytes : totalBytes frames ≤ 2 * maxReceiverBufferedBytesPerUser) :
    totalBytes frames ≤ usizeMax := by
  simp only [maxReceiverBufferedBytesPerUser, maxWavChunkPcmBytes] at hbytes
  simp only [usizeMax, u64Max]
  omega

/-- Merging two legal buffers and dropping the excess gives a legal buffer, and
no byte is lost from the account. -/
theorem mergeFrom_dropOldest_spec {key otherKey : String} {buffer other : UserAudioBuffer}
    (hbuffer : buffer.WellFormed key) (hother : other.WellFormed otherKey) :
    (buffer.mergeFrom other).dropOldestOverLimits.2.WellFormed key ∧
      (buffer.mergeFrom other).dropOldestOverLimits.1 +
          totalBytes (buffer.mergeFrom other).dropOldestOverLimits.2.frames =
        totalBytes buffer.frames + totalBytes other.frames := by
  obtain ⟨hperm, hsorted, hinstants⟩ :=
    mergeFrom_frames hbuffer.frameInstants_length hother.frameInstants_length
  have hsum : totalBytes (buffer.mergeFrom other).frames =
      totalBytes buffer.frames + totalBytes other.frames := by
    rw [totalBytes_perm hperm, totalBytes_append]
  have hlimit : totalBytes buffer.frames + totalBytes other.frames ≤
      2 * maxReceiverBufferedBytesPerUser := by
    have hleft := hbuffer.bytes_le
    have hright := hother.bytes_le
    rw [hbuffer.bufferedBytes_eq] at hleft
    rw [hother.bufferedBytes_eq] at hright
    omega
  have htotal : totalBytes (buffer.mergeFrom other).frames ≤ usizeMax :=
    totalBytes_le_usizeMax (hsum.trans_le hlimit)
  rw [← hsum]
  refine dropOldestOverLimits_spec hbuffer.userId_eq ?_ hinstants ?_ rfl rfl hsorted ?_ htotal
  · intro hnil
    rw [hnil] at hperm
    exact hbuffer.frames_ne_nil (List.append_eq_nil_iff.mp hperm.nil_eq.symm).1
  · change saturatingAdd usizeMax buffer.bufferedBytes other.bufferedBytes = _
    rw [saturatingAdd_of_le, hsum, hbuffer.bufferedBytes_eq, hother.bufferedBytes_eq]
    rw [hbuffer.bufferedBytes_eq, hother.bufferedBytes_eq, ← hsum]
    exact htotal
  · intro frame hmem
    rcases List.mem_append.mp (hperm.mem_iff.mp hmem) with hmem | hmem
    · exact hbuffer.admitted frame hmem
    · exact hother.admitted frame hmem

theorem UserAudioBuffer.WellFormed.rename {key : String} {buffer : UserAudioBuffer}
    (hbuffer : buffer.WellFormed key) (newId : String) :
    UserAudioBuffer.WellFormed newId { buffer with userId := newId } :=
  { hbuffer with userId_eq := rfl }

theorem ReceiverState.WellFormed.rekeyUser {state : ReceiverState} (hstate : state.WellFormed)
    (oldId newId : String) : (state.rekeyUser oldId newId).2.WellFormed := by
  unfold ReceiverState.rekeyUser
  cases hold : state.perUser.lookup oldId with
  | none => exact hstate
  | some oldBuf =>
      have holdWf := hstate.buffers oldId oldBuf hold
      have hsum := hstate.bufferedBytes_eq
      have htotal := hstate.total_le
      have hcount := AList.length_erase hold
      have husers := hstate.users_le
      rw [AList.sumBy_erase _ hold] at hsum
      have hrest : ∀ key buffer, (state.perUser.erase oldId).lookup key = some buffer →
          buffer.WellFormed key := by
        intro key buffer hkey
        exact hstate.buffers key buffer (AList.lookup_of_lookup_erase hkey)
      dsimp only
      cases hnew : (state.perUser.erase oldId).lookup newId with
      | none =>
          -- The buffer moves to another key; no byte is added or dropped.
          refine ⟨?_, ?_, ?_, htotal⟩
          · dsimp only
            rw [AList.sumBy_insert, AList.erase_of_lookup_none hnew]
            exact hsum
          · intro key buffer hkey
            rcases AList.lookup_insert_cases hkey with ⟨rfl, rfl⟩ | hkept
            · exact holdWf.rename _
            · exact hrest key buffer hkept
          · dsimp only
            rw [AList.length_insert, AList.erase_of_lookup_none hnew]
            omega
      | some existing =>
          -- Two buffers become one, and what the merge drops leaves the total too.
          obtain ⟨hmerged, hbytes⟩ := mergeFrom_dropOldest_spec (hrest newId existing hnew) holdWf
          have hlength := AList.length_erase hnew
          rw [AList.sumBy_erase _ hnew] at hsum
          dsimp only
          generalize (existing.mergeFrom oldBuf).dropOldestOverLimits = dropped at hmerged hbytes ⊢
          have hremaining : (if dropped.1 > 0 then state.bufferedBytes - dropped.1
              else state.bufferedBytes) = state.bufferedBytes - dropped.1 := by
            split <;> omega
          refine ⟨?_, ?_, ?_, ?_⟩
          · dsimp only
            rw [hremaining, AList.sumBy_insert]
            omega
          · intro key buffer hkey
            rcases AList.lookup_insert_cases hkey with ⟨rfl, rfl⟩ | hkept
            · exact hmerged
            · exact hrest key buffer hkept
          · dsimp only
            rw [AList.length_insert]
            omega
          · dsimp only
            rw [hremaining]
            omega

theorem ReceiverState.WellFormed.default : ReceiverState.WellFormed {} := by
  refine ⟨rfl, ?_, by decide, by decide⟩
  intro key buffer hkey
  rw [AList.lookup_empty] at hkey
  cases hkey

theorem ReceiverState.WellFormed.step {state : ReceiverState} (hstate : state.WellFormed)
    (call : ReceiverCall) : (state.step call).WellFormed := by
  cases call with
  | trackFrame userId frame now => exact hstate.trackFrame userId frame now
  | takeUserChunk userId => exact hstate.takeUserChunk userId
  | flushDueChunks now config order => exact hstate.takeUserChunks _
  | flushAllChunks order => exact hstate.takeUserChunks _
  | rekeyUser oldId newId => exact hstate.rekeyUser oldId newId

/-- Every receiver state reached from the default one has exact caches and
respects every limit, whatever the users, frames, timestamps, clock readings
and iteration orders. -/
theorem receiver_run_wellFormed (calls : List ReceiverCall) :
    (Machine.run ReceiverState.step {} calls).WellFormed :=
  Machine.run_invariant ReceiverState.step ReceiverState.WellFormed
    (fun _ call hstate => hstate.step call) ReceiverState.WellFormed.default calls

end DiscordTranscript.Audio
