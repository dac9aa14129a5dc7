import DiscordTranscript.Foundation.AssocSum
import DiscordTranscript.Foundation.Runs
import DiscordTranscript.Audio.Wav

/-! # The receiver's per-user audio buffers

The model of `audio/receiver.rs`. Monotonic instants are naturals. The clock
reading of a call and the iteration order of the user map are inputs of the
operations that read them.
-/

namespace DiscordTranscript.Audio

open MachineInt

def maxReceiverUsers : ℕ := 256
def maxReceiverFrameBytes : ℕ := 1024 * 1024
def maxReceiverBufferedFramesPerUser : ℕ := 16384
def maxReceiverBufferedBytesPerUser : ℕ := maxWavChunkPcmBytes
def maxReceiverBufferedBytesTotal : ℕ := 512 * 1024 * 1024
def receiverSpanSampleRate : ℕ := 48000
def maxReceiverBufferedSpanMs : ℕ := maxWavChunkPcmBytes / 2 * 1000 / receiverSpanSampleRate

/-- Durations are in the unit of the monotonic clock. -/
structure ReceiverConfig where
  chunkDuration : ℕ
  silenceFlushDuration : ℕ

def frameEndMs (frame : BufferedFrame) : Option ℕ :=
  checkedAdd u64Max frame.timestampMs (pcmDurationMs frame.pcm16leBytes receiverSpanSampleRate)

/-- `frame_end_ms(..).unwrap_or(u64::MAX)`. -/
def frameEndOrMax (frame : BufferedFrame) : ℕ := (frameEndMs frame).getD u64Max

structure UserAudioBuffer where
  userId : String
  frames : List BufferedFrame := []
  firstFrameMs : Option ℕ := none
  firstFrameInstant : Option ℕ := none
  lastFrameInstant : Option ℕ := none
  bufferedBytes : ℕ := 0
  frameInstants : List ℕ := []
  minStartMs : Option ℕ := none
  maxEndMs : Option ℕ := none

namespace UserAudioBuffer

def pushFrame (buffer : UserAudioBuffer) (frame : BufferedFrame) (now : ℕ) : UserAudioBuffer :=
  { buffer with
    bufferedBytes := saturatingAdd usizeMax buffer.bufferedBytes frame.pcm16leBytes.length
    minStartMs := some (buffer.minStartMs.elim frame.timestampMs (min · frame.timestampMs))
    maxEndMs := some (buffer.maxEndMs.elim (frameEndOrMax frame) (max · (frameEndOrMax frame)))
    firstFrameMs := some (buffer.firstFrameMs.getD frame.timestampMs)
    firstFrameInstant := if buffer.firstFrameMs.isNone then some now else buffer.firstFrameInstant
    lastFrameInstant := some now
    frames := buffer.frames ++ [frame]
    frameInstants := buffer.frameInstants ++ [now] }

def shouldFlush (buffer : UserAudioBuffer) (now : ℕ) (config : ReceiverConfig) : Bool :=
  match buffer.firstFrameInstant with
  | none => false
  | some start =>
      if now - start ≥ config.chunkDuration then true
      else buffer.lastFrameInstant.any fun last => now - last ≥ config.silenceFlushDuration

def takeFrames (buffer : UserAudioBuffer) : (ℕ × List BufferedFrame) × UserAudioBuffer :=
  ((buffer.firstFrameMs.getD 0, buffer.frames), { userId := buffer.userId })

def refreshMetadata (buffer : UserAudioBuffer) : UserAudioBuffer :=
  { buffer with
    firstFrameMs := buffer.frames.head?.map (·.timestampMs)
    firstFrameInstant := buffer.frameInstants.min?
    lastFrameInstant := buffer.frameInstants.max?
    minStartMs := (buffer.frames.map (·.timestampMs)).min?
    maxEndMs := (buffer.frames.map frameEndOrMax).max? }

/-- The stable sort of the combined frames, each with its arrival instant. -/
def mergeTimedFrames (buffer other : UserAudioBuffer) : List (BufferedFrame × ℕ) :=
  (buffer.frames.zip buffer.frameInstants ++ other.frames.zip other.frameInstants).insertionSort
    fun left right => left.1.timestampMs ≤ right.1.timestampMs

def mergeFrom (buffer other : UserAudioBuffer) : UserAudioBuffer :=
  let timed := buffer.mergeTimedFrames other
  refreshMetadata { buffer with
    bufferedBytes := saturatingAdd usizeMax buffer.bufferedBytes other.bufferedBytes
    frames := timed.map Prod.fst
    frameInstants := timed.map Prod.snd }

def bufferedSpanAfter (buffer : UserAudioBuffer) (frame : BufferedFrame) (frameEnd : ℕ) : ℕ :=
  buffer.maxEndMs.elim frameEnd (max · frameEnd) -
    buffer.minStartMs.elim frame.timestampMs (min · frame.timestampMs)

def canAcceptFrame (buffer : UserAudioBuffer) (frame : BufferedFrame) (frameEnd : ℕ) : Bool :=
  buffer.frames.length < maxReceiverBufferedFramesPerUser &&
    (checkedAdd usizeMax buffer.bufferedBytes frame.pcm16leBytes.length).any
      (· ≤ maxReceiverBufferedBytesPerUser) &&
    buffer.bufferedSpanAfter frame frameEnd ≤ maxReceiverBufferedSpanMs

/-! ### Dropping the oldest frames -/

/-- Entry `i` is the largest frame end among the frames from `i` on. -/
def suffixMaxEndMs (frames : List BufferedFrame) : List ℕ :=
  frames.foldr (fun frame suffix => max (suffix.headD 0) (frameEndOrMax frame) :: suffix) []

/-- The counters of the loop in `drop_oldest_over_limits`. -/
structure DropScan where
  dropCount : ℕ
  retainedBytes : ℕ
  droppedBytes : ℕ

/-- The loop's break condition: what is left after `dropCount` frames is within all limits. -/
def withinLimitsAfter (frames : List BufferedFrame) (scan : DropScan) : Bool :=
  let retainedLen := frames.length - scan.dropCount
  let spanOk := retainedLen = 0 ||
    match (suffixMaxEndMs frames)[scan.dropCount]?, frames[scan.dropCount]? with
    | some suffixEnd, some first =>
        first.timestampMs ≤ suffixEnd && suffixEnd - first.timestampMs ≤ maxReceiverBufferedSpanMs
    | _, _ => false
  retainedLen ≤ maxReceiverBufferedFramesPerUser &&
    scan.retainedBytes ≤ maxReceiverBufferedBytesPerUser && spanOk

def dropLoop (frames : List BufferedFrame) : List BufferedFrame → DropScan → DropScan
  | [], scan => scan
  | frame :: rest, scan =>
      if withinLimitsAfter frames scan then scan
      else
        let bytes := frame.pcm16leBytes.length
        dropLoop frames rest {
          dropCount := scan.dropCount + 1
          retainedBytes := scan.retainedBytes - bytes
          droppedBytes := saturatingAdd usizeMax scan.droppedBytes bytes }

/-- Returns the dropped bytes and the buffer that remains. -/
def dropOldestOverLimits (buffer : UserAudioBuffer) : ℕ × UserAudioBuffer :=
  let scan := dropLoop buffer.frames buffer.frames
    { dropCount := 0, retainedBytes := buffer.bufferedBytes, droppedBytes := 0 }
  if scan.dropCount > 0 then
    (scan.droppedBytes, refreshMetadata { buffer with
      frames := buffer.frames.drop scan.dropCount
      frameInstants := buffer.frameInstants.drop scan.dropCount
      bufferedBytes := scan.retainedBytes })
  else (scan.droppedBytes, buffer)

end UserAudioBuffer

structure UserChunkCandidate where
  userId : String
  startMs : ℕ
  frames : List BufferedFrame
  deriving DecidableEq, Repr

structure ReceiverState where
  perUser : AList fun _ : String => UserAudioBuffer := ∅
  bufferedBytes : ℕ := 0

/-- Why `track_frame` logs a warning and drops the frame. -/
inductive FrameDropReason where
  | oversizedFrame
  | timestampOverflow
  | userLimit
  | globalBufferLimit
  | userBufferLimit
  | userSpanLimit
  deriving DecidableEq, Repr

namespace ReceiverState

def ensureUser (state : ReceiverState) (userId : String) : UserAudioBuffer :=
  (state.perUser.lookup userId).getD { userId := userId }

/-- The checks of `track_frame`, in the order in which they return early. -/
def frameDropReason (state : ReceiverState) (userId : String) (frame : BufferedFrame) :
    Option FrameDropReason :=
  let frameBytes := frame.pcm16leBytes.length
  if frameBytes > maxReceiverFrameBytes then some .oversizedFrame
  else match frameEndMs frame with
  | none => some .timestampOverflow
  | some frameEnd =>
      if userId ∉ state.perUser ∧ state.perUser.entries.length ≥ maxReceiverUsers then
        some .userLimit
      else if (checkedAdd usizeMax state.bufferedBytes frameBytes).all
          (· > maxReceiverBufferedBytesTotal) then
        some .globalBufferLimit
      else match state.perUser.lookup userId with
      | some user => if user.canAcceptFrame frame frameEnd then none else some .userBufferLimit
      | none =>
          if frameEnd - frame.timestampMs > maxReceiverBufferedSpanMs then some .userSpanLimit
          else none

def trackFrame (state : ReceiverState) (userId : String) (frame : BufferedFrame) (now : ℕ) :
    ReceiverState :=
  match state.frameDropReason userId frame with
  | some _ => state
  | none => {
      perUser := state.perUser.insert userId ((state.ensureUser userId).pushFrame frame now)
      bufferedBytes := saturatingAdd usizeMax state.bufferedBytes frame.pcm16leBytes.length }

def usersReadyToFlush (state : ReceiverState) (now : ℕ) (config : ReceiverConfig)
    (order : List String) : List String :=
  (((state.perUser.iterKeys order).filterMap state.perUser.lookup).filter
    (·.shouldFlush now config)).map (·.userId)

def takeUserChunk (state : ReceiverState) (userId : String) :
    Option UserChunkCandidate × ReceiverState :=
  match state.perUser.lookup userId with
  | none => (none, state)
  | some user =>
      let ((startMs, frames), _) := user.takeFrames
      let next := {
        perUser := state.perUser.erase userId
        bufferedBytes := state.bufferedBytes - user.bufferedBytes }
      if frames.isEmpty then (none, next)
      else (some { userId := user.userId, startMs := startMs, frames := frames }, next)

/-- Taking a list of users in order and keeping the candidates. -/
def takeUserChunks (state : ReceiverState) : List String → List UserChunkCandidate × ReceiverState
  | [] => ([], state)
  | userId :: rest =>
      let (candidate, next) := state.takeUserChunk userId
      let (candidates, final) := takeUserChunks next rest
      (candidate.toList ++ candidates, final)

def flushDueChunks (state : ReceiverState) (now : ℕ) (config : ReceiverConfig)
    (order : List String) : List UserChunkCandidate × ReceiverState :=
  state.takeUserChunks (state.usersReadyToFlush now config order)

def flushAllChunks (state : ReceiverState) (order : List String) :
    List UserChunkCandidate × ReceiverState :=
  state.takeUserChunks (state.perUser.iterKeys order)

/-- Returns the number of frames moved. -/
def rekeyUser (state : ReceiverState) (oldId newId : String) : ℕ × ReceiverState :=
  match state.perUser.lookup oldId with
  | none => (0, state)
  | some oldBuf =>
      let remaining := state.perUser.erase oldId
      match remaining.lookup newId with
      | some existing =>
          let (droppedBytes, merged) := (existing.mergeFrom oldBuf).dropOldestOverLimits
          (oldBuf.frames.length, {
            perUser := remaining.insert newId merged
            bufferedBytes :=
              if droppedBytes > 0 then state.bufferedBytes - droppedBytes
              else state.bufferedBytes })
      | none =>
          (oldBuf.frames.length, { state with
            perUser := remaining.insert newId { oldBuf with userId := newId } })

end ReceiverState

/-- A call on the receiver together with what it reads from its environment. -/
inductive ReceiverCall where
  | trackFrame (userId : String) (frame : BufferedFrame) (now : ℕ)
  | takeUserChunk (userId : String)
  | flushDueChunks (now : ℕ) (config : ReceiverConfig) (order : List String)
  | flushAllChunks (order : List String)
  | rekeyUser (oldId newId : String)

def ReceiverState.step (state : ReceiverState) : ReceiverCall → ReceiverState
  | .trackFrame userId frame now => state.trackFrame userId frame now
  | .takeUserChunk userId => (state.takeUserChunk userId).2
  | .flushDueChunks now config order => (state.flushDueChunks now config order).2
  | .flushAllChunks order => (state.flushAllChunks order).2
  | .rekeyUser oldId newId => (state.rekeyUser oldId newId).2

end DiscordTranscript.Audio
