import Mathlib.Data.Prod.Lex
import Mathlib.Data.String.Basic
import DiscordTranscript.Audio.Receiver
import DiscordTranscript.Infrastructure.StorageFs

/-! # Recording sessions

The model of `audio/recorder.rs` and `audio/recording_session.rs`: buffered
frames become WAV chunks with reserved sequence numbers, which are saved
directly, handed to an out-of-lock writer, or kept in a bounded retry buffer.
Storage outcomes are inputs of the calls that write.

Three things are recorded for the proofs only and are read by no operation: the
`serial` of a chunk, which is its position in the order of preparation, the
`wav` of a saved chunk, and the session's `ledger`. Sequence counters are
unbounded naturals; the `u64` of the source would need 2^64 chunks of one user
to wrap.
-/

namespace DiscordTranscript.Audio

open MachineInt Infrastructure

/-! ## The recorder -/

structure RecorderOutputChunk where
  userId : String
  startMs : ℕ
  wav : WavChunk

structure RecorderEngine where
  receiver : ReceiverState := {}
  receiverConfig : ReceiverConfig
  sampleRate : ℕ

namespace RecorderEngine

def ingestFrame (engine : RecorderEngine) (userId : String) (frame : BufferedFrame) (now : ℕ) :
    RecorderEngine :=
  { engine with receiver := engine.receiver.trackFrame userId frame now }

def buildChunk (engine : RecorderEngine) (candidate : UserChunkCandidate) :
    Except AudioError RecorderOutputChunk := do
  let wav ← buildWavChunk candidate.frames engine.sampleRate
  return { userId := candidate.userId, startMs := candidate.startMs, wav := wav }

/-- Candidates whose audio cannot be built are logged and skipped. -/
def buildChunksBestEffort (engine : RecorderEngine) (candidates : List UserChunkCandidate) :
    List RecorderOutputChunk :=
  candidates.filterMap fun candidate => (engine.buildChunk candidate).toOption

def flushDue (engine : RecorderEngine) (now : ℕ) (order : List String) :
    List RecorderOutputChunk × RecorderEngine :=
  let (due, receiver) := engine.receiver.flushDueChunks now engine.receiverConfig order
  (engine.buildChunksBestEffort due, { engine with receiver := receiver })

def flushAll (engine : RecorderEngine) (order : List String) :
    List RecorderOutputChunk × RecorderEngine :=
  let (all, receiver) := engine.receiver.flushAllChunks order
  (engine.buildChunksBestEffort all, { engine with receiver := receiver })

def rekeyUser (engine : RecorderEngine) (oldId newId : String) : ℕ × RecorderEngine :=
  let (moved, receiver) := engine.receiver.rekeyUser oldId newId
  (moved, { engine with receiver := receiver })

end RecorderEngine

/-! ## Chunks -/

structure PreparedChunk where
  meetingId : String
  userId : String
  sequence : ℕ
  startMs : ℕ
  wav : WavChunk
  serial : ℕ
  deriving DecidableEq

structure PersistedChunk where
  meetingId : String
  userId : String
  sequence : ℕ
  startMs : ℕ
  saved : SavedChunk
  wav : WavChunk
  serial : ℕ
  deriving DecidableEq

/-- The outcome of the `index`-th `save_chunk` call of one flush. -/
abbrev ChunkStorage := ℕ → PreparedChunk → Except ChunkStorageError SavedChunk

def PreparedChunk.complete (chunk : PreparedChunk) (saved : SavedChunk) : PersistedChunk where
  meetingId := chunk.meetingId
  userId := chunk.userId
  sequence := chunk.sequence
  startMs := chunk.startMs
  saved := saved
  wav := chunk.wav
  serial := chunk.serial

def PreparedChunk.sizeBytes (chunk : PreparedChunk) : ℕ := chunk.wav.bytes.length

structure AudioLoss where
  droppedChunks : ℕ := 0
  droppedBytes : ℕ := 0
  deriving DecidableEq

def AudioLoss.recordDrop (loss : AudioLoss) (chunks bytes : ℕ) : AudioLoss where
  droppedChunks := saturatingAdd usizeMax loss.droppedChunks chunks
  droppedBytes := saturatingAdd usizeMax loss.droppedBytes bytes

structure FailedChunk where
  userId : String
  sequence : ℕ
  startMs : ℕ
  sizeBytes : ℕ

def FailedChunk.fromChunk (chunk : PreparedChunk) : FailedChunk where
  userId := chunk.userId
  sequence := chunk.sequence
  startMs := chunk.startMs
  sizeBytes := chunk.sizeBytes

structure FlushResult where
  persisted : List PersistedChunk
  failed : List FailedChunk
  newlyFailed : ℕ
  audioLoss : AudioLoss

structure PersistChunksResult where
  persisted : List PersistedChunk := []
  failedChunks : List PreparedChunk := []
  newlyFailed : ℕ := 0

/-! ## The session -/

def defaultMaxPendingFailedChunkBytes : ℕ := 512 * 1024 * 1024

/-- Proof-only history: the chunks as they were prepared, and those evicted. -/
structure Ledger where
  prepared : List PreparedChunk := []
  evicted : List PreparedChunk := []

structure RecordingSession where
  meetingId : String
  recorder : RecorderEngine
  perUserSeq : AList (fun _ : String => ℕ) := ∅
  pendingFailedChunks : List PreparedChunk := []
  audioLoss : AudioLoss := {}
  maxPendingFailedChunkBytes : ℕ := defaultMaxPendingFailedChunkBytes
  ledger : Ledger := {}

/-- The counters of the eviction loop. -/
structure EvictScan where
  totalBytes : ℕ
  dropCount : ℕ := 0
  dropBytes : ℕ := 0

namespace RecordingSession

def new (meetingId : String) (receiverConfig : ReceiverConfig) (sampleRate : ℕ) :
    RecordingSession where
  meetingId := meetingId
  recorder := { receiverConfig := receiverConfig, sampleRate := sampleRate }

def ingestFrame (session : RecordingSession) (userId : String) (frame : BufferedFrame)
    (now : ℕ) : RecordingSession :=
  { session with recorder := session.recorder.ingestFrame userId frame now }

/-- The sequence number that `reserve_sequence` would hand out next. -/
def nextSequence (session : RecordingSession) (userId : String) : ℕ :=
  (session.perUserSeq.lookup userId).getD 0 + 1

def reserveSequence (session : RecordingSession) (userId : String) : ℕ × RecordingSession :=
  let seq := session.nextSequence userId
  (seq, { session with perUserSeq := session.perUserSeq.insert userId seq })

def prepareChunk (session : RecordingSession) (chunk : RecorderOutputChunk) :
    PreparedChunk × RecordingSession :=
  let (sequence, reserved) := session.reserveSequence chunk.userId
  let prepared : PreparedChunk :=
    { meetingId := reserved.meetingId
      userId := chunk.userId
      sequence := sequence
      startMs := chunk.startMs
      wav := chunk.wav
      serial := reserved.ledger.prepared.length }
  (prepared, { reserved with
    ledger := { reserved.ledger with prepared := reserved.ledger.prepared ++ [prepared] } })

def prepareChunks (session : RecordingSession) :
    List RecorderOutputChunk → List PreparedChunk × RecordingSession
  | [] => ([], session)
  | chunk :: rest =>
      let (prepared, next) := session.prepareChunk chunk
      let (others, final) := next.prepareChunks rest
      (prepared :: others, final)

def prepareWithPending (session : RecordingSession) (chunks : List RecorderOutputChunk) :
    List PreparedChunk × RecordingSession :=
  let pending := session.pendingFailedChunks
  let (prepared, next) := { session with pendingFailedChunks := [] }.prepareChunks chunks
  (pending ++ prepared, next)

/-- The key of `sort_pending_failed_chunks`. -/
def pendingKey (chunk : PreparedChunk) : ℕ ×ₗ String ×ₗ ℕ :=
  toLex (chunk.startMs, toLex (chunk.userId, chunk.sequence))

def sortPending (chunks : List PreparedChunk) : List PreparedChunk :=
  chunks.insertionSort fun left right => pendingKey left ≤ pendingKey right

def sortPendingFailedChunks (session : RecordingSession) : RecordingSession :=
  { session with pendingFailedChunks := sortPending session.pendingFailedChunks }

def evictLoop (maxBytes : ℕ) : List PreparedChunk → EvictScan → EvictScan
  | [], scan => scan
  | chunk :: rest, scan =>
      if scan.totalBytes ≤ maxBytes then scan
      else evictLoop maxBytes rest {
        totalBytes := scan.totalBytes - chunk.sizeBytes
        dropBytes := scan.dropBytes + chunk.sizeBytes
        dropCount := scan.dropCount + 1 }

def pendingBytes (chunks : List PreparedChunk) : ℕ := (chunks.map (·.sizeBytes)).sum

def enforcePendingFailedLimit (session : RecordingSession) : AudioLoss × RecordingSession :=
  let total := pendingBytes session.pendingFailedChunks
  if total ≤ session.maxPendingFailedChunkBytes then ({}, session)
  else
    let scan := evictLoop session.maxPendingFailedChunkBytes session.pendingFailedChunks
      { totalBytes := total }
    if scan.dropCount > 0 then
      (AudioLoss.recordDrop {} scan.dropCount scan.dropBytes, { session with
        pendingFailedChunks := session.pendingFailedChunks.drop scan.dropCount
        audioLoss := session.audioLoss.recordDrop scan.dropCount scan.dropBytes
        ledger := { session.ledger with
          evicted := session.ledger.evicted ++
            session.pendingFailedChunks.take scan.dropCount } })
    else ({}, session)

/-- A chunk of another meeting is handed back and the session is unchanged. -/
def retainFailedPrepared (session : RecordingSession) (chunk : PreparedChunk) :
    Except PreparedChunk (AudioLoss × RecordingSession) :=
  if chunk.meetingId ≠ session.meetingId then .error chunk
  else
    let pushed := { session with pendingFailedChunks := session.pendingFailedChunks ++ [chunk] }
    .ok pushed.sortPendingFailedChunks.enforcePendingFailedLimit

def persistLoop (storage : ChunkStorage) (existingPendingCount : ℕ) :
    ℕ → List PreparedChunk → PersistChunksResult
  | _, [] => {}
  | index, chunk :: rest =>
      let tail := persistLoop storage existingPendingCount (index + 1) rest
      match storage index chunk with
      | .ok saved => { tail with persisted := chunk.complete saved :: tail.persisted }
      | .error _ => { tail with
          failedChunks := chunk :: tail.failedChunks
          newlyFailed := tail.newlyFailed + if index ≥ existingPendingCount then 1 else 0 }

def persistChunks (storage : ChunkStorage) (chunks : List PreparedChunk)
    (existingPendingCount : ℕ) : PersistChunksResult :=
  persistLoop storage existingPendingCount 0 chunks

def persistChunksWithPending (session : RecordingSession) (storage : ChunkStorage)
    (chunks : List PreparedChunk) (retryPendingWithoutNewChunks : Bool) :
    FlushResult × RecordingSession :=
  if chunks.isEmpty && !retryPendingWithoutNewChunks then
    -- `flush_due` runs on every voice tick; a tick without new chunks reports no failures.
    ({ persisted := [], failed := [], newlyFailed := 0, audioLoss := session.audioLoss }, session)
  else
    let retryChunks := session.pendingFailedChunks ++ chunks
    let result := persistChunks storage retryChunks session.pendingFailedChunks.length
    let stored := { session with pendingFailedChunks := result.failedChunks }
    let (_, final) := stored.sortPendingFailedChunks.enforcePendingFailedLimit
    ({ persisted := result.persisted
       failed := final.pendingFailedChunks.map FailedChunk.fromChunk
       newlyFailed := result.newlyFailed
       audioLoss := final.audioLoss }, final)

def flushDue (session : RecordingSession) (storage : ChunkStorage) (now : ℕ)
    (order : List String) : FlushResult × RecordingSession :=
  let (generated, recorder) := session.recorder.flushDue now order
  let (chunks, prepared) := { session with recorder := recorder }.prepareChunks generated
  prepared.persistChunksWithPending storage chunks false

def flushAll (session : RecordingSession) (storage : ChunkStorage) (order : List String) :
    FlushResult × RecordingSession :=
  let (generated, recorder) := session.recorder.flushAll order
  let (chunks, prepared) := { session with recorder := recorder }.prepareChunks generated
  prepared.persistChunksWithPending storage chunks true

def prepareDue (session : RecordingSession) (now : ℕ) (order : List String) :
    List PreparedChunk × RecordingSession :=
  let (chunks, recorder) := session.recorder.flushDue now order
  let flushed := { session with recorder := recorder }
  if chunks.isEmpty then ([], flushed) else flushed.prepareWithPending chunks

def prepareAll (session : RecordingSession) (order : List String) :
    List PreparedChunk × RecordingSession :=
  let (chunks, recorder) := session.recorder.flushAll order
  { session with recorder := recorder }.prepareWithPending chunks

def rekeyPending (oldId newId : String) (chunk : PreparedChunk) : PreparedChunk :=
  if chunk.userId = oldId then { chunk with userId := newId } else chunk

def rekeySequences (oldId newId : String) (perUserSeq : AList fun _ : String => ℕ) :
    AList fun _ : String => ℕ :=
  match perUserSeq.lookup oldId with
  | none => perUserSeq
  | some oldSeq =>
      let remaining := perUserSeq.erase oldId
      remaining.insert newId (max ((remaining.lookup newId).getD 0) oldSeq)

def rekeyUser (session : RecordingSession) (oldId newId : String) : ℕ × RecordingSession :=
  let (moved, recorder) := session.recorder.rekeyUser oldId newId
  (moved, { session with
    recorder := recorder
    pendingFailedChunks := session.pendingFailedChunks.map (rekeyPending oldId newId)
    perUserSeq := rekeySequences oldId newId session.perUserSeq })

end RecordingSession

/-! ## Runs -/

/-- A session with the chunks it has given away: those in the hands of an
out-of-lock writer, and those reported as saved. -/
structure RecordingRun where
  session : RecordingSession
  handedOut : List PreparedChunk := []
  persisted : List PersistedChunk := []

/-- A call on the session, or the end of a write by the holder of a chunk.
Indices point into the chunks handed out. -/
inductive RecordingCall where
  | ingestFrame (userId : String) (frame : BufferedFrame) (now : ℕ)
  | flushDue (storage : ChunkStorage) (now : ℕ) (order : List String)
  | flushAll (storage : ChunkStorage) (order : List String)
  | prepareDue (now : ℕ) (order : List String)
  | prepareAll (order : List String)
  | writerSaved (index : ℕ) (saved : SavedChunk)
  | retainFailedPrepared (index : ℕ)
  | rekeyUser (oldId newId : String)

namespace RecordingRun

def flushed (run : RecordingRun) (result : FlushResult × RecordingSession) : RecordingRun :=
  { run with session := result.2, persisted := run.persisted ++ result.1.persisted }

def prepared (run : RecordingRun) (result : List PreparedChunk × RecordingSession) :
    RecordingRun :=
  { run with session := result.2, handedOut := run.handedOut ++ result.1 }

def step (run : RecordingRun) : RecordingCall → RecordingRun
  | .ingestFrame userId frame now =>
      { run with session := run.session.ingestFrame userId frame now }
  | .flushDue storage now order => run.flushed (run.session.flushDue storage now order)
  | .flushAll storage order => run.flushed (run.session.flushAll storage order)
  | .prepareDue now order => run.prepared (run.session.prepareDue now order)
  | .prepareAll order => run.prepared (run.session.prepareAll order)
  | .writerSaved index saved =>
      match run.handedOut[index]? with
      | none => run
      | some chunk => { run with
          handedOut := run.handedOut.eraseIdx index
          persisted := run.persisted ++ [chunk.complete saved] }
  | .retainFailedPrepared index =>
      match run.handedOut[index]? with
      | none => run
      | some chunk =>
          match run.session.retainFailedPrepared chunk with
          | .error _ => run
          | .ok (_, session) => { run with
              session := session
              handedOut := run.handedOut.eraseIdx index }
  | .rekeyUser oldId newId => { run with session := (run.session.rekeyUser oldId newId).2 }

/-- A fresh session; the retry limit is a parameter as in the tests of the source. -/
def start (meetingId : String) (config : ReceiverConfig) (sampleRate maxPendingBytes : ℕ) :
    RecordingRun where
  session := { RecordingSession.new meetingId config sampleRate with
    maxPendingFailedChunkBytes := maxPendingBytes }

end RecordingRun

end DiscordTranscript.Audio
