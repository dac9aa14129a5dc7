import DiscordTranscript.Audio.RecordingSession
import DiscordTranscript.Foundation.Runs

/-! # The bounded recording writer

The model of `application/recording_writer.rs`: callers reserve capacity and
hand a chunk to a single worker through a bounded channel; the capacity is given
back when the outcome has been acknowledged. Every operation on a counter, on
the channel or on the closed flag is one step, so that callers, worker, waiters,
drain and shutdown interleave as they do on several threads. A caller holds the
admission lock from its first step to its last, so at most one is under way.

The storage handle that travels with a chunk only decides how its save ends,
which is an input. An accepted chunk is known by its ticket, the number of chunks
accepted before it. A receipt is always awaited, never dropped.
-/

namespace DiscordTranscript.Application

open MachineInt Audio Infrastructure

inductive ChunkWriteOutcome where
  | persisted (chunk : PersistedChunk)
  | failed (chunk : PreparedChunk) (error : String)
  deriving DecidableEq

inductive WriterMessage where
  | save (ticket : ℕ) (chunk : PreparedChunk)
  | shutdown
  deriving DecidableEq

/-- How the blocking task that saves a chunk ends. -/
inductive SaveResult where
  | saved (chunk : SavedChunk)
  | error (err : ChunkStorageError)
  | panicked
  | taskFailed (message : String)

def chunkStorageErrorText : ChunkStorageError → String
  | .io err => s!"filesystem error: {err}"
  | .remote err => s!"object store error: {err}"

def SaveResult.outcome (chunk : PreparedChunk) : SaveResult → ChunkWriteOutcome
  | .saved stored => .persisted (chunk.complete stored)
  | .error err => .failed chunk (chunkStorageErrorText err)
  | .panicked => .failed chunk "chunk storage panicked"
  | .taskFailed message => .failed chunk s!"chunk storage task failed: {message}"

/-! ## The parties -/

/-- Where a `try_enqueue` stands. Reserving reads the counter and then tries to
replace the value it read; `observed` is that value. -/
inductive EnqueuePhase where
  | checkClosed
  | loadTasks
  | reserveTask (observed : ℕ)
  | loadBytes
  | reserveBytes (observed : ℕ)
  | releaseTask
  | send
  deriving DecidableEq

structure EnqueueCall where
  chunk : PreparedChunk
  phase : EnqueuePhase
  deriving DecidableEq

/-- A permit with the receipt or completion that owns it. Dropping it gives the
bytes back first and the task after. -/
inductive PermitStage where
  | receipt
  | completion (outcome : ChunkWriteOutcome)
  | bytesReleased
  deriving DecidableEq

structure PendingWritePermit where
  ticket : ℕ
  bytes : ℕ
  stage : PermitStage
  deriving DecidableEq

/-- `ChunkWriteReceipt::wait` gets on when the outcome has been sent. -/
def PendingWritePermit.awaitReply (outcomes : List (ℕ × ChunkWriteOutcome))
    (permit : PendingWritePermit) : PendingWritePermit :=
  match permit.stage, outcomes.lookup permit.ticket with
  | .receipt, some outcome => { permit with stage := .completion outcome }
  | _, _ => permit

inductive WriterWorker where
  | receiving
  | saving (ticket : ℕ) (chunk : PreparedChunk)
  | replying (ticket : ℕ) (outcome : ChunkWriteOutcome)
  | exited
  deriving DecidableEq

/-- Where the one `shutdown` that closes admission stands; the others find it
closed and return. -/
inductive ShutdownPhase where
  | notCalled
  | draining
  | sending
  | sent
  deriving DecidableEq

/-- The answer to a `try_enqueue`: the ticket, or the chunk handed back. -/
structure EnqueueReturn where
  submitted : PreparedChunk
  result : Except PreparedChunk ℕ

/-- The writer with its callers, worker and permits. `accepted`, `outcomes` and
`returns` are history; of them only the length of `accepted` is read, to number
the next ticket. -/
structure RecordingWriter where
  maxTasks : ℕ
  maxBytes : ℕ
  pendingTasks : ℕ := 0
  pendingBytes : ℕ := 0
  closed : Bool := false
  channel : List WriterMessage := []
  /-- Some clone of the writer still exists. -/
  cloned : Bool := true
  call : Option EnqueueCall := none
  permits : List PendingWritePermit := []
  worker : WriterWorker := .receiving
  shutdown : ShutdownPhase := .notCalled
  accepted : List PreparedChunk := []
  outcomes : List (ℕ × ChunkWriteOutcome) := []
  returns : List EnqueueReturn := []

namespace RecordingWriter

/-! ## `try_enqueue` -/

/-- Returning gives the admission lock back. -/
def handBack (writer : RecordingWriter) (chunk : PreparedChunk) : RecordingWriter :=
  { writer with call := none, returns := ⟨chunk, .error chunk⟩ :: writer.returns }

def toPhase (writer : RecordingWriter) (chunk : PreparedChunk) (phase : EnqueuePhase) :
    RecordingWriter :=
  { writer with call := some ⟨chunk, phase⟩ }

/-- One round of `reserve_at_most`: the value to store, if there is room. -/
def roomFor (observed amount limit : ℕ) : Option ℕ :=
  (checkedAdd usizeMax observed amount).filter (· ≤ limit)

/-- `try_send`; it fails on a full channel and after the worker has gone. -/
def trySend (writer : RecordingWriter) (chunk : PreparedChunk) : RecordingWriter :=
  if writer.channel.length < writer.maxTasks ∧ writer.worker ≠ .exited then
    let ticket := writer.accepted.length
    { writer with
      channel := writer.channel ++ [.save ticket chunk]
      accepted := writer.accepted ++ [chunk]
      permits := writer.permits ++ [⟨ticket, chunk.sizeBytes, .receipt⟩]
      call := none
      returns := ⟨chunk, .ok ticket⟩ :: writer.returns }
  else
    { writer with
      pendingBytes := writer.pendingBytes - chunk.sizeBytes
      call := some ⟨chunk, .releaseTask⟩ }

/-- The next step of the call; `spurious` is a compare-exchange that fails
although the counter has the expected value. -/
def enqueueStep (writer : RecordingWriter) (call : EnqueueCall) (spurious : Bool) :
    RecordingWriter :=
  let chunk := call.chunk
  match call.phase with
  | .checkClosed =>
      if writer.closed then writer.handBack chunk else writer.toPhase chunk .loadTasks
  | .loadTasks => writer.toPhase chunk (.reserveTask writer.pendingTasks)
  | .reserveTask observed =>
      match roomFor observed 1 writer.maxTasks with
      | none => writer.handBack chunk
      | some next =>
          if writer.pendingTasks = observed ∧ !spurious then
            { writer with pendingTasks := next }.toPhase chunk .loadBytes
          else writer.toPhase chunk (.reserveTask writer.pendingTasks)
  | .loadBytes => writer.toPhase chunk (.reserveBytes writer.pendingBytes)
  | .reserveBytes observed =>
      match roomFor observed chunk.sizeBytes writer.maxBytes with
      | none => writer.toPhase chunk .releaseTask
      | some next =>
          if writer.pendingBytes = observed ∧ !spurious then
            { writer with pendingBytes := next }.toPhase chunk .send
          else writer.toPhase chunk (.reserveBytes writer.pendingBytes)
  | .releaseTask => { writer with pendingTasks := writer.pendingTasks - 1 }.handBack chunk
  | .send => writer.trySend chunk

/-! ## The worker -/

def workerStep (writer : RecordingWriter) (result : SaveResult) : RecordingWriter :=
  match writer.worker with
  | .receiving =>
      match writer.channel with
      | .save ticket chunk :: rest =>
          { writer with channel := rest, worker := .saving ticket chunk }
      | .shutdown :: rest => { writer with channel := rest, worker := .exited }
      | [] => if writer.cloned then writer else { writer with worker := .exited }
  | .saving ticket chunk => { writer with worker := .replying ticket (result.outcome chunk) }
  | .replying ticket outcome =>
      { writer with
        worker := .receiving
        outcomes := writer.outcomes ++ [(ticket, outcome)] }
  | .exited => writer

/-! ## Receipts and completions -/

/-- A step of the task that waits for the ticket's outcome. -/
def wait (writer : RecordingWriter) (ticket : ℕ) : RecordingWriter :=
  { writer with permits := writer.permits.map fun permit =>
      if permit.ticket = ticket then permit.awaitReply writer.outcomes else permit }

/-- The first half of dropping a completion. -/
def releaseBytes (writer : RecordingWriter) (ticket : ℕ) : RecordingWriter :=
  match writer.permits.find? (·.ticket = ticket) with
  | some ⟨_, bytes, .completion _⟩ =>
      { writer with
        pendingBytes := writer.pendingBytes - bytes
        permits := writer.permits.map fun permit =>
          if permit.ticket = ticket then { permit with stage := .bytesReleased } else permit }
  | _ => writer

/-- The second half. -/
def releaseTask (writer : RecordingWriter) (ticket : ℕ) : RecordingWriter :=
  match writer.permits.find? (·.ticket = ticket) with
  | some ⟨_, _, .bytesReleased⟩ =>
      { writer with
        pendingTasks := writer.pendingTasks - 1
        permits := writer.permits.filter (·.ticket ≠ ticket) }
  | _ => writer

/-! ## `drain` and `shutdown` -/

/-- The check on which `drain` returns. -/
def drainReturns (writer : RecordingWriter) : Bool := writer.pendingTasks = 0

def shutdownStep (writer : RecordingWriter) : RecordingWriter :=
  match writer.shutdown with
  | .notCalled =>
      -- The swap needs the admission lock.
      if writer.call.isNone then { writer with closed := true, shutdown := .draining } else writer
  | .draining => if writer.drainReturns then { writer with shutdown := .sending } else writer
  | .sending =>
      if writer.worker = .exited then { writer with shutdown := .sent }
      else if writer.channel.length < writer.maxTasks then
        { writer with channel := writer.channel ++ [.shutdown], shutdown := .sent }
      else writer
  | .sent => writer

/-- The last clone is dropped; nothing that borrows one is under way. -/
def dropClones (writer : RecordingWriter) : RecordingWriter :=
  if writer.call.isNone ∧ (writer.shutdown = .notCalled ∨ writer.worker = .exited) then
    { writer with cloned := false }
  else writer

/-! ## Runs -/

inductive WriterEvent where
  | tryEnqueue (chunk : PreparedChunk)
  | call (spurious : Bool)
  | worker (result : SaveResult)
  | wait (ticket : ℕ)
  | releaseBytes (ticket : ℕ)
  | releaseTask (ticket : ℕ)
  | shutdown
  | dropClones

def step (writer : RecordingWriter) : WriterEvent → RecordingWriter
  | .tryEnqueue chunk =>
      if writer.call.isNone ∧ writer.cloned then writer.toPhase chunk .checkClosed else writer
  | .call spurious =>
      match writer.call with
      | some call => writer.enqueueStep call spurious
      | none => writer
  | .worker result => writer.workerStep result
  | .wait ticket => writer.wait ticket
  | .releaseBytes ticket => writer.releaseBytes ticket
  | .releaseTask ticket => writer.releaseTask ticket
  | .shutdown => writer.shutdownStep
  | .dropClones => writer.dropClones

/-- `BoundedRecordingWriter::new`. -/
def new (maxTasks maxBytes : ℕ) : RecordingWriter := { maxTasks := maxTasks, maxBytes := maxBytes }

end RecordingWriter

end DiscordTranscript.Application
