import Mathlib.Data.List.Sort
import DiscordTranscript.Foundation.MachineInt
import DiscordTranscript.Foundation.Slots
import DiscordTranscript.Infrastructure.ObjectStore
import DiscordTranscript.Infrastructure.UploadGenerations

/-! # The recording upload queue

The model of `UploadQueue` and of the calls of `RecordingObjectStore` that use it,
in `infrastructure/storage_s3.rs`. Producers reserve capacity, publish a generation
of their key and hand a task to a single worker through a bounded channel; the
worker PUTs the object, retries, or gives the task up; `delete_prefix` tombstones a
prefix, waits for the PUT in flight and deletes what it lists.

Every operation on shared state (an atomic counter, a mutex, the channel, the
object store, the file system) is one step, so that any number of producers and
deletions interleave with the worker as they do on several threads. A read of a
whole file is one step. The content type and the path of a task, which only reach
the log and the request header, are left out; a digest is represented by the
content itself, so that it has no collisions. Times are milliseconds.
-/

namespace DiscordTranscript.Infrastructure

open Slots

def uploadQueueBound : ℕ := 64
def uploadMaxPendingBytes : ℕ := 256 * 1024 * 1024
def uploadMaxPendingTasks : ℕ := 1024
def reconcileReservedTasks : ℕ := 16
def reconcilePendingLimit : ℕ := uploadQueueBound - reconcileReservedTasks
def cancelInflightWait : ℕ := 65 * 1000
def tombstoneRefreshInterval : ℕ := 10 * 1000
def uploadFileReceiptCacheLimit : ℕ := uploadMaxPendingTasks * 2
def uploadFileReceiptCacheTtl : ℕ := 10 * 60 * 1000

/-- The delay that `RecordingObjectStore::new` hands to the queue. -/
def retryBase : ℕ := 1000

/-! ## Tasks and receipts -/

inductive UploadSource where
  | inline (bytes : List UInt8)
  | file (path : List String)
  deriving DecidableEq

/-- What of a task never changes once its generation is assigned. -/
structure UploadWrite where
  key : String
  source : UploadSource
  generation : ℕ := 0
  deriving DecidableEq

/-- The receipt cell of a task is found by its generation. -/
structure UploadTask extends UploadWrite where
  attempts : ℕ := 0
  notBefore : ℕ := 0
  deriving DecidableEq

/-- Only inline payloads occupy queue memory. -/
def UploadWrite.countedBytes (write : UploadWrite) : ℕ :=
  match write.source with
  | .inline bytes => bytes.length
  | .file _ => 0

inductive UploadReceiptStatus where
  | queued
  | retrying (attempts : ℕ) (error : String)
  | durable
  | failed (message : String)
  | superseded
  | cancelled
  | shutdown
  deriving DecidableEq

def UploadReceiptStatus.isTerminal : UploadReceiptStatus → Bool
  | .queued | .retrying _ _ => false
  | .durable | .failed _ | .superseded | .cancelled | .shutdown => true

structure UploadFileSnapshot where
  len : ℕ
  content : List UInt8
  deriving DecidableEq

structure CachedUploadReceipt where
  snapshot : UploadFileSnapshot
  generation : ℕ
  lastUsed : ℕ

/-! ## Cancellation -/

structure CancelState where
  prefixes : List String := []
  inflight : Finset String := ∅

namespace CancelState

def isCancelled (cancel : CancelState) (key : String) : Bool :=
  cancel.prefixes.any (startsWith key ·)

/-- Cancels the key or registers its PUT, under one lock. -/
def beginUpload (cancel : CancelState) (key : String) : CancelState × Bool :=
  if cancel.isCancelled key then (cancel, false)
  else ({ cancel with inflight := insert key cancel.inflight }, true)

/-- The tombstones listed in the store, each pushed unless it is known. -/
def pushTombstones (cancel : CancelState) (tombstonePrefix : String) (keys : List String) :
    CancelState :=
  { cancel with
    prefixes := (keys.filterMap (stripStart · tombstonePrefix)).foldl
      (fun known target => if target ∈ known then known else known ++ [target]) cancel.prefixes }

end CancelState

/-! ## Calls -/

inductive UploadRequest where
  | putBytes (path : List String) (bytes : List UInt8)
  | uploadFile (path : List String)
  | reconcile (path : List String)
  deriving DecidableEq

/-- Where a call stands: the next operation on shared state. -/
inductive UploadPhase where
  | checkFile
  | statFile
  | hashFile (len : ℕ)
  | findReceipt
  | checkCancelled
  | reserveBytes
  | releaseBytes (error : String)
  | reserveTask
  | fetchGeneration
  | trackGeneration
  | send
  | revertPending (error : String)
  | revertBytes (error : String)
  | revertGeneration (error : String)
  | keepReceipt
  deriving DecidableEq

/-- A call in progress. `snapshot` is set once the file is hashed; `begun`, the
number of steps taken when the call began, is history. -/
structure UploadCall where
  request : UploadRequest
  task : UploadTask
  phase : UploadPhase
  snapshot : Option UploadFileSnapshot := none
  begun : ℕ := 0
  deriving DecidableEq

/-- What a call answered: an error, no upload, or the generation of its receipt. -/
structure UploadReturn where
  call : UploadCall
  result : Except String (Option ℕ)

def UploadCall.pendingLimit (call : UploadCall) : ℕ :=
  match call.request with
  | .reconcile _ => reconcilePendingLimit
  | .putBytes _ _ | .uploadFile _ => uploadMaxPendingTasks

/-- The state the producers, the worker and the deletions share. The fields from
`accepted` on are history and are never read. -/
structure UploadQueue where
  keyPrefix : String
  storageDir : List String
  senderOpen : Bool := true
  receiverGone : Bool := false
  channel : List UploadTask := []
  pending : ℕ := 0
  pendingBytes : ℕ := 0
  generations : GenerationState := {}
  fileReceipts : List (String × CachedUploadReceipt) := []
  fileReceiptsLocked : Bool := false
  nextGeneration : ℕ := 0
  cancel : CancelState := {}
  receipts : ℕ → UploadReceiptStatus := fun _ => .queued
  accepted : List UploadCall := []
  settled : List (UploadWrite × UploadReceiptStatus) := []
  puts : List (String × ℕ) := []
  returned : List UploadReturn := []
  deleting : List String := []
  cancelled : List String := []
  deleted : List (String × Except S3Error ℕ) := []

namespace UploadQueue

def tombstonePrefix (queue : UploadQueue) : String := queue.keyPrefix ++ ".tombstones/"

/-- Paths are lists of components. -/
def objectKey (queue : UploadQueue) (path : List String) : Option String :=
  if queue.storageDir.isPrefixOf path then
    let rel := String.intercalate "/" (path.drop queue.storageDir.length)
    if rel = "" then none else some (queue.keyPrefix ++ rel)
  else none

def updateReceipt (queue : UploadQueue) (generation : ℕ) (status : UploadReceiptStatus) :
    UploadQueue :=
  { queue with receipts := Function.update queue.receipts generation status }

/-- Dropping a task that has not come to its end. -/
def dropTask (queue : UploadQueue) (task : UploadTask) : UploadQueue :=
  if (queue.receipts task.generation).isTerminal then queue
  else queue.updateReceipt task.generation .shutdown

/-- The call answers and gives back the lock of the receipt cache if it holds it. -/
def finish (queue : UploadQueue) (call : UploadCall) (result : Except String (Option ℕ)) :
    UploadQueue × Option UploadCall :=
  ({ queue with
     returned := queue.returned ++ [⟨call, result⟩]
     fileReceiptsLocked := queue.fileReceiptsLocked && call.snapshot.isNone }, none)

/-! ## The receipt cache -/

def retainReceipts (queue : UploadQueue) (clock : ℕ) : List (String × CachedUploadReceipt) :=
  queue.fileReceipts.filter fun (_, cached) =>
    let status := queue.receipts cached.generation
    !status.isTerminal ||
      (status = .durable && clock - cached.lastUsed < uploadFileReceiptCacheTtl)

def reusable : UploadReceiptStatus → Bool
  | .queued | .retrying _ _ | .durable => true
  | .failed _ | .superseded | .cancelled | .shutdown => false

/-- The cached receipt that stands for the same content, if its upload may still
be or become durable. -/
def cachedReceipt (queue : UploadQueue) (key : String) (snapshot : UploadFileSnapshot) :
    Option CachedUploadReceipt :=
  ((queue.fileReceipts.find? (·.1 = key)).map Prod.snd).filter fun cached =>
    cached.snapshot = snapshot && reusable (queue.receipts cached.generation)

def removeReceipt (receipts : List (String × CachedUploadReceipt)) (key : String) :
    List (String × CachedUploadReceipt) :=
  receipts.filter (·.1 ≠ key)

/-- Above the limit, terminal receipts go, least recently used first. -/
def evictReceipts (queue : UploadQueue) (receipts : List (String × CachedUploadReceipt)) :
    List (String × CachedUploadReceipt) :=
  if uploadFileReceiptCacheLimit < receipts.length then
    let terminal := receipts.filter fun (_, cached) =>
      (queue.receipts cached.generation).isTerminal
    let oldest := terminal.mergeSort fun left right => left.2.lastUsed ≤ right.2.lastUsed
    oldest.foldl (fun kept (key, _) =>
      if kept.length ≤ uploadMaxPendingTasks then kept else removeReceipt kept key) receipts
  else receipts

def keepReceipt (queue : UploadQueue) (key : String) (snapshot : UploadFileSnapshot)
    (generation clock : ℕ) : UploadQueue :=
  { queue with
    fileReceipts := queue.evictReceipts
      ((key, ⟨snapshot, generation, clock⟩) :: removeReceipt queue.fileReceipts key) }

end UploadQueue

/-- What a call meets in the file system: an error other than a missing file. -/
structure CallInput where
  ioError : Option String := none

def displayPath (path : List String) : String := String.intercalate "/" path

def missingFile : String := "No such file or directory (os error 2)"

namespace UploadCall

variable (call : UploadCall)

def filePath : List String :=
  match call.request with
  | .putBytes path _ | .uploadFile path | .reconcile path => path

/-- The call goes on to its next phase. -/
def toPhase (phase : UploadPhase) : Option UploadCall := some { call with phase := phase }

/-- `try_send`: the task goes into the channel or its reservation is undone. -/
def trySend (queue : UploadQueue) : UploadQueue × Option UploadCall :=
  if !queue.senderOpen || queue.receiverGone then
    (queue, call.toPhase (.revertPending "recording upload worker is gone"))
  else if queue.channel.length < uploadQueueBound then
    let queue := { queue with
      channel := queue.channel ++ [call.task]
      accepted := queue.accepted ++ [call] }
    if call.snapshot.isSome then (queue, call.toPhase .keepReceipt)
    else queue.finish call (.ok (some call.task.generation))
  else (queue, call.toPhase (.revertPending "recording upload queue is full"))

/-- The lookup in the receipt cache, under its lock. -/
def findReceipt (clock : ℕ) (snapshot : UploadFileSnapshot) (queue : UploadQueue) :
    UploadQueue × Option UploadCall :=
  let queue := { queue with fileReceipts := queue.retainReceipts clock }
  match queue.cachedReceipt call.task.key snapshot with
  | some cached =>
      let touched := queue.fileReceipts.map fun (key, kept) =>
        (key, if key = call.task.key then { kept with lastUsed := clock } else kept)
      { queue with fileReceipts := touched }.finish call (.ok (some cached.generation))
  | none => ({ queue with fileReceiptsLocked := true }, call.toPhase .checkCancelled)

/-- The next step of a call and what is left of it. -/
def advance (files : List String → Option (List UInt8)) (clock : ℕ) (input : CallInput)
    (queue : UploadQueue) : UploadQueue × Option UploadCall :=
  let key := call.task.key
  let size := call.task.countedBytes
  match call.phase with
  | .checkFile =>
      if (files call.filePath).isSome then (queue, call.toPhase .statFile)
      else queue.finish call (.ok none)
  | .statFile =>
      match files call.filePath, input.ioError with
      | some content, none => (queue, call.toPhase (.hashFile content.length))
      | _, error => queue.finish call (.error
          s!"failed to stat upload source {displayPath call.filePath}: {error.getD missingFile}")
  | .hashFile len =>
      match files call.filePath, input.ioError with
      | some content, none =>
          (queue, UploadCall.toPhase { call with snapshot := some ⟨len, content⟩ } .findReceipt)
      | some _, some error => queue.finish call (.error
          s!"failed to hash upload source {displayPath call.filePath}: {error}")
      | none, error => queue.finish call (.error
          s!"failed to read upload source {displayPath call.filePath}: {error.getD missingFile}")
  | .findReceipt =>
      match call.snapshot with
      | some snapshot =>
          -- The lock is held by a call that found no receipt and is enqueuing.
          if queue.fileReceiptsLocked then (queue, some call)
          else call.findReceipt clock snapshot queue
      | none => (queue, call.toPhase .checkCancelled)
  | .checkCancelled =>
      if queue.cancel.isCancelled key then
        queue.finish call (.error "recording upload cancelled for deleted prefix")
      else (queue, call.toPhase .reserveBytes)
  | .reserveBytes =>
      let used := queue.pendingBytes + size
      ({ queue with pendingBytes := used },
        if uploadMaxPendingBytes < used then
          call.toPhase (.releaseBytes "recording upload queue byte limit exceeded")
        else call.toPhase .reserveTask)
  | .releaseBytes error =>
      { queue with pendingBytes := queue.pendingBytes - size }.finish call (.error error)
  | .reserveTask =>
      if queue.pending < call.pendingLimit then
        ({ queue with pending := queue.pending + 1 }, call.toPhase .fetchGeneration)
      else (queue, call.toPhase (.releaseBytes "recording upload queue task limit exceeded"))
  | .fetchGeneration =>
      let generation := queue.nextGeneration
      ({ queue with nextGeneration := generation + 1 }.updateReceipt generation .queued,
        UploadCall.toPhase { call with task := { call.task with generation := generation } }
          .trackGeneration)
  | .trackGeneration =>
      ({ queue with generations := queue.generations.track key call.task.generation },
        call.toPhase .send)
  | .send => call.trySend queue
  | .revertPending error =>
      ({ queue with pending := queue.pending - 1 }, call.toPhase (.revertBytes error))
  | .revertBytes error =>
      ({ queue with pendingBytes := queue.pendingBytes - size },
        call.toPhase (.revertGeneration error))
  | .revertGeneration error =>
      ({ queue with generations := queue.generations.untrack key call.task.generation }.dropTask
        call.task).finish call (.error error)
  | .keepReceipt =>
      match call.snapshot with
      | some snapshot =>
          (queue.keepReceipt key snapshot call.task.generation clock).finish call
            (.ok (some call.task.generation))
      | none => queue.finish call (.ok (some call.task.generation))

end UploadCall

/-! ## The worker -/

/-- `settle` gives back the task, its bytes and its generation, and reports. -/
inductive SettleStage where
  | pending
  | bytes
  | generations
  | receipt
  deriving DecidableEq

inductive WorkerPhase where
  | receive
  | scan
  | listTombstones (task : UploadTask)
  | pushTombstones (task : UploadTask) (keys : List String)
  | checkSuperseded (task : UploadTask)
  | checkSource (task : UploadTask)
  | beginUpload (task : UploadTask)
  | cleanUp (task : UploadTask)
  | readSource (task : UploadTask) (path : List String)
  | put (task : UploadTask) (body : List UInt8)
  | stored (task : UploadTask)
  | answered (task : UploadTask) (result : PutAnswer)
  | resolve (task : UploadTask) (result : PutAnswer)
  | settle (task : UploadTask) (status : UploadReceiptStatus) (delivered : Bool)
      (stage : SettleStage)
  | finished

/-- The locals of the worker. While `delayed` is scanned at index `i`, `skipped`
is its part before `i` and `rest` the part from `i` on; between scans all of it is
`rest`. -/
structure UploadWorker where
  phase : WorkerPhase := .receive
  skipped : List UploadTask := []
  rest : List UploadTask := []
  now : ℕ := 0
  disconnected : Bool := false
  tombstonesFetchedAt : Option ℕ := none

/-- What the worker meets: whether a listing succeeds, whether a clean-up takes
effect, an error in reading the source, the fate of a PUT. -/
structure WorkerInput where
  listed : Bool := true
  removed : Bool := true
  readError : Option String := none
  effect : PutEffect := .stored
  answer : PutAnswer := .ok ()

namespace UploadWorker

variable (worker : UploadWorker)

def toPhase (phase : WorkerPhase) : UploadWorker := { worker with phase := phase }

def startSettle (task : UploadTask) (status : UploadReceiptStatus) (delivered : Bool) :
    UploadWorker :=
  worker.toPhase (.settle task status delivered .pending)

/-- The top of the loop. A wait that ends early finds no task due. -/
def receive (queue : UploadQueue) (clock : ℕ) : UploadWorker × UploadQueue :=
  if worker.disconnected then
    if worker.rest = [] then (worker.toPhase .finished, { queue with receiverGone := true })
    else
      -- The drain attempts everything once, whatever its backoff.
      ({ worker with
         phase := .scan
         now := clock
         rest := worker.rest.map fun task => { task with notBefore := clock } }, queue)
  else
    match queue.channel with
    | task :: channel =>
        ({ worker with phase := .scan, now := clock, rest := worker.rest ++ [task] },
          { queue with channel := channel })
    | [] => ({ worker with phase := .scan, now := clock, disconnected := !queue.senderOpen }, queue)

/-- One round of the scan of `delayed`. -/
def scan (clock : ℕ) : UploadWorker :=
  match worker.rest with
  | [] => { worker with phase := .receive, skipped := [], rest := worker.skipped }
  | task :: rest =>
      if worker.now < task.notBefore then
        { worker with skipped := worker.skipped ++ [task], rest := rest }
      else if worker.tombstonesFetchedAt.all (fun fetched => tombstoneRefreshInterval ≤ clock - fetched) then
        { worker with phase := .listTombstones task, rest := rest }
      else { worker with phase := .checkSuperseded task, rest := rest }

def backoff (attempts : ℕ) : ℕ := retryBase * 2 ^ min attempts 5

/-- What becomes of a task whose PUT has returned. -/
def resolve (queue : UploadQueue) (clock : ℕ) (task : UploadTask) :
    PutAnswer → UploadWorker × UploadQueue
  | .ok () => (worker.startSettle task .durable true, queue)
  | .error err =>
      let task := { task with attempts := task.attempts + 1 }
      if worker.disconnected then (worker.startSettle task .shutdown false, queue)
      else if !isRetryableUploadError err then
        (worker.startSettle task (.failed err.text) false, queue)
      else
        ({ worker with
           phase := .scan
           rest := worker.rest ++ [{ task with notBefore := clock + backoff task.attempts }] },
          queue.updateReceipt task.generation (.retrying task.attempts err.text))

def settle (queue : UploadQueue) (task : UploadTask) (status : UploadReceiptStatus)
    (delivered : Bool) : SettleStage → UploadWorker × UploadQueue
  | .pending =>
      (worker.toPhase (.settle task status delivered .bytes),
        { queue with pending := queue.pending - 1 })
  | .bytes =>
      (worker.toPhase (.settle task status delivered .generations),
        { queue with pendingBytes := queue.pendingBytes - task.countedBytes })
  | .generations =>
      (worker.toPhase (.settle task status delivered .receipt),
        { queue with generations := queue.generations.settle task.key task.generation delivered })
  | .receipt =>
      (worker.toPhase .scan,
        { queue.updateReceipt task.generation status with
          settled := queue.settled ++ [(task.toUploadWrite, status)] })

/-- The next step of the worker. -/
def step (queue : UploadQueue) (world : World) (clock : ℕ) (input : WorkerInput) :
    UploadWorker × UploadQueue × World :=
  match worker.phase with
  | .receive => ((worker.receive queue clock).1, (worker.receive queue clock).2, world)
  | .scan => (worker.scan clock, queue, world)
  | .listTombstones task =>
      if input.listed then
        (worker.toPhase (.pushTombstones task (world.listKeys queue.tombstonePrefix)), queue, world)
      else
        ({ worker with phase := .checkSuperseded task, tombstonesFetchedAt := some clock },
          queue, world)
  | .pushTombstones task keys =>
      ({ worker with phase := .checkSuperseded task, tombstonesFetchedAt := some clock },
        { queue with cancel := queue.cancel.pushTombstones queue.tombstonePrefix keys }, world)
  | .checkSuperseded task =>
      if queue.generations.isSuperseded task.key task.generation then
        (worker.startSettle task .superseded false, queue, world)
      else (worker.toPhase (.checkSource task), queue, world)
  | .checkSource task =>
      match task.source with
      | .file path =>
          if (world.files path).isSome then (worker.toPhase (.beginUpload task), queue, world)
          else (worker.startSettle task (.failed "upload source file is gone") false, queue, world)
      | .inline _ => (worker.toPhase (.beginUpload task), queue, world)
  | .beginUpload task =>
      match queue.cancel.beginUpload task.key, task.source with
      | (_, false), _ => (worker.toPhase (.cleanUp task), queue, world)
      | (cancel, true), .inline bytes =>
          (worker.toPhase (.put task bytes), { queue with cancel := cancel }, world)
      | (cancel, true), .file path =>
          (worker.toPhase (.readSource task path), { queue with cancel := cancel }, world)
  | .cleanUp task =>
      (worker.startSettle task .cancelled false, queue,
        if input.removed then world.delete [task.key] else world)
  | .readSource task path =>
      match world.files path, input.readError with
      | some body, none => (worker.toPhase (.put task body), queue, world)
      | _, error =>
          (worker.toPhase (.answered task (.error (.http
            s!"read {displayPath path}: {error.getD missingFile}"))), queue, world)
  | .put task body =>
      match input.effect with
      | .stored =>
          (worker.toPhase (.stored task), queue, world.put task.key body (some task.generation))
      | .lost error => (worker.toPhase (.answered task (.error error)), queue, world)
  | .stored task =>
      (worker.toPhase (.answered task input.answer),
        match input.answer with
        | .ok () => { queue with puts := queue.puts ++ [(task.key, task.generation)] }
        | .error _ => queue,
        world)
  | .answered task result =>
      (worker.toPhase (.resolve task result),
        { queue with
          cancel := { queue.cancel with inflight := queue.cancel.inflight.erase task.key } },
        world)
  | .resolve task result =>
      ((worker.resolve queue clock task result).1, (worker.resolve queue clock task result).2, world)
  | .settle task status delivered stage =>
      ((worker.settle queue task status delivered stage).1,
        (worker.settle queue task status delivered stage).2, world)
  | .finished => (worker, queue, world)

end UploadWorker

/-! ## Deletions -/

inductive DeletePhase where
  | pushPrefix
  | putTombstone
  | tombstoneStored
  | awaitInflight (deadline : ℕ)
  | listKeys
  | deleteKeys (keys : List String)

/-- A `delete_prefix` in progress; its first four phases are `cancel_prefix`. -/
structure DeleteCall where
  target : String
  phase : DeletePhase := .pushPrefix

/-- What a deletion meets: the fate of the tombstone's PUT, whether the listing
succeeds, and the answer to the batch deletion with the keys it reached if it is an
error. -/
structure DeleteInput where
  effect : PutEffect := .stored
  answer : PutAnswer := .ok ()
  listError : Option S3Error := none
  reached : List String := []

namespace DeleteCall

variable (call : DeleteCall)

def toPhase (phase : DeletePhase) : Option DeleteCall := some { call with phase := phase }

def finish (queue : UploadQueue) (result : Except S3Error ℕ) : UploadQueue :=
  { queue with deleted := queue.deleted ++ [(call.target, result)] }

def waitExpired : S3Error :=
  .http (s!"in-flight uploads under {call.target} did not finish within " ++
    s!"{cancelInflightWait / 1000}s; delete aborted")

def advance (clock : ℕ) (input : DeleteInput) (queue : UploadQueue) (world : World) :
    UploadQueue × Option DeleteCall × World :=
  match call.phase with
  | .pushPrefix =>
      ({ queue with
         cancel := { queue.cancel with prefixes := queue.cancel.prefixes ++ [call.target] } },
        call.toPhase .putTombstone, world)
  | .putTombstone =>
      match input.effect with
      | .stored =>
          (queue, call.toPhase .tombstoneStored,
            world.put (queue.tombstonePrefix ++ call.target) (MachineInt.utf8Bytes call.target) none)
      | .lost error => (call.finish queue (.error error), none, world)
  | .tombstoneStored =>
      match input.answer with
      | .ok () => (queue, call.toPhase (.awaitInflight (clock + cancelInflightWait)), world)
      | .error error => (call.finish queue (.error error), none, world)
  | .awaitInflight deadline =>
      if clock < deadline then
        if ∃ key ∈ queue.cancel.inflight, startsWith key call.target then (queue, some call, world)
        else
          ({ queue with cancelled := queue.cancelled ++ [call.target] }, call.toPhase .listKeys,
            world)
      else (call.finish queue (.error call.waitExpired), none, world)
  | .listKeys =>
      match input.listError with
      | none => (queue, call.toPhase (.deleteKeys (world.listKeys call.target)), world)
      | some error => (call.finish queue (.error error), none, world)
  | .deleteKeys keys =>
      match input.answer with
      | .ok () => (call.finish queue (.ok keys.length), none, world.delete keys)
      | .error error =>
          (call.finish queue (.error error), none,
            world.delete (keys.filter (· ∈ input.reached)))

end DeleteCall

/-! ## A process -/

structure Process where
  uploads : UploadQueue
  calls : List UploadCall := []
  worker : UploadWorker := {}
  deletes : List DeleteCall := []
  clock : ℕ := 0
  steps : ℕ := 0

/-- A process that has just called `RecordingObjectStore::new`. -/
def Process.new (keyPrefix : String) (storageDir : List String) : Process :=
  { uploads := { keyPrefix := keyPrefix, storageDir := storageDir } }

inductive ProcessInput where
  | begin (request : UploadRequest)
  | call (index : ℕ) (input : CallInput)
  | work (input : WorkerInput)
  | beginDelete (target : String)
  | delete (index : ℕ) (input : DeleteInput)
  | edit (path : List String) (content : Option (List UInt8))
  | tick (elapsed : ℕ)
  | close

namespace Process

variable (process : Process)

/-- A call enters the queue with its task, or answers at once where its path has no
mirrored key. -/
def beginCall (request : UploadRequest) : Process :=
  let start (path : List String) (source : UploadSource) (phase : UploadPhase)
      (outside : Except String (Option ℕ)) : Process :=
    let queue := process.uploads
    match queue.objectKey path with
    | some key =>
        { process with
          calls := process.calls ++ [
            { request := request
              task := { key := key, source := source }
              phase := phase
              begun := process.steps }] }
    | none =>
        -- There is no task without a key; the empty one only fills the record.
        { process with
          uploads := (queue.finish
            { request := request
              task := { key := "", source := source }
              phase := phase
              begun := process.steps } outside).1 }
  match request with
  | .putBytes path bytes => start path (.inline bytes) .checkCancelled
      (.error s!"path {displayPath path} is outside the chunk storage dir")
  | .uploadFile path => start path (.file path) .checkFile (.ok none)
  | .reconcile path => start path (.file path) .checkCancelled (.ok none)

/-- One step of the process. Nothing begins after the last handle is dropped, and
it is dropped only when no call that borrows it is under way. -/
def step (world : World) : ProcessInput → Process × World
  | .begin request =>
      (if process.uploads.senderOpen then process.beginCall request else process, world)
  | .call index input =>
      match process.calls[index]? with
      | some call =>
          let (uploads, next) := call.advance world.files process.clock input process.uploads
          ({ process with uploads := uploads, calls := advanceAt process.calls index next }, world)
      | none => (process, world)
  | .work input =>
      let (worker, uploads, world) :=
        process.worker.step process.uploads world process.clock input
      ({ process with worker := worker, uploads := uploads }, world)
  | .beginDelete target =>
      if process.uploads.senderOpen then
        ({ process with
           deletes := process.deletes ++ [{ target := target }]
           uploads := { process.uploads with deleting := process.uploads.deleting ++ [target] } },
          world)
      else (process, world)
  | .delete index input =>
      match process.deletes[index]? with
      | some call =>
          let (uploads, next, world) := call.advance process.clock input process.uploads world
          ({ process with uploads := uploads, deletes := advanceAt process.deletes index next },
            world)
      | none => (process, world)
  | .edit path content => (process, world.edit path content)
  | .tick elapsed => ({ process with clock := process.clock + elapsed }, world)
  | .close =>
      (if process.calls = [] ∧ process.deletes = [] then
        { process with uploads := { process.uploads with senderOpen := false } }
      else process, world)

end Process

/-- One process and the store it writes to. -/
structure Site where
  process : Process
  world : World

/-- One step of the site; every step is counted. -/
def Site.step (site : Site) (input : ProcessInput) : Site :=
  let (process, world) := site.process.step site.world input
  ⟨{ process with steps := process.steps + 1 }, world⟩

def Site.new (keyPrefix : String) (storageDir : List String)
    (objects : AList (fun _ : String => List UInt8))
    (files : List String → Option (List UInt8)) : Site :=
  ⟨.new keyPrefix storageDir, { objects := objects, files := files }⟩

end DiscordTranscript.Infrastructure
