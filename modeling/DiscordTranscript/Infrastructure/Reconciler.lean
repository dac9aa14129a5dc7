import DiscordTranscript.Foundation.AssocSum
import DiscordTranscript.Foundation.OrderedList
import DiscordTranscript.Foundation.TextSearch
import DiscordTranscript.Infrastructure.Workspace

/-! # Reconciling staged files with the object store

The model of `reconcile_staged_uploads_once` in `infrastructure/storage_s3.rs`. A run walks the
staging directory, drops what the store lists, drops what a tombstone covers and offers the
rest to the upload queue. What the queue accepted is remembered with the stamp of its file.

The answers of the file system, of the store, of the queue and of the stop flag are inputs of
a run; every one of them may be anything. The files do not change within a run.
-/

namespace DiscordTranscript.Infrastructure

/-! ## The staging directory -/

/-- A piece of a file name: a character, or bytes that are not UTF-8. -/
inductive NameUnit where
  | char (c : Char)
  | invalid (bytes : List UInt8)
  deriving DecidableEq

namespace NameUnit

def bytes : NameUnit → List UInt8
  | .char c => String.utf8EncodeChar c
  | .invalid bytes => bytes

def lossy : NameUnit → Char
  | .char c => c
  | .invalid _ => '\uFFFD'

end NameUnit

/-- A path component. -/
@[ext]
structure FileName where
  units : List NameUnit
  nonempty : units ≠ []
  no_slash : .char '/' ∉ units
  deriving DecidableEq

namespace FileName

def bytes (name : FileName) : List UInt8 := name.units.flatMap NameUnit.bytes

def toStringLossy (name : FileName) : String := String.ofList (name.units.map NameUnit.lossy)

end FileName

/-- A path relative to the storage directory. -/
abbrev StagedPath := List FileName

/-- What the walk learns of an entry. -/
inductive EntryRead where
  | ok
  | entryFailed
  | metadataFailed
  deriving DecidableEq

/-- The entries of a directory, in the order in which it is read. -/
inductive StagedEntries where
  | nil
  | file (name : FileName) (read : EntryRead) (rest : StagedEntries)
  | dir (name : FileName) (read : EntryRead) (listed : Bool) (children rest : StagedEntries)
  | other (name : FileName) (read : EntryRead) (rest : StagedEntries)

structure StagedFileStamp where
  len : ℕ
  modified : Option ℤ
  deriving DecidableEq

/-- The storage directory: whether it can be listed, its entries, and the metadata that a
later look at a path returns. -/
structure StagingArea where
  listed : Bool := true
  entries : StagedEntries
  stamp : StagedPath → Option StagedFileStamp

/-- The walk over one directory: whether everything could be read, and the files found. -/
def collectStagedFiles (dir : StagedPath) : StagedEntries → Bool × List StagedPath
  | .nil => (true, [])
  | .file name read rest =>
      let walk := collectStagedFiles dir rest
      if read = .ok then (walk.1, (dir ++ [name]) :: walk.2) else (false, walk.2)
  | .dir name read listed children rest =>
      let walk := collectStagedFiles dir rest
      if read = .ok ∧ listed then
        let inner := collectStagedFiles (dir ++ [name]) children
        (inner.1 && walk.1, inner.2 ++ walk.2)
      else (false, walk.2)
  | .other _ read rest =>
      let walk := collectStagedFiles dir rest
      (decide (read = .ok) && walk.1, walk.2)

/-- The walk over the storage directory itself. -/
def StagingArea.walk (staging : StagingArea) : Bool × List StagedPath :=
  if staging.listed then collectStagedFiles [] staging.entries else (false, [])

def endsWith (name ending : String) : Bool := ending.toList.isSuffixOf name.toList

def isUploadCandidate (rel : StagedPath) : Bool :=
  let components := rel.map FileName.toStringLossy
  let unpromoted (name : String) : Bool := endsWith name ".tmp" || endsWith name ".part"
  if components.any (startsWith · ".") || components.getLast?.any unpromoted then false
  else if components.head? = some workspacesRootDir.text then
    match components.idxOf? "audio" with
    | none => false
    | some audioPos => components[audioPos + 1]? ≠ some "transcription_speakers"
  else match components with
    | [_, file] => endsWith file ".wav"
    | _ :: dir :: _ => dir = "speakers" || dir = "transcription_chunks"
    | _ => false

/-! ## Tombstones -/

structure TombstoneIndex where
  prefixes : List String := []

namespace TombstoneIndex

def insert (index : TombstoneIndex) (tombstone : String) : TombstoneIndex :=
  ⟨tombstone :: index.prefixes⟩

/-- The key itself, or what stands before one of its characters. -/
def containsPrefixOf (index : TombstoneIndex) (key : String) : Bool :=
  index.prefixes.contains key ||
    (List.range key.toList.length).any fun i =>
      index.prefixes.contains (String.ofList (key.toList.take i))

/-- One key of the tombstone listing. -/
def insertListed (tombstonePrefix : String) (index : TombstoneIndex) (key : String) :
    TombstoneIndex :=
  match stripStart key tombstonePrefix with
  | some tombstone => index.insert tombstone
  | none => index

end TombstoneIndex

/-! ## One run -/

/-- A listing: the keys that were visited, and the error that ended it. -/
structure Listing where
  keys : List String
  failure : Option String := none

/-- What the stop flag says each time it is loaded. -/
structure StopLoads where
  atFile : StagedPath → Bool := fun _ => false
  inListing : String → Bool := fun _ => false
  afterListing : Bool := false
  inTombstones : String → Bool := fun _ => false
  afterTombstones : Bool := false
  atStaged : String → Bool := fun _ => false
  afterEnqueue : String → Bool := fun _ => false

structure ReconcileInputs where
  staging : StagingArea
  remote : Listing
  tombstones : Listing
  enqueue : String → Except String Unit
  stops : StopLoads := {}

/-- The accepted map: the path and the stamp with which a key was accepted. -/
abbrev AcceptedUploads := AList fun _ : String => StagedPath × StagedFileStamp

structure ReconcileScan where
  scanned : ℕ
  queued : ℕ
  complete : Bool
  backpressured : Bool
  deriving DecidableEq

/-- A key with the path and the stamp of its file. -/
abbrev StagedFile := String × StagedPath × StagedFileStamp

/-- What a run leaves: its result, the accepted map, the keys that it offered to the queue and
the files that the queue accepted, in order. -/
structure ReconcileRun where
  result : Except String ReconcileScan
  accepted : AcceptedUploads
  offered : List String := []
  queuedFiles : List StagedFile := []

def relKey (rel : StagedPath) : String := "/".intercalate (rel.map FileName.toStringLossy)

def stagedKey (keyPrefix : String) (rel : StagedPath) : String := keyPrefix ++ relKey rel

/-- `HashMap::retain`. -/
def retain (keep : String → StagedPath × StagedFileStamp → Bool) (accepted : AcceptedUploads) :
    AcceptedUploads :=
  ⟨accepted.entries.filter fun entry => keep entry.1 entry.2,
    accepted.nodupKeys.sublist List.filter_sublist⟩

structure FileScan where
  scanned : ℕ := 0
  complete : Bool
  staged : AcceptedUploads := ∅

section

variable (keyPrefix : String) (inputs : ReconcileInputs) (accepted : AcceptedUploads)

/-- One file of the walk. -/
def scanFile (scan : FileScan) (rel : StagedPath) : FileScan :=
  if !isUploadCandidate rel then scan
  else match inputs.staging.stamp rel with
    | none => { scan with scanned := scan.scanned + 1, complete := false }
    | some stamp =>
        let scan := { scan with scanned := scan.scanned + 1 }
        if relKey rel = "" then scan
        else if (accepted.lookup (stagedKey keyPrefix rel)).any (·.2 = stamp) then scan
        else { scan with staged := scan.staged.insert (stagedKey keyPrefix rel) (rel, stamp) }

def scanFiles : List StagedPath → FileScan → FileScan
  | [], scan => scan
  | rel :: rest, scan =>
      if inputs.stops.atFile rel then { scan with complete := false }
      else scanFiles rest (scanFile keyPrefix inputs accepted scan rel)

end

/-- `visit_keys`, whose callback gives up when the stop flag is set. -/
def visitKeys {σ : Type} (listing : Listing) (stop : String → Bool) (onKey : σ → String → σ)
    (state : σ) : Except String σ :=
  if listing.keys.any stop then .error "s3 reconciliation stopped"
  else match listing.failure with
    | some failure => .error failure
    | none => .ok (listing.keys.foldl onKey state)

structure EnqueueScan where
  accepted : AcceptedUploads
  complete : Bool
  backpressured : Bool := false
  offered : List String := []
  queuedFiles : List StagedFile := []

/-- The errors of a queue that has no room. -/
def isBackpressure (error : String) : Bool :=
  Text.contains "queue is full".toList error.toList ||
    Text.contains "queue task limit exceeded".toList error.toList

def enqueueStaged (inputs : ReconcileInputs) (tombstones : TombstoneIndex) :
    List StagedFile → EnqueueScan → EnqueueScan
  | [], scan => scan
  | (key, file) :: rest, scan =>
      if inputs.stops.atStaged key then { scan with complete := false }
      else if tombstones.containsPrefixOf key then
        enqueueStaged inputs tombstones rest { scan with accepted := scan.accepted.erase key }
      else
        let scan := { scan with offered := scan.offered ++ [key] }
        match inputs.enqueue key with
        | .ok () =>
            let scan := { scan with
              accepted := scan.accepted.insert key file
              queuedFiles := scan.queuedFiles ++ [(key, file)] }
            if inputs.stops.afterEnqueue key then { scan with complete := false }
            else enqueueStaged inputs tombstones rest scan
        | .error error =>
            if isBackpressure error then
              { scan with complete := false, backpressured := true }
            else enqueueStaged inputs tombstones rest { scan with complete := false }

/-- The staged files in the order of their keys. -/
def sortStaged (staged : AcceptedUploads) : List StagedFile :=
  (staged.entries.map fun entry => (entry.1, entry.2)).insertionSort
    fun left right => (compare left.1 right.1).isLE

/-- The found files in the order of their paths, component by component. -/
def sortFiles (files : List StagedPath) : List StagedPath :=
  files.insertionSort fun left right =>
    (List.compareLex (List.compareLex compare) (left.map FileName.bytes)
      (right.map FileName.bytes)).isLE

def reconcileStagedUploadsOnce (keyPrefix tombstonePrefix : String) (inputs : ReconcileInputs)
    (accepted : AcceptedUploads) : ReconcileRun :=
  let accepted := retain (fun _ file => inputs.staging.stamp file.1 = some file.2) accepted
  let walk := inputs.staging.walk
  let scan := scanFiles keyPrefix inputs accepted (sortFiles walk.2) { complete := walk.1 }
  let stopped : ReconcileRun := ⟨.ok ⟨scan.scanned, 0, false, false⟩, accepted, [], []⟩
  let listed := visitKeys inputs.remote inputs.stops.inListing (fun staged key => staged.erase key)
    scan.staged
  if inputs.stops.afterListing then stopped
  else match listed with
    | .error err => ⟨.error s!"cannot list remote objects: {err}", accepted, [], []⟩
    | .ok staged =>
        let covered := visitKeys inputs.tombstones inputs.stops.inTombstones
          (TombstoneIndex.insertListed tombstonePrefix) {}
        if inputs.stops.afterTombstones then stopped
        else match covered with
          | .error err => ⟨.error s!"cannot list remote tombstones: {err}", accepted, [], []⟩
          | .ok tombstones =>
              let accepted := retain (fun key _ => !tombstones.containsPrefixOf key) accepted
              let done := enqueueStaged inputs tombstones (sortStaged staged)
                { accepted := accepted, complete := scan.complete }
              ⟨.ok ⟨scan.scanned, done.queuedFiles.length, done.complete, done.backpressured⟩,
                done.accepted, done.offered, done.queuedFiles⟩

end DiscordTranscript.Infrastructure
