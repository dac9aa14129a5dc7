import DiscordTranscript.Audio.ChunkFile
import DiscordTranscript.Infrastructure.RetentionTables
import DiscordTranscript.Infrastructure.Workspace

/-! # The retention cleanup

The model of `application/retention_cleanup.rs`, of its periodic run in
`application/runtime.rs` and of the two administration pages in `interfaces/web.rs`
that start a cleanup or delete the data of one meeting. A cleanup lists the expired
workspaces, removes directories and objects, and then runs its statements; every
removal and every statement may fail, a removal with some of the files gone. The
files are a list of paths, and so are the objects, under the paths that their keys
mirror. The counts of the report are left out; of it only the meetings are kept
whose raw audio is gone. Cleanups hold a gate; the deletion of one meeting does not,
and one that runs at the same time as another or as a cleanup is left out.
-/

namespace DiscordTranscript.Application

open Audio Domain Infrastructure

/-! ## Directories -/

def audioDirName : PathComponent := ⟨"audio", by decide, by decide⟩
def speakersDirName : PathComponent := ⟨"speakers", by decide, by decide⟩
def transcriptDirName : PathComponent := ⟨"transcript", by decide, by decide⟩
def contextDirName : PathComponent := ⟨"context", by decide, by decide⟩
def summaryDirName : PathComponent := ⟨"summary", by decide, by decide⟩
def debugDirName : PathComponent := ⟨"debug", by decide, by decide⟩
def agentDirName : PathComponent := ⟨"agent", by decide, by decide⟩
def transcriptionChunksDirName : PathComponent := ⟨"transcription_chunks", by decide, by decide⟩

namespace MeetingPaths

variable (workspace : MeetingWorkspacePaths)

def audioDir : FilePath := workspace.root ++ [audioDirName]
def speakersDir : FilePath := audioDir workspace ++ [speakersDirName]
def transcriptDir : FilePath := workspace.root ++ [transcriptDirName]
def contextDir : FilePath := workspace.root ++ [contextDirName]
def summaryDir : FilePath := workspace.root ++ [summaryDirName]
def debugDir : FilePath := workspace.debugRoot ++ [debugDirName]
def legacyDebugDir : FilePath := workspace.root ++ [debugDirName]
def agentWorkspaceParentDir : FilePath := workspace.root ++ [agentDirName]

end MeetingPaths

theorem notMem_replaceDotDot {c : Char} (hc : c ≠ '_') {text : List Char} (htext : c ∉ text) :
    c ∉ replaceDotDot text := by
  fun_induction replaceDotDot text with
  | case1 rest ih =>
      simp only [List.mem_cons, not_or] at htext ⊢
      exact ⟨hc, ih htext.2.2⟩
  | case2 first rest _ ih =>
      simp only [List.mem_cons, not_or] at htext ⊢
      exact ⟨htext.1, ih htext.2⟩
  | case3 => exact htext

theorem digitChar_ne_slash (n : ℕ) : n.digitChar ≠ '/' := by
  by_cases hlarge : 16 ≤ n
  · rw [Nat.digitChar_eq_star.mpr hlarge]
    decide
  · have hall : ∀ digit < 16, Nat.digitChar digit ≠ '/' := by decide
    exact hall n (by omega)

theorem slash_notMem_toDigits {base : ℕ} (hbase : 1 < base) (n : ℕ) :
    '/' ∉ Nat.toDigits base n := by
  induction n using Nat.strongRecOn with
  | ind n ih =>
      rw [Nat.toDigits_eq_if hbase]
      split
      next => simp [(digitChar_ne_slash n).symm]
      next hlarge =>
        have hless : n / base < n := Nat.div_lt_self (by omega) hbase
        simp [ih (n / base) hless, (digitChar_ne_slash (n % base)).symm]

theorem legacySanitizePathComponent_plain (unicodeAlphanumeric : Char → Bool) (input : String) :
    legacySanitizePathComponent unicodeAlphanumeric input ≠ "" ∧
      '/' ∉ (legacySanitizePathComponent unicodeAlphanumeric input).toList := by
  unfold legacySanitizePathComponent
  dsimp only
  split
  next =>
    have hdigits := slash_notMem_toDigits (by decide : 1 < 16) (simpleHash input).toNat
    constructor
    · intro hempty
      have hlength := congrArg String.toList hempty
      simp at hlength
    · simp [lowerHex16, hdigits]
  next hplain =>
    rw [not_or, not_or] at hplain
    refine ⟨hplain.1, fun hslash => ?_⟩
    rw [String.toList_ofList] at hslash
    refine notMem_replaceDotDot (by decide) ?_ (List.mem_filter.mp hslash).1
    intro hmem
    obtain ⟨c, -, hc⟩ := List.mem_map.mp hmem
    split at hc
    next => cases hc
    next hother => exact hother (.inl hc)

/-- The directory of recordings from before there were workspaces. -/
def legacyMeetingDir (layout : MeetingWorkspaceLayout) (unicodeAlphanumeric : Char → Bool)
    (meetingId : String) : FilePath :=
  layout.baseDir ++ [⟨legacySanitizePathComponent unicodeAlphanumeric meetingId,
    (legacySanitizePathComponent_plain unicodeAlphanumeric meetingId).1,
    (legacySanitizePathComponent_plain unicodeAlphanumeric meetingId).2⟩]

/-! ## Removals -/

/-- How a removal ends; a failed one leaves some of the files. -/
inductive Removal where
  | done
  | failed (err : String) (left : FilePath → Bool)

/-- Removes the selected files, and says what went wrong. -/
def Removal.apply (removal : Removal) (selected : FilePath → Bool) (files : List FilePath) :
    List String × List FilePath :=
  match removal with
  | .done => ([], files.filter (!selected ·))
  | .failed err left => ([err], files.filter fun path => !selected path || left path)

/-- `remove_dir_if_present`. -/
def inside (dir path : FilePath) : Bool := dir.isPrefixOf path

/-- `remove_legacy_raw_audio`: the WAV files of the directory itself and two of its
directories. -/
def legacyRawAudio (dir path : FilePath) : Bool :=
  dir.isPrefixOf path && match path.drop dir.length with
    | [name] => (splitExtension name.text).2 = some "wav"
    | first :: _ :: _ => first = speakersDirName || first = transcriptionChunksDirName
    | [] => false

/-- `delete_legacy_recording_prefix`. -/
def legacyRecordingObject (dir key : FilePath) : Bool :=
  dir.isPrefixOf key && match key.drop dir.length with
    | [name] => ".wav".toList.isSuffixOf name.text.toList
    | first :: _ :: _ => first = speakersDirName || first = transcriptionChunksDirName
    | [] => false

/-- The files and, when recordings are kept in an object store, the objects. -/
structure RetainedFiles where
  files : List FilePath
  objects : Option (List FilePath)

/-- How the removals for one meeting end. -/
structure MeetingRemovals where
  speakers : Removal := .done
  audio : Removal := .done
  legacy : Removal := .done
  objects : Removal := .done
  legacyObjects : Removal := .done
  context : Removal := .done
  emptySummary : Option String := none
  transcript : Removal := .done
  summary : Removal := .done
  debug : Removal := .done
  legacyDebug : Removal := .done
  agent : Removal := .done

/-- Where the files of meetings are. -/
structure RetentionLayout where
  layout : MeetingWorkspaceLayout
  unicodeAlphanumeric : Char → Bool

namespace RetentionLayout

variable (layout : RetentionLayout)

def workspace (ids : MeetingIds) : MeetingWorkspacePaths := layout.layout.forMeeting ids

def legacyDir (ids : MeetingIds) : FilePath :=
  legacyMeetingDir layout.layout layout.unicodeAlphanumeric ids.meetingId

/-- A removal among the files. -/
def removeFiles (selected : FilePath → Bool) (removal : Removal)
    (state : List String × RetainedFiles) : List String × RetainedFiles :=
  let (errors, files) := removal.apply selected state.2.files
  (state.1 ++ errors, { state.2 with files := files })

/-- A removal among the objects, if there is an object store. -/
def removeObjects (selected : FilePath → Bool) (removal : Removal)
    (state : List String × RetainedFiles) : List String × RetainedFiles :=
  match state.2.objects with
  | none => state
  | some objects =>
      let (errors, objects) := removal.apply selected objects
      (state.1 ++ errors, { state.2 with objects := some objects })

/-- The recordings and the context of a meeting. Its audio directory is not touched
after its speakers could not be removed. -/
def removeRawAudio (ids : MeetingIds) (removals : MeetingRemovals) (state : RetainedFiles) :
    List String × RetainedFiles :=
  let workspace := layout.workspace ids
  let speakers := removeFiles (inside (MeetingPaths.speakersDir workspace)) removals.speakers
    ([], state)
  let audio := if speakers.1.isEmpty then
      removeFiles (inside (MeetingPaths.audioDir workspace)) removals.audio speakers
    else speakers
  let legacy := removeFiles (legacyRawAudio (layout.legacyDir ids)) removals.legacy audio
  let objects := removeObjects (inside (MeetingPaths.audioDir workspace)) removals.objects legacy
  let legacyObjects := removeObjects (legacyRecordingObject (layout.legacyDir ids))
    removals.legacyObjects objects
  removeFiles (inside (MeetingPaths.contextDir workspace)) removals.context legacyObjects

/-- The debug directories and the workspaces of agents. -/
def removeDebug (ids : MeetingIds) (removals : MeetingRemovals)
    (state : List String × RetainedFiles) : List String × RetainedFiles :=
  let workspace := layout.workspace ids
  let debug := removeFiles (inside (MeetingPaths.debugDir workspace)) removals.debug state
  let legacyDebug := removeFiles (inside (MeetingPaths.legacyDebugDir workspace))
    removals.legacyDebug debug
  removeFiles (inside (MeetingPaths.agentWorkspaceParentDir workspace)) removals.agent legacyDebug

/-- The turn of an expired raw workspace: what is left of it, and whether it is clean. -/
def cleanRawWorkspace (ids : MeetingIds) (removals : MeetingRemovals) (state : RetainedFiles) :
    Bool × RetainedFiles :=
  let (errors, state) := layout.removeRawAudio ids removals state
  let (errors, state) := layout.removeDebug ids removals
    (errors ++ removals.emptySummary.toList, state)
  (errors.isEmpty, state)

end RetentionLayout

/-! ## A cleanup -/

structure RetentionCleanupPlan where
  rawWorkspaces : List MeetingIds
  debugWorkspaces : List MeetingIds
  transcriptWorkspaces : List MeetingIds
  summaryWorkspaces : List MeetingIds

/-- How the four queries of a plan end. -/
structure PlanReplies where
  now : ℤ
  raw : Option String := none
  debug : Option String := none
  transcript : Option String := none
  summary : Option String := none

/-- `collect_retention_cleanup_plan`; a query that fails lists nothing. -/
def collectRetentionCleanupPlan (db : RetentionDatabase) (ttl : RetentionTtl) (guildId : String)
    (replies : PlanReplies) : RetentionCleanupPlan :=
  let listed (err : Option String) (rows : List MeetingRow) : List MeetingIds :=
    if err.isSome then [] else rows.map MeetingRow.ids
  { rawWorkspaces := listed replies.raw (db.expiredRawWorkspaces ttl guildId replies.now)
    debugWorkspaces := listed replies.debug (db.expiredDebugWorkspaces ttl guildId replies.now)
    transcriptWorkspaces :=
      listed replies.transcript (db.expiredTranscriptWorkspaces ttl guildId replies.now)
    summaryWorkspaces :=
      listed replies.summary (db.expiredSummaryWorkspaces ttl guildId replies.now) }

/-- The raw workspaces one after the other, and the meetings of the clean ones. -/
def cleanRawWorkspaces (layout : RetentionLayout) (removals : MeetingIds → MeetingRemovals) :
    List MeetingIds → RetainedFiles → List String × RetainedFiles
  | [], state => ([], state)
  | ids :: rest, state =>
      let (clean, state) := layout.cleanRawWorkspace ids (removals ids) state
      let (cleaned, state) := cleanRawWorkspaces layout removals rest state
      (if clean then ids.meetingId :: cleaned else cleaned, state)

/-- `apply_retention_filesystem_cleanup`. -/
def applyRetentionFilesystemCleanup (layout : RetentionLayout) (plan : RetentionCleanupPlan)
    (removals : MeetingIds → MeetingRemovals) (state : RetainedFiles) :
    List String × RetainedFiles :=
  let (cleaned, state) := cleanRawWorkspaces layout removals plan.rawWorkspaces state
  let state := plan.debugWorkspaces.foldl (fun state ids =>
    (layout.removeDebug ids (removals ids) ([], state)).2) state
  let state := plan.transcriptWorkspaces.foldl (fun state ids =>
    (RetentionLayout.removeFiles (inside (MeetingPaths.transcriptDir (layout.workspace ids)))
      (removals ids).transcript ([], state)).2) state
  let state := plan.summaryWorkspaces.foldl (fun state ids =>
    (RetentionLayout.removeFiles (inside (MeetingPaths.summaryDir (layout.workspace ids)))
      (removals ids).summary ([], state)).2) state
  (cleaned, state)

/-- How the statements after the removals end. -/
structure StatementReplies where
  now : ℤ
  markRaw : String → Reply := fun _ => .answered
  markTranscripts : Reply := .answered
  expiredArtifacts : Reply := .answered
  rawArtifacts : Reply := .answered
  transcriptArtifacts : Reply := .answered
  debugArtifacts : Reply := .answered
  summaries : Reply := .answered
  summaryArtifacts : Reply := .answered

/-- `apply_retention_database_cleanup`. -/
def applyRetentionDatabaseCleanup (db : RetentionDatabase) (ttl : RetentionTtl) (guildId : String)
    (onlyFinished : Bool) (cleaned : List String) (replies : StatementReplies) :
    RetentionDatabase :=
  let now := replies.now
  let db := cleaned.foldl (fun db meetingId => db.run (replies.markRaw meetingId)
    fun db => db.markRawWorkspaceCleaned guildId now onlyFinished meetingId) db
  let db := db.run replies.markTranscripts fun db => db.markTranscriptsDeleted ttl guildId now
  let db := db.run replies.expiredArtifacts fun db => db.deleteExpiredArtifacts guildId now
  let db := db.run replies.rawArtifacts fun db =>
    db.deleteArtifactsOfStopped ttl guildId now rawAudioKinds
  let db := db.run replies.transcriptArtifacts fun db =>
    db.deleteAgedArtifacts guildId now transcriptKinds ttl.transcript
  let db := db.run replies.debugArtifacts fun db =>
    db.deleteArtifactsOfStopped ttl guildId now debugKinds
  let db := db.run replies.summaries fun db => db.deleteSummaries ttl guildId now
  db.run replies.summaryArtifacts fun db =>
    db.deleteAgedArtifacts guildId now summaryKinds ttl.summary

/-! ## Runs -/

structure RetentionState where
  db : RetentionDatabase
  storage : RetainedFiles

structure RetentionDeletionTargets where
  rawAudio : Bool
  transcript : Bool
  summary : Bool
  debug : Bool
  deriving DecidableEq, Repr

/-- How a cleanup goes: whether it gets past its preparation, and how its queries,
removals and statements end. -/
structure CleanupInput where
  prepared : Bool := true
  plan : PlanReplies
  removals : MeetingIds → MeetingRemovals := fun _ => {}
  statements : StatementReplies

inductive RetentionEvent where
  | periodic (guildId : String) (policy : RetentionPolicy) (input : CleanupInput)
  | administrator (guildId : String) (policy : RetentionPolicy) (input : CleanupInput)
  | meetingDelete (guildId meetingId : String) (targets : RetentionDeletionTargets)
      (input : CleanupInput)

/-- A whole cleanup. -/
def runCleanup (layout : RetentionLayout) (state : RetentionState) (ttl : RetentionTtl)
    (guildId : String) (onlyFinished : Bool) (input : CleanupInput) : RetentionState :=
  let plan := collectRetentionCleanupPlan state.db ttl guildId input.plan
  let (cleaned, storage) := applyRetentionFilesystemCleanup layout plan input.removals state.storage
  { db := applyRetentionDatabaseCleanup state.db ttl guildId onlyFinished cleaned input.statements
    storage := storage }

/-- `apply_manual_meeting_filesystem_delete`. -/
def applyManualMeetingFilesystemDelete (layout : RetentionLayout) (ids : MeetingIds)
    (targets : RetentionDeletionTargets) (removals : MeetingRemovals) (state : RetainedFiles) :
    List String × RetainedFiles :=
  let (cleaned, state) := if targets.rawAudio then
      let (errors, state) := layout.removeRawAudio ids removals state
      (if errors.isEmpty then [ids.meetingId] else [], state)
    else ([], state)
  let state := if targets.transcript then
      (RetentionLayout.removeFiles (inside (MeetingPaths.transcriptDir (layout.workspace ids)))
        removals.transcript ([], state)).2
    else state
  let state := if targets.summary then
      (RetentionLayout.removeFiles (inside (MeetingPaths.summaryDir (layout.workspace ids)))
        removals.summary ([], state)).2
    else state
  let state := if targets.debug then (layout.removeDebug ids removals ([], state)).2 else state
  (cleaned, state)

/-- `apply_admin_retention_meeting_database_delete`. -/
def applyMeetingDatabaseDelete (db : RetentionDatabase) (guildId meetingId : String)
    (targets : RetentionDeletionTargets) (cleaned : List String) (replies : StatementReplies) :
    RetentionDatabase :=
  let now := replies.now
  let db := cleaned.foldl (fun db meetingId => db.run (replies.markRaw meetingId)
    fun db => db.markRawWorkspaceCleaned guildId now true meetingId) db
  let db := if targets.transcript then
      db.run replies.markTranscripts fun db => db.markMeetingTranscriptsDeleted guildId meetingId
    else db
  let db := if targets.summary then
      db.run replies.summaries fun db => db.deleteMeetingSummaries guildId now meetingId
    else db
  db.run replies.expiredArtifacts fun db => db.deleteMeetingArtifacts guildId meetingId
    ((if targets.rawAudio then rawAudioKinds else []) ++
      (if targets.transcript then transcriptKinds else []) ++
      (if targets.summary then summaryKinds else []) ++
      if targets.debug then debugKinds else [])

/-- `api_admin_retention_meeting_delete`, for a meeting of the guild that is finished. -/
def runMeetingDelete (layout : RetentionLayout) (state : RetentionState)
    (guildId meetingId : String) (targets : RetentionDeletionTargets) (input : CleanupInput) :
    RetentionState :=
  match (state.db.meetings.get meetingId).filter (MeetingRow.retained guildId) with
  | none => state
  | some meeting =>
      let (cleaned, storage) := applyManualMeetingFilesystemDelete layout meeting.ids targets
        (input.removals meeting.ids) state.storage
      { db := applyMeetingDatabaseDelete state.db guildId meetingId targets cleaned input.statements
        storage := storage }

def RetentionState.step (layout : RetentionLayout) (state : RetentionState)
    (event : RetentionEvent) : RetentionState :=
  match event with
  | .periodic guildId policy input =>
      runCleanup layout state (state.db.ttl policy) guildId false input
  | .administrator guildId policy input =>
      -- a query that fails ends it before anything is removed
      if input.prepared && [input.plan.raw, input.plan.debug, input.plan.transcript,
          input.plan.summary].all Option.isNone then
        runCleanup layout state policy.fixedTtl guildId true input
      else state
  | .meetingDelete guildId meetingId targets input =>
      if input.prepared then runMeetingDelete layout state guildId meetingId targets input
      else state

end DiscordTranscript.Application
