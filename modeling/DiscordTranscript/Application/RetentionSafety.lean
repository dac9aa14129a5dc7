import DiscordTranscript.Foundation.Shrinking
import DiscordTranscript.Application.RetentionCleanup

/-! # Retention removes no file too early

Whatever fails, a file or an object of a meeting's workspace is gone only after a
cleanup by whose policy that kind of data of that meeting had expired, or after an
administrator deleted that kind of data of that finished meeting. No two meetings
share a directory of their workspaces, so cleaning one leaves the other alone.
-/

namespace DiscordTranscript.Application

open Audio Domain Infrastructure

/-! ## Kinds of data -/

inductive DataKind where
  | rawAudio
  | transcript
  | summary
  | debug
  deriving DecidableEq, Repr

/-- The directories of a workspace. -/
inductive WorkspaceDir where
  | audio
  | context
  | transcript
  | summary
  | debug
  | legacyDebug
  | agent
  deriving DecidableEq, Repr

def WorkspaceDir.kind : WorkspaceDir → DataKind
  | .audio | .context => .rawAudio
  | .transcript => .transcript
  | .summary => .summary
  | .debug | .legacyDebug | .agent => .debug

def WorkspaceDir.path (workspace : MeetingWorkspacePaths) : WorkspaceDir → FilePath
  | .audio => MeetingPaths.audioDir workspace
  | .context => MeetingPaths.contextDir workspace
  | .transcript => MeetingPaths.transcriptDir workspace
  | .summary => MeetingPaths.summaryDir workspace
  | .debug => MeetingPaths.debugDir workspace
  | .legacyDebug => MeetingPaths.legacyDebugDir workspace
  | .agent => MeetingPaths.agentWorkspaceParentDir workspace

def RetentionDeletionTargets.includes (targets : RetentionDeletionTargets) : DataKind → Bool
  | .rawAudio => targets.rawAudio
  | .transcript => targets.transcript
  | .summary => targets.summary
  | .debug => targets.debug

/-- Where data is stored. -/
inductive Place where
  | file
  | object
  deriving DecidableEq, Repr

def RetainedFiles.paths (state : RetainedFiles) : Place → List FilePath
  | .file => state.files
  | .object => state.objects.getD []

/-- What is stored of a kind of a meeting's data. -/
def RetentionLayout.Holds (layout : RetentionLayout) (ids : MeetingIds) (kind : DataKind) :
    Place → FilePath → Prop
  | .file, path =>
      (∃ dir : WorkspaceDir, dir.kind = kind ∧
        inside (dir.path (layout.workspace ids)) path = true) ∨
      kind = .rawAudio ∧ legacyRawAudio (layout.legacyDir ids) path = true
  | .object, key => kind = .rawAudio ∧
      (inside (MeetingPaths.audioDir (layout.workspace ids)) key = true ∨
        legacyRecordingObject (layout.legacyDir ids) key = true)

/-- Which kinds of a meeting's data have expired. -/
def expiredKind (db : RetentionDatabase) (ttl : RetentionTtl) (guildId : String) (now : ℤ)
    (meeting : MeetingRow) : DataKind → Bool
  | .rawAudio | .debug => RetentionDatabase.rawExpired ttl guildId now meeting
  | .transcript => db.transcriptExpired ttl guildId now meeting
  | .summary => db.summaryExpired ttl guildId now meeting

/-- Which kinds of a meeting's data an event may remove. The settings of the meeting count for a
periodic cleanup; an administrator's goes by its own numbers of days. -/
def RetentionEvent.due (event : RetentionEvent) (db : RetentionDatabase) (meeting : MeetingRow)
    (kind : DataKind) : Bool :=
  match event with
  | .periodic guildId policy input =>
      expiredKind db (db.ttl policy) guildId input.plan.now meeting kind
  | .administrator guildId policy input =>
      expiredKind db policy.fixedTtl guildId input.plan.now meeting kind
  | .meetingDelete guildId meetingId targets _ =>
      meeting.id = meetingId && meeting.retained guildId && targets.includes kind

/-! ## Removals -/

/-- Both the files and the objects only lose what meets the condition. -/
def Removes (gone : Place → FilePath → Prop) (before after : RetainedFiles) : Prop :=
  ∀ place, Shrinks (gone place) (before.paths place) (after.paths place)

section

variable {gone : Place → FilePath → Prop} {first second third : RetainedFiles}

theorem Removes.refl (gone : Place → FilePath → Prop) (state : RetainedFiles) :
    Removes gone state state := fun place => Shrinks.refl (gone place) _

theorem Removes.trans (hleft : Removes gone first second) (hright : Removes gone second third) :
    Removes gone first third := fun place => (hleft place).trans (hright place)

theorem Removes.mono {wider : Place → FilePath → Prop}
    (hwider : ∀ place path, gone place path → wider place path)
    (hremoves : Removes gone first second) : Removes wider first second :=
  fun place => (hremoves place).mono (hwider place)

theorem shrinks_apply {gone : FilePath → Prop} {selected : FilePath → Bool}
    (hselected : ∀ path, selected path = true → gone path) (removal : Removal)
    (paths : List FilePath) : Shrinks gone paths (removal.apply selected paths).2 := by
  cases removal with
  | done =>
      apply Shrinks.filter
      intro path _ hkeep
      exact hselected path (by simpa using hkeep)
  | failed err left =>
      apply Shrinks.filter
      intro path _ hkeep
      rw [Bool.or_eq_false_iff] at hkeep
      exact hselected path (by simpa using hkeep.1)

theorem removes_removeFiles {selected : FilePath → Bool}
    (hselected : ∀ path, selected path = true → gone .file path) (removal : Removal)
    (state : List String × RetainedFiles) :
    Removes gone state.2 (RetentionLayout.removeFiles selected removal state).2 := by
  intro place
  cases place with
  | file => exact shrinks_apply hselected removal state.2.files
  | object => exact Shrinks.refl _ _

theorem removes_removeObjects {selected : FilePath → Bool}
    (hselected : ∀ path, selected path = true → gone .object path) (removal : Removal)
    (state : List String × RetainedFiles) :
    Removes gone state.2 (RetentionLayout.removeObjects selected removal state).2 := by
  obtain ⟨errors, files, objects⟩ := state
  intro place
  cases objects with
  | none => exact Shrinks.refl _ _
  | some objects =>
      cases place with
      | file => exact Shrinks.refl _ _
      | object => exact shrinks_apply hselected removal objects

theorem removes_foldl {α : Type} {remove : RetainedFiles → α → RetainedFiles} {items : List α}
    (hremove : ∀ item ∈ items, ∀ state, Removes gone state (remove state item))
    (state : RetainedFiles) : Removes gone state (items.foldl remove state) := by
  intro place
  apply Shrinks.foldl fun state => RetainedFiles.paths state place
  exact fun item hitem state => hremove item hitem state place

theorem removes_if {condition : Prop} [Decidable condition]
    (hremoves : condition → Removes gone first second) :
    Removes gone first (if condition then second else first) := by
  split
  next hcondition => exact hremoves hcondition
  next => exact Removes.refl gone first

end

/-! ## What the cleanups remove -/

section

variable {layout : RetentionLayout} {ids : MeetingIds}

theorem holds_of_inside (dir : WorkspaceDir) {path : FilePath}
    (hpath : inside (dir.path (layout.workspace ids)) path = true) :
    layout.Holds ids dir.kind .file path := .inl ⟨dir, rfl, hpath⟩

theorem inside_of_append {dir rest path : FilePath} (hpath : inside (dir ++ rest) path = true) :
    inside dir path = true := by
  rw [inside, List.isPrefixOf_iff_prefix] at *
  exact (List.prefix_append dir rest).trans hpath

variable (layout ids)

theorem removes_removeRawAudio (removals : MeetingRemovals) (state : RetainedFiles) :
    Removes (layout.Holds ids .rawAudio) state (layout.removeRawAudio ids removals state).2 := by
  have haudio : ∀ path, inside (MeetingPaths.audioDir (layout.workspace ids)) path = true →
      layout.Holds ids .rawAudio .file path := fun path => holds_of_inside .audio
  have hspeakers : ∀ path, inside (MeetingPaths.speakersDir (layout.workspace ids)) path = true →
      layout.Holds ids .rawAudio .file path := fun path hpath => haudio path (inside_of_append hpath)
  unfold RetentionLayout.removeRawAudio
  dsimp only
  refine Removes.trans ?_ (removes_removeFiles (fun path => holds_of_inside .context) _ _)
  refine Removes.trans ?_ (removes_removeObjects (fun path hpath => ⟨rfl, .inr hpath⟩) _ _)
  refine Removes.trans ?_ (removes_removeObjects (fun path hpath => ⟨rfl, .inl hpath⟩) _ _)
  refine Removes.trans ?_ (removes_removeFiles (fun path hpath => .inr ⟨rfl, hpath⟩) _ _)
  split
  · exact (removes_removeFiles hspeakers _ ([], state)).trans (removes_removeFiles haudio _ _)
  · exact removes_removeFiles hspeakers _ ([], state)

theorem removes_removeDebug (removals : MeetingRemovals) (state : List String × RetainedFiles) :
    Removes (layout.Holds ids .debug) state.2 (layout.removeDebug ids removals state).2 := by
  unfold RetentionLayout.removeDebug
  dsimp only
  refine Removes.trans ?_ (removes_removeFiles (fun path => holds_of_inside .agent) _ _)
  refine Removes.trans ?_ (removes_removeFiles (fun path => holds_of_inside .legacyDebug) _ _)
  exact removes_removeFiles (fun path => holds_of_inside .debug) _ state

/-- The raw audio and the debug data of a workspace. -/
def RetentionLayout.HoldsRaw (layout : RetentionLayout) (ids : MeetingIds) (place : Place)
    (path : FilePath) : Prop :=
  layout.Holds ids .rawAudio place path ∨ layout.Holds ids .debug place path

theorem removes_cleanRawWorkspace (removals : MeetingRemovals) (state : RetainedFiles) :
    Removes (layout.HoldsRaw ids) state (layout.cleanRawWorkspace ids removals state).2 := by
  have hraw : Removes (layout.HoldsRaw ids) state (layout.removeRawAudio ids removals state).2 :=
    (removes_removeRawAudio layout ids removals state).mono fun _ _ => .inl
  apply hraw.trans
  exact (removes_removeDebug layout ids removals (_, _)).mono fun _ _ => .inr

theorem removes_cleanRawWorkspaces (removals : MeetingIds → MeetingRemovals)
    (workspaces : List MeetingIds) (state : RetainedFiles) :
    Removes (fun place path => ∃ ids ∈ workspaces, layout.HoldsRaw ids place path) state
      (cleanRawWorkspaces layout removals workspaces state).2 := by
  induction workspaces generalizing state with
  | nil => exact Removes.refl _ state
  | cons ids rest ih =>
      have hfirst : Removes (fun place path => ∃ other ∈ ids :: rest,
          layout.HoldsRaw other place path) state
          (layout.cleanRawWorkspace ids (removals ids) state).2 :=
        (removes_cleanRawWorkspace layout ids (removals ids) state).mono
          fun place path hpath => ⟨ids, List.mem_cons_self, hpath⟩
      apply hfirst.trans
      apply (ih _).mono
      rintro place path ⟨other, hother, hpath⟩
      exact ⟨other, List.mem_cons_of_mem _ hother, hpath⟩

/-- What a plan lets go. -/
def RetentionCleanupPlan.Covers (layout : RetentionLayout) (plan : RetentionCleanupPlan)
    (place : Place) (path : FilePath) : Prop :=
  (∃ ids ∈ plan.rawWorkspaces, layout.HoldsRaw ids place path) ∨
    (∃ ids ∈ plan.debugWorkspaces, layout.Holds ids .debug place path) ∨
    (∃ ids ∈ plan.transcriptWorkspaces, layout.Holds ids .transcript place path) ∨
    ∃ ids ∈ plan.summaryWorkspaces, layout.Holds ids .summary place path

/-- What comes after the raw workspaces. -/
theorem removes_afterRawWorkspaces (plan : RetentionCleanupPlan)
    (removals : MeetingIds → MeetingRemovals) (state : RetainedFiles) :
    Removes (plan.Covers layout) (cleanRawWorkspaces layout removals plan.rawWorkspaces state).2
      (applyRetentionFilesystemCleanup layout plan removals state).2 := by
  unfold applyRetentionFilesystemCleanup
  dsimp only
  apply ((removes_foldl ?debug _).trans (removes_foldl ?transcript _)).trans
    (removes_foldl ?summary _)
  case debug =>
    intro ids hids state
    exact (removes_removeDebug layout ids (removals ids) ([], state)).mono
      fun _ _ hpath => .inr (.inl ⟨ids, hids, hpath⟩)
  case transcript =>
    intro ids hids state
    exact removes_removeFiles (fun _ hpath => .inr (.inr (.inl
      ⟨ids, hids, holds_of_inside .transcript hpath⟩))) _ ([], state)
  case summary =>
    intro ids hids state
    exact removes_removeFiles (fun _ hpath => .inr (.inr (.inr
      ⟨ids, hids, holds_of_inside .summary hpath⟩))) _ ([], state)

theorem removes_filesystemCleanup (plan : RetentionCleanupPlan)
    (removals : MeetingIds → MeetingRemovals) (state : RetainedFiles) :
    Removes (plan.Covers layout) state
      (applyRetentionFilesystemCleanup layout plan removals state).2 := by
  have hraw : Removes (plan.Covers layout) state
      (cleanRawWorkspaces layout removals plan.rawWorkspaces state).2 :=
    (removes_cleanRawWorkspaces layout removals plan.rawWorkspaces state).mono fun _ _ => .inl
  exact hraw.trans (removes_afterRawWorkspaces layout plan removals state)

/-- What the targets of a deletion let go. -/
def RetentionDeletionTargets.Covers (layout : RetentionLayout) (ids : MeetingIds)
    (targets : RetentionDeletionTargets) (place : Place) (path : FilePath) : Prop :=
  ∃ kind, targets.includes kind = true ∧ layout.Holds ids kind place path

/-- What comes after the raw audio. -/
theorem removes_afterRawAudio (targets : RetentionDeletionTargets) (removals : MeetingRemovals)
    (state : RetainedFiles) :
    Removes (targets.Covers layout ids)
      (if targets.rawAudio then (layout.removeRawAudio ids removals state).2 else state)
      (applyManualMeetingFilesystemDelete layout ids targets removals state).2 := by
  have hdebug (htarget : targets.debug = true) (state : RetainedFiles) :
      Removes (targets.Covers layout ids) state
        (layout.removeDebug ids removals ([], state)).2 :=
    (removes_removeDebug layout ids removals ([], state)).mono
      fun _ _ hpath => ⟨.debug, htarget, hpath⟩
  unfold applyManualMeetingFilesystemDelete
  dsimp only
  apply Removes.trans ?_ (removes_if fun htarget => hdebug htarget _)
  apply Removes.trans ?_ (removes_if (fun htarget => removes_removeFiles (fun _ hpath =>
    ⟨.summary, htarget, holds_of_inside .summary hpath⟩) _ ([], _)))
  apply Removes.trans ?_ (removes_if (fun htarget => removes_removeFiles (fun _ hpath =>
    ⟨.transcript, htarget, holds_of_inside .transcript hpath⟩) _ ([], _)))
  cases targets.rawAudio with
  | true => exact Removes.refl _ _
  | false => exact Removes.refl _ _

theorem removes_manualDelete (targets : RetentionDeletionTargets) (removals : MeetingRemovals)
    (state : RetainedFiles) :
    Removes (targets.Covers layout ids) state
      (applyManualMeetingFilesystemDelete layout ids targets removals state).2 := by
  have hraw (htarget : targets.rawAudio = true) : Removes (targets.Covers layout ids) state
      (layout.removeRawAudio ids removals state).2 :=
    (removes_removeRawAudio layout ids removals state).mono
      fun _ _ hpath => ⟨.rawAudio, htarget, hpath⟩
  exact (removes_if hraw).trans (removes_afterRawAudio layout ids targets removals state)

end

/-! ## What an event removes -/

/-- A meeting's data of a kind that the event may remove. -/
def RetentionEvent.MayRemove (layout : RetentionLayout) (db : RetentionDatabase)
    (event : RetentionEvent) (place : Place) (path : FilePath) : Prop :=
  ∃ meeting ∈ db.meetings.rows, ∃ kind, event.due db meeting kind = true ∧
    layout.Holds meeting.ids kind place path

theorem mem_listed {err : Option String} {rows : List MeetingRow} {ids : MeetingIds}
    (hids : ids ∈ if err.isSome then [] else rows.map MeetingRow.ids) :
    ∃ meeting ∈ rows, meeting.ids = ids := by
  split at hids
  · cases hids
  · exact List.mem_map.mp hids

/-- A plan lists only what has expired. -/
theorem expired_of_covers {layout : RetentionLayout} {db : RetentionDatabase} {ttl : RetentionTtl}
    {guildId : String} {replies : PlanReplies} {place : Place} {path : FilePath}
    (hcovers : (collectRetentionCleanupPlan db ttl guildId replies).Covers layout place path) :
    ∃ meeting ∈ db.meetings.rows, ∃ kind, expiredKind db ttl guildId replies.now meeting kind = true ∧
      layout.Holds meeting.ids kind place path := by
  rcases hcovers with ⟨ids, hids, hpath⟩ | ⟨ids, hids, hpath⟩ | ⟨ids, hids, hpath⟩ |
    ⟨ids, hids, hpath⟩
  all_goals
    obtain ⟨meeting, hmeeting, rfl⟩ := mem_listed hids
    obtain ⟨hmeeting, hexpired⟩ := List.mem_filter.mp hmeeting
  · rw [Bool.and_eq_true] at hexpired
    rcases hpath with hpath | hpath
    · exact ⟨meeting, hmeeting, .rawAudio, hexpired.1, hpath⟩
    · exact ⟨meeting, hmeeting, .debug, hexpired.1, hpath⟩
  · rw [Bool.and_eq_true] at hexpired
    exact ⟨meeting, hmeeting, .debug, hexpired.1, hpath⟩
  · exact ⟨meeting, hmeeting, .transcript, hexpired, hpath⟩
  · exact ⟨meeting, hmeeting, .summary, hexpired, hpath⟩

theorem removes_runCleanup (layout : RetentionLayout) (state : RetentionState) (ttl : RetentionTtl)
    (guildId : String) (onlyFinished : Bool) (input : CleanupInput) :
    Removes (fun place path => ∃ meeting ∈ state.db.meetings.rows, ∃ kind,
        expiredKind state.db ttl guildId input.plan.now meeting kind = true ∧
          layout.Holds meeting.ids kind place path)
      state.storage (runCleanup layout state ttl guildId onlyFinished input).storage := by
  have hremoves := removes_filesystemCleanup layout
    (collectRetentionCleanupPlan state.db ttl guildId input.plan) input.removals state.storage
  exact hremoves.mono fun place path => expired_of_covers

theorem removes_step (layout : RetentionLayout) (state : RetentionState) (event : RetentionEvent) :
    Removes (event.MayRemove layout state.db) state.storage
      (state.step layout event).storage := by
  cases event with
  | periodic guildId policy input =>
      exact removes_runCleanup layout state (state.db.ttl policy) guildId false input
  | administrator guildId policy input =>
      unfold RetentionState.step
      dsimp only
      split
      · exact removes_runCleanup layout state policy.fixedTtl guildId true input
      · exact Removes.refl _ _
  | meetingDelete guildId meetingId targets input =>
      unfold RetentionState.step runMeetingDelete
      dsimp only
      split
      case isFalse => exact Removes.refl _ _
      case isTrue =>
        cases hmeeting : (state.db.meetings.get meetingId).filter (MeetingRow.retained guildId) with
        | none => exact Removes.refl _ _
        | some meeting =>
            obtain ⟨hget, hretained⟩ := Option.filter_eq_some_iff.mp hmeeting
            obtain ⟨hrow, hid⟩ := Table.get_eq_some.mp hget
            have hremoves := removes_manualDelete layout meeting.ids targets
              (input.removals meeting.ids) state.storage
            apply hremoves.mono
            rintro place path ⟨kind, htarget, hpath⟩
            exact ⟨meeting, hrow, kind, by simp [RetentionEvent.due, hid, hretained, htarget], hpath⟩

/-! ## Whose data a path is -/

def WorkspaceDir.rootDir : WorkspaceDir → PathComponent
  | .debug => debugArtifactsRootDir
  | _ => workspacesRootDir

def WorkspaceDir.name : WorkspaceDir → PathComponent
  | .audio => audioDirName
  | .context => contextDirName
  | .transcript => transcriptDirName
  | .summary => summaryDirName
  | .debug | .legacyDebug => debugDirName
  | .agent => agentDirName

theorem WorkspaceDir.eq_of_names {left right : WorkspaceDir} (hroot : left.rootDir = right.rootDir)
    (hname : left.name = right.name) : left = right := by
  cases left <;> cases right <;>
    first
    | rfl
    | exact absurd hroot (by decide)
    | exact absurd hname (by decide)

theorem WorkspaceDir.path_eq (dir : WorkspaceDir) (layout : RetentionLayout) (ids : MeetingIds) :
    dir.path (layout.workspace ids) = layout.layout.baseDir ++
      [dir.rootDir, PathComponent.sanitized ids.guildId,
        PathComponent.sanitized ids.voiceChannelId, PathComponent.sanitized ids.meetingId,
        dir.name] := by
  cases dir <;> exact (List.append_assoc _ _ _).trans (List.append_assoc _ _ _)

/-- A path lies in one directory of one workspace at most. -/
theorem workspaceDir_unique {layout : RetentionLayout} {left right : WorkspaceDir}
    {ids other : MeetingIds} {path : FilePath}
    (hleft : inside (left.path (layout.workspace ids)) path = true)
    (hright : inside (right.path (layout.workspace other)) path = true) :
    left = right ∧ ids = other := by
  rw [inside, List.isPrefixOf_iff_prefix, WorkspaceDir.path_eq] at hleft hright
  have hsame := (List.prefix_of_prefix_length_le hleft hright (by simp)).eq_of_length (by simp)
  simp only [List.append_cancel_left_eq, List.cons.injEq, and_true] at hsame
  obtain ⟨hroot, hguild, hchannel, hmeeting, hname⟩ := hsame
  refine ⟨WorkspaceDir.eq_of_names hroot hname, MeetingIds.ext ?_ ?_ ?_⟩
  · exact PathComponent.sanitized_injective hguild
  · exact PathComponent.sanitized_injective hchannel
  · exact PathComponent.sanitized_injective hmeeting

/-- The names of guilds that a legacy directory could be mistaken for. -/
def legacyGuildIds : List String := ["speakers", "transcription_chunks"]

theorem sanitized_legacyGuildIds :
    PathComponent.sanitized "speakers" = speakersDirName ∧
      PathComponent.sanitized "transcription_chunks" = transcriptionChunksDirName := by
  decide +kernel

/-- A legacy directory holds nothing of a workspace. -/
theorem notLegacy_of_inside {layout : RetentionLayout} {dir : WorkspaceDir}
    {ids : MeetingIds} (other : MeetingIds) {path : FilePath} (hguild : ids.guildId ∉ legacyGuildIds)
    (hpath : inside (dir.path (layout.workspace ids)) path = true) :
    legacyRawAudio (layout.legacyDir other) path = false ∧
      legacyRecordingObject (layout.legacyDir other) path = false := by
  rw [inside, List.isPrefixOf_iff_prefix, WorkspaceDir.path_eq] at hpath
  obtain ⟨rest, rfl⟩ := hpath
  have hdrop : (layout.layout.baseDir ++ [dir.rootDir, PathComponent.sanitized ids.guildId,
        PathComponent.sanitized ids.voiceChannelId, PathComponent.sanitized ids.meetingId,
        dir.name] ++ rest).drop (layout.legacyDir other).length =
      PathComponent.sanitized ids.guildId :: PathComponent.sanitized ids.voiceChannelId ::
        (PathComponent.sanitized ids.meetingId :: dir.name :: rest) := by
    have hlength : (layout.legacyDir other).length = layout.layout.baseDir.length + 1 := by
      simp [RetentionLayout.legacyDir, legacyMeetingDir]
    rw [hlength, List.append_assoc, List.drop_length_add_append]
    rfl
  have hspeakers : PathComponent.sanitized ids.guildId ≠ speakersDirName := by
    rw [← sanitized_legacyGuildIds.1]
    intro heq
    exact hguild (by simp [legacyGuildIds, PathComponent.sanitized_injective heq])
  have hchunks : PathComponent.sanitized ids.guildId ≠ transcriptionChunksDirName := by
    rw [← sanitized_legacyGuildIds.2]
    intro heq
    exact hguild (by simp [legacyGuildIds, PathComponent.sanitized_injective heq])
  constructor
  · unfold legacyRawAudio
    rw [hdrop]
    simp [hspeakers, hchunks]
  · unfold legacyRecordingObject
    rw [hdrop]
    simp [hspeakers, hchunks]

/-- What lies in a directory of a workspace is that meeting's data of that kind. -/
theorem owner_of_holds {layout : RetentionLayout} {dir : WorkspaceDir} {ids other : MeetingIds}
    {kind : DataKind} {place : Place} {path : FilePath} (hguild : ids.guildId ∉ legacyGuildIds)
    (hpath : inside (dir.path (layout.workspace ids)) path = true)
    (hholds : layout.Holds other kind place path) : other = ids ∧ kind = dir.kind := by
  obtain ⟨hraw, hobject⟩ := notLegacy_of_inside other hguild hpath
  cases place with
  | file =>
      rcases hholds with ⟨dir', rfl, hinside⟩ | ⟨-, hlegacy⟩
      · obtain ⟨rfl, rfl⟩ := workspaceDir_unique hinside hpath
        exact ⟨rfl, rfl⟩
      · rw [hraw] at hlegacy
        cases hlegacy
  | object =>
      rcases hholds with ⟨rfl, hinside | hlegacy⟩
      · have haudio : inside (WorkspaceDir.audio.path (layout.workspace other)) path = true :=
          hinside
        obtain ⟨rfl, rfl⟩ := workspaceDir_unique haudio hpath
        exact ⟨rfl, rfl⟩
      · rw [hobject] at hlegacy
        cases hlegacy

/-! ## Runs -/

/-- Whatever disappears was data that the event of that step may remove. -/
theorem lost_only_when_due (layout : RetentionLayout) {start : RetentionState}
    {events : List RetentionEvent} {place : Place} {path : FilePath}
    (hstored : path ∈ start.storage.paths place)
    (hlost : path ∉ (Machine.run (RetentionState.step layout) start events).storage.paths place) :
    ∃ front event back, events = front ++ event :: back ∧ event.MayRemove layout
      (Machine.run (RetentionState.step layout) start front).db place path :=
  Machine.exists_step_of_lost (fun state => RetainedFiles.paths state.storage place)
    (fun state event path => event.MayRemove layout state.db place path)
    (fun state event => removes_step layout state event place) hstored hlost

/-- A file of a workspace disappears only at an event for which this kind of data of
this very meeting is due. -/
theorem workspace_removed_only_when_due (layout : RetentionLayout) {dir : WorkspaceDir}
    {ids : MeetingIds} (hguild : ids.guildId ∉ legacyGuildIds) {place : Place} {path : FilePath}
    (hpath : inside (dir.path (layout.workspace ids)) path = true) {start : RetentionState}
    {events : List RetentionEvent} (hstored : path ∈ start.storage.paths place)
    (hlost : path ∉ (Machine.run (RetentionState.step layout) start events).storage.paths place) :
    ∃ front event back meeting, events = front ++ event :: back ∧ meeting.ids = ids ∧
      meeting ∈ (Machine.run (RetentionState.step layout) start front).db.meetings.rows ∧
      event.due (Machine.run (RetentionState.step layout) start front).db meeting
        dir.kind = true := by
  obtain ⟨front, event, back, rfl, meeting, hmeeting, kind, hdue, hholds⟩ :=
    lost_only_when_due layout hstored hlost
  obtain ⟨hids, rfl⟩ := owner_of_holds hguild hpath hholds
  exact ⟨front, event, back, meeting, rfl, hids, hmeeting, hdue⟩

/-! A meeting whose recording is kept for a week. -/

def dataRetention : RetentionLayout := ⟨dataLayout, fun _ => false⟩

def agedMeeting : MeetingRow :=
  { id := "m", status := .posted, guildId := "g", voiceChannelId := "c", stoppedAt := some 0,
    updatedAt := 0 }

def agedRecording : FilePath :=
  MeetingPaths.audioDir (dataRetention.workspace agedMeeting.ids) ++ [⟨"a.wav", by decide, by decide⟩]

def agedTranscript : StoredTranscript := { id := "t", meetingId := "m", createdAt := 0 }

def agedState : RetentionState where
  db :=
    { meetings := ⟨[agedMeeting], by decide⟩
      settings := ∅
      transcripts := ⟨[agedTranscript], by decide⟩
      summaries := ∅
      artifacts := ∅ }
  storage := { files := [agedRecording], objects := none }

/-- A cleanup in which nothing fails, some days after the meeting. -/
def cleanupAfter (days : ℤ) : RetentionEvent :=
  .periodic "g" {} { plan := { now := days * dayMs }, statements := { now := days * dayMs } }

theorem aged_recording_removed_when_due :
    ∃ front event back meeting, [cleanupAfter 6, cleanupAfter 8] = front ++ event :: back ∧
      meeting.ids = agedMeeting.ids ∧
      meeting ∈ (Machine.run (RetentionState.step dataRetention) agedState front).db.meetings.rows ∧
      event.due (Machine.run (RetentionState.step dataRetention) agedState front).db meeting
        WorkspaceDir.audio.kind = true := by
  have hguild : agedMeeting.ids.guildId ∉ legacyGuildIds := by decide
  have hpath : inside (WorkspaceDir.audio.path (dataRetention.workspace agedMeeting.ids))
      agedRecording = true := by decide +kernel
  have hstored : agedRecording ∈ agedState.storage.paths .file := by decide +kernel
  have hlost : agedRecording ∉ (Machine.run (RetentionState.step dataRetention) agedState
      [cleanupAfter 6, cleanupAfter 8]).storage.paths .file := by decide +kernel
  exact workspace_removed_only_when_due dataRetention hguild hpath hstored hlost

end DiscordTranscript.Application
