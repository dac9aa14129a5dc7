import DiscordTranscript.Application.RetentionRows

/-! # A cleanup is complete

The mark on a meeting says that nothing of its raw audio is left, and it says so
after any failures, because a meeting is marked only when every removal for it went
through. So meetings with a mark need not be looked at again, and a cleanup in which
nothing fails leaves nothing that had expired, whatever failed before.
-/

namespace DiscordTranscript.Application

open Audio Domain Infrastructure

/-! ## Removals without an error -/

/-- Nothing of the kind is stored. -/
def RetentionLayout.Clear (layout : RetentionLayout) (ids : MeetingIds) (kind : DataKind)
    (state : RetainedFiles) : Prop :=
  ∀ place, ∀ path ∈ state.paths place, ¬layout.Holds ids kind place path

theorem RetentionLayout.Clear.removes {layout : RetentionLayout} {ids : MeetingIds}
    {kind : DataKind} {gone : Place → FilePath → Prop} {before after : RetainedFiles}
    (hclear : layout.Clear ids kind before) (hremoves : Removes gone before after) :
    layout.Clear ids kind after :=
  fun place path hpath => hclear place path ((hremoves place).old path hpath)

/-- Removals that leave nothing of what is named, unless they add an error. -/
structure Cleans (named : Place → FilePath → Prop) (before after : List String × RetainedFiles) :
    Prop where
  errors : after.1 = [] → before.1 = []
  fewer : Removes (fun _ _ => True) before.2 after.2
  clean : after.1 = [] → ∀ place, ∀ path ∈ after.2.paths place, ¬named place path

section

variable {first second : Place → FilePath → Prop} {a b c : List String × RetainedFiles}

theorem Cleans.trans (hleft : Cleans first a b) (hright : Cleans second b c) :
    Cleans (fun place path => first place path ∨ second place path) a c := by
  refine ⟨fun herrors => hleft.errors (hright.errors herrors), hleft.fewer.trans hright.fewer, ?_⟩
  rintro herrors place path hpath (hfirst | hsecond)
  · exact hleft.clean (hright.errors herrors) place path ((hright.fewer place).old path hpath) hfirst
  · exact hright.clean herrors place path hpath hsecond

theorem apply_clean {removal : Removal} {selected : FilePath → Bool} {paths : List FilePath}
    (herrors : (removal.apply selected paths).1 = []) {path : FilePath}
    (hpath : path ∈ (removal.apply selected paths).2) : selected path = false := by
  cases removal with
  | done => simpa using (List.mem_filter.mp hpath).2
  | failed err left => cases herrors

theorem cleans_removeFiles (selected : FilePath → Bool) (removal : Removal)
    (state : List String × RetainedFiles) :
    Cleans (fun place path => place = .file ∧ selected path = true) state
      (RetentionLayout.removeFiles selected removal state) := by
  refine ⟨fun herrors => (List.append_eq_nil_iff.mp herrors).1,
    removes_removeFiles (fun _ _ => trivial) removal state, ?_⟩
  rintro herrors place path hpath ⟨rfl, hselected⟩
  have hclean := apply_clean (List.append_eq_nil_iff.mp herrors).2 hpath
  rw [hselected] at hclean
  cases hclean

theorem cleans_removeObjects (selected : FilePath → Bool) (removal : Removal)
    (state : List String × RetainedFiles) :
    Cleans (fun place path => place = .object ∧ selected path = true) state
      (RetentionLayout.removeObjects selected removal state) := by
  have hfewer : Removes (fun _ _ => True) state.2
      (RetentionLayout.removeObjects selected removal state).2 :=
    removes_removeObjects (fun _ _ => trivial) removal state
  obtain ⟨errors, files, objects⟩ := state
  cases objects with
  | none =>
      refine ⟨fun herrors => herrors, hfewer, ?_⟩
      rintro _ place path hpath ⟨rfl, -⟩
      cases hpath
  | some objects =>
      refine ⟨fun herrors => (List.append_eq_nil_iff.mp herrors).1, hfewer, ?_⟩
      rintro herrors place path hpath ⟨rfl, hselected⟩
      have hclean := apply_clean (List.append_eq_nil_iff.mp herrors).2 hpath
      rw [hselected] at hclean
      cases hclean

/-- A removal that is not made after an error. -/
theorem Cleans.unless_error (hcleans : Cleans second b c) :
    Cleans second b (if b.1.isEmpty then c else b) := by
  split
  next => exact hcleans
  next hempty =>
    have herrors : b.1 ≠ [] := fun hnil => hempty (by rw [hnil]; rfl)
    exact ⟨id, Removes.refl _ _, fun hnil => absurd hnil herrors⟩

end

section

variable (layout : RetentionLayout) (ids : MeetingIds)

theorem clear_removeRawAudio (removals : MeetingRemovals) (state : RetainedFiles)
    (herrors : (layout.removeRawAudio ids removals state).1 = []) :
    layout.Clear ids .rawAudio (layout.removeRawAudio ids removals state).2 := by
  have hspeakers := cleans_removeFiles (inside (MeetingPaths.speakersDir (layout.workspace ids)))
    removals.speakers ([], state)
  have haudio := hspeakers.trans (cleans_removeFiles
    (inside (MeetingPaths.audioDir (layout.workspace ids))) removals.audio _).unless_error
  have hlegacy := haudio.trans
    (cleans_removeFiles (legacyRawAudio (layout.legacyDir ids)) removals.legacy _)
  have hobjects := hlegacy.trans (cleans_removeObjects
    (inside (MeetingPaths.audioDir (layout.workspace ids))) removals.objects _)
  have hlegacyObjects := hobjects.trans (cleans_removeObjects
    (legacyRecordingObject (layout.legacyDir ids)) removals.legacyObjects _)
  have hcleans := hlegacyObjects.trans (cleans_removeFiles
    (inside (MeetingPaths.contextDir (layout.workspace ids))) removals.context _)
  intro place path hpath hholds
  apply hcleans.clean herrors place path hpath
  cases place with
  | file =>
      rcases hholds with ⟨dir, hkind, hinside⟩ | ⟨-, hinside⟩
      · cases dir with
        | audio => exact .inl (.inl (.inl (.inl (.inr ⟨rfl, hinside⟩))))
        | context => exact .inr ⟨rfl, hinside⟩
        | transcript | summary | debug | legacyDebug | agent => cases hkind
      · exact .inl (.inl (.inl (.inr ⟨rfl, hinside⟩)))
  | object =>
      rcases hholds.2 with hinside | hinside
      · exact .inl (.inl (.inr ⟨rfl, hinside⟩))
      · exact .inl (.inr ⟨rfl, hinside⟩)

theorem cleans_removeDebug (removals : MeetingRemovals) (state : List String × RetainedFiles) :
    Cleans (layout.Holds ids .debug) state (layout.removeDebug ids removals state) := by
  have hdebug := cleans_removeFiles (inside (MeetingPaths.debugDir (layout.workspace ids)))
    removals.debug state
  have hlegacyDebug := hdebug.trans (cleans_removeFiles
    (inside (MeetingPaths.legacyDebugDir (layout.workspace ids))) removals.legacyDebug _)
  have hcleans := hlegacyDebug.trans (cleans_removeFiles
    (inside (MeetingPaths.agentWorkspaceParentDir (layout.workspace ids))) removals.agent _)
  refine ⟨hcleans.errors, hcleans.fewer, ?_⟩
  intro herrors place path hpath hholds
  apply hcleans.clean herrors place path hpath
  cases place with
  | file =>
      rcases hholds with ⟨dir, hkind, hinside⟩ | ⟨hkind, -⟩
      · cases dir with
        | debug => exact .inl (.inl ⟨rfl, hinside⟩)
        | legacyDebug => exact .inl (.inr ⟨rfl, hinside⟩)
        | agent => exact .inr ⟨rfl, hinside⟩
        | audio | context | transcript | summary => cases hkind
      · cases hkind
  | object => cases hholds.1

theorem clear_cleanRawWorkspace (removals : MeetingRemovals) (state : RetainedFiles)
    (hclean : (layout.cleanRawWorkspace ids removals state).1 = true) :
    layout.Clear ids .rawAudio (layout.cleanRawWorkspace ids removals state).2 ∧
      layout.Clear ids .debug (layout.cleanRawWorkspace ids removals state).2 := by
  unfold RetentionLayout.cleanRawWorkspace at hclean ⊢
  dsimp only at hclean ⊢
  have hcleans := cleans_removeDebug layout ids removals
    ((layout.removeRawAudio ids removals state).1 ++ removals.emptySummary.toList,
      (layout.removeRawAudio ids removals state).2)
  have herrors := List.isEmpty_iff.mp hclean
  have hraw := (List.append_eq_nil_iff.mp (hcleans.errors herrors)).1
  exact ⟨(clear_removeRawAudio layout ids removals state hraw).removes hcleans.fewer,
    hcleans.clean herrors⟩

/-- When nothing fails, a workspace is clean. -/
theorem cleanRawWorkspace_of_done (state : RetainedFiles) :
    (layout.cleanRawWorkspace ids {} state).1 = true := by
  have hfiles (selected : FilePath → Bool) (state : List String × RetainedFiles) :
      (RetentionLayout.removeFiles selected .done state).1 = state.1 := List.append_nil state.1
  have hobjects (selected : FilePath → Bool) (state : List String × RetainedFiles) :
      (RetentionLayout.removeObjects selected .done state).1 = state.1 := by
    obtain ⟨errors, files, objects⟩ := state
    cases objects with
    | none => rfl
    | some objects => exact List.append_nil errors
  simp [RetentionLayout.cleanRawWorkspace, RetentionLayout.removeRawAudio,
    RetentionLayout.removeDebug, hfiles, hobjects]

variable {layout}

theorem clear_of_mem_cleaned {removals : MeetingIds → MeetingRemovals} {workspaces : List MeetingIds}
    {state : RetainedFiles} {meetingId : String}
    (hcleaned : meetingId ∈ (cleanRawWorkspaces layout removals workspaces state).1) :
    ∃ ids ∈ workspaces, ids.meetingId = meetingId ∧
      layout.Clear ids .rawAudio (cleanRawWorkspaces layout removals workspaces state).2 := by
  induction workspaces generalizing state with
  | nil => cases hcleaned
  | cons ids rest ih =>
      unfold cleanRawWorkspaces at hcleaned ⊢
      dsimp only at hcleaned ⊢
      have hrest (hmem : meetingId ∈ (cleanRawWorkspaces layout removals rest
          (layout.cleanRawWorkspace ids (removals ids) state).2).1) :
          ∃ other ∈ ids :: rest, other.meetingId = meetingId ∧ layout.Clear other .rawAudio
            (cleanRawWorkspaces layout removals rest
              (layout.cleanRawWorkspace ids (removals ids) state).2).2 := by
        obtain ⟨other, hother, hid, hclear⟩ := ih hmem
        exact ⟨other, List.mem_cons_of_mem _ hother, hid, hclear⟩
      split at hcleaned
      next hclean =>
        rcases List.mem_cons.mp hcleaned with rfl | hmem
        · have hclear := (clear_cleanRawWorkspace layout ids (removals ids) state hclean).1
          exact ⟨ids, List.mem_cons_self, rfl,
            hclear.removes (removes_cleanRawWorkspaces layout removals rest _)⟩
        · exact hrest hmem
      next => exact hrest hcleaned

/-- A deletion that reports the meeting as cleaned has left no raw audio of it. -/
theorem clear_of_mem_manual {ids : MeetingIds} {targets : RetentionDeletionTargets}
    {removals : MeetingRemovals} {state : RetainedFiles} {meetingId : String}
    (hcleaned : meetingId ∈
      (applyManualMeetingFilesystemDelete layout ids targets removals state).1) :
    ids.meetingId = meetingId ∧ layout.Clear ids .rawAudio
      (applyManualMeetingFilesystemDelete layout ids targets removals state).2 := by
  have hafter := removes_afterRawAudio layout ids targets removals state
  unfold applyManualMeetingFilesystemDelete at hcleaned hafter ⊢
  dsimp only at hcleaned hafter ⊢
  cases htarget : targets.rawAudio with
  | false => simp [htarget] at hcleaned
  | true =>
      simp only [htarget, if_true] at hcleaned hafter ⊢
      split at hcleaned
      next herrors =>
        have hclear := clear_removeRawAudio layout ids removals state (List.isEmpty_iff.mp herrors)
        exact ⟨(List.mem_singleton.mp hcleaned).symm, hclear.removes hafter⟩
      next => cases hcleaned

/-- When nothing fails, every workspace is cleaned. -/
theorem cleaned_of_mem_workspaces {workspaces : List MeetingIds} {ids : MeetingIds}
    (hids : ids ∈ workspaces) (state : RetainedFiles) :
    ids.meetingId ∈ (cleanRawWorkspaces layout (fun _ => {}) workspaces state).1 ∧
      layout.Clear ids .rawAudio
        (cleanRawWorkspaces layout (fun _ => {}) workspaces state).2 ∧
      layout.Clear ids .debug (cleanRawWorkspaces layout (fun _ => {}) workspaces state).2 := by
  induction workspaces generalizing state with
  | nil => cases hids
  | cons first rest ih =>
      have hdone := cleanRawWorkspace_of_done layout first state
      unfold cleanRawWorkspaces
      dsimp only
      rw [if_pos hdone]
      rcases List.mem_cons.mp hids with rfl | hids
      · obtain ⟨hraw, hdebug⟩ := clear_cleanRawWorkspace layout ids {} state hdone
        have hfewer := removes_cleanRawWorkspaces layout (fun _ => {}) rest
          (layout.cleanRawWorkspace ids {} state).2
        exact ⟨List.mem_cons_self, hraw.removes hfewer, hdebug.removes hfewer⟩
      · obtain ⟨hcleaned, hclear⟩ := ih hids (layout.cleanRawWorkspace first {} state).2
        exact ⟨List.mem_cons_of_mem _ hcleaned, hclear⟩

end

/-! ## Marks -/

open RetentionDatabase

/-- The meetings that are marked have no raw audio left. -/
def RetentionState.MarksSound (layout : RetentionLayout) (state : RetentionState) : Prop :=
  ∀ meeting ∈ state.db.meetings.rows, meeting.retentionRawCleanedAt.isSome = true →
    layout.Clear meeting.ids .rawAudio state.storage

theorem markings_databaseCleanup (db : RetentionDatabase) (ttl : RetentionTtl) (guildId : String)
    (onlyFinished : Bool) (cleaned : List String) (replies : StatementReplies) :
    (applyRetentionDatabaseCleanup db ttl guildId onlyFinished cleaned replies).markings =
      db.markings.map (withMarks (markedBy guildId onlyFinished cleaned replies.markRaw)) := by
  unfold applyRetentionDatabaseCleanup
  dsimp only
  -- only the first and the last but one of the statements touch meetings
  apply (markings_run replies.summaryArtifacts rfl).trans
  apply (markings_run replies.summaries (markings_deleteSummaries guildId replies.now ttl _)).trans
  apply (markings_run replies.debugArtifacts rfl).trans
  apply (markings_run replies.transcriptArtifacts rfl).trans
  apply (markings_run replies.rawArtifacts rfl).trans
  apply (markings_run replies.expiredArtifacts rfl).trans
  apply (markings_run replies.markTranscripts rfl).trans
  exact markings_marks guildId replies.now onlyFinished cleaned replies.markRaw db

theorem markings_meetingDatabaseDelete (db : RetentionDatabase) (guildId meetingId : String)
    (targets : RetentionDeletionTargets) (cleaned : List String) (replies : StatementReplies) :
    (applyMeetingDatabaseDelete db guildId meetingId targets cleaned replies).markings =
      db.markings.map (withMarks (markedBy guildId true cleaned replies.markRaw)) := by
  unfold applyMeetingDatabaseDelete
  dsimp only
  have hif {db other : RetentionDatabase} (condition : Bool)
      (hsame : other.markings = db.markings) :
      (if condition then other else db).markings = db.markings := by
    split
    · exact hsame
    · rfl
  apply (markings_run replies.expiredArtifacts rfl).trans
  apply (hif targets.summary (markings_run replies.summaries
    (markings_deleteMeetingSummaries guildId replies.now meetingId _))).trans
  apply (hif targets.transcript (markings_run replies.markTranscripts rfl)).trans
  exact markings_marks guildId replies.now true cleaned replies.markRaw db

/-- The meeting as it was before, and where its mark is from. -/
theorem before_of_markings {before after : RetentionDatabase} {marks : MeetingRow → Bool}
    (hmarkings : after.markings = before.markings.map (withMarks marks)) {meeting : MeetingRow}
    (hmeeting : meeting ∈ after.meetings.rows) :
    ∃ old ∈ before.meetings.rows, old.settled = meeting.settled ∧
      meeting.retentionRawCleanedAt.isSome =
        (old.retentionRawCleanedAt.isSome || marks old.settled) := by
  have hmem : marking meeting ∈ after.markings := List.mem_map_of_mem hmeeting
  rw [hmarkings, markings, List.map_map] at hmem
  obtain ⟨old, hold, heq⟩ := List.mem_map.mp hmem
  obtain ⟨hsettled, hmark⟩ := Prod.mk.inj heq
  exact ⟨old, hold, hsettled, hmark.symm⟩

theorem ids_of_settled {old meeting : MeetingRow} (hsettled : old.settled = meeting.settled) :
    old.ids = meeting.ids := by
  have hids : old.settled.ids = meeting.settled.ids := by rw [hsettled]
  exact hids

/-- New marks are only for meetings that have no raw audio left. -/
theorem marksSound_next {layout : RetentionLayout} {before after : RetentionState}
    {marks : MeetingRow → Bool} {gone : Place → FilePath → Prop}
    (hsound : before.MarksSound layout)
    (hremoves : Removes gone before.storage after.storage)
    (hmarkings : after.db.markings = before.db.markings.map (withMarks marks))
    (hmarks : ∀ old ∈ before.db.meetings.rows, marks old.settled = true →
      layout.Clear old.ids .rawAudio after.storage) : after.MarksSound layout := by
  intro meeting hmeeting hmark
  obtain ⟨old, hold, hsettled, hmarked⟩ := before_of_markings hmarkings hmeeting
  rw [← ids_of_settled hsettled]
  rw [hmarked, Bool.or_eq_true] at hmark
  rcases hmark with hmark | hmark
  · exact (hsound old hold hmark).removes hremoves
  · exact hmarks old hold hmark

theorem mem_of_markedBy {guildId : String} {onlyFinished : Bool} {cleaned : List String}
    {replies : String → Reply} {meeting : MeetingRow}
    (hmarked : markedBy guildId onlyFinished cleaned replies meeting = true) :
    meeting.id ∈ cleaned := by
  simp only [markedBy, Bool.and_eq_true, List.any_eq_true, decide_eq_true_eq] at hmarked
  obtain ⟨⟨⟨meetingId, hmem, -, rfl⟩, -⟩, -⟩ := hmarked
  exact hmem

theorem marksSound_runCleanup {layout : RetentionLayout} {state : RetentionState}
    (hsound : state.MarksSound layout) (ttl : RetentionTtl) (guildId : String)
    (onlyFinished : Bool) (input : CleanupInput) :
    (runCleanup layout state ttl guildId onlyFinished input).MarksSound layout := by
  apply marksSound_next hsound (removes_runCleanup layout state ttl guildId onlyFinished input)
    (markings_databaseCleanup _ _ _ _ _ _)
  intro old hold hmarked
  obtain ⟨ids, hids, hid, hclear⟩ := clear_of_mem_cleaned (mem_of_markedBy hmarked)
  obtain ⟨listed, hlisted, rfl⟩ := mem_listed hids
  -- the plan lists the row that is marked
  obtain rfl : listed = old :=
    Table.eq_of_key_eq state.db.meetings (List.mem_filter.mp hlisted).1 hold hid
  exact hclear.removes (removes_afterRawWorkspaces layout _ _ _)

theorem marksSound_step {layout : RetentionLayout} {state : RetentionState}
    (hsound : state.MarksSound layout) (event : RetentionEvent) :
    (state.step layout event).MarksSound layout := by
  cases event with
  | periodic guildId policy input => exact marksSound_runCleanup hsound _ guildId false input
  | administrator guildId policy input =>
      unfold RetentionState.step
      dsimp only
      split
      · exact marksSound_runCleanup hsound _ guildId true input
      · exact hsound
  | meetingDelete guildId meetingId targets input =>
      have hremoves := removes_step layout state (.meetingDelete guildId meetingId targets input)
      unfold RetentionState.step runMeetingDelete at hremoves ⊢
      dsimp only at hremoves ⊢
      split
      case isFalse => exact hsound
      case isTrue hprepared =>
        rw [if_pos hprepared] at hremoves
        cases hmeeting : (state.db.meetings.get meetingId).filter (MeetingRow.retained guildId) with
        | none => exact hsound
        | some meeting =>
            rw [hmeeting] at hremoves
            obtain ⟨hrow, hid⟩ := Table.get_eq_some.mp (Option.filter_eq_some_iff.mp hmeeting).1
            apply marksSound_next hsound hremoves (markings_meetingDatabaseDelete _ _ _ _ _ _)
            intro old hold hmarked
            have hcleaned := mem_of_markedBy hmarked
            obtain ⟨hsame, hclear⟩ := clear_of_mem_manual hcleaned
            obtain rfl : meeting = old :=
              Table.eq_of_key_eq state.db.meetings hrow hold hsame
            exact hclear

/-- A mark is right after any run, whatever fails in it. -/
theorem marks_stay_sound (layout : RetentionLayout) {start : RetentionState}
    (hstart : start.MarksSound layout) (events : List RetentionEvent) :
    (Machine.run (RetentionState.step layout) start events).MarksSound layout :=
  Machine.run_invariant (RetentionState.step layout) (RetentionState.MarksSound layout)
    (fun _ event hsound => marksSound_step hsound event) hstart events

theorem agedState_marksSound : agedState.MarksSound dataRetention := by
  intro meeting hmeeting hmark
  obtain rfl := List.mem_singleton.mp hmeeting
  cases hmark

/-- The recording cannot be removed at first; then it can, but the statement that marks the
meeting fails, and a day later it is the answer that is lost. -/
def failingCleanups (policy : RetentionPolicy) : List RetentionEvent :=
  [.periodic "g" policy {
    plan := { now := 8 * dayMs }
    removals := fun _ => { audio := .failed "busy" fun _ => true }
    statements := { now := 8 * dayMs } },
  .periodic "g" policy {
    plan := { now := 9 * dayMs }
    statements := { now := 9 * dayMs, markRaw := fun _ => .failed "closed" false } },
  .periodic "g" policy {
    plan := { now := 10 * dayMs }
    statements := { now := 10 * dayMs, markRaw := fun _ => .failed "closed" true } }]

theorem aged_marks_stay_sound :
    (Machine.run (RetentionState.step dataRetention) agedState
        ((failingCleanups {}).take 1)).MarksSound dataRetention ∧
      agedRecording ∈ (Machine.run (RetentionState.step dataRetention) agedState
        ((failingCleanups {}).take 1)).storage.files ∧
      (Machine.run (RetentionState.step dataRetention) agedState (failingCleanups {})).MarksSound
        dataRetention ∧
      (Machine.run (RetentionState.step dataRetention) agedState
        (failingCleanups {})).db.meetings.rows.map (·.retentionRawCleanedAt) = [some (10 * dayMs)] :=
  ⟨marks_stay_sound dataRetention agedState_marksSound ((failingCleanups {}).take 1),
    by decide +kernel, marks_stay_sound dataRetention agedState_marksSound (failingCleanups {}),
    by decide +kernel⟩

/-! ## A cleanup in which nothing fails -/

/-- Every query and statement is answered and every removal done. -/
def CleanupInput.undisturbed (planNow now : ℤ) : CleanupInput where
  plan := { now := planNow }
  statements := { now := now }

section

variable {layout : RetentionLayout} {ids : MeetingIds}

/-- A directory that every turn of a loop removes is empty after the loop. -/
theorem clear_foldl {kind : DataKind} {remove : RetainedFiles → MeetingIds → RetainedFiles}
    {gone : Place → FilePath → Prop} {workspaces : List MeetingIds} (hids : ids ∈ workspaces)
    (hclear : ∀ state ids, layout.Clear ids kind (remove state ids))
    (hremoves : ∀ state ids, Removes gone state (remove state ids)) (state : RetainedFiles) :
    layout.Clear ids kind (workspaces.foldl remove state) :=
  Machine.run_done_of_mem remove (fun ids state => layout.Clear ids kind state) hclear
    (fun state ids _ hother => hother.removes (hremoves state ids)) hids state

theorem clear_transcriptDir (state : RetainedFiles) (ids : MeetingIds) :
    layout.Clear ids .transcript (RetentionLayout.removeFiles
      (inside (MeetingPaths.transcriptDir (layout.workspace ids))) .done ([], state)).2 := by
  intro place path hpath hholds
  have hcleans := cleans_removeFiles (inside (MeetingPaths.transcriptDir (layout.workspace ids)))
    .done ([], state)
  apply hcleans.clean rfl place path hpath
  cases place with
  | file =>
      rcases hholds with ⟨dir, hkind, hinside⟩ | ⟨hkind, -⟩
      · cases dir with
        | transcript => exact ⟨rfl, hinside⟩
        | audio | context | summary | debug | legacyDebug | agent => cases hkind
      · cases hkind
  | object => cases hholds.1

theorem clear_summaryDir (state : RetainedFiles) (ids : MeetingIds) :
    layout.Clear ids .summary (RetentionLayout.removeFiles
      (inside (MeetingPaths.summaryDir (layout.workspace ids))) .done ([], state)).2 := by
  intro place path hpath hholds
  have hcleans := cleans_removeFiles (inside (MeetingPaths.summaryDir (layout.workspace ids)))
    .done ([], state)
  apply hcleans.clean rfl place path hpath
  cases place with
  | file =>
      rcases hholds with ⟨dir, hkind, hinside⟩ | ⟨hkind, -⟩
      · cases dir with
        | summary => exact ⟨rfl, hinside⟩
        | audio | context | transcript | debug | legacyDebug | agent => cases hkind
      · cases hkind
  | object => cases hholds.1

theorem clear_removeDebug (state : RetainedFiles) (ids : MeetingIds) :
    layout.Clear ids .debug (layout.removeDebug ids {} ([], state)).2 :=
  (cleans_removeDebug layout ids {} ([], state)).clean rfl

variable (plan : RetentionCleanupPlan) (state : RetainedFiles)

/-- Each list of a plan is gone through to its end. -/
theorem clear_filesystemCleanup :
    let after := (applyRetentionFilesystemCleanup layout plan (fun _ => {}) state).2
    (ids ∈ plan.rawWorkspaces → layout.Clear ids .rawAudio after ∧ layout.Clear ids .debug after) ∧
      (ids ∈ plan.debugWorkspaces → layout.Clear ids .debug after) ∧
      (ids ∈ plan.transcriptWorkspaces → layout.Clear ids .transcript after) ∧
      (ids ∈ plan.summaryWorkspaces → layout.Clear ids .summary after) := by
  have hdebug (state : RetainedFiles) (ids : MeetingIds) : Removes (fun _ _ => True) state
      (layout.removeDebug ids {} ([], state)).2 :=
    (cleans_removeDebug layout ids {} ([], state)).fewer
  have hfiles (dir : MeetingIds → FilePath) (state : RetainedFiles) (ids : MeetingIds) :
      Removes (fun _ _ => True) state
        (RetentionLayout.removeFiles (inside (dir ids)) .done ([], state)).2 :=
    removes_removeFiles (fun _ _ => trivial) .done ([], state)
  have hfold (dir : MeetingIds → FilePath) (workspaces : List MeetingIds) (state : RetainedFiles) :
      Removes (fun _ _ => True) state (workspaces.foldl (fun state ids =>
        (RetentionLayout.removeFiles (inside (dir ids)) .done ([], state)).2) state) :=
    removes_foldl (fun ids _ state => hfiles dir state ids) state
  intro after
  refine ⟨fun hids => ?_, fun hids => ?_, fun hids => ?_, fun hids => ?_⟩
  · have hafter := removes_afterRawWorkspaces layout plan (fun _ => {}) state
    obtain ⟨hraw, hdebug⟩ := (@cleaned_of_mem_workspaces layout plan.rawWorkspaces ids hids state).2
    exact ⟨hraw.removes hafter, hdebug.removes hafter⟩
  · have hclear := clear_foldl hids clear_removeDebug hdebug
      (cleanRawWorkspaces layout (fun _ => {}) plan.rawWorkspaces state).2
    have htranscripts := hfold (fun ids => MeetingPaths.transcriptDir (layout.workspace ids))
      plan.transcriptWorkspaces
    exact (hclear.removes (htranscripts _)).removes
      (hfold (fun ids => MeetingPaths.summaryDir (layout.workspace ids)) plan.summaryWorkspaces _)
  · have hclear := clear_foldl hids clear_transcriptDir
      (hfiles fun ids => MeetingPaths.transcriptDir (layout.workspace ids))
    exact (hclear _).removes
      (hfold (fun ids => MeetingPaths.summaryDir (layout.workspace ids)) plan.summaryWorkspaces _)
  · exact clear_foldl hids clear_summaryDir
      (hfiles fun ids => MeetingPaths.summaryDir (layout.workspace ids)) _

end

section

variable (layout : RetentionLayout) (state : RetentionState) (ttl : RetentionTtl)
  (guildId : String) (planNow now : ℤ)

theorem clear_undisturbed (hsound : state.MarksSound layout) {meeting : MeetingRow}
    (hmeeting : meeting ∈ state.db.meetings.rows) {kind : DataKind}
    (hexpired : expiredKind state.db ttl guildId planNow meeting kind = true) :
    layout.Clear meeting.ids kind
      (runCleanup layout state ttl guildId false (.undisturbed planNow now)).storage := by
  obtain ⟨hraw, hdebug, htranscript, hsummary⟩ := @clear_filesystemCleanup layout meeting.ids
    (collectRetentionCleanupPlan state.db ttl guildId { now := planNow }) state.storage
  have hremoves := removes_runCleanup layout state ttl guildId false (.undisturbed planNow now)
  have hlisted {rows : List MeetingRow} (hmem : meeting ∈ rows) :
      meeting.ids ∈ rows.map MeetingRow.ids := List.mem_map_of_mem hmem
  cases kind with
  | rawAudio =>
      cases hmark : meeting.retentionRawCleanedAt with
      | none => exact (hraw (hlisted (List.mem_filter.mpr ⟨hmeeting,
          by simpa [hmark, expiredKind] using hexpired⟩))).1
      | some time => exact (hsound meeting hmeeting (by rw [hmark]; rfl)).removes hremoves
  | debug =>
      cases hmark : meeting.retentionRawCleanedAt with
      | none => exact (hraw (hlisted (List.mem_filter.mpr ⟨hmeeting,
          by simpa [hmark, expiredKind] using hexpired⟩))).2
      | some time => exact hdebug (hlisted (List.mem_filter.mpr ⟨hmeeting,
          by simpa [hmark, expiredKind] using hexpired⟩))
  | transcript => exact htranscript (hlisted (List.mem_filter.mpr ⟨hmeeting, hexpired⟩))
  | summary => exact hsummary (hlisted (List.mem_filter.mpr ⟨hmeeting, hexpired⟩))

theorem mem_retainedRows_undisturbed (row : RetainedRow) :
    row ∈ (runCleanup layout state ttl guildId false
        (.undisturbed planNow now)).db.retainedRows ↔
      row ∈ state.db.retainedRows ∧ state.db.rowExpired ttl guildId now row = false := by
  have hprunes := prunes_databaseCleanup state.db ttl guildId false
    (applyRetentionFilesystemCleanup layout (collectRetentionCleanupPlan state.db ttl guildId
      { now := planNow }) (fun _ => {}) state.storage).1 { now := now }
  have hrows : (runCleanup layout state ttl guildId false
      (.undisturbed planNow now)).db.retainedRows = _ := hprunes.rows
  rw [hrows, cleanupTakes_of_answered, List.mem_filter, Bool.not_eq_true']

/-- Every expired meeting is marked. -/
theorem expiredRawWorkspaces_undisturbed :
    (runCleanup layout state ttl guildId false
      (.undisturbed planNow now)).db.expiredRawWorkspaces ttl guildId planNow = [] := by
  have hmarkings : (runCleanup layout state ttl guildId false
      (.undisturbed planNow now)).db.markings = _ :=
    markings_databaseCleanup state.db ttl guildId false
      (applyRetentionFilesystemCleanup layout (collectRetentionCleanupPlan state.db ttl guildId
        { now := planNow }) (fun _ => {}) state.storage).1 { now := now }
  rw [List.eq_nil_iff_forall_not_mem]
  intro meeting hmem
  obtain ⟨hmeeting, hexpired⟩ := List.mem_filter.mp hmem
  rw [Bool.and_eq_true] at hexpired
  obtain ⟨hexpired, hunmarked⟩ := hexpired
  obtain ⟨old, hold, hsettled, hmark⟩ := before_of_markings hmarkings hmeeting
  rw [← Option.not_isSome, hmark, Bool.not_or, Bool.and_eq_true] at hunmarked
  have holdExpired : RetentionDatabase.rawExpired ttl guildId planNow old = true := by
    have hsame : RetentionDatabase.rawExpired ttl guildId planNow old.settled =
        RetentionDatabase.rawExpired ttl guildId planNow meeting.settled := by rw [hsettled]
    exact hsame.trans hexpired
  have hlisted : old.ids ∈ (collectRetentionCleanupPlan state.db ttl guildId
      { now := planNow }).rawWorkspaces :=
    List.mem_map_of_mem (List.mem_filter.mpr ⟨hold, by
      rw [holdExpired, ← Option.not_isSome]
      exact hunmarked.1⟩)
  have hcleaned := (@cleaned_of_mem_workspaces layout _ old.ids hlisted state.storage).1
  have hguild : old.guildId = guildId := by
    simp only [RetentionDatabase.rawExpired, MeetingRow.retained, Bool.and_eq_true,
      decide_eq_true_eq] at holdExpired
    exact holdExpired.1.1
  have hmarked := hunmarked.2
  rw [Bool.not_eq_true'] at hmarked
  have hmarks : markedBy guildId false (cleanRawWorkspaces layout (fun _ => {})
      (collectRetentionCleanupPlan state.db ttl guildId { now := planNow }).rawWorkspaces
      state.storage).1 (fun _ => .answered) old.settled = true := by
    simp only [markedBy, Bool.and_eq_true, List.any_eq_true, decide_eq_true_eq]
    exact ⟨⟨⟨old.id, hcleaned, rfl, rfl⟩, hguild⟩, rfl⟩
  exact absurd (hmarks.symm.trans hmarked) (by decide)

end

/-- In every state that a run reaches, a cleanup in which nothing fails removes all
that has expired: the files of every kind, the rows, and no others, and no workspace is
left that a later cleanup would have to look at for its raw audio. -/
theorem undisturbed_cleanup_complete (layout : RetentionLayout) {start : RetentionState}
    (hstart : start.MarksSound layout) (events : List RetentionEvent) (guildId : String)
    (policy : RetentionPolicy) (planNow now : ℤ) :
    let state := Machine.run (RetentionState.step layout) start events
    let after := state.step layout (.periodic guildId policy (.undisturbed planNow now))
    (∀ meeting ∈ state.db.meetings.rows, ∀ kind,
      expiredKind state.db (state.db.ttl policy) guildId planNow meeting kind = true →
        layout.Clear meeting.ids kind after.storage) ∧
      (∀ row, row ∈ after.db.retainedRows ↔ row ∈ state.db.retainedRows ∧
        state.db.rowExpired (state.db.ttl policy) guildId now row = false) ∧
      after.db.expiredRawWorkspaces (state.db.ttl policy) guildId planNow = [] := by
  intro state after
  have hsound : state.MarksSound layout := marks_stay_sound layout hstart events
  refine ⟨fun meeting hmeeting kind hexpired => ?_, ?_, ?_⟩
  · exact clear_undisturbed layout state (state.db.ttl policy) guildId planNow now hsound hmeeting
      hexpired
  · exact mem_retainedRows_undisturbed layout state (state.db.ttl policy) guildId planNow now
  · exact expiredRawWorkspaces_undisturbed layout state (state.db.ttl policy) guildId planNow now

theorem aged_cleanup_complete :
    let state := Machine.run (RetentionState.step dataRetention) agedState
      ((failingCleanups {}).take 2)
    let after := state.step dataRetention
      (.periodic "g" {} (.undisturbed (30 * dayMs) (31 * dayMs)))
    (∀ meeting ∈ state.db.meetings.rows, ∀ kind,
      expiredKind state.db (state.db.ttl {}) "g" (30 * dayMs) meeting kind = true →
        dataRetention.Clear meeting.ids kind after.storage) ∧
      (∀ row, row ∈ after.db.retainedRows ↔ row ∈ state.db.retainedRows ∧
        state.db.rowExpired (state.db.ttl {}) "g" (31 * dayMs) row = false) ∧
      after.db.expiredRawWorkspaces (state.db.ttl {}) "g" (30 * dayMs) = [] :=
  undisturbed_cleanup_complete dataRetention agedState_marksSound ((failingCleanups {}).take 2) "g" {}
    (30 * dayMs) (31 * dayMs)

end DiscordTranscript.Application
