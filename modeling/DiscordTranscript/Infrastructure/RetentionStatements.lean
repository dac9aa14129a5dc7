import DiscordTranscript.Infrastructure.RetentionTables

/-! # What the statements of retention take

Every statement is one filter on the rows that are left: it takes some of them, by
what no statement changes, and leaves the meetings as they were but for a title, a
mark or a time. So a series of statements takes what each would have taken at first.
-/

namespace DiscordTranscript.Infrastructure

open Domain

/-! ## Rows that are left -/

inductive RetainedRow where
  | transcript (row : StoredTranscript)
  | summary (row : StoredSummary)
  | artifact (row : StoredArtifact)
  deriving DecidableEq

namespace RetainedRow

/-- A condition for each of the tables. -/
def cases (transcript : StoredTranscript → Bool) (summary : StoredSummary → Bool)
    (artifact : StoredArtifact → Bool) : RetainedRow → Bool
  | .transcript row => transcript row
  | .summary row => summary row
  | .artifact row => artifact row

end RetainedRow

/-- What of a meeting no cleanup changes. -/
def MeetingRow.settled (meeting : MeetingRow) : MeetingRow :=
  { meeting with
    title := none
    retentionRawCleanedAt := none
    updatedAt := 0 }

namespace RetentionDatabase

section

variable (db : RetentionDatabase)

/-- The transcripts that are not marked, the summaries and the artifacts. -/
def retainedRows : List RetainedRow :=
  (db.transcripts.rows.filter (!·.isDeleted)).map .transcript ++
    (db.summaries.rows.map .summary ++ db.artifacts.rows.map .artifact)

def settledMeetings : List MeetingRow := db.meetings.rows.map MeetingRow.settled

/-- Artifacts that no policy has to do with are kept until they expire by themselves. -/
def artifactExpired (ttl : RetentionTtl) (guildId : String) (now : ℤ) (row : StoredArtifact) :
    Bool :=
  row.expiresAt.any (· ≤ now) && db.ofMeeting row.meetingId (MeetingRow.retained guildId) ||
    (rawAudioKinds ++ debugKinds).contains row.kind &&
      db.ofMeeting row.meetingId (rawExpired ttl guildId now) ||
    transcriptKinds.contains row.kind &&
      expired (ttl.transcript row.meetingId) now (some row.createdAt) &&
      db.ofMeeting row.meetingId (MeetingRow.retained guildId) ||
    summaryKinds.contains row.kind &&
      expired (ttl.summary row.meetingId) now (some row.createdAt) &&
      db.ofMeeting row.meetingId (MeetingRow.retained guildId)

/-- The rows that have expired. -/
def rowExpired (ttl : RetentionTtl) (guildId : String) (now : ℤ) : RetainedRow → Bool :=
  RetainedRow.cases
    (fun row => expired (ttl.transcript row.meetingId) now (some row.createdAt) &&
      db.ofMeeting row.meetingId (MeetingRow.retained guildId))
    (fun row => expired (ttl.summary row.meetingId) now (some row.createdAt) &&
      db.ofMeeting row.meetingId (MeetingRow.retained guildId))
    (db.artifactExpired ttl guildId now)

theorem ofMeeting_congr {db other : RetentionDatabase} {selected : MeetingRow → Bool}
    (hselected : ∀ meeting, selected (MeetingRow.settled meeting) = selected meeting)
    (hsame : db.settledMeetings = other.settledMeetings) (meetingId : String) :
    db.ofMeeting meetingId selected = other.ofMeeting meetingId selected := by
  have hsettled (db : RetentionDatabase) : db.ofMeeting meetingId selected =
      db.settledMeetings.any fun meeting => meeting.id = meetingId && selected meeting := by
    rw [settledMeetings, List.any_map]
    apply congrArg (db.meetings.rows.any ·)
    funext meeting
    simp only [Function.comp_apply, hselected]
    rfl
  rw [hsettled, hsettled, hsame]

end

/-! ## Statements -/

/-- The rows that are taken, and nothing else but a title, a mark or a time. -/
structure Prunes (takes : RetainedRow → Bool) (before after : RetentionDatabase) : Prop where
  meetings : after.settledMeetings = before.settledMeetings
  rows : after.retainedRows = before.retainedRows.filter (!takes ·)

/-- A statement that takes rows by what no cleanup changes. -/
structure Pruning (takes : RetentionDatabase → RetainedRow → Bool)
    (statement : RetentionDatabase → RetentionDatabase) : Prop where
  prunes : ∀ db, Prunes (takes db) db (statement db)
  congr : ∀ db other, settledMeetings db = settledMeetings other → takes db = takes other

theorem Prunes.none (db : RetentionDatabase) : Prunes (fun _ => false) db db :=
  ⟨rfl, by simp⟩

/-- The next statement takes what it would have taken at first, if it takes effect. -/
theorem Prunes.next {taken : RetainedRow → Bool} {takes : RetentionDatabase → RetainedRow → Bool}
    {statement : RetentionDatabase → RetentionDatabase} {start db : RetentionDatabase}
    (hprunes : Prunes taken start db) (hpruning : Pruning takes statement) (reply : Reply) :
    Prunes (fun row => taken row || reply.committed && takes start row) start
      (db.run reply statement) := by
  rw [RetentionDatabase.run, Reply.execute_state]
  cases hreply : reply.committed with
  | false => simpa [hreply] using hprunes
  | true =>
      have hstatement := hpruning.prunes db
      rw [hpruning.congr db start hprunes.meetings] at hstatement
      refine ⟨hstatement.meetings.trans hprunes.meetings, ?_⟩
      simp only [hstatement.rows, hprunes.rows, List.filter_filter, if_true, Bool.true_and,
        Bool.not_or, Bool.and_comm]

theorem retainedRows_filter (before after : RetentionDatabase)
    {transcript : StoredTranscript → Bool} {summary : StoredSummary → Bool}
    {artifact : StoredArtifact → Bool}
    (htranscripts : after.transcripts.rows.filter (!·.isDeleted) =
      (before.transcripts.rows.filter (!·.isDeleted)).filter (!transcript ·))
    (hsummaries : after.summaries.rows = before.summaries.rows.filter (!summary ·))
    (hartifacts : after.artifacts.rows = before.artifacts.rows.filter (!artifact ·)) :
    after.retainedRows =
      before.retainedRows.filter (!RetainedRow.cases transcript summary artifact ·) := by
  unfold retainedRows
  rw [htranscripts, hsummaries, hartifacts, List.filter_append, List.filter_append, List.filter_map,
    List.filter_map, List.filter_map]
  rfl

theorem filter_none {α : Type} (items : List α) :
    items = items.filter fun item => !(fun _ => false : α → Bool) item := by
  simp

/-- Deleting artifacts. -/
theorem prunes_artifacts (db : RetentionDatabase) (selected : StoredArtifact → Bool) :
    Prunes (RetainedRow.cases (fun _ => false) (fun _ => false) selected) db
      { db with artifacts := db.artifacts.delete selected } :=
  ⟨rfl, retainedRows_filter db _ (filter_none _) (filter_none _) rfl⟩

/-- Marking transcripts. -/
theorem prunes_transcripts (db : RetentionDatabase) (selected : StoredTranscript → Bool)
    (hkey : ∀ row : StoredTranscript,
      ({ row with isDeleted := true } : StoredTranscript).id = row.id) (condition : StoredTranscript → Bool)
    (hcondition : ∀ row, row.isDeleted = false → condition row = selected row) :
    Prunes (RetainedRow.cases selected (fun _ => false) fun _ => false) db
      { db with
        transcripts := db.transcripts.update condition
          (fun row => { row with isDeleted := true }) hkey } := by
  refine ⟨rfl, retainedRows_filter db _ ?_ (filter_none _) (filter_none _)⟩
  rw [Table.rows_update, List.filter_map, List.filter_filter]
  have hkeep : ∀ row : StoredTranscript,
      (!(Table.changed condition (fun row => { row with isDeleted := true }) row).isDeleted) =
        (!selected row && !row.isDeleted) := by
    intro row
    unfold Table.changed
    cases hdeleted : row.isDeleted with
    | true => split <;> simp [hdeleted]
    | false =>
        rw [hcondition row hdeleted]
        cases hselected : selected row <;> simp [hdeleted]
  rw [show ((fun row : StoredTranscript => !row.isDeleted) ∘
      Table.changed condition fun row => { row with isDeleted := true }) = _ from funext hkeep]
  refine (List.map_congr_left fun row hrow => ?_).trans (List.map_id _)
  obtain ⟨-, hrow⟩ := List.mem_filter.mp hrow
  rw [Bool.and_eq_true, Bool.not_eq_true', Bool.not_eq_true'] at hrow
  simp [Table.changed, hcondition row hrow.2, hrow.1]

theorem settledMeetings_update (db : RetentionDatabase) (selected : MeetingRow → Bool)
    (change : MeetingRow → MeetingRow) (hkey : ∀ row, (change row).id = row.id)
    (hchange : ∀ row, (change row).settled = row.settled) :
    (db.meetings.update selected change hkey).rows.map MeetingRow.settled = db.settledMeetings := by
  rw [Table.rows_update, List.map_map]
  apply List.map_congr_left
  intro meeting _
  simp only [Function.comp_apply, Table.changed]
  split
  · exact hchange meeting
  · rfl

section

variable (ttl : RetentionTtl) (guildId : String) (now : ℤ)

theorem pruning_markRawWorkspaceCleaned (onlyFinished : Bool) (meetingId : String) :
    Pruning (fun _ _ => false)
      fun db => db.markRawWorkspaceCleaned guildId now onlyFinished meetingId := by
  constructor
  · intro db
    exact ⟨settledMeetings_update db _ (setRawCleaned now) (fun _ => rfl) fun _ => rfl,
      (Prunes.none db).rows⟩
  · exact fun _ _ _ => rfl

/-- What a meeting is asked for does not change. -/
theorem ofRetained_congr {db other : RetentionDatabase}
    (hsame : db.settledMeetings = other.settledMeetings) (meetingId : String) :
    db.ofMeeting meetingId (MeetingRow.retained guildId) =
      other.ofMeeting meetingId (MeetingRow.retained guildId) :=
  ofMeeting_congr (fun _ => rfl) hsame meetingId

theorem pruning_markTranscriptsDeleted :
    Pruning (fun db => RetainedRow.cases
        (fun row => expired (ttl.transcript row.meetingId) now (some row.createdAt) &&
          db.ofMeeting row.meetingId (MeetingRow.retained guildId))
        (fun _ => false) fun _ => false)
      fun db => db.markTranscriptsDeleted ttl guildId now := by
  constructor
  · intro db
    apply prunes_transcripts
    intro row hrow
    simp [hrow]
  · intro db other hsame
    simp only [ofRetained_congr guildId hsame]

theorem pruning_deleteExpiredArtifacts :
    Pruning (fun db => RetainedRow.cases (fun _ => false) (fun _ => false)
        fun row => row.expiresAt.any (· ≤ now) &&
          db.ofMeeting row.meetingId (MeetingRow.retained guildId))
      fun db => db.deleteExpiredArtifacts guildId now := by
  constructor
  · exact fun db => prunes_artifacts db _
  · intro db other hsame
    simp only [ofRetained_congr guildId hsame]

theorem pruning_deleteArtifactsOfStopped (kinds : List String) :
    Pruning (fun db => RetainedRow.cases (fun _ => false) (fun _ => false)
        fun row => kinds.contains row.kind &&
          db.ofMeeting row.meetingId (rawExpired ttl guildId now))
      fun db => db.deleteArtifactsOfStopped ttl guildId now kinds := by
  constructor
  · exact fun db => prunes_artifacts db _
  · intro db other hsame
    have hexpired (meetingId : String) : db.ofMeeting meetingId (rawExpired ttl guildId now) =
        other.ofMeeting meetingId (rawExpired ttl guildId now) :=
      ofMeeting_congr (fun _ => rfl) hsame meetingId
    simp only [hexpired]

theorem pruning_deleteAgedArtifacts (kinds : List String) (days : String → Option ℤ) :
    Pruning (fun db => RetainedRow.cases (fun _ => false) (fun _ => false)
        fun row => kinds.contains row.kind &&
          expired (days row.meetingId) now (some row.createdAt) &&
          db.ofMeeting row.meetingId (MeetingRow.retained guildId))
      fun db => db.deleteAgedArtifacts guildId now kinds days := by
  constructor
  · exact fun db => prunes_artifacts db _
  · intro db other hsame
    simp only [ofRetained_congr guildId hsame]

/-- A title that is to be cleared does not keep a summary back. -/
theorem pruning_deleteSummaries :
    Pruning (fun db => RetainedRow.cases (fun _ => false)
        (fun row => expired (ttl.summary row.meetingId) now (some row.createdAt) &&
          db.ofMeeting row.meetingId (MeetingRow.retained guildId)) fun _ => false)
      fun db => db.deleteSummaries ttl guildId now := by
  constructor
  · intro db
    refine ⟨settledMeetings_update db _ (clearTitle now) (fun _ => rfl) fun _ => rfl, ?_⟩
    apply retainedRows_filter db (db.deleteSummaries ttl guildId now) (filter_none _) ?_
      (filter_none db.artifacts.rows)
    have hcleared : (fun meeting : MeetingRow => meeting.retained guildId &&
        (!db.summaryExpired ttl guildId now meeting ||
          (meeting.title.isSome && meeting.guildId = guildId &&
            db.summaryExpired ttl guildId now meeting) || meeting.title.isNone)) =
        MeetingRow.retained guildId := by
      funext meeting
      by_cases hguild : meeting.guildId = guildId
      · cases meeting.title <;> cases db.summaryExpired ttl guildId now meeting <;> simp [hguild]
      · simp [MeetingRow.retained, hguild]
    unfold deleteSummaries Table.delete
    simp only [hcleared]
  · intro db other hsame
    simp only [ofRetained_congr guildId hsame]

/-- Marking meetings takes no row. -/
theorem prunes_marks (onlyFinished : Bool) (cleaned : List String) (replies : String → Reply)
    (db : RetentionDatabase) :
    Prunes (fun _ => false) db (cleaned.foldl (fun db meetingId => db.run (replies meetingId)
      fun db => db.markRawWorkspaceCleaned guildId now onlyFinished meetingId) db) := by
  have hmarks : ∀ (start db : RetentionDatabase), Prunes (fun _ => false) start db →
      Prunes (fun _ => false) start (cleaned.foldl (fun db meetingId => db.run (replies meetingId)
        fun db => db.markRawWorkspaceCleaned guildId now onlyFinished meetingId) db) := by
    induction cleaned with
    | nil => exact fun start db hprunes => hprunes
    | cons meetingId rest ih =>
        intro start db hprunes
        apply ih
        simpa using hprunes.next
          (pruning_markRawWorkspaceCleaned guildId now onlyFinished meetingId) (replies meetingId)
  exact hmarks db db (Prunes.none db)

end

/-! ## Marks -/

/-- A meeting, and whether its raw audio is marked as cleaned. -/
def marking (meeting : MeetingRow) : MeetingRow × Bool :=
  (meeting.settled, meeting.retentionRawCleanedAt.isSome)

def markings (db : RetentionDatabase) : List (MeetingRow × Bool) :=
  db.meetings.rows.map marking

/-- The marks of those meetings are set. -/
def withMarks (marks : MeetingRow → Bool) (marked : MeetingRow × Bool) : MeetingRow × Bool :=
  (marked.1, marked.2 || marks marked.1)

/-- Which meetings a list of ids marks. -/
def markedBy (guildId : String) (onlyFinished : Bool) (cleaned : List String)
    (replies : String → Reply) (meeting : MeetingRow) : Bool :=
  cleaned.any (fun meetingId => (replies meetingId).committed && meeting.id = meetingId) &&
    meeting.guildId = guildId && (!onlyFinished || meeting.finished)

theorem markings_update {db : RetentionDatabase} {selected : MeetingRow → Bool}
    {change : MeetingRow → MeetingRow} (hkey : ∀ row, (change row).id = row.id)
    (hchange : ∀ row, marking (change row) = marking row) :
    (db.meetings.update selected change hkey).rows.map marking = db.markings := by
  rw [Table.rows_update, List.map_map]
  apply List.map_congr_left
  intro meeting _
  simp only [Function.comp_apply, Table.changed]
  split
  · exact hchange meeting
  · rfl

theorem markings_run {db : RetentionDatabase} (reply : Reply)
    {statement : RetentionDatabase → RetentionDatabase}
    (hsame : (statement db).markings = db.markings) :
    (db.run reply statement).markings = db.markings := by
  rw [RetentionDatabase.run, Reply.execute_state]
  split
  · exact hsame
  · rfl

section

variable (guildId : String) (now : ℤ) (onlyFinished : Bool)

theorem markings_markRaw (db : RetentionDatabase) (meetingId : String) :
    (db.markRawWorkspaceCleaned guildId now onlyFinished meetingId).markings =
      db.markings.map (withMarks fun meeting => meeting.id = meetingId &&
        meeting.guildId = guildId && (!onlyFinished || meeting.finished)) := by
  have hrows : (db.markRawWorkspaceCleaned guildId now onlyFinished meetingId).meetings.rows =
      db.meetings.rows.map (Table.changed (fun meeting => meeting.id = meetingId &&
        meeting.guildId = guildId && (!onlyFinished || meeting.finished) &&
        meeting.retentionRawCleanedAt.isNone) (setRawCleaned now)) := rfl
  unfold markings
  rw [hrows, List.map_map, List.map_map]
  apply List.map_congr_left
  intro meeting _
  have hid : meeting.settled.id = meeting.id := rfl
  have hguild : meeting.settled.guildId = meeting.guildId := rfl
  have hfinished : meeting.settled.finished = meeting.finished := rfl
  simp only [Function.comp_apply, Table.changed, marking, withMarks, hid, hguild, hfinished]
  split
  next hselected =>
    rw [Bool.and_eq_true] at hselected
    rw [hselected.1, Bool.or_true]
    rfl
  next hselected =>
    rw [← Option.not_isSome] at hselected
    cases hmark : meeting.retentionRawCleanedAt.isSome with
    | true => rfl
    | false =>
        rw [hmark, Bool.not_false, Bool.and_true, Bool.not_eq_true] at hselected
        rw [hselected]
        rfl

/-- Marking one meeting after the other. -/
theorem markings_marks (cleaned : List String) (replies : String → Reply)
    (db : RetentionDatabase) :
    (cleaned.foldl (fun db meetingId => db.run (replies meetingId)
      fun db => db.markRawWorkspaceCleaned guildId now onlyFinished meetingId) db).markings =
        db.markings.map (withMarks (markedBy guildId onlyFinished cleaned replies)) := by
  induction cleaned generalizing db with
  | nil =>
      refine ((List.map_congr_left fun marked _ => ?_).trans (List.map_id _)).symm
      simp [withMarks, markedBy]
  | cons meetingId rest ih =>
      rw [List.foldl_cons, ih, RetentionDatabase.run, Reply.execute_state]
      have hmarked (marked : MeetingRow × Bool) : withMarks
          (markedBy guildId onlyFinished (meetingId :: rest) replies) marked =
          withMarks (markedBy guildId onlyFinished rest replies) (withMarks (fun meeting =>
            (replies meetingId).committed && (meeting.id = meetingId &&
              meeting.guildId = guildId && (!onlyFinished || meeting.finished))) marked) := by
        simp only [withMarks, markedBy, List.any_cons, Prod.mk.injEq, true_and]
        grind
      cases hreply : (replies meetingId).committed with
      | false =>
          rw [if_neg (by decide)]
          apply List.map_congr_left
          intro marked _
          rw [hmarked, hreply]
          simp [withMarks]
      | true =>
          rw [if_pos rfl, markings_markRaw, List.map_map]
          apply List.map_congr_left
          intro marked _
          rw [hmarked, hreply]
          simp [withMarks]

theorem markings_deleteSummaries (ttl : RetentionTtl) (db : RetentionDatabase) :
    (db.deleteSummaries ttl guildId now).markings = db.markings :=
  @markings_update db _ (clearTitle now) (fun _ => rfl) fun _ => rfl

theorem markings_deleteMeetingSummaries (meetingId : String) (db : RetentionDatabase) :
    (db.deleteMeetingSummaries guildId now meetingId).markings = db.markings :=
  @markings_update db _ (clearTitle now) (fun _ => rfl) fun _ => rfl

end

end RetentionDatabase

end DiscordTranscript.Infrastructure
