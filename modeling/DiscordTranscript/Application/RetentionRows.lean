import DiscordTranscript.Foundation.Shrinking
import DiscordTranscript.Application.RetentionSafety
import DiscordTranscript.Infrastructure.RetentionStatements

/-! # Retention takes no row too early

A cleanup takes what the statements that take effect take, whichever those are, and
every row that it takes had expired when it began.
-/

namespace DiscordTranscript.Application

open Infrastructure RetentionDatabase

/-! ## What a cleanup takes -/

/-- The rows that the statements which take effect take. -/
def cleanupTakes (db : RetentionDatabase) (ttl : RetentionTtl) (guildId : String)
    (replies : StatementReplies) : RetainedRow → Bool :=
  let retained (meetingId : String) := db.ofMeeting meetingId (MeetingRow.retained guildId)
  let stopped (meetingId : String) :=
    db.ofMeeting meetingId (RetentionDatabase.rawExpired ttl guildId replies.now)
  RetainedRow.cases
    (fun row => replies.markTranscripts.committed &&
      (expired (ttl.transcript row.meetingId) replies.now (some row.createdAt) &&
        retained row.meetingId))
    (fun row => replies.summaries.committed &&
      (expired (ttl.summary row.meetingId) replies.now (some row.createdAt) &&
        retained row.meetingId))
    fun row =>
      replies.expiredArtifacts.committed &&
        (row.expiresAt.any (· ≤ replies.now) && retained row.meetingId) ||
      replies.rawArtifacts.committed &&
        (rawAudioKinds.contains row.kind && stopped row.meetingId) ||
      replies.transcriptArtifacts.committed && (transcriptKinds.contains row.kind &&
        expired (ttl.transcript row.meetingId) replies.now (some row.createdAt) &&
        retained row.meetingId) ||
      replies.debugArtifacts.committed &&
        (debugKinds.contains row.kind && stopped row.meetingId) ||
      replies.summaryArtifacts.committed && (summaryKinds.contains row.kind &&
        expired (ttl.summary row.meetingId) replies.now (some row.createdAt) &&
        retained row.meetingId)

theorem prunes_databaseCleanup (db : RetentionDatabase) (ttl : RetentionTtl) (guildId : String)
    (onlyFinished : Bool) (cleaned : List String) (replies : StatementReplies) :
    Prunes (cleanupTakes db ttl guildId replies) db
      (applyRetentionDatabaseCleanup db ttl guildId onlyFinished cleaned replies) := by
  have hmarks := prunes_marks guildId replies.now onlyFinished cleaned replies.markRaw db
  have htranscripts := hmarks.next (pruning_markTranscriptsDeleted ttl guildId replies.now)
    replies.markTranscripts
  have hexpired := htranscripts.next (pruning_deleteExpiredArtifacts guildId replies.now)
    replies.expiredArtifacts
  have hraw := hexpired.next (pruning_deleteArtifactsOfStopped ttl guildId replies.now rawAudioKinds)
    replies.rawArtifacts
  have haged := hraw.next
    (pruning_deleteAgedArtifacts guildId replies.now transcriptKinds ttl.transcript)
    replies.transcriptArtifacts
  have hdebug := haged.next
    (pruning_deleteArtifactsOfStopped ttl guildId replies.now debugKinds) replies.debugArtifacts
  have hsummaries := hdebug.next (pruning_deleteSummaries ttl guildId replies.now) replies.summaries
  have hall := hsummaries.next
    (pruning_deleteAgedArtifacts guildId replies.now summaryKinds ttl.summary)
    replies.summaryArtifacts
  refine ⟨hall.meetings, hall.rows.trans ?_⟩
  apply congrArg (db.retainedRows.filter ·)
  funext row
  cases row <;> simp [RetainedRow.cases, cleanupTakes]

/-- Every row that a cleanup takes has expired. -/
theorem rowExpired_of_cleanupTakes {db : RetentionDatabase} {ttl : RetentionTtl} {guildId : String}
    {replies : StatementReplies} {row : RetainedRow}
    (htakes : cleanupTakes db ttl guildId replies row = true) :
    db.rowExpired ttl guildId replies.now row = true := by
  cases row with
  | transcript row => exact (Bool.and_eq_true _ _ ▸ htakes).2
  | summary row => exact (Bool.and_eq_true _ _ ▸ htakes).2
  | artifact row =>
      simp only [cleanupTakes, RetainedRow.cases, Bool.or_eq_true, Bool.and_eq_true] at htakes
      simp only [rowExpired, RetainedRow.cases, artifactExpired, Bool.or_eq_true, Bool.and_eq_true,
        List.contains_append]
      rcases htakes with (((⟨-, hown⟩ | ⟨-, hraw, hstopped⟩) | ⟨-, htranscript⟩) |
        ⟨-, hdebug, hstopped⟩) | ⟨-, hsummary⟩
      · exact .inl (.inl (.inl hown))
      · exact .inl (.inl (.inr ⟨.inl hraw, hstopped⟩))
      · exact .inl (.inr htranscript)
      · exact .inl (.inl (.inr ⟨.inr hdebug, hstopped⟩))
      · exact .inr hsummary

/-- When every statement is answered, it takes all that have expired. -/
theorem cleanupTakes_of_answered (db : RetentionDatabase) (ttl : RetentionTtl) (guildId : String)
    (now : ℤ) : cleanupTakes db ttl guildId { now := now } = db.rowExpired ttl guildId now := by
  funext row
  rw [Bool.eq_iff_iff]
  refine ⟨rowExpired_of_cleanupTakes, fun hexpired => ?_⟩
  cases row with
  | transcript row => exact hexpired
  | summary row => exact hexpired
  | artifact row =>
      simp only [rowExpired, RetainedRow.cases, artifactExpired, Bool.or_eq_true,
        Bool.and_eq_true, List.contains_append] at hexpired
      simp only [cleanupTakes, RetainedRow.cases, Reply.committed, Bool.or_eq_true,
        Bool.and_eq_true, true_and]
      rcases hexpired with ((hown | ⟨hraw | hdebug, hstopped⟩) | htranscript) | hsummary
      · exact .inl (.inl (.inl (.inl hown)))
      · exact .inl (.inl (.inl (.inr ⟨hraw, hstopped⟩)))
      · exact .inl (.inr ⟨hdebug, hstopped⟩)
      · exact .inl (.inl (.inr htranscript))
      · exact .inr hsummary

end DiscordTranscript.Application
