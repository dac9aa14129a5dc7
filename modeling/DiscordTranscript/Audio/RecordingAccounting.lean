import Mathlib.Data.List.Perm.Basic
import DiscordTranscript.Foundation.Runs
import DiscordTranscript.Audio.RecordingSession

/-! # Every prepared chunk is accounted for

A prepared chunk is at any time in one of four places: reported as persisted,
in the retry buffer, with the holder of a `prepare_*` result, or evicted. Each
operation moves chunks between these places. One relation, `Settles`, says what
an operation may do to the session's part of the books; the invariant of a
whole run follows from it.
-/

namespace DiscordTranscript.Audio

open MachineInt

/-- What stays the same about a chunk from its preparation on; only the user id
may still change, by `rekey_user`. -/
structure Ticket where
  serial : ℕ
  meetingId : String
  sequence : ℕ
  startMs : ℕ
  wav : WavChunk
  deriving DecidableEq

def PreparedChunk.ticket (chunk : PreparedChunk) : Ticket where
  serial := chunk.serial
  meetingId := chunk.meetingId
  sequence := chunk.sequence
  startMs := chunk.startMs
  wav := chunk.wav

/-- The prepared chunk that a persisted one completes. -/
def PersistedChunk.source (chunk : PersistedChunk) : PreparedChunk where
  meetingId := chunk.meetingId
  userId := chunk.userId
  sequence := chunk.sequence
  startMs := chunk.startMs
  wav := chunk.wav
  serial := chunk.serial

def sources (chunks : List PersistedChunk) : List PreparedChunk := chunks.map (·.source)

@[simp] theorem sources_nil : sources [] = [] := rfl

@[simp] theorem sources_append (left right : List PersistedChunk) :
    sources (left ++ right) = sources left ++ sources right := List.map_append

@[simp] theorem sources_complete_cons (chunk : PreparedChunk)
    (saved : Infrastructure.SavedChunk) (rest : List PersistedChunk) :
    sources (chunk.complete saved :: rest) = chunk :: sources rest := rfl

/-- The loss counters are the number and the total size of the evicted chunks,
capped where `usize` saturates. -/
def AudioLoss.Tallies (loss : AudioLoss) (evicted : List PreparedChunk) : Prop :=
  loss.droppedChunks = min evicted.length usizeMax ∧
    loss.droppedBytes = min (RecordingSession.pendingBytes evicted) usizeMax

/-- `dropped ++ kept` is in key order, `kept` fits into the limit, and dropping
fewer chunks would not have been enough. -/
structure ShortestPrefix (limit : ℕ) (dropped kept : List PreparedChunk) : Prop where
  sorted : (dropped ++ kept).Pairwise fun left right =>
    RecordingSession.pendingKey left ≤ RecordingSession.pendingKey right
  fits : RecordingSession.pendingBytes kept ≤ limit
  shortest : ∀ fewer < dropped.length,
    limit < RecordingSession.pendingBytes ((dropped ++ kept).drop fewer)

namespace RecordingSession

/-- The part of the books that one session keeps right by itself. -/
structure Balanced (session : RecordingSession) : Prop where
  numbered : session.ledger.prepared.map (·.serial) = List.range session.ledger.prepared.length
  tallied : session.audioLoss.Tallies session.ledger.evicted
  bounded : pendingBytes session.pendingFailedChunks ≤ session.maxPendingFailedChunkBytes

/-- An operation that takes chunks in, gives chunks out, prepares new ones and
evicts some: nothing is lost or doubled between these and the retry buffer. -/
structure Settles (before after : RecordingSession)
    (taken released prepared dropped : List PreparedChunk) : Prop where
  prepared_eq : after.ledger.prepared = before.ledger.prepared ++ prepared
  evicted_eq : after.ledger.evicted = before.ledger.evicted ++ dropped
  conserved : (released ++ after.pendingFailedChunks ++ dropped).Perm
    (taken ++ before.pendingFailedChunks ++ prepared)
  balanced : before.Balanced → after.Balanced
  shortest : dropped ≠ [] →
    ShortestPrefix after.maxPendingFailedChunkBytes dropped after.pendingFailedChunks

/-! ## Eviction -/

@[simp] theorem pendingBytes_append (left right : List PreparedChunk) :
    pendingBytes (left ++ right) = pendingBytes left + pendingBytes right := by
  simp [pendingBytes]

theorem sortPending_perm (chunks : List PreparedChunk) : (sortPending chunks).Perm chunks :=
  List.perm_insertionSort _ _

theorem sortPending_sorted (chunks : List PreparedChunk) :
    (sortPending chunks).Pairwise fun left right => pendingKey left ≤ pendingKey right :=
  List.pairwise_insertionSort_key pendingKey chunks

theorem evictLoop_eq (maxBytes : ℕ) (chunks : List PreparedChunk) (scan : EvictScan)
    (htotal : scan.totalBytes = pendingBytes chunks) :
    ∃ count ≤ chunks.length,
      evictLoop maxBytes chunks scan =
        { totalBytes := pendingBytes (chunks.drop count)
          dropCount := scan.dropCount + count
          dropBytes := scan.dropBytes + pendingBytes (chunks.take count) } ∧
      pendingBytes (chunks.drop count) ≤ maxBytes ∧
      ∀ fewer < count, maxBytes < pendingBytes (chunks.drop fewer) := by
  induction chunks generalizing scan with
  | nil =>
      refine ⟨0, le_rfl, ?_, by simp [pendingBytes], by simp⟩
      cases scan
      simp_all [evictLoop, pendingBytes]
  | cons chunk rest ih =>
      unfold evictLoop
      split
      next hfits =>
        refine ⟨0, by simp, ?_, by simpa [← htotal] using hfits, by simp⟩
        cases scan
        simp_all [pendingBytes]
      next hover =>
        have hrest : scan.totalBytes - chunk.sizeBytes = pendingBytes rest := by
          simp [htotal, pendingBytes]
        obtain ⟨count, hcount, hscan, hfits, hleast⟩ := ih
          { totalBytes := scan.totalBytes - chunk.sizeBytes
            dropBytes := scan.dropBytes + chunk.sizeBytes
            dropCount := scan.dropCount + 1 } hrest
        refine ⟨count + 1, by simpa using hcount, ?_, hfits, ?_⟩
        · rw [hscan]
          simp only [pendingBytes, List.take_succ_cons, List.map_cons, List.sum_cons,
            List.drop_succ_cons, EvictScan.mk.injEq, true_and]
          omega
        · intro fewer hfewer
          cases fewer with
          | zero => simpa [← htotal] using hover
          | succ smaller => exact hleast smaller (by omega)

/-- What `enforce_pending_failed_limit` does to a sorted buffer. -/
theorem enforcePendingFailedLimit_spec (session : RecordingSession)
    (hsorted : session.pendingFailedChunks.Pairwise fun left right =>
      pendingKey left ≤ pendingKey right) :
    ∃ dropped kept loss, session.pendingFailedChunks = dropped ++ kept ∧
      session.enforcePendingFailedLimit.2 = { session with
        pendingFailedChunks := kept
        audioLoss := loss
        ledger := { session.ledger with evicted := session.ledger.evicted ++ dropped } } ∧
      (session.audioLoss.Tallies session.ledger.evicted →
        loss.Tallies (session.ledger.evicted ++ dropped)) ∧
      ShortestPrefix session.maxPendingFailedChunkBytes dropped kept := by
  simp only [enforcePendingFailedLimit]
  split
  next hfits =>
    exact ⟨[], session.pendingFailedChunks, session.audioLoss, rfl, by simp, by simp,
      hsorted, hfits, by simp⟩
  next hover =>
    obtain ⟨count, hcount, hscan, hfits, hleast⟩ := evictLoop_eq
      session.maxPendingFailedChunkBytes session.pendingFailedChunks
      { totalBytes := pendingBytes session.pendingFailedChunks } rfl
    have hpos : count ≠ 0 := by
      rintro rfl
      exact hover hfits
    have hlength : (session.pendingFailedChunks.take count).length = count := by simp [hcount]
    rw [hscan]
    simp only [Nat.zero_add, gt_iff_lt, Nat.pos_of_ne_zero hpos, ↓reduceIte]
    refine ⟨session.pendingFailedChunks.take count, session.pendingFailedChunks.drop count, _,
      (List.take_append_drop _ _).symm, rfl, ?_, ?_⟩
    · -- Adding to a capped counter caps the sum.
      rintro ⟨hchunks, hbytes⟩
      constructor
      · simp only [AudioLoss.recordDrop, saturatingAdd, hchunks, List.length_append, hlength]
        omega
      · simp only [AudioLoss.recordDrop, saturatingAdd, hbytes, pendingBytes_append]
        omega
    · refine ⟨?_, hfits, ?_⟩
      · rwa [List.take_append_drop]
      · rw [hlength, List.take_append_drop]
        exact hleast

/-- The buffer is replaced, sorted and cut down to the limit. -/
theorem settles_refill (session : RecordingSession) (buffer : List PreparedChunk)
    (taken released : List PreparedChunk)
    (hbuffer : (released ++ buffer).Perm (taken ++ session.pendingFailedChunks)) :
    ∃ dropped, session.Settles
      ({ session with pendingFailedChunks := buffer }.sortPendingFailedChunks
        |>.enforcePendingFailedLimit.2) taken released [] dropped := by
  obtain ⟨dropped, kept, loss, hsplit, hafter, hloss, hshortest⟩ :=
    enforcePendingFailedLimit_spec
      { session with pendingFailedChunks := buffer }.sortPendingFailedChunks
      (sortPending_sorted buffer)
  refine ⟨dropped, ?_⟩
  rw [hafter]
  have hperm : (dropped ++ kept).Perm buffer := by
    rw [← hsplit]
    exact sortPending_perm buffer
  refine ⟨by simp [sortPendingFailedChunks], rfl, ?_, ?_, fun _ => hshortest⟩
  · refine List.perm_iff_count.mpr fun chunk => ?_
    have hleft := hperm.count_eq chunk
    have hright := hbuffer.count_eq chunk
    simp only [List.count_append, List.count_nil] at hleft hright ⊢
    omega
  · rintro ⟨hnumbered, htallied, -⟩
    exact ⟨hnumbered, hloss htallied, hshortest.fits⟩

/-! ## Preparation -/

theorem prepareChunks_ledger (session : RecordingSession) (chunks : List RecorderOutputChunk) :
    (session.prepareChunks chunks).2.ledger = { session.ledger with
      prepared := session.ledger.prepared ++ (session.prepareChunks chunks).1 } := by
  induction chunks generalizing session with
  | nil => simp [prepareChunks]
  | cons chunk rest ih =>
      simp only [prepareChunks, ih]
      simp [prepareChunk, reserveSequence]

/-- Preparation touches the counters and the ledger only. -/
theorem prepareChunks_eq (session : RecordingSession) (chunks : List RecorderOutputChunk) :
    (session.prepareChunks chunks).2 = { session with
      perUserSeq := (session.prepareChunks chunks).2.perUserSeq
      ledger := (session.prepareChunks chunks).2.ledger } := by
  induction chunks generalizing session with
  | nil => rfl
  | cons chunk rest ih =>
      simp only [prepareChunks]
      rw [ih]
      rfl

/-- The chunks depend neither on the recorder nor on the retry buffer. -/
theorem prepareChunks_fst (session : RecordingSession) (recorder : RecorderEngine)
    (pending : List PreparedChunk) (chunks : List RecorderOutputChunk) :
    ({ session with recorder := recorder, pendingFailedChunks := pending }.prepareChunks
      chunks).1 = (session.prepareChunks chunks).1 := by
  induction chunks generalizing session with
  | nil => rfl
  | cons chunk rest ih => exact congrArg (List.cons _) (ih (session.prepareChunk chunk).2)

theorem prepareChunks_numbered (session : RecordingSession) (chunks : List RecorderOutputChunk)
    (hnumbered : session.ledger.prepared.map (·.serial) =
      List.range session.ledger.prepared.length) :
    (session.prepareChunks chunks).2.ledger.prepared.map (·.serial) =
      List.range (session.prepareChunks chunks).2.ledger.prepared.length := by
  induction chunks generalizing session with
  | nil => exact hnumbered
  | cons chunk rest ih =>
      simp only [prepareChunks]
      apply ih
      simp [prepareChunk, reserveSequence, hnumbered, List.range_succ]

theorem prepareChunks_balanced {session : RecordingSession} (hbalanced : session.Balanced)
    (chunks : List RecorderOutputChunk) : (session.prepareChunks chunks).2.Balanced := by
  have hledger := prepareChunks_ledger session chunks
  refine ⟨prepareChunks_numbered session chunks hbalanced.numbered, ?_, ?_⟩
  · rw [hledger, prepareChunks_eq]
    exact hbalanced.tallied
  · rw [prepareChunks_eq]
    exact hbalanced.bounded

/-! ## Persistence -/

theorem persistLoop_perm (storage : ChunkStorage) (existingPendingCount index : ℕ)
    (chunks : List PreparedChunk) :
    (sources (persistLoop storage existingPendingCount index chunks).persisted ++
      (persistLoop storage existingPendingCount index chunks).failedChunks).Perm chunks := by
  induction chunks generalizing index with
  | nil => exact List.Perm.nil
  | cons chunk rest ih =>
      unfold persistLoop
      cases hsave : storage index chunk with
      | ok saved => exact (ih (index + 1)).cons _
      | error _ =>
          exact List.perm_middle.trans ((ih (index + 1)).cons _)

theorem settles_persistChunksWithPending (session : RecordingSession) (storage : ChunkStorage)
    (chunks : List PreparedChunk) (retry : Bool) :
    ∃ dropped, session.Settles (session.persistChunksWithPending storage chunks retry).2 chunks
      (sources (session.persistChunksWithPending storage chunks retry).1.persisted)
      [] dropped := by
  unfold persistChunksWithPending
  split
  next hnoop =>
    -- The early return of a tick without new chunks takes nothing in and gives nothing out.
    have hempty : chunks = [] := by
      cases chunks with
      | nil => rfl
      | cons _ _ => simp at hnoop
    subst hempty
    exact ⟨[], by simp, by simp, by simp, id, by simp⟩
  next =>
    apply settles_refill session
    exact (persistLoop_perm storage _ 0 _).trans List.perm_append_comm

/-- Preparing first, then an operation that takes the new chunks in. -/
theorem Settles.after_prepareChunks {session after : RecordingSession}
    {chunks : List RecorderOutputChunk} {released dropped : List PreparedChunk}
    (hsettles : (session.prepareChunks chunks).2.Settles after
      (session.prepareChunks chunks).1 released [] dropped) :
    session.Settles after [] released (session.prepareChunks chunks).1 dropped := by
  have hledger := prepareChunks_ledger session chunks
  have hpending : (session.prepareChunks chunks).2.pendingFailedChunks =
      session.pendingFailedChunks := by rw [prepareChunks_eq]
  obtain ⟨hprepared, hevicted, hconserved, hbalanced, hshortest⟩ := hsettles
  refine ⟨?_, ?_, ?_, fun hsession => hbalanced (prepareChunks_balanced hsession chunks),
    hshortest⟩
  · simpa [hledger] using hprepared
  · simpa [hledger] using hevicted
  · rw [hpending] at hconserved
    simp only [List.append_nil, List.nil_append] at hconserved ⊢
    exact hconserved.trans List.perm_append_comm

theorem settles_prepareWithPending (session : RecordingSession)
    (chunks : List RecorderOutputChunk) :
    session.Settles (session.prepareWithPending chunks).2 []
      (session.prepareWithPending chunks).1 (session.prepareChunks chunks).1 [] := by
  rw [← prepareChunks_fst session session.recorder []]
  set emptied := { session with pendingFailedChunks := [] } with hemptied
  have hledger := prepareChunks_ledger emptied chunks
  have hpending : (emptied.prepareChunks chunks).2.pendingFailedChunks = [] := by
    rw [prepareChunks_eq]
  refine ⟨?_, ?_, ?_, ?_, by simp⟩
  · exact congrArg Ledger.prepared hledger
  · simpa [prepareWithPending] using congrArg Ledger.evicted hledger
  · simp [prepareWithPending, ← hemptied, hpending]
  · intro hbalanced
    have hsub : emptied.Balanced :=
      ⟨hbalanced.numbered, hbalanced.tallied, by simp [hemptied, pendingBytes]⟩
    exact prepareChunks_balanced hsub chunks

theorem Settles.refl (session : RecordingSession) : session.Settles session [] [] [] [] :=
  ⟨by simp, by simp, by simp, id, by simp⟩

/-- A session that differs in its recorder and counters only has the same books. -/
theorem Settles.of_recorder {before after : RecordingSession}
    {taken released prepared dropped : List PreparedChunk} {recorder : RecorderEngine}
    (hsettles : Settles { before with recorder := recorder } after taken released prepared
      dropped) : before.Settles after taken released prepared dropped :=
  ⟨hsettles.prepared_eq, hsettles.evicted_eq, hsettles.conserved,
    fun hbefore => hsettles.balanced ⟨hbefore.numbered, hbefore.tallied, hbefore.bounded⟩,
    hsettles.shortest⟩

theorem rekeyPending_ticket (oldId newId : String) (chunk : PreparedChunk) :
    (rekeyPending oldId newId chunk).ticket = chunk.ticket := by
  unfold rekeyPending
  split <;> rfl

theorem rekeyPending_sizeBytes (oldId newId : String) (chunk : PreparedChunk) :
    (rekeyPending oldId newId chunk).sizeBytes = chunk.sizeBytes := by
  unfold rekeyPending
  split <;> rfl

theorem rekeyUser_balanced {session : RecordingSession} (hbalanced : session.Balanced)
    (oldId newId : String) : (session.rekeyUser oldId newId).2.Balanced := by
  refine ⟨hbalanced.numbered, hbalanced.tallied, ?_⟩
  have hbytes : pendingBytes (session.pendingFailedChunks.map (rekeyPending oldId newId)) =
      pendingBytes session.pendingFailedChunks := by
    simp [pendingBytes, Function.comp_def, rekeyPending_sizeBytes]
  simpa [rekeyUser, hbytes] using hbalanced.bounded

end RecordingSession

/-! ## Runs -/

namespace RecordingRun

open RecordingSession

/-- The chunks that are not evicted: saved, waiting for a retry, or handed out. -/
def live (run : RecordingRun) : List PreparedChunk :=
  sources run.persisted ++ run.session.pendingFailedChunks ++ run.handedOut

/-- Every prepared chunk is in exactly one of the four places, and the session's
own books are balanced. -/
structure Accounted (run : RecordingRun) : Prop where
  exactlyOnce : ((run.live ++ run.session.ledger.evicted).map PreparedChunk.ticket).Perm
    (run.session.ledger.prepared.map PreparedChunk.ticket)
  balanced : run.session.Balanced

/-- The chunks that a call evicts are the shortest prefix, in key order, whose
removal brings the retry buffer under the limit. -/
def EvictsShortestPrefix (run : RecordingRun) (call : RecordingCall) : Prop :=
  ∃ dropped, (run.step call).session.ledger.evicted = run.session.ledger.evicted ++ dropped ∧
    (dropped ≠ [] → ShortestPrefix (run.step call).session.maxPendingFailedChunkBytes dropped
      (run.step call).session.pendingFailedChunks)

/-- The chunks that the session prepares in a call. -/
def newlyPrepared (run : RecordingRun) : RecordingCall → List PreparedChunk
  | .flushDue _ now order | .prepareDue now order =>
      (run.session.prepareChunks (run.session.recorder.flushDue now order).1).1
  | .flushAll _ order | .prepareAll order =>
      (run.session.prepareChunks (run.session.recorder.flushAll order).1).1
  | _ => []

/-- What one call does to all four places, except for renaming. -/
def Transfer (before after : RecordingRun) (prepared : List PreparedChunk) : Prop :=
  ∃ taken released dropped,
    before.session.Settles after.session taken released prepared dropped ∧
    (sources after.persisted ++ after.handedOut ++ taken).Perm
      (sources before.persisted ++ before.handedOut ++ released)

theorem transfer_flushed {run : RecordingRun} {result : FlushResult × RecordingSession}
    {prepared : List PreparedChunk}
    (hsettles : ∃ dropped, run.session.Settles result.2 [] (sources result.1.persisted)
      prepared dropped) : Transfer run (run.flushed result) prepared := by
  obtain ⟨dropped, hsettles⟩ := hsettles
  refine ⟨_, _, dropped, hsettles, List.perm_iff_count.mpr fun chunk => ?_⟩
  simp only [flushed, sources_append, List.count_append, List.count_nil]
  omega

theorem transfer_prepared {run : RecordingRun} {result : List PreparedChunk × RecordingSession}
    {prepared : List PreparedChunk}
    (hsettles : run.session.Settles result.2 [] result.1 prepared []) :
    Transfer run (run.prepared result) prepared :=
  ⟨_, _, [], hsettles, by simp [RecordingRun.prepared]⟩

theorem transfer_of_session {run : RecordingRun} {session : RecordingSession}
    {prepared dropped : List PreparedChunk}
    (hsettles : run.session.Settles session [] [] prepared dropped) :
    Transfer run { run with session := session } prepared :=
  ⟨_, _, _, hsettles, by simp⟩

theorem cons_eraseIdx_perm {chunks : List PreparedChunk} {index : ℕ} {chunk : PreparedChunk}
    (hchunk : chunks[index]? = some chunk) : (chunk :: chunks.eraseIdx index).Perm chunks := by
  obtain ⟨hlt, rfl⟩ := List.getElem?_eq_some_iff.mp hchunk
  exact List.getElem_cons_eraseIdx_perm hlt

theorem transfer_writerSaved (run : RecordingRun) (index : ℕ)
    (saved : Infrastructure.SavedChunk) :
    Transfer run (run.step (.writerSaved index saved)) [] := by
  simp only [step]
  split
  next => exact transfer_of_session (Settles.refl _)
  next chunk hchunk =>
    refine ⟨_, _, _, Settles.refl _, List.perm_iff_count.mpr fun other => ?_⟩
    have hcount := (cons_eraseIdx_perm hchunk).count_eq other
    simp only [sources_append, sources_complete_cons, sources_nil, List.count_append,
      List.count_cons, List.count_nil] at hcount ⊢
    omega

theorem transfer_retainFailedPrepared (run : RecordingRun) (index : ℕ) :
    Transfer run (run.step (.retainFailedPrepared index)) [] := by
  simp only [step]
  split
  next => exact transfer_of_session (Settles.refl _)
  next chunk hchunk =>
    split
    next => exact transfer_of_session (Settles.refl _)
    next loss session hretain =>
      obtain ⟨dropped, hsettles⟩ := settles_refill run.session
        (run.session.pendingFailedChunks ++ [chunk]) [chunk] [] (by simp)
      unfold retainFailedPrepared at hretain
      split at hretain
      next => cases hretain
      next =>
        simp only [Except.ok.injEq] at hretain
        rw [hretain] at hsettles
        refine ⟨_, _, _, hsettles, List.perm_iff_count.mpr fun other => ?_⟩
        have hcount := (cons_eraseIdx_perm hchunk).count_eq other
        simp only [List.count_append, List.count_cons, List.count_nil] at hcount ⊢
        omega

theorem settles_flush (session : RecordingSession) (recorder : RecorderEngine)
    (generated : List RecorderOutputChunk) (storage : ChunkStorage) (retry : Bool) :
    let prepared := { session with recorder := recorder }.prepareChunks generated
    let result := prepared.2.persistChunksWithPending storage prepared.1 retry
    ∃ dropped, session.Settles result.2 [] (sources result.1.persisted)
      (session.prepareChunks generated).1 dropped := by
  intro prepared result
  obtain ⟨dropped, hsettles⟩ :=
    settles_persistChunksWithPending prepared.2 storage prepared.1 retry
  rw [← prepareChunks_fst session recorder session.pendingFailedChunks]
  exact ⟨dropped, hsettles.after_prepareChunks.of_recorder⟩

theorem settles_prepare (session : RecordingSession) (recorder : RecorderEngine)
    (generated : List RecorderOutputChunk) :
    let result := { session with recorder := recorder }.prepareWithPending generated
    session.Settles result.2 [] result.1 (session.prepareChunks generated).1 [] := by
  intro result
  have hsettles := settles_prepareWithPending { session with recorder := recorder } generated
  rw [prepareChunks_fst session recorder session.pendingFailedChunks] at hsettles
  exact hsettles.of_recorder

/-- Every call but `rekey_user` moves chunks without changing them. -/
theorem step_transfer (run : RecordingRun) (call : RecordingCall) :
    (∃ oldId newId, call = .rekeyUser oldId newId) ∨
      Transfer run (run.step call) (run.newlyPrepared call) := by
  cases call with
  | ingestFrame userId frame now =>
      exact .inr (transfer_of_session (Settles.refl _).of_recorder)
  | flushDue storage now order =>
      exact .inr (transfer_flushed (settles_flush run.session _ _ storage false))
  | flushAll storage order =>
      exact .inr (transfer_flushed (settles_flush run.session _ _ storage true))
  | prepareDue now order =>
      refine .inr (transfer_prepared ?_)
      simp only [prepareDue, newlyPrepared]
      split
      next hempty =>
        rw [List.isEmpty_iff.mp hempty]
        exact (Settles.refl _).of_recorder
      next => exact settles_prepare run.session _ _
  | prepareAll order => exact .inr (transfer_prepared (settles_prepare run.session _ _))
  | writerSaved index saved => exact .inr (transfer_writerSaved run index saved)
  | retainFailedPrepared index => exact .inr (transfer_retainFailedPrepared run index)
  | rekeyUser oldId newId => exact .inl ⟨oldId, newId, rfl⟩

theorem Transfer.live_perm {before after : RecordingRun} {prepared : List PreparedChunk}
    (htransfer : Transfer before after prepared) :
    ∃ dropped, after.session.ledger.evicted = before.session.ledger.evicted ++ dropped ∧
      (after.live ++ dropped).Perm (before.live ++ prepared) := by
  obtain ⟨taken, released, dropped, hsettles, houtside⟩ := htransfer
  refine ⟨dropped, hsettles.evicted_eq, List.perm_iff_count.mpr fun chunk => ?_⟩
  have hinside := hsettles.conserved.count_eq chunk
  have hmoved := houtside.count_eq chunk
  simp only [live, List.count_append] at hinside hmoved ⊢
  omega

/-- One call keeps the books. -/
theorem Accounted.step {run : RecordingRun} (haccounted : run.Accounted) (call : RecordingCall) :
    (run.step call).Accounted := by
  rcases step_transfer run call with ⟨oldId, newId, rfl⟩ | htransfer
  · -- Renaming changes no ticket, so the same tickets are in the same places.
    refine ⟨?_, rekeyUser_balanced haccounted.balanced oldId newId⟩
    have hpending : (run.session.pendingFailedChunks.map (rekeyPending oldId newId)).map
        PreparedChunk.ticket = run.session.pendingFailedChunks.map PreparedChunk.ticket := by
      simp [Function.comp_def, rekeyPending_ticket]
    have hsame := haccounted.exactlyOnce
    simp only [live, List.map_append, ← hpending] at hsame
    simp only [live, List.map_append]
    exact hsame
  · obtain ⟨dropped, hevicted, hperm⟩ := htransfer.live_perm
    obtain ⟨_, _, _, hsettles, _⟩ := htransfer
    refine ⟨?_, hsettles.balanced haccounted.balanced⟩
    rw [hsettles.prepared_eq, hevicted, List.map_append]
    refine List.perm_iff_count.mpr fun ticket => ?_
    have hbooks := haccounted.exactlyOnce.count_eq ticket
    have hlive := (hperm.map PreparedChunk.ticket).count_eq ticket
    simp only [List.map_append, List.count_append] at hbooks hlive ⊢
    omega

theorem step_evictsShortestPrefix (run : RecordingRun) (call : RecordingCall) :
    run.EvictsShortestPrefix call := by
  rcases step_transfer run call with ⟨oldId, newId, rfl⟩ | ⟨_, _, dropped, hsettles, _⟩
  · exact ⟨[], (List.append_nil _).symm, fun hdropped => absurd rfl hdropped⟩
  · exact ⟨dropped, hsettles.evicted_eq, hsettles.shortest⟩

theorem start_accounted (meetingId : String) (config : ReceiverConfig)
    (sampleRate maxPendingBytes : ℕ) :
    (start meetingId config sampleRate maxPendingBytes).Accounted :=
  ⟨List.Perm.nil, rfl, ⟨by simp [start, RecordingSession.new], by
    simp [start, RecordingSession.new, pendingBytes]⟩, Nat.zero_le _⟩

end RecordingRun

/-- In every run of a session each prepared chunk is in exactly one place, the
loss counters and the buffer limit are kept, and whatever the next call evicts
is the shortest sufficient prefix. -/
theorem recording_run_accounted (meetingId : String) (config : ReceiverConfig)
    (sampleRate maxPendingBytes : ℕ) (calls : List RecordingCall) :
    let run := Machine.run RecordingRun.step
      (.start meetingId config sampleRate maxPendingBytes) calls
    run.Accounted ∧ ∀ call, run.EvictsShortestPrefix call := by
  intro run
  refine ⟨?_, RecordingRun.step_evictsShortestPrefix run⟩
  exact Machine.run_invariant RecordingRun.step RecordingRun.Accounted
    (fun _ call hrun => hrun.step call)
    (RecordingRun.start_accounted meetingId config sampleRate maxPendingBytes) calls

end DiscordTranscript.Audio
