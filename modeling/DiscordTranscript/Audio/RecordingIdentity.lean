import DiscordTranscript.Audio.ReceiverTimeline
import DiscordTranscript.Audio.RecordingAccounting

/-! # Storage identities

A chunk is stored under its user id, sequence number and start time. Sequence
numbers are reserved per user id: as long as no rekey has removed the counter of a
user, it is at least the number of each of the user's chunks, and the next number is
new. So chunks of a session collide only after `rekey_user` has renamed a waiting
chunk or removed a counter. This module gives the exact condition on each call for
identities to stay distinct.
-/

namespace DiscordTranscript.Audio

abbrev StorageIdentity := String × ℕ × ℕ

def PreparedChunk.identity (chunk : PreparedChunk) : StorageIdentity :=
  (chunk.userId, chunk.sequence, chunk.startMs)

/-- The identity that the next chunk of a user would be prepared under. -/
def RecordingSession.nextIdentity (session : RecordingSession) (chunk : RecorderOutputChunk) :
    StorageIdentity :=
  (chunk.userId, session.nextSequence chunk.userId, chunk.startMs)

namespace RecordingRun

def identities (run : RecordingRun) : List StorageIdentity :=
  run.live.map PreparedChunk.identity

/-- No two chunks that are pending, handed out or saved share an identity. -/
def Distinct (run : RecordingRun) : Prop := run.identities.Nodup

instance (run : RecordingRun) : Decidable run.Distinct :=
  inferInstanceAs (Decidable run.identities.Nodup)

/-- The same between the preparation of a call and its writes. -/
def DistinctWhilePreparing (run : RecordingRun) (call : RecordingCall) : Prop :=
  ((run.live ++ run.newlyPrepared call).map PreparedChunk.identity).Nodup

/-- None of the chunks gets an identity that the run already uses. -/
def FreshFor (run : RecordingRun) (generated : List RecorderOutputChunk) : Prop :=
  ∀ chunk ∈ generated, run.session.nextIdentity chunk ∉ run.identities

/-- The users whose counter a call has removed, and those who got waiting chunks of
such a user. -/
def restartedBy (run : RecordingRun) (restarted : List String) : RecordingCall → List String
  | .rekeyUser oldId newId =>
      if oldId = newId then restarted
      else if oldId ∈ restarted then newId :: restarted
      else if (run.session.perUserSeq.lookup oldId).isSome then oldId :: restarted
      else restarted
  | _ => restarted

end RecordingRun

/-- A run with the users whose sequence numbers may start over. -/
structure CountedRun where
  run : RecordingRun
  restarted : List String := []

namespace CountedRun

def step (state : CountedRun) (call : RecordingCall) : CountedRun where
  run := state.run.step call
  restarted := state.run.restartedBy state.restarted call

/-- No chunk of a user whose numbers start over is prepared under a number that the
user already had with the same start time. -/
def RestartsFresh (state : CountedRun) (generated : List RecorderOutputChunk) : Prop :=
  ∀ chunk ∈ generated, chunk.userId ∈ state.restarted →
    state.run.session.nextIdentity chunk ∉ state.run.identities

/-- The call neither renames a pending chunk onto the sequence number and start
time of a chunk of the new user, nor prepares a chunk under a sequence number
that its user, after losing its counter, already had with the same start time. -/
def KeepsIdentities (state : CountedRun) : RecordingCall → Prop
  | .flushDue _ now order | .prepareDue now order =>
      state.RestartsFresh (state.run.session.recorder.flushDue now order).1
  | .flushAll _ order | .prepareAll order =>
      state.RestartsFresh (state.run.session.recorder.flushAll order).1
  | .rekeyUser oldId newId =>
      oldId ≠ newId → ∀ chunk ∈ state.run.session.pendingFailedChunks, chunk.userId = oldId →
        (newId, chunk.sequence, chunk.startMs) ∉ state.run.identities
  | _ => True

end CountedRun

/-! ## One candidate per user -/

theorem takeUserChunk_userId {state : ReceiverState} (hstate : state.WellFormed)
    {userId : String} {candidate : UserChunkCandidate}
    (htake : (state.takeUserChunk userId).1 = some candidate) :
    candidate.userId = userId ∧ (state.perUser.lookup userId).isSome := by
  unfold ReceiverState.takeUserChunk at htake
  split at htake
  next => cases htake
  next user hlookup =>
    have hkey := (hstate.buffers userId user hlookup).userId_eq
    simp only at htake
    split at htake
    next => cases htake
    next =>
      cases htake
      exact ⟨hkey, by rw [hlookup]; rfl⟩

theorem takeUserChunk_lookup_self (state : ReceiverState) (userId : String) :
    (state.takeUserChunk userId).2.perUser.lookup userId = none := by
  unfold ReceiverState.takeUserChunk
  split
  next hlookup => exact hlookup
  next =>
    simp only
    split <;> exact AList.lookup_erase _ _

theorem takeUserChunks_userIds {state : ReceiverState} (hstate : state.WellFormed)
    (userIds : List String) :
    ((state.takeUserChunks userIds).1.map (·.userId)).Nodup ∧
      ∀ candidate ∈ (state.takeUserChunks userIds).1,
        (state.perUser.lookup candidate.userId).isSome := by
  induction userIds generalizing state with
  | nil => simp [ReceiverState.takeUserChunks]
  | cons userId rest ih =>
      obtain ⟨hnodup, hstored⟩ := ih (hstate.takeUserChunk userId)
      have hearlier : ∀ other ∈ ((state.takeUserChunk userId).2.takeUserChunks rest).1,
          (state.perUser.lookup other.userId).isSome := by
        intro other hother
        obtain ⟨buffer, hbuffer⟩ := Option.isSome_iff_exists.mp (hstored other hother)
        rw [takeUserChunk_lookup hbuffer]
        rfl
      simp only [ReceiverState.takeUserChunks]
      cases htake : (state.takeUserChunk userId).1 with
      | none => exact ⟨hnodup, hearlier⟩
      | some candidate =>
          obtain ⟨huser, hpresent⟩ := takeUserChunk_userId hstate htake
          refine ⟨List.nodup_cons.mpr ⟨?_, hnodup⟩, ?_⟩
          · -- The user of the first candidate has left the map.
            intro hmem
            obtain ⟨other, hother, heq⟩ := List.mem_map.mp hmem
            have hsome := hstored other hother
            rw [heq.trans huser, takeUserChunk_lookup_self] at hsome
            cases hsome
          · intro other hother
            rcases List.mem_cons.mp hother with rfl | hother
            · rwa [huser]
            · exact hearlier other hother

namespace RecorderEngine

theorem buildChunksBestEffort_userIds (engine : RecorderEngine)
    (candidates : List UserChunkCandidate) :
    ((engine.buildChunksBestEffort candidates).map (·.userId)).Sublist
      (candidates.map (·.userId)) := by
  induction candidates with
  | nil => exact List.Sublist.slnil
  | cons candidate rest ih =>
      unfold buildChunksBestEffort at ih ⊢
      cases hbuild : buildWavChunk candidate.frames engine.sampleRate with
      | error _ => simpa [buildChunk, hbuild, Except.toOption] using ih.cons _
      | ok wav => simpa [buildChunk, hbuild, Except.toOption] using ih.cons_cons candidate.userId

theorem flushDue_userIds {engine : RecorderEngine} (hengine : engine.receiver.WellFormed)
    (now : ℕ) (order : List String) :
    ((engine.flushDue now order).1.map (·.userId)).Nodup :=
  (takeUserChunks_userIds hengine _).1.sublist (buildChunksBestEffort_userIds engine _)

theorem flushAll_userIds {engine : RecorderEngine} (hengine : engine.receiver.WellFormed)
    (order : List String) : ((engine.flushAll order).1.map (·.userId)).Nodup :=
  (takeUserChunks_userIds hengine _).1.sublist (buildChunksBestEffort_userIds engine _)

end RecorderEngine

/-! ## The receiver inside a session -/

namespace RecordingSession

theorem enforcePendingFailedLimit_recorder (session : RecordingSession) :
    session.enforcePendingFailedLimit.2.recorder = session.recorder := by
  simp only [enforcePendingFailedLimit]
  split
  · rfl
  · split <;> rfl

theorem persistChunksWithPending_recorder (session : RecordingSession) (storage : ChunkStorage)
    (chunks : List PreparedChunk) (retry : Bool) :
    (session.persistChunksWithPending storage chunks retry).2.recorder = session.recorder := by
  unfold persistChunksWithPending
  split
  · rfl
  · exact enforcePendingFailedLimit_recorder _

theorem prepareChunks_recorder (session : RecordingSession) (chunks : List RecorderOutputChunk) :
    (session.prepareChunks chunks).2.recorder = session.recorder := by
  rw [prepareChunks_eq]

theorem retainFailedPrepared_recorder {session after : RecordingSession} {chunk : PreparedChunk}
    {loss : AudioLoss} (hretain : session.retainFailedPrepared chunk = .ok (loss, after)) :
    after.recorder = session.recorder := by
  unfold retainFailedPrepared at hretain
  split at hretain
  · cases hretain
  · have hafter : _ = after := congrArg Prod.snd (Except.ok.inj hretain)
    rw [← hafter]
    exact enforcePendingFailedLimit_recorder _

/-- What the session does to its receiver, one call at a time. -/
theorem step_receiver (run : RecordingRun) (call : RecordingCall) :
    (run.step call).session.recorder.receiver = run.session.recorder.receiver ∨
      ∃ receiverCall, (run.step call).session.recorder.receiver =
        run.session.recorder.receiver.step receiverCall := by
  cases call with
  | ingestFrame userId frame now => exact .inr ⟨.trackFrame userId frame now, rfl⟩
  | flushDue storage now order =>
      refine .inr ⟨.flushDueChunks now run.session.recorder.receiverConfig order, ?_⟩
      simp only [RecordingRun.step, RecordingRun.flushed, flushDue,
        persistChunksWithPending_recorder, prepareChunks_recorder]
      rfl
  | flushAll storage order =>
      refine .inr ⟨.flushAllChunks order, ?_⟩
      simp only [RecordingRun.step, RecordingRun.flushed, flushAll,
        persistChunksWithPending_recorder, prepareChunks_recorder]
      rfl
  | prepareDue now order =>
      refine .inr ⟨.flushDueChunks now run.session.recorder.receiverConfig order, ?_⟩
      simp only [RecordingRun.step, RecordingRun.prepared, prepareDue]
      split
      · rfl
      · simp only [prepareWithPending, prepareChunks_recorder]
        rfl
  | prepareAll order =>
      refine .inr ⟨.flushAllChunks order, ?_⟩
      simp only [RecordingRun.step, RecordingRun.prepared, prepareAll, prepareWithPending,
        prepareChunks_recorder]
      rfl
  | writerSaved index saved =>
      left
      simp only [RecordingRun.step]
      split <;> rfl
  | retainFailedPrepared index =>
      left
      simp only [RecordingRun.step]
      split
      · rfl
      · split
        next => rfl
        next hretain => exact congrArg _ (retainFailedPrepared_recorder hretain)
  | rekeyUser oldId newId => exact .inr ⟨.rekeyUser oldId newId, rfl⟩

theorem step_receiver_wellFormed (run : RecordingRun) (call : RecordingCall)
    (hrun : run.session.recorder.receiver.WellFormed) :
    (run.step call).session.recorder.receiver.WellFormed := by
  rcases step_receiver run call with hsame | ⟨receiverCall, hstep⟩
  · rwa [hsame]
  · rw [hstep]
    exact hrun.step receiverCall

/-! ## Identities of new chunks -/

theorem nextSequence_prepareChunk_of_ne (session : RecordingSession)
    {chunk : RecorderOutputChunk} {userId : String} (hne : userId ≠ chunk.userId) :
    (session.prepareChunk chunk).2.nextSequence userId = session.nextSequence userId := by
  simp only [prepareChunk, reserveSequence, nextSequence]
  rw [AList.lookup_insert_ne hne]

/-- With one chunk for each user, every chunk gets its user's next number. -/
theorem prepareChunks_identity (session : RecordingSession) (chunks : List RecorderOutputChunk)
    (husers : (chunks.map (·.userId)).Nodup) :
    (session.prepareChunks chunks).1.map PreparedChunk.identity =
      chunks.map session.nextIdentity := by
  induction chunks generalizing session with
  | nil => rfl
  | cons chunk rest ih =>
      obtain ⟨hfirst, hrest⟩ := List.nodup_cons.mp husers
      simp only [prepareChunks, List.map_cons]
      rw [ih _ hrest]
      refine congrArg (List.cons _) (List.map_congr_left fun other hother => ?_)
      have hne : other.userId ≠ chunk.userId := by
        intro heq
        exact hfirst (List.mem_map.mpr ⟨other, hother, heq⟩)
      simp only [nextIdentity, nextSequence_prepareChunk_of_ne session hne]

theorem nextIdentity_nodup (session : RecordingSession) {chunks : List RecorderOutputChunk}
    (husers : (chunks.map (·.userId)).Nodup) : (chunks.map session.nextIdentity).Nodup := by
  apply List.Nodup.of_map Prod.fst
  rwa [List.map_map]

/-! ## Counters -/

/-- The counter of the user has reached the number. -/
def Counts (session : RecordingSession) (userId : String) (sequence : ℕ) : Prop :=
  ∃ count, session.perUserSeq.lookup userId = some count ∧ sequence ≤ count

theorem nextIdentity_fresh {session : RecordingSession} {chunk : RecorderOutputChunk}
    {other : PreparedChunk}
    (hcounts : other.userId = chunk.userId → session.Counts chunk.userId other.sequence) :
    session.nextIdentity chunk ≠ other.identity := by
  intro heq
  obtain ⟨huser, hplace⟩ := Prod.mk.inj heq
  obtain ⟨count, hlookup, hle⟩ := hcounts huser.symm
  have hsequence : count + 1 = other.sequence := by
    rw [← (Prod.mk.inj hplace).1, nextSequence, hlookup]
    rfl
  omega

theorem prepareChunk_counts (session : RecordingSession) (chunk : RecorderOutputChunk)
    {userId : String} {sequence : ℕ} (hcounts : session.Counts userId sequence) :
    (session.prepareChunk chunk).2.Counts userId sequence := by
  obtain ⟨count, hlookup, hle⟩ := hcounts
  by_cases hsame : userId = chunk.userId
  · subst hsame
    exact ⟨count + 1, by simp [prepareChunk, reserveSequence, nextSequence, hlookup], by omega⟩
  · refine ⟨count, ?_, hle⟩
    simp only [prepareChunk, reserveSequence]
    rwa [AList.lookup_insert_ne hsame]

theorem prepareChunk_counts_self (session : RecordingSession) (chunk : RecorderOutputChunk) :
    (session.prepareChunk chunk).2.Counts (session.prepareChunk chunk).1.userId
      (session.prepareChunk chunk).1.sequence :=
  ⟨session.nextSequence chunk.userId, by simp [prepareChunk, reserveSequence], le_rfl⟩

theorem prepareChunks_counts (session : RecordingSession) (chunks : List RecorderOutputChunk)
    {userId : String} {sequence : ℕ} (hcounts : session.Counts userId sequence) :
    (session.prepareChunks chunks).2.Counts userId sequence := by
  induction chunks generalizing session with
  | nil => exact hcounts
  | cons chunk rest ih => exact ih _ (session.prepareChunk_counts chunk hcounts)

/-- What is prepared is counted. -/
theorem prepareChunks_counts_self (session : RecordingSession)
    (chunks : List RecorderOutputChunk) :
    ∀ prepared ∈ (session.prepareChunks chunks).1,
      (session.prepareChunks chunks).2.Counts prepared.userId prepared.sequence := by
  induction chunks generalizing session with
  | nil => simp [prepareChunks]
  | cons chunk rest ih =>
      intro prepared hprepared
      rcases List.mem_cons.mp hprepared with rfl | hprepared
      · exact prepareChunks_counts _ rest (session.prepareChunk_counts_self chunk)
      · exact ih _ prepared hprepared

theorem rekeySequences_counts {oldId userId : String} {perUserSeq : AList fun _ : String => ℕ}
    {count : ℕ} (newId : String) (hother : userId ≠ oldId)
    (hlookup : perUserSeq.lookup userId = some count) :
    ∃ next, (rekeySequences oldId newId perUserSeq).lookup userId = some next ∧ count ≤ next := by
  unfold rekeySequences
  cases hold : perUserSeq.lookup oldId with
  | none => exact ⟨count, hlookup, le_rfl⟩
  | some oldSeq =>
      have hremaining : (perUserSeq.erase oldId).lookup userId = some count := by
        rwa [AList.lookup_erase_ne hother]
      by_cases hnew : userId = newId
      · subst hnew
        refine ⟨max ((perUserSeq.erase oldId).lookup userId |>.getD 0) oldSeq,
          AList.lookup_insert _, ?_⟩
        rw [hremaining]
        exact le_max_left count oldSeq
      · exact ⟨count, by simpa [AList.lookup_insert_ne hnew] using hremaining, le_rfl⟩

/-- The counter of the new user takes over that of the old one. -/
theorem rekeySequences_counts_new {oldId : String} {perUserSeq : AList fun _ : String => ℕ}
    {count : ℕ} (newId : String) (hlookup : perUserSeq.lookup oldId = some count) :
    ∃ next, (rekeySequences oldId newId perUserSeq).lookup newId = some next ∧ count ≤ next := by
  unfold rekeySequences
  rw [hlookup]
  exact ⟨_, AList.lookup_insert _, le_max_right _ count⟩

/-! ## Renaming -/

theorem rekeyPending_identity_old {oldId newId : String} {chunk : PreparedChunk}
    (hold : chunk.userId = oldId) :
    (rekeyPending oldId newId chunk).identity = (newId, chunk.sequence, chunk.startMs) := by
  simp [rekeyPending, hold, PreparedChunk.identity]

theorem rekeyPending_of_ne {oldId newId : String} {chunk : PreparedChunk}
    (hother : chunk.userId ≠ oldId) : rekeyPending oldId newId chunk = chunk := by
  simp [rekeyPending, hother]

theorem rekeyPending_self (userId : String) (chunk : PreparedChunk) :
    rekeyPending userId userId chunk = chunk := by
  unfold rekeyPending
  split
  next heq => rw [← heq]
  next => rfl

/-- Renamed chunks stay apart if none of them lands on an identity in use. -/
theorem rename_nodup {oldId newId : String} {rest pending : List PreparedChunk}
    (hnodup : ((rest ++ pending).map PreparedChunk.identity).Nodup)
    (hfree : ∀ chunk ∈ pending, chunk.userId = oldId →
      (newId, chunk.sequence, chunk.startMs) ∉ (rest ++ pending).map PreparedChunk.identity) :
    ((rest ++ pending.map (rekeyPending oldId newId)).map PreparedChunk.identity).Nodup := by
  rw [List.map_append, List.nodup_append'] at hnodup ⊢
  obtain ⟨hrest, hpending, hdisjoint⟩ := hnodup
  rw [List.map_map]
  refine ⟨hrest, ?_, ?_⟩
  · -- Two renamed chunks differed before; a renamed and a kept one differ by `hfree`.
    refine List.Nodup.map_on ?_ hpending.of_map
    intro left hleft right hright heq
    have hinjective := List.inj_on_of_nodup_map hpending
    simp only [Function.comp_apply] at heq
    by_cases hleftOld : left.userId = oldId <;> by_cases hrightOld : right.userId = oldId
    · rw [rekeyPending_identity_old hleftOld, rekeyPending_identity_old hrightOld] at heq
      apply hinjective hleft hright
      simp only [Prod.mk.injEq, true_and] at heq
      simp [PreparedChunk.identity, hleftOld, hrightOld, heq]
    · rw [rekeyPending_identity_old hleftOld, rekeyPending_of_ne hrightOld] at heq
      refine absurd ?_ (hfree left hleft hleftOld)
      rw [heq]
      exact List.mem_map_of_mem (List.mem_append_right _ hright)
    · rw [rekeyPending_of_ne hleftOld, rekeyPending_identity_old hrightOld] at heq
      refine absurd ?_ (hfree right hright hrightOld)
      rw [← heq]
      exact List.mem_map_of_mem (List.mem_append_right _ hleft)
    · rw [rekeyPending_of_ne hleftOld, rekeyPending_of_ne hrightOld] at heq
      exact hinjective hleft hright heq
  · intro identity hinRest hrenamed
    obtain ⟨chunk, hchunk, rfl⟩ := List.mem_map.mp hrenamed
    by_cases hold : chunk.userId = oldId
    · refine hfree chunk hchunk hold ?_
      rw [List.map_append]
      rw [Function.comp_apply, rekeyPending_identity_old hold] at hinRest
      exact List.mem_append_left _ hinRest
    · rw [Function.comp_apply, rekeyPending_of_ne hold] at hinRest
      exact hdisjoint hinRest (List.mem_map_of_mem hchunk)

/-- Conversely, a renamed chunk that lands on an identity in use shares it. -/
theorem free_of_rename_nodup {oldId newId : String} (hne : oldId ≠ newId)
    {rest pending : List PreparedChunk}
    (hnodup : ((rest ++ pending.map (rekeyPending oldId newId)).map
      PreparedChunk.identity).Nodup)
    {chunk : PreparedChunk} (hchunk : chunk ∈ pending) (hold : chunk.userId = oldId) :
    (newId, chunk.sequence, chunk.startMs) ∉ (rest ++ pending).map PreparedChunk.identity := by
  intro hused
  rw [List.map_append, List.map_map, List.nodup_append'] at hnodup
  obtain ⟨-, hpending, hdisjoint⟩ := hnodup
  have hrenamed : (newId, chunk.sequence, chunk.startMs) ∈
      pending.map (PreparedChunk.identity ∘ rekeyPending oldId newId) :=
    List.mem_map.mpr ⟨chunk, hchunk, rekeyPending_identity_old hold⟩
  rw [List.map_append, List.mem_append] at hused
  rcases hused with hused | hused
  · exact hdisjoint hused hrenamed
  · -- The chunk that has the identity already belongs to the new user and is not renamed.
    obtain ⟨other, hother, hsame⟩ := List.mem_map.mp hused
    have hnew : other.userId = newId := congrArg Prod.fst hsame
    have hkept : other.userId ≠ oldId := by rwa [hnew, ne_comm]
    have heq : other = chunk := by
      apply List.inj_on_of_nodup_map hpending hother hchunk
      simp only [Function.comp_apply]
      rw [rekeyPending_of_ne hkept, rekeyPending_identity_old hold, hsame]
    exact hkept (heq ▸ hold)

end RecordingSession

/-! ## Runs -/

namespace RecordingRun

open RecordingSession

theorem live_perm_rest (run : RecordingRun) :
    run.live.Perm ((sources run.persisted ++ run.handedOut) ++
      run.session.pendingFailedChunks) := by
  refine List.perm_iff_count.mpr fun chunk => ?_
  simp only [live, List.count_append]
  omega

theorem rekeyUser_distinct_iff {run : RecordingRun} (hdistinct : run.Distinct)
    (oldId newId : String) :
    (run.step (.rekeyUser oldId newId)).Distinct ↔
      (oldId ≠ newId → ∀ chunk ∈ run.session.pendingFailedChunks, chunk.userId = oldId →
        (newId, chunk.sequence, chunk.startMs) ∉ run.identities) := by
  have hbefore := (run.live_perm_rest.map PreparedChunk.identity)
  have hafter := ((run.step (.rekeyUser oldId newId)).live_perm_rest.map PreparedChunk.identity)
  have hnodup := hbefore.nodup_iff.mp hdistinct
  rw [Distinct, identities, hafter.nodup_iff]
  constructor
  · intro hrenamed hne chunk hchunk hold hused
    exact free_of_rename_nodup hne hrenamed hchunk hold (hbefore.mem_iff.mp hused)
  · intro hkeeps
    by_cases hsame : oldId = newId
    · subst hsame
      have hid : run.session.pendingFailedChunks.map (rekeyPending oldId oldId) =
          run.session.pendingFailedChunks :=
        List.map_id'' (rekeyPending_self oldId) _
      change ((_ ++ run.session.pendingFailedChunks.map (rekeyPending oldId oldId)).map
        PreparedChunk.identity).Nodup
      rw [hid]
      exact hnodup
    · refine rename_nodup hnodup fun chunk hchunk hold hused => ?_
      exact hkeeps hsame chunk hchunk hold (hbefore.mem_iff.mpr hused)

theorem distinctWhilePreparing_iff {run : RecordingRun} (hdistinct : run.Distinct)
    {chunks : List RecorderOutputChunk} (husers : (chunks.map (·.userId)).Nodup) :
    ((run.live ++ (run.session.prepareChunks chunks).1).map PreparedChunk.identity).Nodup ↔
      run.FreshFor chunks := by
  rw [List.map_append, prepareChunks_identity _ _ husers, List.nodup_append']
  simp only [show (run.live.map PreparedChunk.identity).Nodup from hdistinct,
    nextIdentity_nodup run.session husers, true_and]
  constructor
  · intro hdisjoint chunk hchunk hused
    exact hdisjoint hused (List.mem_map_of_mem hchunk)
  · intro hfresh identity hused hnew
    obtain ⟨chunk, hchunk, rfl⟩ := List.mem_map.mp hnew
    exact hfresh chunk hchunk hused

/-! ## What the calls do to the counters -/

theorem enforcePendingFailedLimit_perUserSeq (session : RecordingSession) :
    session.enforcePendingFailedLimit.2.perUserSeq = session.perUserSeq := by
  simp only [enforcePendingFailedLimit]
  split
  · rfl
  · split <;> rfl

theorem persistChunksWithPending_perUserSeq (session : RecordingSession) (storage : ChunkStorage)
    (chunks : List PreparedChunk) (retry : Bool) :
    (session.persistChunksWithPending storage chunks retry).2.perUserSeq =
      session.perUserSeq := by
  unfold persistChunksWithPending
  split
  · rfl
  · exact enforcePendingFailedLimit_perUserSeq _

theorem retainFailedPrepared_perUserSeq {session after : RecordingSession} {chunk : PreparedChunk}
    {loss : AudioLoss} (hretain : session.retainFailedPrepared chunk = .ok (loss, after)) :
    after.perUserSeq = session.perUserSeq := by
  unfold retainFailedPrepared at hretain
  split at hretain
  · cases hretain
  · have hafter : _ = after := congrArg Prod.snd (Except.ok.inj hretain)
    rw [← hafter]
    exact enforcePendingFailedLimit_perUserSeq _

/-- The recorder and the retry buffer do not matter for the counters. -/
theorem prepareChunks_perUserSeq (session : RecordingSession) (recorder : RecorderEngine)
    (pending : List PreparedChunk) (chunks : List RecorderOutputChunk) :
    (prepareChunks { session with recorder := recorder, pendingFailedChunks := pending }
        chunks).2.perUserSeq = (session.prepareChunks chunks).2.perUserSeq := by
  induction chunks generalizing session with
  | nil => rfl
  | cons chunk rest ih => exact ih (session.prepareChunk chunk).2

/-- The chunks that a call takes from the recorder. -/
def generated (run : RecordingRun) : RecordingCall → List RecorderOutputChunk
  | .flushDue _ now order | .prepareDue now order =>
      (run.session.recorder.flushDue now order).1
  | .flushAll _ order | .prepareAll order => (run.session.recorder.flushAll order).1
  | _ => []

theorem newlyPrepared_eq (run : RecordingRun) (call : RecordingCall) :
    run.newlyPrepared call = (run.session.prepareChunks (run.generated call)).1 := by
  cases call <;> rfl

theorem step_perUserSeq (run : RecordingRun) (call : RecordingCall)
    (hcall : ¬∃ oldId newId, call = .rekeyUser oldId newId) :
    (run.step call).session.perUserSeq =
      (run.session.prepareChunks (run.generated call)).2.perUserSeq := by
  cases call with
  | ingestFrame userId frame now => rfl
  | flushDue storage now order =>
      simp only [step, flushed, RecordingSession.flushDue, persistChunksWithPending_perUserSeq]
      exact prepareChunks_perUserSeq run.session _ run.session.pendingFailedChunks _
  | flushAll storage order =>
      simp only [step, flushed, RecordingSession.flushAll, persistChunksWithPending_perUserSeq]
      exact prepareChunks_perUserSeq run.session _ run.session.pendingFailedChunks _
  | prepareDue now order =>
      simp only [step, prepared, RecordingSession.prepareDue, generated]
      split
      next hempty => rw [List.isEmpty_iff.mp hempty]; rfl
      next => exact prepareChunks_perUserSeq run.session _ [] _
  | prepareAll order => exact prepareChunks_perUserSeq run.session _ [] _
  | writerSaved index saved =>
      simp only [step]
      split <;> rfl
  | retainFailedPrepared index =>
      simp only [step]
      split
      · rfl
      · split
        next => rfl
        next hretain => exact retainFailedPrepared_perUserSeq hretain
  | rekeyUser oldId newId => exact absurd ⟨oldId, newId, rfl⟩ hcall

end RecordingRun

namespace CountedRun

open RecordingRun RecordingSession

/-- The sequence numbers of a user whose counter no rekey removed are counted. -/
def Counted (state : CountedRun) : Prop :=
  ∀ chunk ∈ state.run.live, chunk.userId ∉ state.restarted →
    state.run.session.Counts chunk.userId chunk.sequence

theorem mem_live_iff {run : RecordingRun} {chunk : PreparedChunk} : chunk ∈ run.live ↔
    chunk ∈ sources run.persisted ++ run.handedOut ∨ chunk ∈ run.session.pendingFailedChunks := by
  rw [run.live_perm_rest.mem_iff, List.mem_append]

theorem mem_restartedBy_of_mem {state : CountedRun} {userId : String} (call : RecordingCall)
    (hmem : userId ∈ state.restarted) : userId ∈ (state.step call).restarted := by
  cases call with
  | rekeyUser oldId newId =>
      simp only [step, restartedBy]
      split
      · exact hmem
      · split
        · exact List.mem_cons_of_mem newId hmem
        · split
          · exact List.mem_cons_of_mem oldId hmem
          · exact hmem
  | _ => exact hmem

/-- A chunk of another user, whose counter can only grow. -/
theorem counts_rekeyUser_of_ne {state : CountedRun} {oldId newId userId : String} {sequence : ℕ}
    (hother : userId ≠ oldId) (hcounts : state.run.session.Counts userId sequence) :
    (state.step (.rekeyUser oldId newId)).run.session.Counts userId sequence := by
  obtain ⟨count, hlookup, hle⟩ := hcounts
  obtain ⟨next, hnext, hgrows⟩ := rekeySequences_counts newId hother hlookup
  exact ⟨next, hnext, hle.trans hgrows⟩

theorem counts_rekeyUser_new {state : CountedRun} {oldId newId : String} {sequence : ℕ}
    (hcounts : state.run.session.Counts oldId sequence) :
    (state.step (.rekeyUser oldId newId)).run.session.Counts newId sequence := by
  obtain ⟨count, hlookup, hle⟩ := hcounts
  obtain ⟨next, hnext, hgrows⟩ := rekeySequences_counts_new newId hlookup
  exact ⟨next, hnext, hle.trans hgrows⟩

theorem Counted.rekeyUser {state : CountedRun} (hcounted : state.Counted)
    (oldId newId : String) : (state.step (.rekeyUser oldId newId)).Counted := by
  intro chunk hchunk hfree
  by_cases hsame : oldId = newId
  · -- the counter is taken out and put back
    subst hsame
    have hlive : chunk ∈ state.run.live := by
      rw [mem_live_iff] at hchunk ⊢
      refine hchunk.imp_right fun hpending => ?_
      obtain ⟨old, hold, rfl⟩ := List.mem_map.mp hpending
      rwa [rekeyPending_self]
    have hcounts := hcounted chunk hlive fun hmem => hfree (mem_restartedBy_of_mem _ hmem)
    by_cases huser : chunk.userId = oldId
    · rw [huser] at hcounts ⊢
      exact counts_rekeyUser_new hcounts
    · exact counts_rekeyUser_of_ne huser hcounts
  · have hbefore {old : PreparedChunk} (hold : old ∈ state.run.live)
        (huser : old.userId ∉ state.restarted) :
        state.run.session.Counts old.userId old.sequence := hcounted old hold huser
    -- a chunk that keeps the old user is one of a user who loses the counter
    have hkept (hlive : chunk ∈ state.run.live) :
        (state.step (.rekeyUser oldId newId)).run.session.Counts chunk.userId
          chunk.sequence := by
      have huser : chunk.userId ∉ state.restarted :=
        fun hmem => hfree (mem_restartedBy_of_mem _ hmem)
      have hcounts := hbefore hlive huser
      refine counts_rekeyUser_of_ne ?_ hcounts
      rintro rfl
      obtain ⟨count, hlookup, -⟩ := hcounts
      refine hfree ?_
      simp [step, restartedBy, hsame, huser, hlookup]
    rw [mem_live_iff] at hchunk
    rcases hchunk with helsewhere | hpending
    · exact hkept (mem_live_iff.mpr (.inl helsewhere))
    · obtain ⟨old, hold, rfl⟩ := List.mem_map.mp hpending
      by_cases huser : old.userId = oldId
      · subst huser
        have holdFree : old.userId ∉ state.restarted := by
          intro hmem
          refine hfree ?_
          simp [step, restartedBy, hsame, hmem, rekeyPending]
        have hcounts := hbefore (mem_live_iff.mpr (.inr hold)) holdFree
        simpa [rekeyPending] using counts_rekeyUser_new hcounts
      · rw [rekeyPending_of_ne huser] at hkept ⊢
        exact hkept (mem_live_iff.mpr (.inr hold))

/-- Numbers stay counted. -/
theorem Counted.step {state : CountedRun} (hcounted : state.Counted) (call : RecordingCall) :
    (state.step call).Counted := by
  by_cases hrekey : ∃ oldId newId, call = .rekeyUser oldId newId
  · obtain ⟨oldId, newId, rfl⟩ := hrekey
    exact hcounted.rekeyUser oldId newId
  · intro chunk hchunk hfree
    obtain ⟨dropped, -, hperm⟩ := ((step_transfer state.run call).resolve_left hrekey).live_perm
    have hsequences := step_perUserSeq state.run call hrekey
    have hcounts : ((state.run.session.prepareChunks (state.run.generated call)).2).Counts
        chunk.userId chunk.sequence := by
      rcases List.mem_append.mp (hperm.subset (List.mem_append_left _ hchunk)) with hlive | hnew
      · exact prepareChunks_counts _ _
          (hcounted chunk hlive fun hmem => hfree (mem_restartedBy_of_mem call hmem))
      · rw [newlyPrepared_eq] at hnew
        exact prepareChunks_counts_self _ _ chunk hnew
    unfold Counts at hcounts ⊢
    change ∃ count, (state.run.step call).session.perUserSeq.lookup chunk.userId = some count ∧ _
    rwa [hsequences]

/-- The next number of a user whose counter no rekey removed is new. -/
theorem restartsFresh_iff {state : CountedRun} (hcounted : state.Counted)
    (chunks : List RecorderOutputChunk) : state.RestartsFresh chunks ↔ state.run.FreshFor chunks := by
  constructor
  · intro hrestarts chunk hchunk
    by_cases hmem : chunk.userId ∈ state.restarted
    · exact hrestarts chunk hchunk hmem
    · intro hused
      obtain ⟨other, hother, heq⟩ := List.mem_map.mp hused
      refine nextIdentity_fresh (fun huser => ?_) heq.symm
      rw [← huser] at hmem ⊢
      exact hcounted other hother hmem
  · intro hfresh chunk hchunk _
    exact hfresh chunk hchunk

theorem preparing_iff_keepsIdentities {state : CountedRun} (hcounted : state.Counted)
    (hdistinct : state.run.Distinct)
    (hreceiver : state.run.session.recorder.receiver.WellFormed) (call : RecordingCall)
    (hcall : ¬∃ oldId newId, call = .rekeyUser oldId newId) :
    state.run.DistinctWhilePreparing call ↔ state.KeepsIdentities call := by
  unfold DistinctWhilePreparing
  cases call with
  | flushDue storage now order | prepareDue now order =>
      exact (distinctWhilePreparing_iff hdistinct
        (RecorderEngine.flushDue_userIds hreceiver _ _)).trans (restartsFresh_iff hcounted _).symm
  | flushAll storage order | prepareAll order =>
      exact (distinctWhilePreparing_iff hdistinct
        (RecorderEngine.flushAll_userIds hreceiver _)).trans (restartsFresh_iff hcounted _).symm
  | rekeyUser oldId newId => exact absurd ⟨oldId, newId, rfl⟩ hcall
  | ingestFrame userId frame now | writerSaved index saved | retainFailedPrepared index =>
      simpa [newlyPrepared, KeepsIdentities, Distinct, identities] using hdistinct

/-- From a state with distinct identities, a call keeps them distinct throughout
exactly when it meets the condition. -/
theorem step_distinct_iff {state : CountedRun} (hcounted : state.Counted)
    (hdistinct : state.run.Distinct)
    (hreceiver : state.run.session.recorder.receiver.WellFormed) (call : RecordingCall) :
    state.run.DistinctWhilePreparing call ∧ (state.run.step call).Distinct ↔
      state.KeepsIdentities call := by
  by_cases hrekey : ∃ oldId newId, call = .rekeyUser oldId newId
  · obtain ⟨oldId, newId, rfl⟩ := hrekey
    rw [rekeyUser_distinct_iff hdistinct]
    refine and_iff_right ?_
    simpa [DistinctWhilePreparing, newlyPrepared, Distinct, identities] using hdistinct
  · rw [← preparing_iff_keepsIdentities hcounted hdistinct hreceiver call hrekey]
    refine and_iff_left_of_imp fun hpreparing => ?_
    -- What is live after the call was live or prepared before the writes.
    obtain ⟨dropped, -, hperm⟩ := ((step_transfer state.run call).resolve_left hrekey).live_perm
    have hnodup := (hperm.map PreparedChunk.identity).nodup_iff.mpr hpreparing
    rw [List.map_append] at hnodup
    exact hnodup.of_append_left

end CountedRun

theorem start_distinct (meetingId : String) (config : ReceiverConfig)
    (sampleRate maxPendingBytes : ℕ) :
    (RecordingRun.start meetingId config sampleRate maxPendingBytes).Distinct := List.nodup_nil

/-- In every run, identities are distinct in every state and at every moment
between preparation and writing exactly when every call meets the condition. -/
theorem recording_identities_distinct_iff (meetingId : String) (config : ReceiverConfig)
    (sampleRate maxPendingBytes : ℕ) (calls : List RecordingCall) :
    let start := RecordingRun.start meetingId config sampleRate maxPendingBytes
    Machine.Always RecordingRun.step RecordingRun.Distinct start calls ∧
        Machine.EveryStep RecordingRun.step RecordingRun.DistinctWhilePreparing start calls ↔
      Machine.EveryStep CountedRun.step CountedRun.KeepsIdentities { run := start } calls := by
  intro start
  have hview : ∀ (state : CountedRun) (call : RecordingCall),
      (state.step call).run = state.run.step call := fun _ _ => rfl
  have hcounted : (CountedRun.mk start []).Counted :=
    fun chunk hchunk => absurd hchunk List.not_mem_nil
  have hinv : ∀ (state : CountedRun) (call : RecordingCall),
      (state.Counted ∧ state.run.session.recorder.receiver.WellFormed) →
        (state.step call).Counted ∧
          (state.step call).run.session.recorder.receiver.WellFormed :=
    fun state call hstate => ⟨hstate.1.step call,
      RecordingSession.step_receiver_wellFormed state.run call hstate.2⟩
  have hexact := Machine.always_and_everyStep_iff CountedRun.step hinv
    (fun state call hstate hdistinct =>
      CountedRun.step_distinct_iff hstate.1 hdistinct hstate.2 call)
    ⟨hcounted, ReceiverState.WellFormed.default⟩
    (start_distinct meetingId config sampleRate maxPendingBytes) calls
  rw [← hexact]
  exact and_congr
    (Machine.always_view RecordingRun.step hview RecordingRun.Distinct (CountedRun.mk start []) calls)
    (Machine.everyStep_view RecordingRun.step hview RecordingRun.DistinctWhilePreparing
      (CountedRun.mk start []) calls)

/-- A store that fails for one user and saves everything else. -/
def failingFor (userId : String) : ChunkStorage := fun _ chunk =>
  if chunk.userId = userId then .error (.io "disk full")
  else .ok { path := "chunk.wav", sizeBytes := chunk.sizeBytes }

/-- Two speakers of one voice tick get the same sequence number and start time;
the waiting chunk of one is then renamed onto the saved chunk of the other. -/
theorem recording_identity_shared_after_rekey :
    ¬Machine.Always RecordingRun.step RecordingRun.Distinct
      (.start "m1" { chunkDuration := 10000, silenceFlushDuration := 1000 } 48000
        defaultMaxPendingFailedChunkBytes)
      [.ingestFrame "ssrc:1" { timestampMs := 1000, pcm16leBytes := [1, 0] } 0,
        .ingestFrame "u1" { timestampMs := 1000, pcm16leBytes := [2, 0] } 0,
        .flushAll (failingFor "ssrc:1") [],
        .rekeyUser "ssrc:1" "u1"] := by
  intro halways
  have hlast := (Machine.always_iff_forall_initial _ _ _ _).mp halways _ (List.prefix_refl _)
  exact absurd hlast (by decide)

end DiscordTranscript.Audio
