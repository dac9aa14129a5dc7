import DiscordTranscript.Application.Transcription
import DiscordTranscript.Foundation.Runs

/-! # Checkpoints cannot be seen in the result

On a workspace that any sequence of attempts has left behind, the checkpoint of an
audio path is the one of the last inference of that path that was stored. An attempt
that returns a transcript therefore returns what the recogniser makes of the audio as
it is now, and an input that has not changed since its last stored inference is not
sent to ASR again.
-/

namespace DiscordTranscript.Application

open Audio Domain Interfaces MachineInt Text

variable {platform : TranscriptionPlatform}

/-! ## What is stored -/

def InferenceOutcome.isStored : InferenceOutcome → Bool
  | .stored => true
  | _ => false

def InferenceOutcome.isSuccessful : InferenceOutcome → Bool
  | .failed => false
  | _ => true

/-- The last inference of an audio path among those that count. -/
def lastInference (counts : InferenceOutcome → Bool) (inferences : List Inference)
    (audioPath : String) : Option Inference :=
  (inferences.filter fun inference =>
    inference.speaker.audioPath = audioPath && counts inference.outcome).getLast?

/-- The checkpoint of an inference that ASR answered. -/
def Inference.checkpoint (platform : TranscriptionPlatform) (inference : Inference) :
    FinalAsrChunkCheckpoint platform.Json :=
  let content := inference.content.getD []
  let transcription := platform.recognise content inference.language inference.prompt
  { version := finalAsrCheckpointVersion
    audioPath := inference.speaker.audioPath
    audioFingerprint := toHex (platform.sha256 content)
    speakerId := inference.speaker.speakerId
    offsetMs := inference.speaker.offsetMs
    language := inference.language
    prompt := inference.prompt
    segments := TranscriptionAttempt.placeSegments inference.speaker transcription.segments
    rawResponse := platform.parseRawBody transcription.rawBody }

namespace TranscriptionState

/-- Every checkpoint file is that of the last stored inference of its audio path. -/
def Genuine (state : TranscriptionState platform) : Prop :=
  ∀ audioPath, state.checkpoints (finalAsrChunkCheckpointPath platform audioPath) =
    (lastInference InferenceOutcome.isStored state.inferences audioPath).map
      fun inference => platform.encode (inference.checkpoint platform)

theorem genuine_empty : (empty : TranscriptionState platform).Genuine := by
  intro audioPath
  simp [empty, lastInference]

end TranscriptionState

/-! ## File names -/

theorem finalAsrChunkCheckpointPath_inj {audioPath other : String}
    (heq : finalAsrChunkCheckpointPath platform audioPath =
      finalAsrChunkCheckpointPath platform other) : audioPath = other := by
  unfold finalAsrChunkCheckpointPath at heq
  have hlists := congrArg String.toList heq
  rw [String.toList_append, String.toList_append] at hlists
  have hhex := String.toList_inj.mp (List.append_cancel_right hlists)
  have hdigest := platform.sha256_injective (toHex_injective hhex)
  exact utf8Bytes_injective hdigest

variable (platform) in
/-- A file under construction is never taken for a checkpoint. -/
theorem finalAsrChunkCheckpointPath_ne_part (audioPath other : String) :
    finalAsrChunkCheckpointPath platform audioPath ≠ checkpointPartPath platform other := by
  intro heq
  have hlast := congrArg (fun name => name.toList.getLast?) heq
  simp [finalAsrChunkCheckpointPath, checkpointPartPath] at hlast

/-- Whatever fails while a checkpoint is written, the checkpoints stay as they are. -/
theorem persist_checkpoints (files : CheckpointDir platform)
    (fault : Option (CheckpointFault platform.Encoded))
    (checkpoint : FinalAsrChunkCheckpoint platform.Json) (audioPath : String) :
    (persistFinalAsrChunkCheckpoint platform files fault checkpoint).2
        (finalAsrChunkCheckpointPath platform audioPath) =
      if (persistFinalAsrChunkCheckpoint platform files fault checkpoint).1 = .ok () ∧
          audioPath = checkpoint.audioPath then some (platform.encode checkpoint)
      else files (finalAsrChunkCheckpointPath platform audioPath) := by
  have hpart := finalAsrChunkCheckpointPath_ne_part platform audioPath
    checkpoint.audioPath
  cases fault with
  | none =>
      by_cases hpath : audioPath = checkpoint.audioPath
      · subst hpath
        simp [persistFinalAsrChunkCheckpoint]
      · have hname : finalAsrChunkCheckpointPath platform audioPath ≠
            finalAsrChunkCheckpointPath platform checkpoint.audioPath := by
          intro heq
          exact hpath (finalAsrChunkCheckpointPath_inj heq)
        simp [persistFinalAsrChunkCheckpoint, hpath, Function.update_of_ne hname,
          Function.update_of_ne hpart]
  | some fault =>
      cases fault <;> simp [persistFinalAsrChunkCheckpoint, Function.update_of_ne hpart]

/-! ## One input -/

theorem lastInference_concat (counts : InferenceOutcome → Bool) (inferences : List Inference)
    (inference : Inference) (audioPath : String) :
    lastInference counts (inferences ++ [inference]) audioPath =
      if inference.speaker.audioPath = audioPath ∧ counts inference.outcome = true then
        some inference
      else lastInference counts inferences audioPath := by
  unfold lastInference
  rw [List.filter_append]
  by_cases hcounts : inference.speaker.audioPath = audioPath ∧ counts inference.outcome = true
  · simp [hcounts]
  · have hnone : [inference].filter (fun other => other.speaker.audioPath = audioPath &&
        counts other.outcome) = [] := by
      simpa using hcounts
    rw [if_neg hcounts, hnone, List.append_nil]

namespace TranscriptionAttempt

variable (attempt : TranscriptionAttempt platform)

/-- The audio of a path as the attempt finds it. -/
def content (audioPath : String) : List UInt8 := (attempt.audio (.localFile audioPath)).getD []

/-- The segments of a speaker input, recognised anew. -/
def expectedSegments (speaker : SpeakerAudioInput) : List TranscriptSegment :=
  ((attempt.inference speaker .stored).checkpoint platform).segments

/-- Nothing about the input has changed since its last stored inference. -/
def Unchanged (state : TranscriptionState platform) (speaker : SpeakerAudioInput) : Prop :=
  lastInference InferenceOutcome.isStored state.inferences speaker.audioPath =
    some (attempt.inference speaker .stored)

variable {attempt} {index : ℕ} {speaker : SpeakerAudioInput} {state : TranscriptionState platform}

theorem answered {audioPath : String} {prompt : Option (List Char)} {transcription : AsrResult}
    (hanswer : attempt.whisper index (attempt.asrRequest audioPath prompt) = .ok transcription) :
    transcription =
      platform.recognise (attempt.content audioPath) attempt.request.language prompt := by
  obtain ⟨content, hcontent, rfl⟩ := attempt.recognised _ _ _ hanswer
  have hlocal : attempt.audio (.localFile audioPath) = some content := by
    rw [← hcontent]
    unfold asrRequest
    cases hsource : attempt.s3Sources audioPath with
    | none => rfl
    | some reference => exact (attempt.mirrored audioPath reference hsource).symm
  simp [TranscriptionAttempt.content, hlocal, asrRequest]

theorem fingerprint_eq (hspeaker : speaker ∈ attempt.request.speakerAudio) :
    attempt.finalAsrAudioFingerprint speaker.audioPath =
      some (toHex (platform.sha256 (attempt.content speaker.audioPath))) := by
  obtain ⟨content, hcontent⟩ := Option.isSome_iff_exists.mp (attempt.readable speaker hspeaker)
  simp [finalAsrAudioFingerprint, TranscriptionAttempt.content, hcontent]

theorem newCheckpoint_eq (hspeaker : speaker ∈ attempt.request.speakerAudio)
    {transcription : AsrResult}
    (hanswer : attempt.whisper index
      (attempt.asrRequest speaker.audioPath (buildWhisperPrompt attempt.request (some speaker))) =
        .ok transcription) :
    attempt.newCheckpoint speaker transcription =
      (attempt.inference speaker .stored).checkpoint platform := by
  have htranscription := answered hanswer
  subst htranscription
  simp [newCheckpoint, fingerprint_eq hspeaker, Inference.checkpoint, inference,
    TranscriptionAttempt.content]

/-- A checkpoint that agrees with the input holds what ASR would answer now. -/
theorem load_segments (hstate : state.Genuine) (hspeaker : speaker ∈ attempt.request.speakerAudio)
    {checkpoint : FinalAsrChunkCheckpoint platform.Json}
    (hload : (attempt.finalAsrAudioFingerprint speaker.audioPath).bind
      (loadFinalAsrChunkCheckpoint platform state.checkpoints attempt.request.language speaker
        (buildWhisperPrompt attempt.request (some speaker))) = some checkpoint) :
    checkpoint.segments = attempt.expectedSegments speaker := by
  rw [fingerprint_eq hspeaker, Option.bind_some] at hload
  unfold loadFinalAsrChunkCheckpoint at hload
  rw [hstate speaker.audioPath] at hload
  cases hlast : lastInference InferenceOutcome.isStored state.inferences speaker.audioPath with
  | none => simp [hlast] at hload
  | some last =>
      rw [hlast] at hload
      simp only [Option.map_some, Option.bind_eq_bind, Option.bind_some,
        platform.decode_encode] at hload
      split at hload
      next hagrees =>
        obtain ⟨-, hpath, hfingerprint, hspeakerId, hoffset, hlanguage, hprompt⟩ := hagrees
        have hcontent : last.content.getD [] = attempt.content speaker.audioPath :=
          platform.sha256_injective (toHex_injective hfingerprint)
        have hsame : last.speaker = speaker := by
          cases hlastSpeaker : last.speaker with
          | mk lastId lastPath lastOffset =>
              simp only [Inference.checkpoint, hlastSpeaker] at hpath hspeakerId hoffset
              simp [hpath, hspeakerId, hoffset]
        cases hload
        have hlang : last.language = attempt.request.language := hlanguage
        have hprom : last.prompt = buildWhisperPrompt attempt.request (some speaker) := hprompt
        simp only [expectedSegments, Inference.checkpoint, inference, hcontent, hsame, hlang,
          hprom, TranscriptionAttempt.content]
      next => simp at hload

theorem load_of_unchanged (hstate : state.Genuine)
    (hspeaker : speaker ∈ attempt.request.speakerAudio)
    (hunchanged : attempt.Unchanged state speaker) :
    ∃ checkpoint, (attempt.finalAsrAudioFingerprint speaker.audioPath).bind
      (loadFinalAsrChunkCheckpoint platform state.checkpoints attempt.request.language speaker
        (buildWhisperPrompt attempt.request (some speaker))) = some checkpoint := by
  refine ⟨(attempt.inference speaker .stored).checkpoint platform, ?_⟩
  rw [fingerprint_eq hspeaker, Option.bind_some]
  unfold loadFinalAsrChunkCheckpoint
  rw [hstate speaker.audioPath, hunchanged]
  simp [platform.decode_encode, Inference.checkpoint, inference, TranscriptionAttempt.content]

/-- Everything a round of the loop can do. -/
inductive SpeakerRound (attempt : TranscriptionAttempt platform) (speaker : SpeakerAudioInput)
    (state : TranscriptionState platform) :
    Except SummaryError (List TranscriptSegment) × TranscriptionState platform → Prop
  | reused : SpeakerRound attempt speaker state (.ok (attempt.expectedSegments speaker), state)
  | failed (err : SummaryError) (hchanged : ¬ attempt.Unchanged state speaker) :
      SpeakerRound attempt speaker state
        (.error err, state.record (attempt.inference speaker .failed))
  | stored (files : CheckpointDir platform) (hchanged : ¬ attempt.Unchanged state speaker)
      (hfiles : ∀ audioPath, files (finalAsrChunkCheckpointPath platform audioPath) =
        if audioPath = speaker.audioPath then
          some (platform.encode ((attempt.inference speaker .stored).checkpoint platform))
        else state.checkpoints (finalAsrChunkCheckpointPath platform audioPath)) :
      SpeakerRound attempt speaker state (.ok (attempt.expectedSegments speaker),
        { state.record (attempt.inference speaker .stored) with checkpoints := files })
  | unstored (err : SummaryError) (files : CheckpointDir platform)
      (hchanged : ¬ attempt.Unchanged state speaker)
      (hfiles : ∀ audioPath, files (finalAsrChunkCheckpointPath platform audioPath) =
        state.checkpoints (finalAsrChunkCheckpointPath platform audioPath)) :
      SpeakerRound attempt speaker state (.error err,
        { state.record (attempt.inference speaker .unstored) with checkpoints := files })

variable (index) in
theorem transcribeSpeaker_round (hstate : state.Genuine)
    (hspeaker : speaker ∈ attempt.request.speakerAudio) :
    SpeakerRound attempt speaker state (attempt.transcribeSpeaker index speaker state) := by
  unfold transcribeSpeaker
  dsimp only
  split
  next checkpoint hload =>
    rw [load_segments hstate hspeaker hload]
    exact .reused
  next hload =>
    have hchanged : ¬ attempt.Unchanged state speaker := by
      intro hunchanged
      obtain ⟨checkpoint, hsome⟩ := load_of_unchanged hstate hspeaker hunchanged
      rw [hload] at hsome
      cases hsome
    split
    next err hanswer => exact .failed _ hchanged
    next transcription hanswer =>
      have hcheckpoint := newCheckpoint_eq hspeaker hanswer
      simp only [fingerprint_eq hspeaker, Option.isSome_some, and_self, if_true, hcheckpoint]
      have hpersist := persist_checkpoints state.checkpoints (attempt.writeFault index)
        ((attempt.inference speaker .stored).checkpoint platform)
      split
      next files hresult =>
        rw [hresult] at hpersist
        apply SpeakerRound.stored files hchanged
        simpa [Inference.checkpoint, inference] using hpersist
      next err files hresult =>
        rw [hresult] at hpersist
        apply SpeakerRound.unstored _ files hchanged
        simpa using hpersist

namespace SpeakerRound

variable {result : Except SummaryError (List TranscriptSegment)}
  {next : TranscriptionState platform}

theorem genuine (hround : SpeakerRound attempt speaker state (result, next))
    (hstate : state.Genuine) : next.Genuine := by
  intro audioPath
  cases hround with
  | reused => exact hstate audioPath
  | failed =>
      simp only [TranscriptionState.record, lastInference_concat]
      simpa [inference, InferenceOutcome.isStored] using hstate audioPath
  | stored files _ hfiles =>
      simp only [TranscriptionState.record, lastInference_concat, hfiles]
      by_cases hpath : audioPath = speaker.audioPath
      · simp [hpath, inference, InferenceOutcome.isStored]
      · have hother : ¬ speaker.audioPath = audioPath := fun heq => hpath heq.symm
        simpa [hpath, hother, inference] using hstate audioPath
  | unstored _ files _ hfiles =>
      simp only [TranscriptionState.record, lastInference_concat, hfiles]
      simpa [inference, InferenceOutcome.isStored] using hstate audioPath

theorem segments_eq {segments : List TranscriptSegment}
    (hround : SpeakerRound attempt speaker state (.ok segments, next)) :
    segments = attempt.expectedSegments speaker := by
  cases hround with
  | reused => rfl
  | stored => rfl

/-- An input is sent only when something about it has changed. -/
theorem sends (hround : SpeakerRound attempt speaker state (result, next)) :
    ∃ made, next.inferences = state.inferences ++ made ∧
      ∀ sent ∈ made, sent.speaker = speaker ∧ ¬ attempt.Unchanged state speaker := by
  have hone (outcome : InferenceOutcome) (hchanged : ¬ attempt.Unchanged state speaker) :
      ∀ sent ∈ [attempt.inference speaker outcome],
        sent.speaker = speaker ∧ ¬ attempt.Unchanged state speaker := by
    intro sent hsent
    rw [List.mem_singleton.mp hsent]
    exact ⟨rfl, hchanged⟩
  cases hround with
  | reused => exact ⟨[], by simp, by simp⟩
  | failed err hchanged => exact ⟨_, rfl, hone .failed hchanged⟩
  | stored files hchanged => exact ⟨_, rfl, hone .stored hchanged⟩
  | unstored err files hchanged => exact ⟨_, rfl, hone .unstored hchanged⟩

/-- The rounds of other paths do not touch the history of an input. -/
theorem unchanged_iff (hround : SpeakerRound attempt speaker state (result, next))
    {other : SpeakerAudioInput} (hother : other.audioPath ≠ speaker.audioPath) :
    attempt.Unchanged next other ↔ attempt.Unchanged state other := by
  obtain ⟨made, hmade, hsent⟩ := hround.sends
  have hnone : made.filter (fun sent => sent.speaker.audioPath = other.audioPath &&
      sent.outcome.isStored) = [] := by
    apply List.filter_eq_nil_iff.mpr
    intro sent hmem
    have hne : ¬ sent.speaker.audioPath = other.audioPath := by
      rw [(hsent sent hmem).1]
      exact fun heq => hother heq.symm
    simp [hne]
  simp [Unchanged, lastInference, hmade, List.filter_append, hnone]

end SpeakerRound

/-! ## One attempt -/

variable (index) in
/-- What the loop over the inputs returns and leaves behind. -/
theorem transcribeSpeakers_spec (speakers : List SpeakerAudioInput)
    (hspeakers : ∀ speaker ∈ speakers, speaker ∈ attempt.request.speakerAudio)
    (hpaths : (speakers.map (·.audioPath)).Nodup) (hstate : state.Genuine) :
    (attempt.transcribeSpeakers index speakers state).2.Genuine ∧
      (∀ merged, (attempt.transcribeSpeakers index speakers state).1 = .ok merged →
        merged = speakers.flatMap attempt.expectedSegments) ∧
      ∃ made, (attempt.transcribeSpeakers index speakers state).2.inferences =
          state.inferences ++ made ∧
        ∀ sent ∈ made, ∃ speaker ∈ speakers, sent.speaker = speaker ∧
          ¬ attempt.Unchanged state speaker := by
  induction speakers generalizing index state with
  | nil =>
      refine ⟨hstate, ?_, [], by simp [transcribeSpeakers], by simp⟩
      intro merged hmerged
      cases hmerged
      rfl
  | cons speaker rest ih =>
      have hround := transcribeSpeaker_round index hstate
        (hspeakers speaker List.mem_cons_self)
      obtain ⟨hnotMem, hrestPaths⟩ := List.nodup_cons.mp hpaths
      unfold transcribeSpeakers
      split
      next err next hone =>
        rw [hone] at hround
        obtain ⟨made, hmade, hsent⟩ := hround.sends
        refine ⟨hround.genuine hstate, (fun merged hmerged => by cases hmerged), made, hmade, ?_⟩
        intro sent hmem
        exact ⟨speaker, List.mem_cons_self, hsent sent hmem⟩
      next segments next hone =>
        rw [hone] at hround
        obtain ⟨hgenuine, hok, made, hmade, hsent⟩ := ih (index + 1)
          (fun other hother => hspeakers other (List.mem_cons_of_mem _ hother)) hrestPaths
          (hround.genuine hstate)
        obtain ⟨first, hfirst, hfirstSent⟩ := hround.sends
        have hinferences : (attempt.transcribeSpeakers (index + 1) rest next).2.inferences =
            state.inferences ++ (first ++ made) := by
          rw [hmade, hfirst, List.append_assoc]
        have hall : ∀ sent ∈ first ++ made, ∃ other ∈ speaker :: rest, sent.speaker = other ∧
            ¬ attempt.Unchanged state other := by
          intro sent hmem
          rcases List.mem_append.mp hmem with hmem | hmem
          · exact ⟨speaker, List.mem_cons_self, hfirstSent sent hmem⟩
          · obtain ⟨other, hother, hspeaker, hchanged⟩ := hsent sent hmem
            have hne : other.audioPath ≠ speaker.audioPath := by
              intro heq
              have hmem : speaker.audioPath ∈ rest.map (·.audioPath) := by
                rw [← heq]
                exact List.mem_map_of_mem hother
              exact hnotMem hmem
            refine ⟨other, List.mem_cons_of_mem _ hother, hspeaker, ?_⟩
            rwa [← hround.unchanged_iff hne]
        split
        next err last hrest =>
          rw [hrest] at hgenuine hinferences
          exact ⟨hgenuine, (fun merged hmerged => by cases hmerged), _, hinferences, hall⟩
        next merged last hrest =>
          rw [hrest] at hgenuine hok hinferences
          refine ⟨hgenuine, ?_, _, hinferences, hall⟩
          intro result hresult
          cases hresult
          rw [hok merged rfl, hround.segments_eq]
          rfl

variable (attempt) in
/-- The transcript of the audio as it is now. -/
def expectedOutput : TranscriptionOutput :=
  if attempt.request.speakerAudio.isEmpty then
    buildTranscriptionOutput platform.patterns
      (platform.recognise (attempt.content attempt.request.audioPath) attempt.request.language
        (buildWhisperPrompt attempt.request none)).segments
  else
    buildTranscriptionOutput platform.patterns
      (sortTranscriptSegments (attempt.request.speakerAudio.flatMap attempt.expectedSegments))

variable (attempt) in
/-- The inferences of an attempt. -/
def inferencesMade (state : TranscriptionState platform) : List Inference :=
  (attempt.runTranscriptionWithS3Sources state).2.inferences.drop state.inferences.length

theorem run_spec (hstate : state.Genuine) :
    (attempt.runTranscriptionWithS3Sources state).2.Genuine ∧
      (∀ output, (attempt.runTranscriptionWithS3Sources state).1 = .ok output →
        output = attempt.expectedOutput) ∧
      ∀ sent ∈ attempt.inferencesMade state, ¬ attempt.Unchanged state sent.speaker := by
  obtain ⟨hgenuine, hok, made, hmade, hsent⟩ := transcribeSpeakers_spec 0
    attempt.request.speakerAudio (fun _ hspeaker => hspeaker) attempt.paths_nodup hstate
  unfold inferencesMade runTranscriptionWithS3Sources expectedOutput
  split
  next hempty =>
    dsimp only
    split
    next err hanswer =>
      exact ⟨hstate, (fun output houtput => by cases houtput), by simp⟩
    next transcription hanswer =>
      refine ⟨hstate, ?_, by simp⟩
      intro output houtput
      cases houtput
      rw [answered hanswer]
  next hempty =>
    have hunsent : ∀ sent ∈ made, ¬ attempt.Unchanged state sent.speaker := by
      intro sent hmem
      obtain ⟨speaker, -, hspeaker, hchanged⟩ := hsent sent hmem
      rwa [hspeaker]
    split
    next err next hrun =>
      rw [hrun] at hgenuine hmade
      dsimp only at hmade ⊢
      rw [hmade, List.drop_left]
      exact ⟨hgenuine, (fun output houtput => by cases houtput), hunsent⟩
    next merged next hrun =>
      rw [hrun] at hgenuine hmade hok
      dsimp only at hmade ⊢
      rw [hmade, List.drop_left]
      refine ⟨hgenuine, ?_, hunsent⟩
      intro output houtput
      cases houtput
      rw [hok merged rfl]

/-! ## An attempt without faults -/

/-- The same attempt when ASR never fails and every checkpoint can be written. -/
def undisturbed (attempt : TranscriptionAttempt platform) : TranscriptionAttempt platform :=
  { attempt with
    whisper := fun _ asrRequest =>
      match attempt.audio asrRequest.source with
      | some content =>
          .ok (platform.recognise content asrRequest.language asrRequest.prompt)
      | none => .error (.invalidAudioSource "audio cannot be read")
    writeFault := fun _ => none
    recognised := by
      intro input asrRequest result hanswer
      cases haudio : attempt.audio asrRequest.source with
      | none => simp [haudio] at hanswer
      | some content =>
          simp only [haudio, Except.ok.injEq] at hanswer
          exact ⟨content, rfl, hanswer.symm⟩ }

variable (index) in
theorem undisturbed_answers {audioPath : String} (prompt : Option (List Char))
    (haudio : (attempt.audio (.localFile audioPath)).isSome) :
    ∃ transcription, attempt.undisturbed.whisper index
      (attempt.undisturbed.asrRequest audioPath prompt) = .ok transcription := by
  have hsource : (attempt.audio (attempt.asrRequest audioPath prompt).source).isSome := by
    unfold asrRequest
    cases hs3 : attempt.s3Sources audioPath with
    | none => exact haudio
    | some reference =>
        dsimp only
        rw [attempt.mirrored audioPath reference hs3]
        exact haudio
  obtain ⟨content, hcontent⟩ := Option.isSome_iff_exists.mp hsource
  refine ⟨platform.recognise content attempt.request.language prompt, ?_⟩
  have heq : attempt.undisturbed.asrRequest audioPath prompt =
      attempt.asrRequest audioPath prompt := rfl
  simp only [undisturbed] at heq ⊢
  rw [heq, hcontent]
  rfl

variable (index state) in
theorem undisturbed_speaker_ok (hspeaker : speaker ∈ attempt.request.speakerAudio) :
    ∃ segments, (attempt.undisturbed.transcribeSpeaker index speaker state).1 =
      .ok segments := by
  unfold transcribeSpeaker
  dsimp only
  split
  next checkpoint hload => exact ⟨_, rfl⟩
  next hload =>
    obtain ⟨transcription, hanswer⟩ := undisturbed_answers index
      (buildWhisperPrompt attempt.request (some speaker)) (attempt.readable speaker hspeaker)
    split
    next err herr =>
      have hcontra := hanswer.symm.trans herr
      cases hcontra
    next =>
      split
      · exact ⟨_, rfl⟩
      · exact ⟨_, rfl⟩

variable (index state) in
theorem undisturbed_speakers_ok (speakers : List SpeakerAudioInput)
    (hspeakers : ∀ speaker ∈ speakers, speaker ∈ attempt.request.speakerAudio) :
    ∃ merged, (attempt.undisturbed.transcribeSpeakers index speakers state).1 = .ok merged := by
  induction speakers generalizing index state with
  | nil => exact ⟨[], rfl⟩
  | cons speaker rest ih =>
      obtain ⟨segments, hsegments⟩ := undisturbed_speaker_ok index state
        (hspeakers speaker List.mem_cons_self)
      unfold transcribeSpeakers
      split
      next err next hone =>
        rw [hone] at hsegments
        cases hsegments
      next first next hone =>
        obtain ⟨merged, hmerged⟩ := ih (index + 1) next
          (fun other hother => hspeakers other (List.mem_cons_of_mem _ hother))
        split
        next err last hrest =>
          rw [hrest] at hmerged
          cases hmerged
        next => exact ⟨_, rfl⟩

variable (state) in
/-- Without faults a transcript comes out, whatever the checkpoints are. -/
theorem undisturbed_run_ok (hmixdown : attempt.request.speakerAudio.isEmpty →
      (attempt.audio (.localFile attempt.request.audioPath)).isSome) :
    ∃ output, (attempt.undisturbed.runTranscriptionWithS3Sources state).1 = .ok output := by
  unfold runTranscriptionWithS3Sources
  split
  next hempty =>
    obtain ⟨transcription, hanswer⟩ := undisturbed_answers 0
      (buildWhisperPrompt attempt.request none) (hmixdown hempty)
    dsimp only
    split
    next err herr =>
      have hcontra := hanswer.symm.trans herr
      cases hcontra
    next => exact ⟨_, rfl⟩
  next hempty =>
    obtain ⟨merged, hmerged⟩ := undisturbed_speakers_ok 0 state
      attempt.request.speakerAudio (fun _ hspeaker => hspeaker)
    split
    next err next hrun =>
      have hcontra := hmerged.symm.trans (congrArg Prod.fst hrun)
      cases hcontra
    next => exact ⟨_, rfl⟩

/-- An attempt that returns a transcript of the mixdown could read it. -/
theorem mixdown_readable {output : TranscriptionOutput}
    (hrun : (attempt.runTranscriptionWithS3Sources state).1 = .ok output)
    (hempty : attempt.request.speakerAudio.isEmpty) :
    (attempt.audio (.localFile attempt.request.audioPath)).isSome := by
  unfold runTranscriptionWithS3Sources at hrun
  rw [if_pos hempty] at hrun
  dsimp only at hrun
  split at hrun
  next => cases hrun
  next transcription hanswer =>
    obtain ⟨content, hcontent, -⟩ := attempt.recognised _ _ _ hanswer
    rw [← Option.isSome_some (a := content), ← hcontent]
    unfold asrRequest
    cases hsource : attempt.s3Sources attempt.request.audioPath with
    | none => rfl
    | some reference => dsimp only; rw [attempt.mirrored _ reference hsource]

/-! ## Every history -/

/-- An input that is, in its audio, path, speaker, offset, language and prompt, the same as in
the last inference of its path that counts is not sent to ASR. -/
def NeverSentAgain (counts : InferenceOutcome → Bool) (state : TranscriptionState platform)
    (attempt : TranscriptionAttempt platform) : Prop :=
  ∀ speaker ∈ attempt.request.speakerAudio, ∀ last,
    lastInference counts state.inferences speaker.audioPath = some last →
    last = attempt.inference speaker last.outcome →
    ∀ sent ∈ attempt.inferencesMade state, sent.speaker ≠ speaker

end TranscriptionAttempt

theorem run_genuine (history : List (TranscriptionAttempt platform)) :
    (Machine.run transcriptionStep TranscriptionState.empty history).Genuine :=
  Machine.run_invariant transcriptionStep TranscriptionState.Genuine
    (fun _ _ hstate => (TranscriptionAttempt.run_spec hstate).1)
    TranscriptionState.genuine_empty history

/-- After every history of attempts, an attempt that succeeds returns what an attempt on an
empty checkpoint directory returns, and an input that is unchanged since its last stored
inference is not sent to ASR again. -/
theorem checkpoints_unobservable (history : List (TranscriptionAttempt platform))
    (attempt : TranscriptionAttempt platform) :
    let state := Machine.run transcriptionStep TranscriptionState.empty history
    (∀ output, (attempt.runTranscriptionWithS3Sources state).1 = .ok output →
      (attempt.undisturbed.runTranscriptionWithS3Sources .empty).1 = .ok output ∧
        ∀ fresh : TranscriptionAttempt platform, fresh.request = attempt.request →
          fresh.audio = attempt.audio → ∀ other,
          (fresh.runTranscriptionWithS3Sources .empty).1 = .ok other → other = output) ∧
      attempt.NeverSentAgain InferenceOutcome.isStored state := by
  intro state
  have hstate : state.Genuine := run_genuine history
  obtain ⟨-, houtput, hsent⟩ := attempt.run_spec hstate
  have hfresh (fresh : TranscriptionAttempt platform) (hrequest : fresh.request = attempt.request)
      (haudio : fresh.audio = attempt.audio) (other : TranscriptionOutput)
      (hother : (fresh.runTranscriptionWithS3Sources .empty).1 = .ok other) :
      other = attempt.expectedOutput := by
    rw [(fresh.run_spec TranscriptionState.genuine_empty).2.1 other hother]
    unfold TranscriptionAttempt.expectedOutput TranscriptionAttempt.expectedSegments
      TranscriptionAttempt.inference TranscriptionAttempt.content
    rw [hrequest, haudio]
  refine ⟨?_, ?_⟩
  · intro output hrun
    rw [houtput output hrun]
    refine ⟨?_, hfresh⟩
    obtain ⟨other, hother⟩ := TranscriptionAttempt.undisturbed_run_ok .empty
      (attempt.mixdown_readable hrun)
    rw [hother, hfresh attempt.undisturbed rfl rfl other hother]
  · intro speaker hspeaker last hlast hsame sent hmem heq
    have hstored : last.outcome = .stored := by
      have hfiltered := (List.mem_filter.mp (List.mem_of_getLast? hlast)).2
      rw [Bool.and_eq_true] at hfiltered
      cases houtcome : last.outcome with
      | stored => rfl
      | failed => rw [houtcome] at hfiltered; cases hfiltered.2
      | unstored => rw [houtcome] at hfiltered; cases hfiltered.2
    apply hsent sent hmem
    rw [heq, TranscriptionAttempt.Unchanged, hlast, hsame, hstored]

/-! ## An answer that could not be stored -/

def matchNothing : Regex := ⟨fun input => ⟨[], input⟩, fun _ => rfl⟩

def samplePlatform : TranscriptionPlatform where
  Json := List Char
  Encoded := FinalAsrChunkCheckpoint (List Char)
  sha256 := id
  sha256_injective := Function.injective_id
  encode := id
  decode := some
  decode_encode := fun _ => rfl
  parseRawBody := id
  patterns := ⟨matchNothing, matchNothing, matchNothing, matchNothing⟩
  recognise := fun _ _ _ =>
    { text := ['h', 'i'], rawBody := []
      segments := [{ speakerId := "", startMs := 0, endMs := 900, text := ['h', 'i'] }] }

def sampleSpeaker : SpeakerAudioInput := ⟨"alice", "alice.wav", 500⟩

/-- One input, which ASR answers; its checkpoint meets the given fault. -/
def sampleAttempt (fault : Option (CheckpointFault samplePlatform.Encoded)) :
    TranscriptionAttempt samplePlatform where
  request := { title := none, audioPath := "mixdown.wav", speakerAudio := [sampleSpeaker],
               language := none }
  s3Sources := fun _ => none
  audio := fun _ => some [1, 2]
  whisper := fun _ asrRequest => .ok (samplePlatform.recognise [1, 2] asrRequest.language
    asrRequest.prompt)
  writeFault := fun _ => fault
  paths_nodup := List.nodup_singleton _
  readable := fun _ _ => rfl
  mirrored := fun _ _ hsource => nomatch hsource
  recognised := by
    intro input asrRequest result hanswer
    cases hanswer
    exact ⟨[1, 2], rfl, rfl⟩

/-- ASR answered, the checkpoint could not be flushed, and the next attempt asks again. -/
theorem unstored_answer_sent_again :
    ¬ (sampleAttempt none).NeverSentAgain InferenceOutcome.isSuccessful
      (Machine.run transcriptionStep .empty [sampleAttempt (some (.flushPart "disk full"))]) := by
  intro hnever
  have hmade : (sampleAttempt none).inference sampleSpeaker .stored ∈
      (sampleAttempt none).inferencesMade (Machine.run transcriptionStep .empty
        [sampleAttempt (some (.flushPart "disk full"))]) := by
    decide +kernel
  have hlast : lastInference InferenceOutcome.isSuccessful
      (Machine.run transcriptionStep (.empty : TranscriptionState samplePlatform)
        [sampleAttempt (some (.flushPart "disk full"))]).inferences sampleSpeaker.audioPath =
      some ((sampleAttempt none).inference sampleSpeaker .unstored) := by
    decide +kernel
  exact hnever sampleSpeaker List.mem_cons_self _ hlast rfl _ hmade rfl

end DiscordTranscript.Application
