import DiscordTranscript.Audio.SongbirdAdapter
import DiscordTranscript.Audio.Wav
import DiscordTranscript.Foundation.AssocSum

/-! # Adapting a voice tick

The other half of `audio/songbird_adapter.rs`: `adapt_voice_tick` turns the decoded
voices of one tick into one mono frame for each user. The frames are keyed by user and
not by SSRC, so a second SSRC of one user overwrites the frame of the first.
-/

namespace DiscordTranscript.Audio

open MachineInt

structure VoiceData where
  decodedVoice : Option (List Int16)
  deriving DecidableEq

/-- The speaking SSRCs in the order in which the hash map is iterated. -/
structure VoiceTick where
  speaking : List (ℕ × VoiceData)
  nodup : (speaking.map Prod.fst).Nodup

structure AdaptedVoiceFrames where
  perUser : AList fun _ : String => BufferedFrame

/-- An incomplete trailing pair keeps its sample. -/
def stereoToMono : List Int16 → List Int16
  | left :: right :: rest =>
      Int16.ofInt ((left.toInt + right.toInt).tdiv 2) :: stereoToMono rest
  | remainder => remainder

def i16SliceToLeBytes (input : List Int16) : List UInt8 :=
  input.flatMap fun sample => i16ToLeBytes sample.toInt

/-- The user id under which a voice is filed. -/
def SsrcTracker.userId (tracker : SsrcTracker) (ssrc : ℕ) : String :=
  (tracker.resolveUser ssrc).getD (SsrcTracker.fallbackKey ssrc)

def monoFrame (nowMs : ℕ) (decoded : List Int16) : BufferedFrame :=
  ⟨nowMs, i16SliceToLeBytes (stereoToMono decoded)⟩

def adaptVoiceTick (tick : VoiceTick) (nowMs : ℕ) (tracker : SsrcTracker) :
    AdaptedVoiceFrames :=
  ⟨tick.speaking.foldl (fun perUser speaker =>
    match speaker.2.decodedVoice with
    | none => perUser
    | some decoded =>
        if decoded.isEmpty then perUser
        else perUser.insert (tracker.userId speaker.1) (monoFrame nowMs decoded)) ∅⟩

/-- The SSRCs with a non-empty decoded voice, and that voice. -/
def VoiceTick.voices (tick : VoiceTick) : List (ℕ × List Int16) :=
  tick.speaking.filterMap fun speaker =>
    (speaker.2.decodedVoice.filter fun decoded => !decoded.isEmpty).map (speaker.1, ·)

/-- The mono samples of a frame, two bytes each. -/
def BufferedFrame.monoSamples (frame : BufferedFrame) : ℕ := frame.pcm16leBytes.length / 2

/-- No speech of the tick is lost: the frames hold as many mono samples as the voices
make, and the samples of each voice stand in the frame of its user. -/
def LosesNoSpeech (tick : VoiceTick) (tracker : SsrcTracker) (frames : AdaptedVoiceFrames) :
    Prop :=
  frames.perUser.sumBy BufferedFrame.monoSamples
      = (tick.voices.map fun voice => divCeil voice.2.length 2).sum
    ∧ ∀ voice ∈ tick.voices, ∃ frame before after,
        frames.perUser.lookup (tracker.userId voice.1) = some frame
          ∧ frame.pcm16leBytes = i16SliceToLeBytes (before ++ stereoToMono voice.2 ++ after)

/-! ## One voice -/

theorem length_stereoToMono (stereo : List Int16) :
    (stereoToMono stereo).length = divCeil stereo.length 2 := by
  fun_induction stereoToMono stereo with
  | case1 left right rest ih =>
      simp only [List.length_cons, ih, divCeil]
      omega
  | case2 remainder hshort =>
      match remainder, hshort with
      | [], _ => rfl
      | [_], _ => simp [divCeil]
      | left :: right :: rest, hshort => exact (hshort left right rest rfl).elim

theorem length_i16SliceToLeBytes (input : List Int16) :
    (i16SliceToLeBytes input).length = 2 * input.length := by
  induction input with
  | nil => rfl
  | cons sample input ih =>
      have hcons : i16SliceToLeBytes (sample :: input)
          = i16ToLeBytes sample.toInt ++ i16SliceToLeBytes input := rfl
      rw [hcons, List.length_append, length_i16ToLeBytes, ih, List.length_cons]
      omega

theorem monoSamples_monoFrame (nowMs : ℕ) (decoded : List Int16) :
    (monoFrame nowMs decoded).monoSamples = divCeil decoded.length 2 := by
  rw [BufferedFrame.monoSamples, monoFrame, length_i16SliceToLeBytes, length_stereoToMono]
  exact Nat.mul_div_cancel_left _ (by decide)

/-! ## The whole tick -/

/-- The frame that each voice files, in the order of the loop. -/
def VoiceTick.filed (tick : VoiceTick) (nowMs : ℕ) (tracker : SsrcTracker) :
    List (String × BufferedFrame) :=
  tick.voices.map fun voice => (tracker.userId voice.1, monoFrame nowMs voice.2)

theorem adaptVoiceTick_eq_insertAll (tick : VoiceTick) (nowMs : ℕ) (tracker : SsrcTracker) :
    (adaptVoiceTick tick nowMs tracker).perUser = AList.insertAll ∅ (tick.filed nowMs tracker) := by
  unfold adaptVoiceTick VoiceTick.filed VoiceTick.voices AList.insertAll
  generalize (∅ : AList fun _ : String => BufferedFrame) = perUser
  induction tick.speaking generalizing perUser with
  | nil => rfl
  | cons speaker speaking ih =>
      rw [List.foldl_cons, ih]
      obtain ⟨ssrc, ⟨_ | decoded⟩⟩ := speaker
      · rfl
      · cases decoded with
        | nil => rfl
        | cons sample rest => rfl

theorem mem_filed {tick : VoiceTick} {voice : ℕ × List Int16} (hvoice : voice ∈ tick.voices)
    (nowMs : ℕ) (tracker : SsrcTracker) :
    (tracker.userId voice.1, monoFrame nowMs voice.2) ∈ tick.filed nowMs tracker :=
  List.mem_map_of_mem hvoice

theorem voice_ne_nil {tick : VoiceTick} {voice : ℕ × List Int16}
    (hvoice : voice ∈ tick.voices) : voice.2 ≠ [] := by
  obtain ⟨speaker, -, hspeaker⟩ := List.mem_filterMap.mp hvoice
  obtain ⟨decoded, hdecoded, rfl⟩ := Option.map_eq_some_iff.mp hspeaker
  simpa using (Option.filter_eq_some_iff.mp hdecoded).2

theorem filed_monoSamples_pos {tick : VoiceTick} {nowMs : ℕ} {tracker : SsrcTracker}
    {filed : String × BufferedFrame} (hfiled : filed ∈ tick.filed nowMs tracker) :
    0 < filed.2.monoSamples := by
  obtain ⟨voice, hvoice, rfl⟩ := List.mem_map.mp hfiled
  have hlength : 0 < voice.2.length := List.length_pos_of_ne_nil (voice_ne_nil hvoice)
  rw [monoSamples_monoFrame, divCeil]
  omega

theorem filed_total (tick : VoiceTick) (nowMs : ℕ) (tracker : SsrcTracker) :
    ((tick.filed nowMs tracker).map fun filed => filed.2.monoSamples).sum
      = (tick.voices.map fun voice => divCeil voice.2.length 2).sum := by
  rw [VoiceTick.filed, List.map_map]
  congr 1
  apply List.map_congr_left
  intro voice _
  exact monoSamples_monoFrame nowMs voice.2

theorem filed_keys (tick : VoiceTick) (nowMs : ℕ) (tracker : SsrcTracker) :
    (tick.filed nowMs tracker).map Prod.fst
      = tick.voices.map fun voice => tracker.userId voice.1 := by
  rw [VoiceTick.filed, List.map_map]
  rfl

/-- In every iteration order a tick loses no speech exactly when its voices resolve to
distinct users. -/
theorem adapt_voice_tick_loses_no_speech_iff (tick : VoiceTick) (nowMs : ℕ)
    (tracker : SsrcTracker) :
    LosesNoSpeech tick tracker (adaptVoiceTick tick nowMs tracker)
      ↔ (tick.voices.map fun voice => tracker.userId voice.1).Nodup := by
  have htotal : (AList.insertAll ∅ (tick.filed nowMs tracker)).sumBy BufferedFrame.monoSamples
        = 0 + ((tick.filed nowMs tracker).map fun filed => filed.2.monoSamples).sum
      ↔ ((tick.filed nowMs tracker).map Prod.fst).Nodup
        ∧ ∀ filed ∈ tick.filed nowMs tracker,
            (∅ : AList fun _ : String => BufferedFrame).lookup filed.1 = none := by
    apply AList.sumBy_insertAll_eq_iff
    · intro filed hfiled
      exact filed_monoSamples_pos hfiled
    · intro key value hfound
      cases hfound
  rw [Nat.zero_add, filed_total, filed_keys] at htotal
  rw [LosesNoSpeech, adaptVoiceTick_eq_insertAll]
  constructor
  · rintro ⟨hkept, -⟩
    exact (htotal.mp hkept).1
  · intro hdistinct
    refine ⟨htotal.mpr ⟨hdistinct, fun filed _ => rfl⟩, fun voice hvoice => ?_⟩
    rw [← filed_keys tick nowMs tracker] at hdistinct
    refine ⟨monoFrame nowMs voice.2, [], [], ?_, ?_⟩
    · exact AList.lookup_insertAll_of_nodup hdistinct (mem_filed hvoice nowMs tracker) ∅
    · simp [monoFrame]

/-- A user who came back under a second SSRC while the first one still speaks. -/
def reconnectedTracker : SsrcTracker := ⟨[(1, "42"), (2, "42")]⟩

def reconnectedTick : VoiceTick :=
  ⟨[(1, ⟨some [7, 9]⟩), (2, ⟨some [3, 5]⟩)], by decide⟩

theorem reconnected_speech_lost :
    ¬ LosesNoSpeech reconnectedTick reconnectedTracker
        (adaptVoiceTick reconnectedTick 0 reconnectedTracker) := by
  rintro ⟨htotal, -⟩
  revert htotal
  decide

end DiscordTranscript.Audio
