import DiscordTranscript.Foundation.MachineInt

/-! # Speaker ids of voice packets

The speaker-id half of `audio/songbird_adapter.rs`: the mapping from SSRCs to
Discord users, and the fallback id of a speaker who is not mapped yet.
-/

namespace DiscordTranscript.Audio

open MachineInt

/-- `str::strip_prefix`. -/
def stripLead (lead text : String) : Option String :=
  if lead.toList.isPrefixOf text.toList then
    some (String.ofList (text.toList.drop lead.toList.length))
  else none

/-- The mapping in the order in which it is iterated. -/
structure SsrcTracker where
  ssrcToUser : List (ℕ × String) := []
  deriving DecidableEq, Repr

namespace SsrcTracker

def resolveUser (tracker : SsrcTracker) (ssrc : ℕ) : Option String :=
  tracker.ssrcToUser.lookup ssrc

/-- Accepts `ssrc:13829` and the older on-disk form `ssrc13829`. -/
def parseSsrcFallback (speakerId : String) : Option ℕ :=
  ((stripLead "ssrc:" speakerId).or (stripLead "ssrc" speakerId)).bind (parseUnsigned u32Max)

def fallbackKey (ssrc : ℕ) : String := "ssrc:" ++ toString ssrc

theorem stripLead_append (lead text : String) : stripLead lead (lead ++ text) = some text := by
  simp [stripLead]

theorem parseSsrcFallback_fallbackKey {ssrc : ℕ} (hssrc : ssrc ≤ u32Max) :
    parseSsrcFallback (fallbackKey ssrc) = some ssrc := by
  rw [parseSsrcFallback, fallbackKey, stripLead_append]
  exact parseUnsigned_toString hssrc

end SsrcTracker

end DiscordTranscript.Audio
