import Mathlib.Data.List.Sort
import Mathlib.Data.Prod.Lex
import DiscordTranscript.Foundation.MachineInt
import DiscordTranscript.Foundation.Text

/-! # Transcript segments

The model of `domain/transcript.rs` and of the speaker labels of
`domain/speaker.rs`. Segments are sorted along the timeline, cleaned, merged when
they belong together, and rendered one line each. Texts are lists of characters.
-/

namespace DiscordTranscript.Domain

open Text MachineInt

inductive TranscriptSource where
  | voice
  | vcText
  deriving DecidableEq, Repr

def TranscriptSource.orderPriority : TranscriptSource → ℕ
  | .voice => 0
  | .vcText => 1

structure TranscriptSegment where
  speakerId : String
  startMs : ℕ
  endMs : ℕ
  text : List Char
  confidence : Option Float32 := none
  isNoisy : Bool := false
  source : TranscriptSource := .voice
  mergedCount : ℕ := 1

structure SpeakerProfile where
  speakerId : String
  username : Option String := none
  nickname : Option String := none
  displayName : Option String := none

/-- Nickname, display name and user name in this order, blank ones passed over. -/
def SpeakerProfile.displayLabel (profile : SpeakerProfile) : String :=
  let usable (name : Option String) := name.filter fun value => !(trim value.toList).isEmpty
  ((usable profile.nickname).or ((usable profile.displayName).or
    (usable profile.username))).getD profile.speakerId

def displayLabelForId (profiles : Option (List (String × SpeakerProfile))) (speakerId : String) :
    String :=
  match profiles with
  | none => speakerId
  | some profiles => ((profiles.lookup speakerId).map (·.displayLabel)).getD speakerId

/-! ## Timeline order -/

def orderTimestampMs (value : ℕ) : ℕ := min value (2 ^ 63 - 1)

def TranscriptSegment.orderKey (segment : TranscriptSegment) : ℕ ×ₗ ℕ ×ₗ ℕ :=
  toLex (orderTimestampMs segment.startMs,
    toLex (orderTimestampMs segment.endMs, segment.source.orderPriority))

def sortTranscriptSegments (segments : List TranscriptSegment) : List TranscriptSegment :=
  segments.insertionSort fun left right => left.orderKey ≤ right.orderKey

/-! ## Normalisation -/

/-- White space becomes a single space. -/
def collapseWhitespace (previousWasSpace : Bool) : List Char → List Char
  | [] => []
  | ch :: rest =>
      if isWhitespace ch then
        if previousWasSpace then collapseWhitespace true rest
        else ' ' :: collapseWhitespace true rest
      else ch :: collapseWhitespace false rest

def cleanText (text : List Char) : List Char := collapseWhitespace false (trim text)

def minConfidenceForClean : Float32 := 0.55

def canMerge (prev next : TranscriptSegment) : Bool :=
  if prev.source = .vcText || next.source = .vcText then false
  else prev.source = next.source && prev.speakerId = next.speakerId &&
    decide (next.startMs ≤ wrappingAdd u64Max prev.endMs 1000)

def mergeConfidence (a : Option Float32) (aCount : ℕ) (b : Option Float32) (bCount : ℕ) :
    Option Float32 :=
  match a, b with
  | some x, some y =>
      let mean := (x * Float32.ofNat aCount + y * Float32.ofNat bCount) /
        Float32.ofNat (wrappingAdd u32Max aCount bCount)
      some (if mean < 0 then 0 else if 1 < mean then 1 else mean)
  | some x, none => some x
  | none, y => y

def mergeInto (prev next : TranscriptSegment) : TranscriptSegment :=
  { prev with
    endMs := max prev.endMs next.endMs
    text := prev.text ++ ' ' :: next.text
    isNoisy := prev.isNoisy || next.isNoisy
    confidence := mergeConfidence prev.confidence prev.mergedCount next.confidence next.mergedCount
    mergedCount := wrappingAdd u32Max prev.mergedCount next.mergedCount }

def pushNormalized (normalized : List TranscriptSegment) (segment : TranscriptSegment) :
    List TranscriptSegment :=
  let cleanedText := cleanText segment.text
  if cleanedText.isEmpty || segment.endMs ≤ segment.startMs then normalized
  else
    let next := { segment with
      text := cleanedText
      isNoisy := segment.isNoisy || segment.confidence.any (· < minConfidenceForClean) }
    match normalized.getLast? with
    | some prev =>
        if canMerge prev next then normalized.dropLast ++ [mergeInto prev next]
        else normalized ++ [next]
    | none => [next]

def normalizeSegments (input : List TranscriptSegment) : List TranscriptSegment :=
  (sortTranscriptSegments input).foldl pushNormalized []

/-! ## Rendering -/

def sanitizeTranscriptField (value : List Char) : List Char :=
  (cleanText value).map fun
    | ':' => ';'
    | '[' => '('
    | ']' => ')'
    | ch => ch

def decimal (value : ℕ) : List Char := (toString value).toList

/-- The line of one segment: time stamps, speaker and tags up to the first `": "`. -/
def renderLine (speakers : Option (List (String × SpeakerProfile))) (segment : TranscriptSegment) :
    List Char :=
  let label := sanitizeTranscriptField (displayLabelForId speakers segment.speakerId).toList
  let speakerId := sanitizeTranscriptField segment.speakerId.toList
  let text := cleanText segment.text
  let noiseTag := if segment.isNoisy then " [NOISY]".toList else []
  let sourceTag := if segment.source = .vcText then " [VC_TEXT]".toList else []
  let stamp := '[' :: decimal segment.startMs ++ '-' :: decimal segment.endMs ++ "] ".toList
  if label = speakerId then stamp ++ label ++ sourceTag ++ noiseTag ++ ": ".toList ++ text
  else stamp ++ label ++ " (id:".toList ++ speakerId ++ [')'] ++ sourceTag ++ noiseTag ++
    ": ".toList ++ text

def renderForSummary (segments : List TranscriptSegment)
    (speakers : Option (List (String × SpeakerProfile))) : List Char :=
  join ['\n'] ((sortTranscriptSegments segments).map (renderLine speakers))

end DiscordTranscript.Domain
