import DiscordTranscript.Application.LeakGuarantees
import DiscordTranscript.Application.CorrectionStructure

/-! # The context of a summary and its leak check

The selection of `materialize_summary_context` and the protected bodies that it records. An
item is selected because the transcript mentions it, so what is selected is what the
transcript is most likely to quote.
-/

namespace DiscordTranscript.Application

open Domain Text

inductive DomainKnowledgeContentType where
  | glossary
  | personName
  | projectContext
  | wordingRule
  | prohibitedItem
  deriving DecidableEq

def DomainKnowledgeContentType.asStr : DomainKnowledgeContentType → String
  | .glossary => "glossary"
  | .personName => "person_name"
  | .projectContext => "project_context"
  | .wordingRule => "wording_rule"
  | .prohibitedItem => "prohibited_item"

structure DomainKnowledgeItem where
  id : String
  contentType : DomainKnowledgeContentType
  title : String
  body : String
  active : Bool
  allowSummaryContext : Bool
  archivedAt : Option ℤ := none

structure AiMemoryNote where
  id : String
  title : String
  body : String
  sourceMeetingId : Option String := none
  active : Bool
  pinned : Bool := false
  archivedAt : Option ℤ := none
  updatedAt : ℤ := 0

inductive TranscriptFeedbackStatus where
  | open
  | accepted
  | dismissed
  | convertedToDomainKnowledge
  | convertedToAiMemory
  deriving DecidableEq

structure TranscriptFeedback where
  id : String
  meetingId : Option String := none
  originalText : Option String := none
  correctedText : Option String := none
  note : Option String := none
  status : TranscriptFeedbackStatus
  createdAt : ℤ := 0

structure SummaryTemplate where
  template : String
  active : Bool
  archivedAt : Option ℤ := none

structure SummaryContextInput where
  speakers : List SpeakerProfile := []
  domainKnowledge : List DomainKnowledgeItem := []
  aiMemory : List AiMemoryNote := []
  userFeedback : List TranscriptFeedback := []
  summaryTemplate : Option SummaryTemplate := none

/-- The fields of a summary request that are evidence of what a meeting is about. -/
structure ContextRequest where
  meetingId : String
  voiceChannelId : String
  voiceChannelName : Option String := none
  title : Option String := none

/-! ## Relevance -/

def cjkContextNgramChars : ℕ := 4

def cjkContextMinMatchingNgrams : ℕ := 2

def isWeakContextEvidenceToken (token : List Char) : Bool :=
  ["about", "after", "before", "from", "meeting", "note", "private", "public", "that", "this",
    "with"].contains (String.ofList token)

def contextEvidenceTokens (normalized : List Char) : List (List Char) :=
  (splitWhitespace normalized).filter fun token =>
    token.length ≥ 4 && !isWeakContextEvidenceToken token

def contextEvidenceTokenPairs (tokens : List (List Char)) : List (List Char) :=
  (windows 2 tokens).map (join [' '])

section

variable (tables : CaseTables)

def normalizeContextEvidence (value : List Char) : List Char :=
  let kept (c : Char) : Bool := tables.isAlphanumeric c ||
    (0x3040 ≤ c.toNat && c.toNat ≤ 0x30ff) || (0x4e00 ≤ c.toNat && c.toNat ≤ 0x9fff)
  join [' '] (splitWhitespace ((tables.lowercased value).map fun c => if kept c then c else ' '))

structure ContextRelevanceEvidence where
  meetingId : String
  normalizedHaystack : List Char

/-- The roster is sorted by speaker id before it becomes evidence. -/
def ContextRelevanceEvidence.new (request : ContextRequest) (speakers : List SpeakerProfile)
    (currentTranscript : Option (List Char)) : ContextRelevanceEvidence :=
  let roster := speakers.insertionSort fun left right =>
    (compare left.speakerId right.speakerId).isLE
  let named (speaker : SpeakerProfile) : List String := speaker.speakerId ::
    (speaker.username.toList ++ speaker.nickname.toList ++ speaker.displayName.toList)
  let meeting := request.meetingId :: request.voiceChannelId ::
    (request.voiceChannelName.toList ++ request.title.toList)
  { meetingId := request.meetingId
    normalizedHaystack := normalizeContextEvidence tables (join ['\n']
      (meeting.map String.toList ++ currentTranscript.toList ++
        (roster.flatMap named).map String.toList)) }

variable (evidence : ContextRelevanceEvidence)

def containsCjkPhrase (normalized : List Char) : Bool :=
  let runs := (normalized.splitOnP (!isCjkContextChar ·)).filter
    (·.length ≥ cjkContextNgramChars)
  runs.any fun run =>
    contains run evidence.normalizedHaystack ||
      ((windows cjkContextNgramChars run).filter
        (contains · evidence.normalizedHaystack)).dedup.length ≥ cjkContextMinMatchingNgrams

def containsPhrase (value : String) : Bool :=
  let normalized := normalizeContextEvidence tables value.toList
  let tokens := contextEvidenceTokens normalized
  (tokens.length ≥ 2 && normalized.length ≥ 8 &&
      contains normalized evidence.normalizedHaystack) ||
    (contextEvidenceTokenPairs tokens).any (contains · evidence.normalizedHaystack) ||
    containsCjkPhrase evidence normalized

def matchesDomainKnowledge (item : DomainKnowledgeItem) : Bool :=
  containsPhrase tables evidence item.title || containsPhrase tables evidence item.body

def matchesAiMemory (note : AiMemoryNote) : Bool :=
  match note.sourceMeetingId with
  | some meetingId => meetingId = evidence.meetingId
  | none => containsPhrase tables evidence note.title || containsPhrase tables evidence note.body

def matchesFeedback (feedback : TranscriptFeedback) : Bool :=
  match feedback.meetingId with
  | some meetingId => meetingId = evidence.meetingId
  | none =>
      feedback.originalText.any (containsPhrase tables evidence) ||
        feedback.correctedText.any (containsPhrase tables evidence) ||
        feedback.note.any (containsPhrase tables evidence)

/-! ## Selection -/

def selectsDomainKnowledge (item : DomainKnowledgeItem) : Bool :=
  item.active && item.archivedAt.isNone && item.allowSummaryContext &&
    matchesDomainKnowledge tables evidence item

def selectsAiMemory (note : AiMemoryNote) : Bool :=
  note.active && note.archivedAt.isNone && matchesAiMemory tables evidence note

def selectsFeedback (feedback : TranscriptFeedback) : Bool :=
  feedback.status = .accepted && matchesFeedback tables evidence feedback

end

def selectsTemplate (template : SummaryTemplate) : Bool :=
  template.active && template.archivedAt.isNone

def sortBy {α : Type} (order : α → α → Ordering) (items : List α) : List α :=
  items.insertionSort fun left right => (order left right).isLE

def leakCheckBodiesFromParts (domainKnowledge : List DomainKnowledgeItem)
    (aiMemory : List AiMemoryNote) (userFeedback : List TranscriptFeedback)
    (summaryTemplate : Option SummaryTemplate) : List MaterializedLeakCheckBody :=
  domainKnowledge.map (fun item => ⟨"domain knowledge", item.body.toList⟩) ++
    aiMemory.map (fun note => ⟨"AI memory note", note.body.toList⟩) ++
    userFeedback.flatMap (fun feedback =>
      feedback.note.toList.map (fun text => ⟨"user feedback note", text.toList⟩) ++
        feedback.correctedText.toList.map fun text => ⟨"user feedback", text.toList⟩) ++
    (summaryTemplate.filter selectsTemplate).toList.map fun template =>
      ⟨"summary template", template.template.toList⟩

/-- The protected bodies that `materialize_summary_context` records. -/
def materializedLeakBodies (tables : CaseTables) (request : ContextRequest)
    (context : SummaryContextInput) (currentTranscript : Option (List Char)) :
    List MaterializedLeakCheckBody :=
  let evidence := ContextRelevanceEvidence.new tables request context.speakers currentTranscript
  leakCheckBodiesFromParts
    (sortBy (fun left right => (compare left.contentType.asStr right.contentType.asStr).then
      ((compare left.title right.title).then (compare left.id right.id)))
      (context.domainKnowledge.filter (selectsDomainKnowledge tables evidence)))
    (sortBy (fun left right => (compare right.pinned left.pinned).then
      ((compare right.updatedAt left.updatedAt).then
        ((compare left.title right.title).then (compare left.id right.id))))
      (context.aiMemory.filter (selectsAiMemory tables evidence)))
    (sortBy (fun left right => (compare right.createdAt left.createdAt).then
      (compare left.id right.id))
      (context.userFeedback.filter (selectsFeedback tables evidence)))
    context.summaryTemplate

/-! ## Quoting the transcript -/

@[simp] theorem mem_sortBy {α : Type} {order : α → α → Ordering} {items : List α} {item : α} :
    item ∈ sortBy order items ↔ item ∈ items :=
  List.mem_insertionSort _

theorem leakCheckBodies_known (domainKnowledge : List DomainKnowledgeItem)
    (aiMemory : List AiMemoryNote) (userFeedback : List TranscriptFeedback)
    (summaryTemplate : Option SummaryTemplate) :
    KnownKinds
      (leakCheckBodiesFromParts domainKnowledge aiMemory userFeedback summaryTemplate) := by
  intro body hbody
  simp only [leakCheckBodiesFromParts, List.mem_append, List.mem_map, List.mem_flatMap] at hbody
  rcases hbody with ((⟨item, -, rfl⟩ | ⟨note, -, rfl⟩) | ⟨feedback, -, ⟨text, -, rfl⟩ |
    ⟨text, -, rfl⟩⟩) | ⟨template, -, rfl⟩
  all_goals rfl

/-- What a context holds of the protected kinds, each body under its kind, if it is selected
for the transcript. -/
inductive Selected (tables : CaseTables) (evidence : ContextRelevanceEvidence)
    (context : SummaryContextInput) : MaterializedLeakCheckBody → Prop
  | domainKnowledge {item : DomainKnowledgeItem} (hitem : item ∈ context.domainKnowledge)
      (hselected : selectsDomainKnowledge tables evidence item = true) :
      Selected tables evidence context ⟨"domain knowledge", item.body.toList⟩
  | aiMemory {note : AiMemoryNote} (hnote : note ∈ context.aiMemory)
      (hselected : selectsAiMemory tables evidence note = true) :
      Selected tables evidence context ⟨"AI memory note", note.body.toList⟩
  | feedbackNote {feedback : TranscriptFeedback} {text : String}
      (hfeedback : feedback ∈ context.userFeedback) (htext : feedback.note = some text)
      (hselected : selectsFeedback tables evidence feedback = true) :
      Selected tables evidence context ⟨"user feedback note", text.toList⟩
  | feedback {feedback : TranscriptFeedback} {text : String}
      (hfeedback : feedback ∈ context.userFeedback) (htext : feedback.correctedText = some text)
      (hselected : selectsFeedback tables evidence feedback = true) :
      Selected tables evidence context ⟨"user feedback", text.toList⟩
  | template {template : SummaryTemplate} (htemplate : context.summaryTemplate = some template)
      (hselected : selectsTemplate template = true) :
      Selected tables evidence context ⟨"summary template", template.template.toList⟩

theorem mem_materializedLeakBodies {tables : CaseTables} {request : ContextRequest}
    {context : SummaryContextInput} {currentTranscript : Option (List Char)}
    {body : MaterializedLeakCheckBody} :
    body ∈ materializedLeakBodies tables request context currentTranscript ↔
      Selected tables (.new tables request context.speakers currentTranscript) context body := by
  simp only [materializedLeakBodies, leakCheckBodiesFromParts, List.mem_append, List.mem_map,
    List.mem_flatMap, mem_sortBy, List.mem_filter, Option.mem_toList, Option.filter_eq_some_iff]
  constructor
  · rintro (((⟨item, ⟨hitem, hselected⟩, rfl⟩ | ⟨note, ⟨hnote, hselected⟩, rfl⟩) |
      ⟨feedback, ⟨hfeedback, hselected⟩, ⟨text, htext, rfl⟩ | ⟨text, htext, rfl⟩⟩) |
      ⟨template, ⟨htemplate, hselected⟩, rfl⟩)
    · exact .domainKnowledge hitem hselected
    · exact .aiMemory hnote hselected
    · exact .feedbackNote hfeedback htext hselected
    · exact .feedback hfeedback htext hselected
    · exact .template htemplate hselected
  · intro hselected
    cases hselected with
    | domainKnowledge hitem hselected => exact .inl (.inl (.inl ⟨_, ⟨hitem, hselected⟩, rfl⟩))
    | aiMemory hnote hselected => exact .inl (.inl (.inr ⟨_, ⟨hnote, hselected⟩, rfl⟩))
    | feedbackNote hfeedback htext hselected =>
        exact .inl (.inr ⟨_, ⟨hfeedback, hselected⟩, .inl ⟨_, htext, rfl⟩⟩)
    | feedback hfeedback htext hselected =>
        exact .inl (.inr ⟨_, ⟨hfeedback, hselected⟩, .inr ⟨_, htext, rfl⟩⟩)
    | template htemplate hselected => exact .inr ⟨_, ⟨htemplate, hselected⟩, rfl⟩

/-- The transcript passes the leak check of its own context exactly when it quotes no body
that is selected for it. -/
theorem transcript_not_leaked_iff {tables : CaseTables} (hdocumented : tables.Documented)
    (request : ContextRequest) (context : SummaryContextInput) (transcript : List Char) :
    summaryOutputVerbatimLeakInBodies tables transcript
        (materializedLeakBodies tables request context (some transcript)) = none ↔
      ∀ body, Selected tables (.new tables request context.speakers (some transcript)) context
        body → ¬ FoundIn tables transcript body := by
  have hknown : KnownKinds (materializedLeakBodies tables request context (some transcript)) :=
    leakCheckBodies_known _ _ _ _
  rw [verbatimLeak_eq_none_iff hdocumented hknown]
  constructor
  · intro hnone body hselected
    exact hnone body (mem_materializedLeakBodies.mpr hselected)
  · intro hnone body hbody
    exact hnone body (mem_materializedLeakBodies.mp hbody)

/-- A meeting in which two words of the glossary are said. -/
def glossaryMeeting : ContextRequest where
  meetingId := "m"
  voiceChannelId := "v"

def glossaryContext : SummaryContextInput where
  domainKnowledge := [⟨"k", .glossary, "t", "alpha beta", true, true, none⟩]

def glossaryTranscript : List Char := "[0-7] 1: alpha beta".toList

theorem spoken_glossary_leaked :
    (maskPii asciiPatterns (renderForSummary (normalizeSegments
      [{ speakerId := "1", startMs := 0, endMs := 7, text := "alpha beta".toList }])
      none)).text = glossaryTranscript ∧
    summaryOutputVerbatimLeakInBodies dottedTables glossaryTranscript
      (materializedLeakBodies dottedTables glossaryMeeting glossaryContext
        (some glossaryTranscript)) = some "domain knowledge" := by
  decide +kernel

theorem spoken_glossary_found :
    ¬ ∀ body, Selected dottedTables (.new dottedTables glossaryMeeting glossaryContext.speakers
        (some glossaryTranscript)) glossaryContext body →
      ¬ FoundIn dottedTables glossaryTranscript body := by
  rw [← transcript_not_leaked_iff dottedTables_documented]
  decide +kernel

end DiscordTranscript.Application
