import DiscordTranscript.Foundation.Text

/-! # Masking of personal information

The model of `domain/privacy.rs`. The `regex` crate is outside: a pattern is what
its `find_iter` does to an input, cutting it into gaps and matches. Equal matches
of one registry get the same number.
-/

namespace DiscordTranscript.Domain

/-- The cut of an input by `find_iter`: a gap before every match, and what is left
after the last one. -/
structure RegexCut where
  pieces : List (List Char × List Char)
  tail : List Char

def RegexCut.joined (cut : RegexCut) : List Char :=
  (cut.pieces.flatMap fun piece => piece.1 ++ piece.2) ++ cut.tail

structure Regex where
  cut : List Char → RegexCut
  joined_cut : ∀ input, (cut input).joined = input

/-- The four patterns of the module. -/
structure PiiPatterns where
  email : Regex
  discordMention : Regex
  atUsername : Regex
  phone : Regex

structure MaskingStats where
  mentionReplacements : ℕ := 0
  emailReplacements : ℕ := 0
  phoneReplacements : ℕ := 0
  deriving DecidableEq, Repr

structure MaskedText where
  text : List Char
  stats : MaskingStats
  deriving DecidableEq, Repr

/-- The numbers given to raw matches, and how many replacements were made. -/
structure TokenRegistry where
  tokens : List (List Char × ℕ) := []
  nextIndex : ℕ := 0
  replacementCount : ℕ := 0

def TokenRegistry.entry (registry : TokenRegistry) (raw : List Char) : ℕ × TokenRegistry :=
  let counted := { registry with replacementCount := registry.replacementCount + 1 }
  match registry.tokens.lookup raw with
  | some index => (index, counted)
  | none =>
      let index := registry.nextIndex + 1
      (index, { counted with tokens := (raw, index) :: registry.tokens, nextIndex := index })

def placeholder (label : List Char) (index : ℕ) : List Char :=
  '[' :: label ++ '_' :: (toString index).toList ++ [']']

/-- A match together with the input around it. -/
structure RegexMatch where
  before : List Char
  raw : List Char
  after : List Char

/-- The closure of `replace_all`, run over the pieces of a cut. -/
def replacePieces (label : List Char) (filter : RegexMatch → Bool) (tail : List Char) :
    List Char → TokenRegistry → List (List Char × List Char) → List Char × TokenRegistry
  | _, registry, [] => (tail, registry)
  | before, registry, (gap, raw) :: pieces =>
      let found : RegexMatch :=
        { before := before ++ gap, raw, after := RegexCut.joined ⟨pieces, tail⟩ }
      let next := before ++ gap ++ raw
      if filter found then
        let (index, registry) := registry.entry raw
        let (text, registry) := replacePieces label filter tail next registry pieces
        (gap ++ placeholder label index ++ text, registry)
      else
        let (text, registry) := replacePieces label filter tail next registry pieces
        (gap ++ raw ++ text, registry)

def replaceWithRegistryWithInput (input : List Char) (regex : Regex) (label : List Char)
    (registry : TokenRegistry) (filter : RegexMatch → Bool) : List Char × TokenRegistry :=
  replacePieces label filter (regex.cut input).tail [] registry (regex.cut input).pieces

def countDigits (input : List Char) : ℕ := input.countP Char.isDigit

/-- Mentions such as `@EMAIL` are left to the placeholders they resemble. -/
def isPlainMention (found : RegexMatch) : Bool :=
  !"@EMAIL".toList.isPrefixOf found.raw && !"@USER".toList.isPrefixOf found.raw

/-- Ten digits, unless the match is a time stamp in square brackets. -/
def isPhoneNumber (found : RegexMatch) : Bool :=
  if countDigits found.raw < 10 then false
  else !(found.before.getLast? == some '[' && found.after.head? == some ']')

def maskPii (patterns : PiiPatterns) (input : List Char) : MaskedText :=
  let (value, emails) := replaceWithRegistryWithInput input patterns.email "EMAIL".toList {}
    fun _ => true
  let (value, mentions) := replaceWithRegistryWithInput value patterns.discordMention
    "USER".toList {} fun _ => true
  let (value, mentions) := replaceWithRegistryWithInput value patterns.atUsername "USER".toList
    mentions isPlainMention
  let (value, phones) := replaceWithRegistryWithInput value patterns.phone "PHONE".toList {}
    isPhoneNumber
  { text := value
    stats :=
      { mentionReplacements := mentions.replacementCount
        emailReplacements := emails.replacementCount
        phoneReplacements := phones.replacementCount } }

end DiscordTranscript.Domain
