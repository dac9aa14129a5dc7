import DiscordTranscript.Domain.Privacy
import DiscordTranscript.Foundation.Pattern

/-! # The patterns of the masking

The four regular expressions of `domain/privacy.rs` as patterns, and what a pass of
`replace_all` does with one: it goes through the text from left to right, keeps what is not
matched and what the filter spares, and puts placeholders for the rest. The tables of Unicode
are outside.
-/

namespace DiscordTranscript.Domain

open Text

/-- `\d` and `\w`. -/
structure UnicodeClasses where
  digit : Char → Bool
  word : Char → Bool
  digit_ascii : ∀ c, c.toNat < 128 → digit c = c.isDigit

/-- `[a-z]` regardless of case; the long s and the Kelvin sign are folded into it. -/
def isFoldedLetter (c : Char) : Bool := c.isAlpha || c = 'ſ' || c = '\u212A'

def isMailboxChar (c : Char) : Bool :=
  isFoldedLetter c || c.isDigit || ['.', '_', '%', '+', '-'].contains c

def isDomainChar (c : Char) : Bool := isFoldedLetter c || c.isDigit || ['.', '-'].contains c

def exactly (c : Char) : Pattern := .one (· = c)

section

variable (unicode : UnicodeClasses)

/-- `(?i)\b[a-z0-9._%+\-]+@[a-z0-9.\-]+\.[a-z]{2,}\b` -/
def emailPattern : Pattern :=
  .seq .wordBoundary (.seq (.many isMailboxChar 1 none) (.seq (exactly '@')
    (.seq (.many isDomainChar 1 none) (.seq (exactly '.')
      (.seq (.many isFoldedLetter 2 none) .wordBoundary)))))

/-- `<@!?\d+>|<@&\d+>` -/
def discordMentionPattern : Pattern :=
  .alt
    (.seq (exactly '<') (.seq (exactly '@') (.seq (.optional (exactly '!'))
      (.seq (.many unicode.digit 1 none) (exactly '>')))))
    (.seq (exactly '<') (.seq (exactly '@') (.seq (exactly '&')
      (.seq (.many unicode.digit 1 none) (exactly '>')))))

/-- `@[A-Za-z0-9_]{2,32}` -/
def atUsernamePattern : Pattern :=
  .seq (exactly '@') (.many (fun c => c.isAlphanum || c = '_') 2 (some 32))

def isPhoneChar (c : Char) : Bool :=
  unicode.digit c || c = '-' || isWhitespace c || c = '(' || c = ')' || c = '.'

/-- `\+?\d[\d\-\s().]{8,}\d` -/
def phonePattern : Pattern :=
  .seq (.optional (exactly '+')) (.seq (.one unicode.digit)
    (.seq (.many (isPhoneChar unicode) 8 none) (.one unicode.digit)))

/-- A regular expression that searches for a pattern as the crate documents it. -/
def UnicodeClasses.regex (pattern : Pattern) : Regex where
  cut input :=
    let found := pattern.search unicode.word none 0 input
    ⟨found.1, found.2⟩
  joined_cut input := Pattern.joined_search none input

/-- The regular expressions find what the crate documents for their patterns. -/
structure PiiPatterns.Documented (patterns : PiiPatterns) : Prop where
  email : patterns.email.cut = (unicode.regex emailPattern).cut
  discordMention : patterns.discordMention.cut = (unicode.regex (discordMentionPattern unicode)).cut
  atUsername : patterns.atUsername.cut = (unicode.regex atUsernamePattern).cut
  phone : patterns.phone.cut = (unicode.regex (phonePattern unicode)).cut

end

/-! ## A pass -/

section

variable (unicode : UnicodeClasses) (pattern : Pattern) (label : List Char)
  (filter : RegexMatch → Bool)

/-- A pass through the text behind what it has gone through already. -/
inductive Pass : List Char → List Char → List Char → Prop
  | done (before : List Char) : Pass before [] []
  | keep {before text out : List Char} {c : Char}
      (hnone : ∀ n, pattern.matchAt unicode.word before.getLast? (c :: text) = some n → n = 0)
      (hrest : Pass (before ++ [c]) text out) : Pass before (c :: text) (c :: out)
  | spare {before raw text out : List Char} (hraw : raw ≠ [])
      (hmatch : pattern.matchAt unicode.word before.getLast? (raw ++ text) = some raw.length)
      (hfilter : filter ⟨before, raw, text⟩ = false) (hrest : Pass (before ++ raw) text out) :
      Pass before (raw ++ text) (raw ++ out)
  | mask {before raw text out : List Char} (index : ℕ) (hraw : raw ≠ [])
      (hmatch : pattern.matchAt unicode.word before.getLast? (raw ++ text) = some raw.length)
      (hfilter : filter ⟨before, raw, text⟩ = true) (hrest : Pass (before ++ raw) text out) :
      Pass before (raw ++ text) (placeholder label index ++ out)

theorem replacePieces_consGap (found : Pattern.Found) (c : Char) (before : List Char)
    (registry : TokenRegistry) :
    (replacePieces label filter (found.consGap c).2 before registry (found.consGap c).1).1 =
      c :: (replacePieces label filter found.2 (before ++ [c]) registry found.1).1 := by
  obtain ⟨pieces, tail⟩ := found
  cases pieces with
  | nil => rfl
  | cons piece pieces =>
      obtain ⟨gap, raw⟩ := piece
      simp only [Pattern.Found.consGap, replacePieces, List.append_assoc, List.singleton_append]
      split <;> simp

theorem advance_getLast? (before raw : List Char) :
    Pattern.advance before.getLast? raw = (before ++ raw).getLast? := by
  rw [Pattern.advance, List.getLast?_append]

theorem pass_replacePieces (text before : List Char) (registry : TokenRegistry) :
    Pass unicode pattern label filter before text
      (replacePieces label filter (pattern.search unicode.word before.getLast? 0 text).2 before
        registry (pattern.search unicode.word before.getLast? 0 text).1).1 := by
  have hpass : ∀ before' registry, before'.getLast? = before.getLast? →
      Pass unicode pattern label filter before' text
        (replacePieces label filter (pattern.search unicode.word before.getLast? 0 text).2 before'
          registry (pattern.search unicode.word before.getLast? 0 text).1).1 := by
    apply Pattern.search_induction (motive := fun prev text found =>
      ∀ before' registry, before'.getLast? = prev → Pass unicode pattern label filter before' text
        (replacePieces label filter found.2 before' registry found.1).1)
    · intro prev before registry _
      exact .done before
    · rintro prev c rest hnone ih before registry rfl
      rw [replacePieces_consGap]
      refine .keep hnone (ih _ _ ?_)
      rw [List.getLast?_concat]
    · rintro prev raw rest hraw hmatch ih before registry rfl
      rw [advance_getLast?] at ih ⊢
      simp only [replacePieces, List.append_nil]
      have hafter : RegexCut.joined
          ⟨(pattern.search unicode.word (before ++ raw).getLast? 0 rest).1,
            (pattern.search unicode.word (before ++ raw).getLast? 0 rest).2⟩ = rest :=
        Pattern.joined_search _ rest
      rw [hafter]
      cases hfilter : filter ⟨before, raw, rest⟩ with
      | true =>
          simp only [List.nil_append, if_true]
          exact .mask _ hraw hmatch hfilter (ih _ _ rfl)
      | false =>
          simp only [List.nil_append, Bool.false_eq_true, if_false]
          exact .spare hraw hmatch hfilter (ih _ _ rfl)
  exact hpass before registry rfl

/-- The matches of a cut behind some text, each with the input around it. -/
def matchesFrom (tail : List Char) : List Char → List (List Char × List Char) → List RegexMatch
  | _, [] => []
  | before, (gap, raw) :: pieces =>
      { before := before ++ gap, raw, after := RegexCut.joined ⟨pieces, tail⟩ } ::
        matchesFrom tail (before ++ gap ++ raw) pieces

/-- The matches that the closure of `replace_all` is called with. -/
def Regex.found (regex : Regex) (input : List Char) : List RegexMatch :=
  matchesFrom (regex.cut input).tail [] (regex.cut input).pieces

theorem matchesFrom_consGap (found : Pattern.Found) (c : Char) (before : List Char) :
    matchesFrom (found.consGap c).2 before (found.consGap c).1 =
      matchesFrom found.2 (before ++ [c]) found.1 := by
  obtain ⟨pieces, tail⟩ := found
  cases pieces with
  | nil => rfl
  | cons piece pieces =>
      obtain ⟨gap, raw⟩ := piece
      simp [Pattern.Found.consGap, matchesFrom]

theorem matchAt_of_mem_matchesFrom {text : List Char} (before : List Char) {found : RegexMatch}
    (hfound : found ∈ matchesFrom (pattern.search unicode.word before.getLast? 0 text).2 before
      (pattern.search unicode.word before.getLast? 0 text).1) :
    before ++ text = found.before ++ (found.raw ++ found.after) ∧ found.raw ≠ [] ∧
      pattern.matchAt unicode.word found.before.getLast? (found.raw ++ found.after) =
        some found.raw.length := by
  have hall : ∀ before', before'.getLast? = before.getLast? →
      ∀ found ∈ matchesFrom (pattern.search unicode.word before.getLast? 0 text).2 before'
          (pattern.search unicode.word before.getLast? 0 text).1,
        before' ++ text = found.before ++ (found.raw ++ found.after) ∧ found.raw ≠ [] ∧
          pattern.matchAt unicode.word found.before.getLast? (found.raw ++ found.after) =
            some found.raw.length := by
    apply Pattern.search_induction (motive := fun prev text pieces =>
      ∀ before', before'.getLast? = prev → ∀ found ∈ matchesFrom pieces.2 before' pieces.1,
        before' ++ text = found.before ++ (found.raw ++ found.after) ∧ found.raw ≠ [] ∧
          pattern.matchAt unicode.word found.before.getLast? (found.raw ++ found.after) =
            some found.raw.length)
    · intro prev before _ found hfound
      cases hfound
    · rintro prev c rest _ ih before rfl found hfound
      rw [matchesFrom_consGap] at hfound
      have hlater := ih (before ++ [c]) (by rw [List.getLast?_concat]) found hfound
      simpa using hlater
    · rintro prev raw rest hraw hmatch ih before rfl found hfound
      simp only [matchesFrom, List.append_nil] at hfound
      rcases List.mem_cons.mp hfound with rfl | hfound
      · have hafter : RegexCut.joined
            ⟨(pattern.search unicode.word (Pattern.advance before.getLast? raw) 0 rest).1,
              (pattern.search unicode.word (Pattern.advance before.getLast? raw) 0 rest).2⟩ = rest :=
          Pattern.joined_search _ rest
        rw [hafter]
        exact ⟨rfl, hraw, hmatch⟩
      · have hlater := ih (before ++ raw) (advance_getLast? before raw).symm found hfound
        simpa using hlater
  exact hall before rfl found hfound

theorem matchAt_of_mem_found {regex : Regex} (hregex : regex.cut = (unicode.regex pattern).cut)
    {input : List Char} {found : RegexMatch} (hfound : found ∈ regex.found input) :
    input = found.before ++ (found.raw ++ found.after) ∧ found.raw ≠ [] ∧
      pattern.matchAt unicode.word found.before.getLast? (found.raw ++ found.after) =
        some found.raw.length := by
  unfold Regex.found at hfound
  rw [hregex] at hfound
  exact matchAt_of_mem_matchesFrom unicode pattern [] hfound

/-- A match that no earlier match reaches into is found. -/
theorem mem_matchesFrom {before front raw after : List Char} (hraw : raw ≠ [])
    (hstops : ∀ first back n, front = first ++ back → back ≠ [] →
      pattern.matchAt unicode.word (before ++ first).getLast? (back ++ (raw ++ after)) = some n →
      n ≤ back.length)
    (hmatch : pattern.matchAt unicode.word (before ++ front).getLast? (raw ++ after) =
      some raw.length) :
    ⟨before ++ front, raw, after⟩ ∈
      matchesFrom (pattern.search unicode.word before.getLast? 0 (front ++ (raw ++ after))).2 before
        (pattern.search unicode.word before.getLast? 0 (front ++ (raw ++ after))).1 := by
  induction hlength : front.length using Nat.strong_induction_on generalizing before front with
  | _ length ih =>
      cases front with
      | nil =>
          rw [List.append_nil] at hmatch
          rw [List.nil_append, Pattern.search_of_match hraw hmatch]
          have hafter : RegexCut.joined
              ⟨(pattern.search unicode.word (Pattern.advance before.getLast? raw) 0 after).1,
                (pattern.search unicode.word (Pattern.advance before.getLast? raw) 0 after).2⟩ =
              after := Pattern.joined_search _ after
          simp only [matchesFrom, hafter]
          exact List.mem_cons_self
      | cons c front =>
          by_cases hnone : ∀ n, pattern.matchAt unicode.word before.getLast?
              (c :: (front ++ (raw ++ after))) = some n → n = 0
          · rw [List.cons_append, Pattern.search_of_none hnone, matchesFrom_consGap]
            have hlater := @ih front.length (by rw [← hlength]; simp) (before ++ [c]) front (by
                intro first back n hfront hback hfound
                exact hstops (c :: first) back n (by rw [hfront]; rfl) hback (by simpa using hfound))
              (by simpa using hmatch) rfl
            simpa using hlater
          · push Not at hnone
            obtain ⟨n, hfound, hn⟩ := hnone
            have hle := hstops [] (c :: front) n rfl (List.cons_ne_nil _ _) (by simpa using hfound)
            -- The match found here ends before the other one begins.
            obtain ⟨other, back, hsplit, hother⟩ : ∃ other back, c :: front = other ++ back ∧
                other.length = n :=
              ⟨_, _, (List.take_append_drop n _).symm, by rw [List.length_take]; omega⟩
            have hne : other ≠ [] := by
              apply List.ne_nil_of_length_pos
              omega
            have hhere : pattern.matchAt unicode.word before.getLast?
                (other ++ (back ++ (raw ++ after))) = some other.length := by
              rw [← List.append_assoc, ← hsplit, hother]
              exact hfound
            have hshort : back.length < length := by
              rw [← hlength, hsplit, List.length_append]
              have hpos := List.length_pos_of_ne_nil hne
              omega
            rw [hsplit, List.append_assoc other, Pattern.search_of_match hne hhere]
            simp only [matchesFrom, List.append_nil]
            apply List.mem_cons_of_mem
            rw [advance_getLast?]
            have hlater := @ih back.length hshort (before ++ other) back (by
                intro first later n hback hlater hfound'
                exact hstops (other ++ first) later n (by rw [hsplit, hback, List.append_assoc])
                  hlater (by simpa using hfound'))
              (by rw [List.append_assoc, ← hsplit]; exact hmatch) rfl
            simpa using hlater

theorem mem_found {regex : Regex} (hregex : regex.cut = (unicode.regex pattern).cut)
    {before raw after : List Char} (hraw : raw ≠ [])
    (hstops : ∀ front back n, before = front ++ back → back ≠ [] →
      pattern.matchAt unicode.word front.getLast? (back ++ (raw ++ after)) = some n →
      n ≤ back.length)
    (hmatch : pattern.matchAt unicode.word before.getLast? (raw ++ after) = some raw.length) :
    ⟨before, raw, after⟩ ∈ regex.found (before ++ (raw ++ after)) := by
  unfold Regex.found
  rw [hregex]
  have hmem := @mem_matchesFrom unicode pattern [] before raw after hraw (by simpa using hstops)
    (by simpa using hmatch)
  rwa [List.nil_append] at hmem

theorem pass_replaceWithRegistryWithInput {regex : Regex}
    (hregex : regex.cut = (unicode.regex pattern).cut) (input : List Char)
    (registry : TokenRegistry) :
    Pass unicode pattern label filter [] input
      (replaceWithRegistryWithInput input regex label registry filter).1 := by
  unfold replaceWithRegistryWithInput
  rw [hregex]
  exact pass_replacePieces unicode pattern label filter input [] registry

end

end DiscordTranscript.Domain
