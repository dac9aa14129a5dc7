import Mathlib.Tactic.Common
import DiscordTranscript.Application.LeakCheck

/-! # What the leak check promises

Which of its promises the leak check keeps: that it flags only copies by whole words, and
that no decoration of a copy hides it. The first fails where the words of a protected run
are parts of longer words, the second where a lowercase word has a character that is not
alphanumeric and that the second normalisation therefore drops.
-/

namespace DiscordTranscript.Application

open Text

section

variable (tables : CaseTables)

/-! ## Only documented copies -/

def FlagsAsDocumented (markdown : List Char) (bodies : List MaterializedLeakCheckBody) : Prop :=
  ∀ kind, summaryOutputVerbatimLeakInBodies tables markdown bodies = some kind →
    ∃ body ∈ bodies, body.kind = kind ∧ DocumentedLeak tables markdown body

/-- The check flags only what is documented exactly when each body that only torn words
quote comes after a body that is found, or shares its kind with a body that is quoted. -/
theorem flags_as_documented_iff (hdocumented : tables.Documented) (markdown : List Char)
    (bodies : List MaterializedLeakCheckBody) (hknown : KnownKinds bodies) :
    FlagsAsDocumented tables markdown bodies ↔
      ∀ front body back, bodies = front ++ body :: back → TornOnly tables markdown body →
        (∃ earlier ∈ front, FoundIn tables markdown earlier) ∨
          ∃ other ∈ bodies, other.kind = body.kind ∧ DocumentedLeak tables markdown other := by
  constructor
  · rintro hflags front body back hsplit ⟨-, htorn⟩
    by_cases hearlier : ∃ earlier ∈ front, FoundIn tables markdown earlier
    · exact .inl hearlier
    · have hnone : ∀ other ∈ front, ¬ FoundIn tables markdown other := by
        intro other hother hfound
        exact hearlier ⟨other, hother, hfound⟩
      exact .inr (hflags body.kind ((verbatimLeak_eq_some_iff hdocumented hknown).mpr
        ⟨front, body, back, hsplit, hnone, .inl htorn, rfl⟩))
  · intro hcondition kind hflagged
    obtain ⟨front, body, back, hsplit, hnone, hfound, rfl⟩ :=
      (verbatimLeak_eq_some_iff hdocumented hknown).mp hflagged
    by_cases hquoted : DocumentedLeak tables markdown body
    · exact ⟨body, by rw [hsplit]; simp, rfl, hquoted⟩
    · rcases hfound with htorn | hcjk
      · rcases hcondition front body back hsplit ⟨hquoted, htorn⟩ with hearlier | hother
        · obtain ⟨earlier, hmem, hbefore⟩ := hearlier
          exact absurd hbefore (hnone earlier hmem)
        · exact hother
      · exact absurd (.inr hcjk) hquoted

/-! ## Decorated copies -/

/-- The token is the word with characters inserted that are neither alphanumeric nor white
space, and with ASCII letters in either case. -/
inductive Decorates : List Char → List Char → Prop
  | nil : Decorates [] []
  | inserted {c : Char} {token word : List Char} (hc : tables.isAlphanumeric c = false)
      (hspace : isWhitespace c = false) (hrest : Decorates token word) :
      Decorates (c :: token) word
  | letter {c d : Char} {token word : List Char} (hcase : c.toLower = d.toLower)
      (hrest : Decorates token word) : Decorates (c :: token) (d :: word)

/-- The tokens decorate the words one by one, with punctuation between them. -/
inductive DecoratedTokens : List (List Char) → List (List Char) → Prop
  | nil : DecoratedTokens [] []
  | punctuation {token : List Char} {tokens run : List (List Char)}
      (htoken : ∀ c ∈ token, tables.isAlphanumeric c = false)
      (hrest : DecoratedTokens tokens run) : DecoratedTokens (token :: tokens) run
  | word {token word : List Char} {tokens run : List (List Char)}
      (htoken : Decorates tables token word) (hrest : DecoratedTokens tokens run) :
      DecoratedTokens (token :: tokens) (word :: run)

/-- The output contains the words of the run in order, decorated. -/
def DecoratedRun (run : List (List Char)) (markdown : List Char) : Prop :=
  ∃ front tokens back, splitWhitespace markdown = front ++ tokens ++ back ∧
    DecoratedTokens tables tokens run

def AlphanumericRun (run : List (List Char)) : Prop :=
  ∀ word ∈ run, ∀ c ∈ word, tables.isAlphanumeric c = true

variable {tables}

/-- Dropping what was inserted leaves the letters of the word. -/
theorem Decorates.filter (hdocumented : tables.Documented) {token word : List Char}
    (hdecorates : Decorates tables token word)
    (hword : ∀ c ∈ word, tables.isAlphanumeric c = true) :
    (token.filter tables.isAlphanumeric).map Char.toLower = word.map Char.toLower := by
  induction hdecorates with
  | nil => rfl
  | inserted hc _ _ ih =>
      rw [List.filter_cons_of_neg (by simp [hc])]
      exact ih hword
  | @letter c d token word hcase _ ih =>
      have hd := hword d List.mem_cons_self
      have hc : tables.isAlphanumeric c = true := by
        rw [← hdocumented.alphanumeric_toLower, hcase, hdocumented.alphanumeric_toLower]
        exact hd
      rw [List.filter_cons_of_pos hc, List.map_cons, List.map_cons, hcase,
        ih fun e he => hword e (List.mem_cons_of_mem _ he)]

/-- A decorated word normalises to the word. -/
theorem Decorates.lowercased (hdocumented : tables.Documented) {text token word : List Char}
    (hdecorates : Decorates tables token word)
    (hmem : word ∈ normalizedLeakWords tables text)
    (hword : ∀ c ∈ word, tables.isAlphanumeric c = true) :
    tables.lowercased (token.filter tables.isAlphanumeric) = word := by
  obtain ⟨-, letters, -, hletters⟩ := exists_of_mem_normalizedLeakWords hmem
  calc tables.lowercased (token.filter tables.isAlphanumeric)
      = tables.lowercased ((token.filter tables.isAlphanumeric).map Char.toLower) :=
        (hdocumented.lowercased_ascii_case _).symm
    _ = tables.lowercased (word.map Char.toLower) := by
        rw [hdecorates.filter hdocumented hword]
    _ = tables.lowercased word := hdocumented.lowercased_ascii_case _
    _ = word := hdocumented.lowercased_again letters word fun c hc => hletters ▸ hc

/-- The words that the tokens of a text normalise to. -/
def normalizedTokens (tables : CaseTables) (tokens : List (List Char)) : List (List Char) :=
  (tokens.map fun token => tables.lowercased (token.filter tables.isAlphanumeric)).filter
    (!·.isEmpty)

theorem normalizedTokens_append (front back : List (List Char)) :
    normalizedTokens tables (front ++ back) =
      normalizedTokens tables front ++ normalizedTokens tables back := by
  rw [normalizedTokens, List.map_append, List.filter_append]
  rfl

theorem lowercased_nil (hdocumented : tables.Documented) : tables.lowercased [] = [] :=
  hdocumented.lowercased_again [] [] (by simp)

theorem DecoratedTokens.normalized (hdocumented : tables.Documented) {text : List Char}
    {tokens run : List (List Char)} (htokens : DecoratedTokens tables tokens run)
    (hrun : ∀ word ∈ run, word ∈ normalizedLeakWords tables text)
    (halphanumeric : AlphanumericRun tables run) : normalizedTokens tables tokens = run := by
  induction htokens with
  | nil => rfl
  | @punctuation token tokens run htoken _ ih =>
      have hempty : token.filter tables.isAlphanumeric = [] := by
        rw [List.filter_eq_nil_iff]
        intro c hc
        simp [htoken c hc]
      rw [← ih hrun halphanumeric, normalizedTokens, List.map_cons, hempty,
        lowercased_nil hdocumented]
      rfl
  | @word token word tokens run htoken _ ih =>
      have hword := hrun word List.mem_cons_self
      have hnonempty := (exists_of_mem_normalizedLeakWords hword).1
      have hlowercased := htoken.lowercased hdocumented hword
        (halphanumeric word List.mem_cons_self)
      have hrest := ih (fun w hw => hrun w (List.mem_cons_of_mem _ hw))
        (fun w hw => halphanumeric w (List.mem_cons_of_mem _ hw))
      rw [normalizedTokens, List.map_cons, hlowercased,
        List.filter_cons_of_pos (by simpa using hnonempty)]
      exact congrArg (word :: ·) hrest

/-- A decorated run of alphanumeric words is a run of words of the output. -/
theorem DecoratedRun.found (hdocumented : tables.Documented) {text markdown : List Char}
    {run : List (List Char)} (hdecorated : DecoratedRun tables run markdown)
    (hrun : ∀ word ∈ run, word ∈ normalizedLeakWords tables text)
    (halphanumeric : AlphanumericRun tables run) :
    run <:+: normalizedLeakWords tables markdown := by
  obtain ⟨front, tokens, back, hsplit, htokens⟩ := hdecorated
  have hwords : normalizedLeakWords tables markdown =
      normalizedTokens tables (front ++ tokens ++ back) := by
    rw [← hsplit]
    rfl
  rw [hwords, normalizedTokens_append, normalizedTokens_append,
    htokens.normalized hdocumented hrun halphanumeric]
  exact List.infix_append _ _ _

/-! ## The words themselves -/

theorem Decorates.refl (word : List Char) : Decorates tables word word := by
  induction word with
  | nil => exact .nil
  | cons c word ih => exact .letter rfl ih

theorem DecoratedTokens.refl (run : List (List Char)) : DecoratedTokens tables run run := by
  induction run with
  | nil => exact .nil
  | cons word run ih => exact .word (.refl word) ih

theorem splitWhitespace_join {words : List (List Char)}
    (hwords : ∀ word ∈ words, word ≠ [] ∧ ∀ c ∈ word, isWhitespace c = false) :
    splitWhitespace (join [' '] words) = words := by
  have hspace : isWhitespace ' ' = true := by decide
  induction words with
  | nil => simp [splitWhitespace, join]
  | cons word words ih =>
      obtain ⟨hnonempty, hclean⟩ := hwords word List.mem_cons_self
      have hrest := ih fun w hw => hwords w (List.mem_cons_of_mem _ hw)
      by_cases hlast : words = []
      · subst hlast
        rw [join, List.intercalate_singleton, splitWhitespace, List.splitOnP_eq_singleton hclean]
        simp [hnonempty]
      · rw [join, Separated.intercalate_cons hlast, splitWhitespace,
          List.splitOnP_append_cons_of_forall_mem hclean ' ' hspace,
          List.filter_cons_of_pos (by simpa using hnonempty)]
        exact congrArg (word :: ·) hrest

theorem decoratedRun_join (hdocumented : tables.Documented) {text : List Char}
    {run : List (List Char)} (hrun : ∀ word ∈ run, word ∈ normalizedLeakWords tables text) :
    splitWhitespace (join [' '] run) = run ∧ DecoratedRun tables run (join [' '] run) := by
  have hsplit : splitWhitespace (join [' '] run) = run := by
    apply splitWhitespace_join
    intro word hword
    exact ⟨(exists_of_mem_normalizedLeakWords (hrun word hword)).1,
      not_space_of_mem_normalizedLeakWords hdocumented (hrun word hword)⟩
  exact ⟨hsplit, [], run, [], by simpa using hsplit, .refl run⟩

/-- Normalising the words of a run drops the characters that are not alphanumeric. -/
theorem normalizedLeakWords_join (hdocumented : tables.Documented) {text : List Char}
    {run : List (List Char)} (hrun : ∀ word ∈ run, word ∈ normalizedLeakWords tables text) :
    (normalizedLeakWords tables (join [' '] run)).flatten =
      run.flatten.filter tables.isAlphanumeric := by
  have hwords : normalizedLeakWords tables (join [' '] run) = normalizedTokens tables run := by
    rw [normalizedLeakWords, (decoratedRun_join hdocumented hrun).1]
    rfl
  have hfiltered : ∀ word ∈ run, tables.lowercased (word.filter tables.isAlphanumeric) =
      word.filter tables.isAlphanumeric := by
    intro word hword
    obtain ⟨-, letters, -, rfl⟩ := exists_of_mem_normalizedLeakWords (hrun word hword)
    exact hdocumented.lowercased_again letters _ fun c hc => (List.mem_filter.mp hc).1
  rw [hwords, normalizedTokens, List.map_congr_left hfiltered, List.flatten_filter_not_isEmpty,
    List.filter_flatten]

/-- A body that is a protected run as a whole has no other. -/
theorem ProtectedRun.eq_whole {body : MaterializedLeakCheckBody} {run : List (List Char)}
    (hwhole : ProtectedRun tables body (normalizedLeakWords tables body.body))
    (hrun : ProtectedRun tables body run) : run = normalizedLeakWords tables body.body := by
  have hlength : (normalizedLeakWords tables body.body).length ≤ contextLeakWindowWords := by
    rcases hwhole with ⟨-, hlength⟩ | ⟨-, -, -, hshort⟩
    · exact hlength.le
    · exact hshort.le
  rcases hrun with ⟨hwithin, hwindow⟩ | ⟨heq, -⟩
  · exact hwithin.eq_of_length (le_antisymm hwithin.length_le (hwindow ▸ hlength))
  · exact heq

/-- A body is not found in its own words when they lose a character in normalising. -/
theorem alphanumericRun_of_foundIn (hdocumented : tables.Documented)
    {body : MaterializedLeakCheckBody}
    (hcjk : (normalizedLeakCompact tables body.body).countP isCjkContextChar <
      contextLeakMinCjkBodyChars)
    (hwhole : ProtectedRun tables body (normalizedLeakWords tables body.body))
    (hfound : FoundIn tables (join [' '] (normalizedLeakWords tables body.body)) body) :
    AlphanumericRun tables (normalizedLeakWords tables body.body) := by
  rcases hfound with ⟨run, hrun, hglued⟩ | ⟨hcount, -⟩
  · rw [hwhole.eq_whole hrun] at hglued
    have hle := hglued.length_flatten_le
    rw [normalizedLeakWords_join hdocumented fun word hword => hword] at hle
    have hall := List.filter_eq_self.mp
      (List.filter_sublist.eq_of_length_le hle)
    intro word hword c hc
    exact hall c (List.mem_flatten_of_mem hword hc)
  · exact absurd hcount (not_le.mpr hcjk)

/-! ## The whole check -/

/-- No decoration hides a copy of alphanumeric words. A body whose only protected run has a
character that is not alphanumeric is missed where its words are written out. -/
theorem decorated_leak_found (hdocumented : tables.Documented) :
    (∀ bodies : List MaterializedLeakCheckBody, KnownKinds bodies → ∀ body ∈ bodies,
      (∀ run, ProtectedRun tables body run → AlphanumericRun tables run →
        ∀ markdown, DecoratedRun tables run markdown →
          (summaryOutputVerbatimLeakInBodies tables markdown bodies).isSome = true) ∧
      ∀ window markdown, contextLeakMinCjkBodyChars ≤
          (normalizedLeakCompact tables body.body).countP isCjkContextChar →
        window <:+: normalizedLeakCompact tables body.body →
        window.length = contextLeakCjkWindowChars →
        contextLeakCjkWindowMinCjkChars ≤ window.countP isCjkContextChar →
        window <:+: normalizedLeakCompact tables markdown →
          (summaryOutputVerbatimLeakInBodies tables markdown bodies).isSome = true) ∧
    ∀ body, KnownKinds [body] →
      (normalizedLeakCompact tables body.body).countP isCjkContextChar <
        contextLeakMinCjkBodyChars →
      ProtectedRun tables body (normalizedLeakWords tables body.body) →
      ((∀ markdown, DecoratedRun tables (normalizedLeakWords tables body.body) markdown →
          (summaryOutputVerbatimLeakInBodies tables markdown [body]).isSome = true) ↔
        AlphanumericRun tables (normalizedLeakWords tables body.body)) := by
  have hfound : ∀ {bodies : List MaterializedLeakCheckBody} {markdown : List Char}
      {body : MaterializedLeakCheckBody}, KnownKinds bodies → body ∈ bodies →
      FoundIn tables markdown body →
      (summaryOutputVerbatimLeakInBodies tables markdown bodies).isSome = true := by
    intro bodies markdown body hknown hbody hfound
    rw [← Option.ne_none_iff_isSome]
    intro hnone
    exact (verbatimLeak_eq_none_iff hdocumented hknown).mp hnone body hbody hfound
  have hdecorated : ∀ bodies : List MaterializedLeakCheckBody, KnownKinds bodies →
      ∀ body ∈ bodies, ∀ run, ProtectedRun tables body run → AlphanumericRun tables run →
      ∀ markdown, DecoratedRun tables run markdown →
        (summaryOutputVerbatimLeakInBodies tables markdown bodies).isSome = true := by
    intro bodies hknown body hbody run hrun halphanumeric markdown hdecorated
    apply hfound hknown hbody
    apply foundIn_of_documentedLeak
    exact .inl ⟨run, hrun, hdecorated.found hdocumented hrun.subset halphanumeric⟩
  refine ⟨fun bodies hknown body hbody => ⟨hdecorated bodies hknown body hbody, ?_⟩, ?_⟩
  · intro window markdown hcount hwindow hlength hcjk hcopied
    apply hfound hknown hbody
    exact .inr ⟨hcount, .inr ⟨window, hwindow, hlength, hcjk, hcopied⟩⟩
  · intro body hknown hcjk hwhole
    constructor
    · intro hall
      have hleak := hall _ (decoratedRun_join hdocumented fun word hword => hword).2
      apply alphanumericRun_of_foundIn hdocumented hcjk hwhole
      by_contra hmissed
      rw [(verbatimLeak_eq_none_iff hdocumented hknown).mpr (by simpa using hmissed)] at hleak
      cases hleak
    · intro halphanumeric
      exact hdecorated [body] hknown body List.mem_cons_self _ hwhole halphanumeric

end

/-! ## Concrete tables -/

/-- The mappings of ASCII and of the one letter whose lowercase is not a single letter. -/
def lowerDotted (c : Char) : List Char := if c = 'İ' then ['i', '\u0307'] else [c.toLower]

def dottedTables : CaseTables where
  isAlphanumeric c := c.isAlphanum || c = 'İ'
  toLowercase := lowerDotted
  lowercased text := text.flatMap lowerDotted

theorem toNat_toLower (c : Char) : c.toLower.toNat =
    if 65 ≤ c.toNat ∧ c.toNat ≤ 90 then c.toNat + 32 else c.toNat := by
  unfold Char.toLower
  split
  next hupper =>
    have hbounds : 65 ≤ c.toNat ∧ c.toNat ≤ 90 := by
      simpa [UInt32.le_iff_toNat_le, Char.toNat_val] using hupper
    rw [if_pos hbounds]
    change (c.val + 32).toNat = c.toNat + 32
    rw [UInt32.toNat_add, Char.toNat_val]
    exact Nat.mod_eq_of_lt (by grind)
  next hupper =>
    have hbounds : ¬(65 ≤ c.toNat ∧ c.toNat ≤ 90) := by
      simpa [UInt32.le_iff_toNat_le, Char.toNat_val] using hupper
    rw [if_neg hbounds]

theorem toLower_eq_dotted_iff (c : Char) : c.toLower = 'İ' ↔ c = 'İ' := by
  rw [← Char.toNat_inj, ← Char.toNat_inj, toNat_toLower, (by decide : 'İ'.toNat = 304)]
  grind

theorem toLower_toLower (c : Char) : c.toLower.toLower = c.toLower := by
  rw [← Char.toNat_inj, toNat_toLower, toNat_toLower]
  grind

theorem lowerDotted_toLower (c : Char) : lowerDotted c.toLower = lowerDotted c := by
  rw [lowerDotted, lowerDotted, toLower_toLower]
  simp only [toLower_eq_dotted_iff]

theorem lowerDotted_again {c d : Char} (hc : c ∈ lowerDotted d) : lowerDotted c = [c] := by
  unfold lowerDotted at hc
  split at hc
  next =>
    rcases List.mem_pair.mp hc with rfl | rfl <;> decide
  next hother =>
    rw [List.mem_singleton.mp hc, lowerDotted, if_neg (mt (toLower_eq_dotted_iff d).mp hother),
      toLower_toLower]

theorem isAlphanum_toLower (c : Char) : c.toLower.isAlphanum = c.isAlphanum := by
  rw [Bool.eq_iff_iff, isAlphanum_iff_toNat, isAlphanum_iff_toNat, toNat_toLower]
  grind

theorem isWhitespace_of_isAlphanum {c : Char} (hc : c.isAlphanum = true) :
    isWhitespace c = false := by
  rw [isAlphanum_iff_toNat] at hc
  apply isWhitespace_of_visible
  · grind
  · grind

theorem dottedTables_documented : dottedTables.Documented where
  alphanumeric_toLower c := by
    simp [dottedTables, toLower_eq_dotted_iff, isAlphanum_toLower]
  lowercased_not_space text hletters c hc := by
    obtain ⟨d, hd, hc⟩ := List.mem_flatMap.mp hc
    have hletter := hletters d hd
    unfold lowerDotted at hc
    split at hc
    next => rcases List.mem_pair.mp hc with rfl | rfl <;> decide
    next hother =>
      have halphanum : d.isAlphanum = true := by simpa [dottedTables, hother] using hletter
      rw [List.mem_singleton.mp hc]
      exact isWhitespace_of_isAlphanum (by rw [isAlphanum_toLower, halphanum])
  lowercased_ascii_case text := by
    simp [dottedTables, List.flatMap_map, lowerDotted_toLower]
  lowercased_again text word hword := by
    have hfixed : ∀ c ∈ word, lowerDotted c = [c] := by
      intro c hc
      obtain ⟨d, -, hd⟩ := List.mem_flatMap.mp (hword c hc)
      exact lowerDotted_again hd
    calc word.flatMap lowerDotted = word.flatMap fun c => [c] := List.flatMap_congr hfixed
      _ = word := List.flatMap_singleton' word

def protectedBody (body : List Char) : MaterializedLeakCheckBody := ⟨"domain knowledge", body⟩

theorem protectedBody_known (body : List Char) : KnownKinds [protectedBody body] := by
  intro other hother
  rw [List.mem_singleton.mp hother]
  exact (by decide : leakKindStatic "domain knowledge" = some "domain knowledge")

/-- All words of a body of two to fourteen words are protected. -/
theorem protectedRun_whole {body : List Char}
    (hmin : 2 ≤ (normalizedLeakWords dottedTables body).length)
    (hmax : (normalizedLeakWords dottedTables body).length < 15) :
    ProtectedRun dottedTables (protectedBody body) (normalizedLeakWords dottedTables body) :=
  .inr ⟨rfl, (by decide : leakBodyShortMatch "domain knowledge" = true), hmin, hmax⟩

/-- Only the two words of the output hold the two words of the body. -/
theorem torn_words_flagged :
    ¬ FlagsAsDocumented dottedTables "start off".toList [protectedBody "art of".toList] := by
  have hwords : normalizedLeakWords dottedTables "art of".toList = ["art".toList, "of".toList] := by
    decide +kernel
  have houtput : normalizedLeakWords dottedTables "start off".toList =
      ["start".toList, "off".toList] := by
    decide +kernel
  intro hflags
  obtain ⟨body, hbody, -, hleak⟩ := hflags "domain knowledge" (by decide +kernel)
  rw [List.mem_singleton.mp hbody] at hleak
  rcases hleak with ⟨run, hrun, hwithin⟩ | ⟨hcount, -⟩
  · have hwhole : run = normalizedLeakWords dottedTables "art of".toList := by
      apply ProtectedRun.eq_whole (protectedRun_whole _ _) hrun
      · rw [hwords]
        decide
      · rw [hwords]
        decide
    rw [hwhole, hwords, houtput] at hwithin
    have hmem : "art".toList ∈ ["start".toList, "off".toList] := hwithin.subset (by simp)
    revert hmem
    decide +kernel
  · revert hcount
    decide +kernel

theorem whole_words_flagged_as_documented :
    FlagsAsDocumented dottedTables "the launch code".toList
      [protectedBody "launch code".toList] := by
  have hbody : normalizedLeakWords dottedTables "launch code".toList =
      ["launch".toList, "code".toList] := by
    decide +kernel
  have houtput : normalizedLeakWords dottedTables "the launch code".toList =
      ["the".toList, "launch".toList, "code".toList] := by
    decide +kernel
  refine (flags_as_documented_iff dottedTables dottedTables_documented _ _
    (protectedBody_known _)).mpr ?_
  intro front body back hsplit htorn
  have hmem : body ∈ [protectedBody "launch code".toList] := by
    rw [hsplit]
    simp
  refine .inr ⟨body, hmem, rfl, .inl ⟨["launch".toList, "code".toList], ?_, ?_⟩⟩
  · rw [List.mem_singleton.mp hmem, ← hbody]
    exact protectedRun_whole (by rw [hbody]; decide) (by rw [hbody]; decide)
  · rw [houtput]
    exact ⟨["the".toList], [], rfl⟩

/-- The body is written out in its own normalised words, and the check misses it. -/
theorem dotted_words_missed :
    KnownKinds [protectedBody "İ x".toList] ∧
      ProtectedRun dottedTables (protectedBody "İ x".toList) [['i', '\u0307'], ['x']] ∧
      DecoratedRun dottedTables [['i', '\u0307'], ['x']] ['i', '\u0307', ' ', 'x'] ∧
      summaryOutputVerbatimLeakInBodies dottedTables ['i', '\u0307', ' ', 'x']
        [protectedBody "İ x".toList] = none := by
  have hwords : normalizedLeakWords dottedTables "İ x".toList = [['i', '\u0307'], ['x']] := by
    decide +kernel
  refine ⟨protectedBody_known _, ?_, ⟨[], _, [], ?_, .refl _⟩, by decide +kernel⟩
  · rw [← hwords]
    exact protectedRun_whole (by rw [hwords]; decide) (by rw [hwords]; decide)
  · decide +kernel

theorem decorated_words_found :
    (summaryOutputVerbatimLeakInBodies dottedTables "a *GO - u.p".toList
      [protectedBody "Go up".toList]).isSome = true := by
  have hwords : normalizedLeakWords dottedTables "Go up".toList = [['g', 'o'], ['u', 'p']] := by
    decide +kernel
  refine ((decorated_leak_found dottedTables_documented).1 _ (protectedBody_known _) _
    List.mem_cons_self).1 [['g', 'o'], ['u', 'p']] ?_ ?_ _ ?_
  · rw [← hwords]
    exact protectedRun_whole (by rw [hwords]; decide) (by rw [hwords]; decide)
  · simp [AlphanumericRun, dottedTables]
  · refine ⟨[['a']], [['*', 'G', 'O'], ['-'], ['u', '.', 'p']], [], by decide +kernel, ?_⟩
    refine .word (.inserted (by decide) (by decide) (.letter (by decide) (.letter (by decide)
      .nil))) (.punctuation (by simp [dottedTables]) (.word (.letter rfl (.inserted (by decide)
      (by decide) (.letter rfl .nil))) .nil))

end DiscordTranscript.Application
