import DiscordTranscript.Domain.MaskedAddress
import DiscordTranscript.Domain.MaskedParts

/-! # Masking a masked text

Tokens stand in brackets, which no pattern matches, so that a second masking looks at the stretches
that the first one kept. Mentions and names that were spared are spared again, and so are phone
numbers as long as the numbers of tokens are short. What is new to the second masking is an address
that began or ended at a phone number: between letters and digits there is no word boundary.
-/

namespace DiscordTranscript.Domain

section

variable {unicode : UnicodeClasses} {pattern : Pattern}

/-! ## Passes that take every match -/

/-- A pass replaces nothing where its pattern matches nowhere. -/
theorem Cuts.rest_eq_nil_iff
    (hnonempty : ∀ prev after, ¬pattern.Matches unicode.word prev [] after)
    {before text : List Char} {stretches : Stretches}
    (hcuts : Cuts unicode pattern (fun _ => true) before text stretches) :
    stretches.rest = [] ↔ ∀ front raw back, text = front ++ (raw ++ back) → raw ≠ [] →
      ¬pattern.Matches unicode.word (before ++ front).getLast? raw back := by
  induction hcuts with
  | done before =>
      simp only [true_iff]
      intro front raw back htext hraw
      simp_all
  | @keep before text c stretches hnone _ ih =>
      rw [Stretches.rest_keep, ih]
      constructor
      · intro hrest front raw back htext hraw hmatches
        cases front with
        | nil =>
            obtain ⟨n, hn, hpos⟩ := Pattern.matchAt_of_matches unicode.word hnonempty hmatches
            rw [List.append_nil, ← List.nil_append (raw ++ back), ← htext] at hn
            have hzero := hnone n hn
            omega
        | cons d front =>
            obtain ⟨rfl, hfront⟩ := List.cons.inj htext
            exact hrest front raw back hfront hraw (by simpa using hmatches)
      · intro hall front raw back htext hraw hmatches
        exact hall (c :: front) raw back (by rw [htext]; rfl) hraw (by simpa using hmatches)
  | spare _ _ hfilter => cases hfilter
  | @mask before raw text stretches hraw hmatch _ _ _ =>
      refine iff_of_false (List.cons_ne_nil _ _) ?_
      intro hall
      have hmatches := (Pattern.matches_of_matchAt unicode.word hmatch).2
      rw [List.take_left, List.drop_left] at hmatches
      exact hall [] raw text rfl hraw (by rwa [List.append_nil])

/-- A pass leaves the text as it is when its filter takes none of the matches. -/
theorem rest_eq_nil_iff_found {regex : Regex} {filter : RegexMatch → Bool} {input : List Char} :
    (regex.stretches filter input).rest = [] ↔ ∀ found ∈ regex.found input, ¬filter found = true := by
  rw [Stretches.rest_eq_nil_iff, Regex.raws_stretches, List.map_eq_nil_iff, List.filter_eq_nil_iff]

theorem stretches_rest_eq_nil_iff {regex : Regex}
    (hregex : regex.cut = (unicode.regex pattern).cut)
    (hnonempty : ∀ prev after, ¬pattern.Matches unicode.word prev [] after) (input : List Char) :
    (regex.stretches (fun _ => true) input).rest = [] ↔ pattern.NoMatch unicode.word input :=
  (cuts_stretches hregex input).rest_eq_nil_iff hnonempty

/-- The pattern does not see what is around a match. -/
def Unbounded (unicode : UnicodeClasses) (pattern : Pattern) : Prop :=
  ∀ prev prev' raw after after', pattern.Matches unicode.word prev raw after →
    pattern.Matches unicode.word prev' raw after'

theorem noMatch_nil : pattern.NoMatch unicode.word [] := by
  intro front raw back htext hraw
  simp_all

/-- No stretch that such a pass keeps has a match of its own. -/
theorem Cuts.noMatch_kept (hunbounded : Unbounded unicode pattern)
    (hnonempty : ∀ prev after, ¬pattern.Matches unicode.word prev [] after)
    {before text : List Char} {stretches : Stretches}
    (hcuts : Cuts unicode pattern (fun _ => true) before text stretches) :
    ∀ stretch ∈ stretches.kept, pattern.NoMatch unicode.word stretch := by
  induction hcuts with
  | done before => exact List.forall_mem_cons.mpr ⟨noMatch_nil, by simp⟩
  | @keep before text c stretches hnone hrest ih =>
      obtain ⟨hfirst, hothers⟩ := List.forall_mem_cons.mp ih
      refine List.forall_mem_cons.mpr ⟨?_, hothers⟩
      intro front raw back hsplit hraw hmatches
      cases front with
      | nil =>
          have hsource := hrest.source_eq
          rw [Stretches.source, Stretches.result] at hsource
          obtain ⟨n, hn, hpos⟩ := Pattern.matchAt_of_matches unicode.word hnonempty
            (hunbounded _ before.getLast? raw _ (back ++ stretches.rest.flatMap fun part =>
              id part.1 ++ part.2) hmatches)
          have htext : raw ++ (back ++ stretches.rest.flatMap fun part => id part.1 ++ part.2) =
              c :: text := by
            rw [← List.append_assoc, ← List.nil_append (raw ++ back), ← hsplit, ← hsource]
            rfl
          rw [htext] at hn
          have hzero := hnone n hn
          omega
      | cons d front =>
          obtain ⟨-, hfront⟩ := List.cons.inj hsplit
          exact hfirst front raw back hfront hraw (hunbounded _ _ _ _ _ hmatches)
  | spare _ _ hfilter => cases hfilter
  | mask _ _ _ _ ih => exact List.forall_mem_cons.mpr ⟨noMatch_nil, ih⟩

theorem noMatch_part (hunbounded : Unbounded unicode pattern) {front stretch back : List Char}
    (hnone : pattern.NoMatch unicode.word (front ++ (stretch ++ back))) :
    pattern.NoMatch unicode.word stretch := by
  rintro before raw after rfl hraw hmatches
  exact hnone (front ++ before) raw (after ++ back) (by simp) hraw
    (hunbounded _ _ _ _ _ hmatches)

end

/-! ## Tokens -/

/-- A text in brackets that no pattern finds its `@` in. -/
def IsToken (text : List Char) : Prop := ∃ body, text = '[' :: (body ++ [']']) ∧ '@' ∉ body

theorem isToken_placeholder {label : List Char} (hlabel : '@' ∉ label) (index : ℕ) :
    IsToken (placeholder label index) := by
  refine ⟨label ++ '_' :: (toString index).toList, by simp [placeholder], ?_⟩
  intro hmem
  rcases List.mem_append.mp hmem with hmem | hmem
  · exact hlabel hmem
  · rcases List.mem_cons.mp hmem with heq | hmem
    · cases heq
    · exact notMem_decimal (c := '@') (by decide) index hmem

/-- What the text around tokens depends on: no match has a bracket, and brackets are no words. -/
structure BlindToTokens (unicode : UnicodeClasses) (pattern : Pattern) : Prop where
  has_at : ∀ prev raw after, pattern.Matches unicode.word prev raw after → '@' ∈ raw
  no_open : ∀ prev raw after, pattern.Matches unicode.word prev raw after → '[' ∉ raw
  no_close : ∀ prev raw after, pattern.Matches unicode.word prev raw after → ']' ∉ raw
  word_open : unicode.word '[' = false
  word_close : unicode.word ']' = false

theorem AtPattern.blindToTokens {unicode : UnicodeClasses} {pattern : Pattern}
    {allowed : Char → Bool} (hpattern : AtPattern unicode pattern allowed)
    (hclose : allowed ']' = false) (hwords : unicode.WordsDocumented) :
    BlindToTokens unicode pattern := by
  constructor
  · exact hpattern.has_at
  · intro prev raw after hmatches hmem
    have hallowed := hpattern.only prev raw after hmatches '[' hmem
    rw [hpattern.edges '[' (by decide)] at hallowed
    cases hallowed
  · intro prev raw after hmatches hmem
    have hallowed := hpattern.only prev raw after hmatches ']' hmem
    rw [hclose] at hallowed
    cases hallowed
  · rw [hwords.word_ascii '[' (by decide)]
    decide
  · rw [hwords.word_ascii ']' (by decide)]
    decide

namespace BlindToTokens

variable {unicode : UnicodeClasses} {pattern : Pattern}

/-- Matches in a text with a token are those before and those behind it. -/
theorem noMatch_token (hblind : BlindToTokens unicode pattern) {left token right : List Char}
    (htoken : IsToken token) :
    pattern.NoMatch unicode.word (left ++ (token ++ right)) ↔
      pattern.NoMatch unicode.word left ∧ pattern.NoMatch unicode.word right := by
  obtain ⟨body, rfl, hbody⟩ := htoken
  constructor
  · intro hnone
    constructor
    · rintro front raw back rfl hraw hmatches
      refine hnone front raw (back ++ ('[' :: (body ++ [']']) ++ right)) (by simp) hraw
        (hmatches.congr unicode.word rfl ?_)
      cases back with
      | nil => simp [hblind.word_open]
      | cons c back => rfl
    · rintro front raw back rfl hraw hmatches
      refine hnone (left ++ ('[' :: (body ++ [']']) ++ front)) raw back (by simp) hraw
        (hmatches.congr unicode.word ?_ rfl)
      rcases List.eq_nil_or_concat front with rfl | ⟨front, c, rfl⟩
      · have hlast : (left ++ ('[' :: (body ++ [']']) ++ [])).getLast? = some ']' := by
          rw [List.append_nil, ← List.cons_append, ← List.append_assoc, List.getLast?_concat]
        rw [hlast]
        simp [hblind.word_close]
      · have hlast : (left ++ ('[' :: (body ++ [']']) ++ front.concat c)).getLast? = some c := by
          rw [List.concat_eq_append, ← List.append_assoc, ← List.append_assoc,
            List.getLast?_concat]
        rw [hlast, List.concat_eq_append, List.getLast?_concat]
  · rintro ⟨hleft, hright⟩ front raw back htext hraw hmatches
    have hat := hblind.has_at _ _ _ hmatches
    have hopen := hblind.no_open _ _ _ hmatches
    have hclose := hblind.no_close _ _ _ hmatches
    have hsplit : left ++ '[' :: (body ++ ']' :: right) = front ++ (raw ++ back) := by
      rw [← htext]
      simp
    -- The match lies before the token, in its body, or behind it.
    rcases Separated.one_side_of_notMem hsplit hopen with ⟨back', rfl, rfl⟩ | ⟨front', rfl, hinside⟩
    · refine hleft front raw back' rfl hraw (hmatches.congr unicode.word rfl ?_)
      cases back' with
      | nil => simp [hblind.word_open]
      | cons c back' => rfl
    · rcases Separated.one_side_of_notMem hinside hclose with ⟨back', -, rfl⟩ | ⟨front, rfl, rfl⟩
      · apply hbody
        simp [hat]
      · refine hright front raw back rfl hraw (hmatches.congr unicode.word ?_ rfl)
        rcases List.eq_nil_or_concat front with rfl | ⟨front, c, rfl⟩
        · have hlast : (left ++ '[' :: (body ++ [']'])).getLast? = some ']' := by
            rw [← List.cons_append, ← List.append_assoc, List.getLast?_concat]
          rw [hlast]
          simp [hblind.word_close]
        · have hlast : (left ++ '[' :: (body ++ ']' :: front.concat c)).getLast? = some c := by
            rw [List.concat_eq_append, ← List.cons_append, ← List.cons_append, ← List.append_assoc,
              ← List.append_assoc, List.getLast?_concat]
          rw [hlast, List.concat_eq_append, List.getLast?_concat]

/-- Matches in a text with tokens are those in its stretches. -/
theorem noMatch_result (hblind : BlindToTokens unicode pattern) {token : List Char → List Char}
    {stretches : Stretches} (htoken : ∀ raw ∈ stretches.raws, IsToken (token raw)) :
    pattern.NoMatch unicode.word (stretches.result token) ↔
      ∀ stretch ∈ stretches.kept, pattern.NoMatch unicode.word stretch := by
  obtain ⟨first, rest⟩ := stretches
  induction rest generalizing first with
  | nil => simp [Stretches.result, Stretches.kept]
  | cons part rest ih =>
      obtain ⟨raw, stretch⟩ := part
      obtain ⟨hraw, htokens⟩ := List.forall_mem_cons.mp htoken
      have hresult : Stretches.result token ⟨first, (raw, stretch) :: rest⟩ =
          first ++ (token raw ++ Stretches.result token ⟨stretch, rest⟩) := by
        simp [Stretches.result]
      rw [hresult, hblind.noMatch_token hraw, ih stretch htokens]
      simp [Stretches.kept]

/-- Replacing parts of a text without matches makes none. -/
theorem noMatch_masked (hblind : BlindToTokens unicode pattern)
    (hunbounded : Unbounded unicode pattern) {token : List Char → List Char}
    {stretches : Stretches} (htoken : ∀ raw ∈ stretches.raws, IsToken (token raw))
    (hnone : pattern.NoMatch unicode.word stretches.source) :
    pattern.NoMatch unicode.word (stretches.result token) := by
  rw [hblind.noMatch_result htoken]
  intro stretch hstretch
  obtain ⟨front, back, hsource, -⟩ := stretches.exists_around hstretch
  rw [hsource] at hnone
  exact noMatch_part hunbounded hnone

theorem not_nil (hblind : BlindToTokens unicode pattern) (prev : Option Char)
    (after : List Char) : ¬pattern.Matches unicode.word prev [] after := by
  intro hmatches
  exact absurd (hblind.has_at _ _ _ hmatches) List.not_mem_nil

end BlindToTokens

/-! ## Names -/

def isNameChar (c : Char) : Bool := c.isAlphanum || c = '_'

theorem atUsername_matches_iff (unicode : UnicodeClasses) {prev : Option Char}
    {raw after : List Char} :
    atUsernamePattern.Matches unicode.word prev raw after ↔ ∃ name, raw = '@' :: name ∧
      (∀ c ∈ name, isNameChar c = true) ∧ 2 ≤ name.length ∧ name.length ≤ 32 := by
  constructor
  · rintro ⟨_, name, rfl, ⟨a, rfl, ha⟩, hname, hleast, hmost⟩
    rw [decide_eq_true_eq] at ha
    exact ⟨name, by rw [ha]; rfl, hname, hleast, hmost 32 rfl⟩
  · rintro ⟨name, rfl, hname, hleast, hmost⟩
    refine ⟨['@'], name, rfl, ⟨'@', rfl, by decide⟩, hname, hleast, ?_⟩
    rintro bound ⟨⟩
    exact hmost

/-- Where two characters of a name stand behind an `@`, a name begins that is spared. -/
def SparedNames (text : List Char) : Prop :=
  ∀ front c d back, text = front ++ '@' :: c :: d :: back → isNameChar c = true →
    isNameChar d = true → "EMAIL".toList <+: c :: d :: back ∨ "USER".toList <+: c :: d :: back

theorem sparedNames_nil : SparedNames [] := by
  intro front c d back htext
  simp at htext

theorem sparedNames_behind {front text : List Char} (hspared : SparedNames (front ++ text)) :
    SparedNames text := by
  rintro before c d back rfl
  exact hspared (front ++ before) c d back (by simp)

theorem sparedNames_token {left token right : List Char} (htoken : IsToken token)
    (hleft : SparedNames left) (hright : SparedNames right) :
    SparedNames (left ++ (token ++ right)) := by
  obtain ⟨body, rfl, hbody⟩ := htoken
  intro front c d back htext hc hd
  have hnot : ∀ bracket, bracket ≠ '@' → isNameChar bracket = false → bracket ∉ ['@', c, d] := by
    intro bracket hat hname hmem
    simp only [List.mem_cons, List.not_mem_nil, or_false] at hmem
    rcases hmem with rfl | rfl | rfl
    · exact hat rfl
    · simp [hname] at hc
    · simp [hname] at hd
  have hsplit : left ++ '[' :: (body ++ ']' :: right) = front ++ (['@', c, d] ++ back) := by
    simpa using htext
  rcases Separated.one_side_of_notMem hsplit (hnot '[' (by decide) (by decide)) with
    ⟨back', rfl, rfl⟩ | ⟨front', rfl, hinside⟩
  · have hlonger : ∀ word : List Char, word <+: c :: d :: back' →
        word <+: c :: d :: (back' ++ '[' :: (body ++ ']' :: right)) := by
      intro word hword
      exact hword.trans (List.prefix_append (c :: d :: back') _)
    exact (hleft front c d back' rfl hc hd).imp (hlonger _) (hlonger _)
  · rcases Separated.one_side_of_notMem hinside (hnot ']' (by decide) (by decide)) with
      ⟨back', -, rfl⟩ | ⟨front, rfl, rfl⟩
    · exact absurd (by simp) hbody
    · exact hright front c d back rfl hc hd

theorem sparedNames_result {token : List Char → List Char} {stretches : Stretches}
    (htoken : ∀ raw ∈ stretches.raws, IsToken (token raw))
    (hspared : ∀ stretch ∈ stretches.kept, SparedNames stretch) :
    SparedNames (stretches.result token) := by
  obtain ⟨first, rest⟩ := stretches
  induction rest generalizing first with
  | nil => simpa [Stretches.result, Stretches.kept] using hspared
  | cons part rest ih =>
      obtain ⟨raw, stretch⟩ := part
      obtain ⟨hraw, htokens⟩ := List.forall_mem_cons.mp htoken
      obtain ⟨hfirst, hothers⟩ := List.forall_mem_cons.mp hspared
      have hresult : Stretches.result token ⟨first, (raw, stretch) :: rest⟩ =
          first ++ (token raw ++ Stretches.result token ⟨stretch, rest⟩) := by
        simp [Stretches.result]
      rw [hresult]
      exact sparedNames_token hraw hfirst (ih stretch htokens hothers)

section

variable {unicode : UnicodeClasses} {before text : List Char} {stretches : Stretches}

theorem atUsername_not_nil (prev : Option Char) (after : List Char) :
    ¬atUsernamePattern.Matches unicode.word prev [] after := by
  rw [atUsername_matches_iff]
  rintro ⟨name, hnil, -⟩
  cases hnil

/-- What is kept of the text between names that were replaced has spared names only. -/
theorem sparedNames_kept (hcuts : Cuts unicode atUsernamePattern isPlainMention before text stretches) :
    ∀ stretch ∈ stretches.kept, SparedNames stretch := by
  induction hcuts with
  | done before => exact List.forall_mem_cons.mpr ⟨sparedNames_nil, by simp⟩
  | @keep before text e stretches hnone hrest ih =>
      obtain ⟨hfirst, hothers⟩ := List.forall_mem_cons.mp ih
      refine List.forall_mem_cons.mpr ⟨?_, hothers⟩
      intro front c d back hsplit hc hd
      cases front with
      | nil =>
          obtain ⟨rfl, hback⟩ := List.cons.inj hsplit
          have hmatches : atUsernamePattern.Matches unicode.word before.getLast? ['@', c, d]
              (back ++ stretches.rest.flatMap fun part => id part.1 ++ part.2) :=
            (atUsername_matches_iff unicode).mpr ⟨[c, d], rfl, by simp [hc, hd], by simp, by simp⟩
          obtain ⟨n, hn, hpos⟩ := Pattern.matchAt_of_matches unicode.word atUsername_not_nil hmatches
          have htext : '@' :: text = ['@', c, d] ++
              (back ++ stretches.rest.flatMap fun part => id part.1 ++ part.2) := by
            have hfront : stretches.first = c :: d :: back := by simpa using hback
            rw [← hrest.source_eq, Stretches.source, Stretches.result, hfront]
            simp
          rw [← htext] at hn
          have hzero := hnone n hn
          omega
      | cons f front =>
          obtain ⟨-, hback⟩ := List.cons.inj hsplit
          exact hfirst front c d back (by simpa using hback) hc hd
  | @spare before raw text stretches hraw hmatch hfilter hrest ih =>
      obtain ⟨hfirst, hothers⟩ := List.forall_mem_cons.mp ih
      refine List.forall_mem_cons.mpr ⟨?_, hothers⟩
      have hmatches := (Pattern.matches_of_matchAt unicode.word hmatch).2
      rw [List.take_left, List.drop_left, atUsername_matches_iff] at hmatches
      obtain ⟨name, rfl, hname, -, -⟩ := hmatches
      have hat : '@' ∉ name := fun hmem => absurd (hname '@' hmem) (by decide)
      intro front c d back hsplit hc hd
      have hsplit : '@' :: (name ++ stretches.first) = front ++ '@' :: c :: d :: back := hsplit
      cases front with
      | nil =>
          obtain ⟨-, hback⟩ := List.cons.inj hsplit
          have hspared : "EMAIL".toList <+: name ∨ "USER".toList <+: name := by
            simp only [isPlainMention, Bool.and_eq_false_iff, Bool.not_eq_false',
              List.isPrefixOf_iff_prefix] at hfilter
            exact hfilter.imp (fun h => (List.cons_prefix_cons.mp h).2)
              fun h => (List.cons_prefix_cons.mp h).2
          rw [← hback]
          exact hspared.imp (fun h => h.trans (List.prefix_append _ _))
            fun h => h.trans (List.prefix_append _ _)
      | cons e front =>
          obtain ⟨-, hback⟩ := List.cons.inj hsplit
          obtain ⟨front', -, hfirst'⟩ :=
            Separated.append_cons_eq_append_of_notMem hback.symm hat
          exact hfirst front' c d back hfirst' hc hd
  | mask _ _ _ _ ih => exact List.forall_mem_cons.mpr ⟨sparedNames_nil, ih⟩

theorem descending_atUsername : Pattern.Descending unicode.word atUsernamePattern :=
  Pattern.descending_one_seq _ _ (Pattern.descending_many _ _ _ _)

/-- A text with spared names only is not changed by the pass for names. -/
theorem rest_nil_of_sparedNames
    (hcuts : Cuts unicode atUsernamePattern isPlainMention before text stretches)
    (hspared : SparedNames text) : stretches.rest = [] := by
  induction hcuts with
  | done before => rfl
  | keep _ _ ih => exact ih (@sparedNames_behind [_] _ hspared)
  | spare _ _ _ _ ih => exact ih (sparedNames_behind hspared)
  | @mask before raw text stretches hraw hmatch hfilter _ _ =>
      exfalso
      have hmatches := (Pattern.matches_of_matchAt unicode.word hmatch).2
      rw [List.take_left, List.drop_left, atUsername_matches_iff] at hmatches
      obtain ⟨name, rfl, hname, hleast, hmost⟩ := hmatches
      -- The whole of a spared name is matched, since the longest match is taken.
      have hwhole : ∀ word : List Char, word.all isNameChar = true → word.length ≤ 32 →
          word <+: name ++ text → word <+: name := by
        intro word hword hlength hstart
        rcases List.prefix_or_prefix_of_prefix hstart (List.prefix_append name text) with
          hshort | ⟨more, rfl⟩
        · exact hshort
        · obtain ⟨behind, hbehind⟩ := hstart
          have hlong : atUsernamePattern.Matches unicode.word before.getLast?
              ('@' :: (name ++ more)) behind :=
            (atUsername_matches_iff unicode).mpr
              ⟨_, rfl, List.all_eq_true.mp hword, by simp; omega, hlength⟩
          have hmem := Pattern.mem_lengths_of_matches unicode.word hlong
          rw [List.cons_append, hbehind, ← List.cons_append] at hmem
          have hle := Pattern.le_of_descending unicode.word (descending_atUsername _ _) hmatch hmem
          have hnil : more = [] := by
            apply List.eq_nil_of_length_eq_zero
            simp only [List.length_cons, List.length_append] at hle
            omega
          rw [hnil, List.append_nil]
      obtain ⟨c, d, name, rfl⟩ : ∃ c d name', name = c :: d :: name' := by
        rcases name with - | ⟨c, - | ⟨d, name⟩⟩
        · simp at hleast
        · simp at hleast
        · exact ⟨c, d, name, rfl⟩
      have hstart := hspared [] c d (name ++ text) rfl (hname c (by simp)) (hname d (by simp))
      have hshown : "@EMAIL".toList <+: '@' :: c :: d :: name ∨
          "@USER".toList <+: '@' :: c :: d :: name := by
        refine hstart.imp (fun h => List.cons_prefix_cons.mpr ⟨rfl, ?_⟩)
          fun h => List.cons_prefix_cons.mpr ⟨rfl, ?_⟩
        · exact hwhole _ (by decide) (by decide) h
        · exact hwhole _ (by decide) (by decide) h
      simp only [isPlainMention, Bool.and_eq_true, Bool.not_eq_true', ← Bool.not_eq_true,
        List.isPrefixOf_iff_prefix] at hfilter
      exact hshown.elim hfilter.1 hfilter.2

theorem phone_head {raw : List Char}
    (hcuts : Cuts unicode (phonePattern unicode) isPhoneNumber before text stretches)
    (hraw : raw ∈ stretches.raws) :
    ∃ c back, raw = c :: back ∧ (c = '+' ∨ unicode.digit c = true) := by
  obtain ⟨-, prev, after, hmatches⟩ := hcuts.matches_of_mem_raws raw hraw
  exact (phoneShaped_of_matches unicode hmatches).first

/-- No letter begins a phone number, so that spared names are kept as a whole. -/
theorem sparedNames_kept_phones
    (hcuts : Cuts unicode (phonePattern unicode) isPhoneNumber before text stretches)
    (hspared : SparedNames text) : ∀ stretch ∈ stretches.kept, SparedNames stretch := by
  intro stretch hstretch front c d back hsplit hc hd
  obtain ⟨left, right, hsource, hright⟩ := stretches.exists_around hstretch
  rw [hcuts.source_eq, hsplit] at hsource
  have hletters : ∀ word : List Char,
      word.all (fun c => decide (c.toNat < 128 ∧ c.isDigit = false ∧ c ≠ '+')) = true →
      word <+: c :: d :: (back ++ right) → word <+: c :: d :: back := by
    intro word hword hstart
    rcases List.prefix_or_prefix_of_prefix hstart (List.prefix_append (c :: d :: back) right) with
      hshort | ⟨more, rfl⟩
    · exact hshort
    · rcases hright with rfl | ⟨raw, hraw, hbegins⟩
      · simpa using hstart
      · obtain ⟨e, others, rfl, he⟩ := phone_head hcuts hraw
        rcases more with - | ⟨f, more⟩
        · simp
        · obtain ⟨rest, rfl⟩ := hbegins
          have hsame : f = e := by
            have hboth := (List.prefix_append_right_inj (c :: d :: back)).mp hstart
            exact (List.cons_prefix_cons.mp hboth).1
          have hletter := List.all_eq_true.mp hword f (by simp)
          rw [decide_eq_true_eq] at hletter
          rw [← hsame] at he
          rcases he with hplus | hdigit
          · exact absurd hplus hletter.2.2
          · rw [unicode.digit_ascii f hletter.1, hletter.2.1] at hdigit
            cases hdigit
  exact (hspared (left ++ front) c d (back ++ right) (by rw [hsource]; simp) hc hd).imp
    (hletters _ (by decide)) (hletters _ (by decide))

end

/-! ## Phone numbers -/

section

variable (unicode : UnicodeClasses)

theorem phone_unbounded : Unbounded unicode (phonePattern unicode) := by
  rintro prev prev' raw after after' ⟨sign, _, rfl, hsign, d, _, rfl, hd, inner, _, rfl, hinner, he⟩
  exact ⟨sign, _, rfl, hsign, d, _, rfl, hd, inner, _, rfl, hinner, he⟩

theorem phone_not_nil (prev : Option Char) (after : List Char) :
    ¬(phonePattern unicode).Matches unicode.word prev [] after := by
  intro hmatches
  have hlength := (phoneShaped_of_matches unicode hmatches).length_le
  simp at hlength

/-- A phone number has one sign or none, so that the longest match is taken. -/
theorem descending_phone : Pattern.Descending unicode.word (phonePattern unicode) := by
  have hdigits : Pattern.Descending unicode.word (.seq (.one unicode.digit)
      (.seq (.many (isPhoneChar unicode) 8 none) (.one unicode.digit))) :=
    Pattern.descending_one_seq _ _ (Pattern.descending_seq_one _ (Pattern.descending_many _ _ _ _) _)
  intro prev text
  unfold phonePattern
  rw [Pattern.lengths, Pattern.lengths, List.flatMap_append, List.flatMap_singleton]
  by_cases hplus : text.head? = some '+'
  · have hnone : (Pattern.seq (.one unicode.digit)
        (.seq (.many (isPhoneChar unicode) 8 none) (.one unicode.digit))).lengths unicode.word
          (Pattern.advance prev (text.take 0)) (text.drop 0) = [] := by
      apply Pattern.lengths_one_seq_of_head
      rw [List.drop_zero, hplus]
      exact unicode.digit_ascii '+' (by decide)
    have hsign : (exactly '+').lengths unicode.word prev text = [1] := by
      simp [exactly, Pattern.lengths, hplus]
    rw [hnone, hsign, List.map_nil, List.append_nil, List.flatMap_singleton, List.pairwise_map]
    apply (hdigits _ _).imp
    intro longer shorter hlonger
    exact Nat.add_lt_add_left hlonger 1
  · have hsign : (exactly '+').lengths unicode.word prev text = [] := by
      rw [exactly, Pattern.lengths, if_neg]
      cases text with
      | nil => simp
      | cons c text => simpa using hplus
    rw [hsign, List.flatMap_nil, List.nil_append, List.pairwise_map]
    apply (hdigits _ _).imp
    intro longer shorter hlonger
    exact Nat.add_lt_add_left hlonger 0

/-- A phone number in front of a bracket or of the end is one in front of anything. -/
theorem phone_match_within {prev : Option Char} {front right : List Char} {n : ℕ}
    (hright : right = [] ∨ ∃ body, right = '[' :: body)
    (hmatch : (phonePattern unicode).matchAt unicode.word prev (front ++ right) = some n) :
    ∃ raw back, front = raw ++ back ∧ raw.length = n ∧
      ∀ prev after, (phonePattern unicode).Matches unicode.word prev raw after := by
  obtain ⟨hlength, hmatches⟩ := Pattern.matches_of_matchAt unicode.word hmatch
  have hle : n ≤ front.length := by
    rcases hright with rfl | ⟨body, rfl⟩
    · simpa using hlength
    · exact le_of_phone_match unicode hmatch rfl
        (noPhoneChar_of_ascii unicode (by decide) (by decide))
  refine ⟨front.take n, front.drop n, (List.take_append_drop n front).symm,
    List.length_take_of_le hle, ?_⟩
  intro prev after
  rw [List.take_append_of_le_length hle] at hmatches
  exact phone_unbounded unicode _ _ _ _ _ hmatches

/-- A text in brackets in which no phone number begins. -/
structure QuietToken (token : List Char) : Prop where
  bracketed : ∃ body, token = '[' :: (body ++ [']'])
  silent : ∀ front c back, token = front ++ c :: back → ∀ prev rest n,
    (phonePattern unicode).matchAt unicode.word prev (c :: back ++ rest) ≠ some n

theorem quietToken_placeholder {index : ℕ} (hindex : index < 10 ^ 9) :
    QuietToken unicode (placeholder "PHONE".toList index) := by
  have htoken : placeholder "PHONE".toList index =
      "[PHONE_".toList ++ (decimal index ++ [']']) := rfl
  have hplain : ∀ c, c ∈ "[PHONE_".toList ∨ c = ']' → c ≠ '+' ∧ unicode.digit c = false := by
    intro c hc
    have hall : "[PHONE_]".toList.all
        (fun c => decide (c ≠ '+') && decide (c.toNat < 128) && !c.isDigit) = true := by decide
    have hmem : c ∈ "[PHONE_]".toList := by
      have hsplit : "[PHONE_]".toList = "[PHONE_".toList ++ [']'] := rfl
      rw [hsplit, List.mem_append, List.mem_singleton]
      exact hc
    have hascii := List.all_eq_true.mp hall c hmem
    simp only [Bool.and_eq_true, decide_eq_true_eq, Bool.not_eq_true'] at hascii
    exact ⟨hascii.1.1, (unicode.digit_ascii c hascii.1.2).trans hascii.2⟩
  refine ⟨⟨"PHONE_".toList ++ decimal index, by rw [htoken]; simp⟩, ?_⟩
  intro front c back hsplit prev rest n hmatch
  rw [htoken] at hsplit
  -- Only the number has characters that a phone number begins with, and it is too short for one.
  have hnumber : c ∈ decimal index := by
    have hmem : c ∈ "[PHONE_".toList ++ (decimal index ++ [']']) := by
      rw [hsplit]
      simp
    rcases List.mem_append.mp hmem with hc | hc
    · exact absurd hmatch (phone_no_match unicode (hplain c (.inl hc)))
    · rcases List.mem_append.mp hc with hc | hc
      · exact hc
      · exact absurd hmatch (phone_no_match unicode (hplain c (.inr (List.mem_singleton.mp hc))))
  have hdigit := isDigit_of_mem_decimal hnumber
  have hhead : c ∉ "[PHONE_".toList := by
    intro hc
    have hnone := (hplain c (.inl hc)).2
    rw [(digit_of_isDigit unicode hdigit).1] at hnone
    cases hnone
  have hlast : c ∉ [']'] := by
    intro hc
    rw [List.mem_singleton.mp hc] at hdigit
    cases hdigit
  obtain ⟨front', rfl, hbehind⟩ := Separated.append_cons_eq_append_of_notMem hsplit.symm hhead
  obtain ⟨back', rfl, hdecimal⟩ :=
    Separated.append_cons_eq_append_of_notMem_right hbehind.symm hlast
  have hle := le_of_phone_match unicode hmatch
    (show c :: (back' ++ [']']) ++ rest = (c :: back') ++ ']' :: rest by simp)
    (noPhoneChar_closing unicode)
  have hten := (phoneShaped_of_matchAt unicode hmatch).2.length_le
  have hnine : (decimal index).length ≤ 9 := by
    rw [decimal, String.length_toList]
    exact (Nat.length_repr_le_iff (by decide)).mpr hindex
  rw [hdecimal, List.length_append] at hnine
  rw [List.length_take] at hten
  omega

variable {unicode}

/-- A second pass spares all that the first one spared, and finds nothing new. -/
theorem phone_again {before text : List Char} {stretches : Stretches}
    (hcuts : Cuts unicode (phonePattern unicode) isPhoneNumber before text stretches)
    {token : List Char → List Char}
    (htoken : ∀ raw ∈ stretches.raws, QuietToken unicode (token raw)) {before' : List Char}
    (hbefore : before.getLast? = some '[' → before'.getLast? = some '[') :
    Cuts unicode (phonePattern unicode) isPhoneNumber before' (stretches.result token)
      ⟨stretches.result token, []⟩ := by
  have hnext : ∀ {stretches : Stretches}, (∀ raw ∈ stretches.raws, QuietToken unicode (token raw)) →
      ∃ right, stretches.result token = stretches.first ++ right ∧
        (right = [] ∨ ∃ body, right = '[' :: body) := by
    intro stretches htoken
    obtain ⟨right, hresult, hright⟩ := stretches.exists_behind token
    refine ⟨right, hresult, hright.imp_right ?_⟩
    rintro ⟨raw, hraw, rest, rfl⟩
    obtain ⟨body, hbody⟩ := (htoken raw hraw).bracketed
    rw [hbody]
    exact ⟨_, rfl⟩
  induction hcuts generalizing before' with
  | done before => exact .done before'
  | @keep before text c stretches hnone hrest ih =>
      have htoken : ∀ raw ∈ stretches.raws, QuietToken unicode (token raw) := htoken
      rw [Stretches.result_keep]
      refine .keep ?_ (ih htoken fun hlast => ?_)
      · intro n hmatch
        obtain ⟨right, hresult, hright⟩ := hnext htoken
        obtain ⟨behind, hsource, -⟩ := stretches.exists_behind id
        rw [hresult] at hmatch
        obtain ⟨raw, back, hfront, rfl, hmatches⟩ :=
          @phone_match_within unicode _ (c :: stretches.first) right n hright hmatch
        obtain ⟨m, hm, hpos⟩ := Pattern.matchAt_of_matches unicode.word (phone_not_nil unicode)
          (hmatches before.getLast? (back ++ behind))
        rw [← List.append_assoc, ← hfront, List.cons_append, ← hsource] at hm
        have hzero := hnone m (by rw [← hrest.source_eq]; exact hm)
        omega
      · rw [List.getLast?_concat] at hlast ⊢
        exact hlast
  | @spare before raw text stretches hraw hmatch hfilter hrest ih =>
      have htoken : ∀ raw ∈ stretches.raws, QuietToken unicode (token raw) := htoken
      obtain ⟨right, hresult, hright⟩ := hnext htoken
      obtain ⟨behind, hsource, hbehind⟩ := stretches.exists_behind id
      have htext : text = stretches.first ++ behind := hrest.source_eq.symm.trans hsource
      have hmatches := (Pattern.matches_of_matchAt unicode.word hmatch).2
      rw [List.take_left, List.drop_left] at hmatches
      rw [Stretches.result_keep]
      refine .spare hraw ?_ ?_ (ih htoken fun hlast => ?_)
      · -- The longest match is the same one, since neither text continues it.
        have hagain := phone_unbounded unicode _ before'.getLast? _ _ (stretches.result token) hmatches
        obtain ⟨n, hn, -⟩ := Pattern.matchAt_of_matches unicode.word (phone_not_nil unicode) hagain
        have hlower := Pattern.le_of_descending unicode.word (descending_phone unicode _ _) hn
          (Pattern.mem_lengths_of_matches unicode.word hagain)
        rw [hn]
        rw [hresult, ← List.append_assoc] at hn
        obtain ⟨other, back, hfront, rfl, hother⟩ := phone_match_within unicode hright hn
        have hcandidate := Pattern.mem_lengths_of_matches unicode.word
          (hother before.getLast? (back ++ behind))
        rw [← List.append_assoc, ← hfront, List.append_assoc, ← htext] at hcandidate
        have hupper := Pattern.le_of_descending unicode.word (descending_phone unicode _ _) hmatch
          hcandidate
        rw [le_antisymm hupper hlower]
      · simp only [isPhoneNumber] at hfilter ⊢
        split
        next => rfl
        next hmany =>
          rw [if_neg hmany, Bool.not_eq_false', Bool.and_eq_true, beq_iff_eq, beq_iff_eq] at hfilter
          obtain ⟨hopen, hclose⟩ := hfilter
          have hkept : (stretches.result token).head? = some ']' := by
            rw [hresult]
            cases hfirst : stretches.first with
            | cons c first =>
                rw [htext, hfirst] at hclose
                exact hclose
            | nil =>
                rw [htext, hfirst, List.nil_append] at hclose
                rcases hbehind with rfl | ⟨number, hnumber, rest, rfl⟩
                · cases hclose
                · obtain ⟨c, back, rfl, hc⟩ := phone_head hrest hnumber
                  obtain rfl := Option.some.inj hclose
                  rcases hc with hc | hc
                  · cases hc
                  · rw [unicode.digit_ascii ']' (by decide)] at hc
                    cases hc
          rw [hbefore hopen, hkept]
          rfl
      · rw [List.getLast?_append_of_ne_nil _ hraw] at hlast ⊢
        exact hlast
  | @mask before raw text stretches hraw hmatch hfilter hrest ih =>
      obtain ⟨hquiet, htoken⟩ := List.forall_mem_cons.mp htoken
      rw [Stretches.result_mask]
      apply (ih htoken ?_).keep_fixed
      · intro front c back n hsplit hfound
        exact absurd hfound (hquiet.silent front c back hsplit _ _ _)
      · -- A phone number does not end with a bracket.
        intro hlast
        obtain ⟨-, hshape⟩ := phoneShaped_of_matchAt unicode hmatch
        rw [List.take_left] at hshape
        obtain ⟨front, c, rfl, hc⟩ := hshape.last
        rw [← List.append_assoc, List.getLast?_concat] at hlast
        obtain rfl := Option.some.inj hlast
        rw [unicode.digit_ascii '[' (by decide)] at hc
        cases hc

/-- A token with a number of ten digits is taken for a phone number. -/
theorem phone_of_long_number {regex : Regex}
    (hregex : regex.cut = (unicode.regex (phonePattern unicode)).cut) {index : ℕ}
    (hindex : 10 ^ 9 ≤ index) (front back : List Char) :
    (regex.stretches isPhoneNumber
      (front ++ (placeholder "PHONE".toList index ++ back))).rest ≠ [] := by
  have hten : 10 ≤ (decimal index).length := by
    have hlong := mt (Nat.length_repr_le_iff (k := 9) (by decide)).mp (not_lt.mpr hindex)
    rw [decimal, String.length_toList]
    exact Nat.lt_of_not_le hlong
  have hdigits : ∀ c ∈ decimal index, c.isDigit = true := fun c => isDigit_of_mem_decimal
  have hinput : front ++ (placeholder "PHONE".toList index ++ back) =
      (front ++ "[PHONE".toList ++ ['_']) ++ (decimal index ++ ']' :: back) := by
    simp [placeholder, decimal]
  have hmatch : (phonePattern unicode).matchAt unicode.word
      (front ++ "[PHONE".toList ++ ['_']).getLast? (decimal index ++ ']' :: back) =
        some (decimal index).length := by
    generalize decimal index = number at hten hdigits
    obtain ⟨d, number, rfl⟩ := List.exists_cons_of_length_pos (show 0 < number.length by omega)
    rcases List.eq_nil_or_concat number with rfl | ⟨inner, e, rfl⟩
    · simp at hten
    · rw [List.concat_eq_append] at hten hdigits ⊢
      have hd := digit_of_isDigit unicode (hdigits d (by simp))
      have he := digit_of_isDigit unicode (hdigits e (by simp))
      have hinner : ∀ c ∈ inner, isPhoneChar unicode c = true := by
        intro c hc
        simp [isPhoneChar, (digit_of_isDigit unicode (hdigits c (by simp [hc]))).1]
      have hrun := phone_match_run unicode (front ++ "[PHONE".toList ++ ['_']).getLast? back hd.1
        hd.2 he.1 hinner (noPhoneChar_closing unicode).2 (by simpa using hten)
      simpa using hrun
  have hstops : ∀ first last n, front ++ "[PHONE".toList ++ ['_'] = first ++ last → last ≠ [] →
      (phonePattern unicode).matchAt unicode.word first.getLast?
        (last ++ (decimal index ++ ']' :: back)) = some n → n ≤ last.length := by
    -- No match reaches over the underscore.
    intro first last n hsplit hlast hearlier
    rcases List.eq_nil_or_concat last with rfl | ⟨inner, c, rfl⟩
    · exact absurd rfl hlast
    · rw [List.concat_eq_append] at hsplit hearlier ⊢
      rw [← List.append_assoc] at hsplit
      obtain rfl : '_' = c := by simpa using (List.append_inj' hsplit rfl).2
      have hle := le_of_phone_match unicode hearlier (List.append_assoc inner ['_'] _)
        (noPhoneChar_of_ascii unicode (by decide) (by decide))
      rw [List.length_append]
      omega
  have hfound := mem_found unicode (phonePattern unicode) hregex
    (List.ne_nil_of_length_pos (by omega)) hstops hmatch
  intro hrest
  rw [rest_eq_nil_iff_found, hinput] at hrest
  apply hrest _ hfound
  have hcount : countDigits (decimal index) = (decimal index).length :=
    List.countP_eq_length.mpr hdigits
  have hlast : (front ++ "[PHONE".toList ++ ['_']).getLast? = some '_' := List.getLast?_concat
  simp only [isPhoneNumber, hcount, hlast, if_neg (not_lt.mpr hten)]
  rfl

end

/-! ## Four passes -/

namespace PiiPatterns

variable (patterns : PiiPatterns) (input : List Char)

/-- The text behind the pass for addresses. -/
def withoutAddresses : List Char :=
  (replaceWithRegistryWithInput input patterns.email "EMAIL".toList {} fun _ => true).1

/-- The text behind the pass for mentions, and the registry that the pass for names goes on with. -/
def withoutMentions : List Char × TokenRegistry :=
  replaceWithRegistryWithInput (patterns.withoutAddresses input) patterns.discordMention
    "USER".toList {} fun _ => true

/-- The text in front of the pass for phone numbers. -/
def beforePhones : List Char :=
  (replaceWithRegistryWithInput (patterns.withoutMentions input).1 patterns.atUsername
    "USER".toList (patterns.withoutMentions input).2 isPlainMention).1

def addressStretches : Stretches := patterns.email.stretches (fun _ => true) input

def mentionStretches : Stretches :=
  patterns.discordMention.stretches (fun _ => true) (patterns.withoutAddresses input)

def nameStretches : Stretches :=
  patterns.atUsername.stretches isPlainMention (patterns.withoutMentions input).1

def phoneStretches : Stretches :=
  patterns.phone.stretches isPhoneNumber (patterns.beforePhones input)

end PiiPatterns

theorem maskPii_text (patterns : PiiPatterns) (input : List Char) :
    (maskPii patterns input).text =
      (replaceWithRegistryWithInput (patterns.beforePhones input) patterns.phone "PHONE".toList {}
        isPhoneNumber).1 := rfl

theorem withoutMentions_fst (patterns : PiiPatterns) (input : List Char) :
    (patterns.withoutMentions input).1 = (patterns.mentionStretches input).result fun raw =>
      placeholder "USER".toList
        ((TokenRegistry.enterAll {} (patterns.mentionStretches input).raws).number raw) := by
  rw [PiiPatterns.withoutMentions, replaceWithRegistryWithInput_eq]
  rfl

theorem withoutMentions_snd (patterns : PiiPatterns) (input : List Char) :
    (patterns.withoutMentions input).2 =
      TokenRegistry.enterAll {} (patterns.mentionStretches input).raws := by
  rw [PiiPatterns.withoutMentions, replaceWithRegistryWithInput_eq]
  rfl

/-- Every replacement is counted once. -/
theorem maskPii_stats (patterns : PiiPatterns) (input : List Char) :
    (maskPii patterns input).stats =
      { mentionReplacements :=
          (patterns.mentionStretches input).raws.length + (patterns.nameStretches input).raws.length
        emailReplacements := (patterns.addressStretches input).raws.length
        phoneReplacements := (patterns.phoneStretches input).raws.length } := by
  have hcount : ∀ (value : List Char) (regex : Regex) label registry filter,
      (replaceWithRegistryWithInput value regex label registry filter).2.replacementCount =
        registry.replacementCount + (regex.stretches filter value).raws.length := by
    intro value regex label registry filter
    rw [replaceWithRegistryWithInput_eq]
    exact TokenRegistry.replacementCount_enterAll _ _
  have hemails := hcount input patterns.email "EMAIL".toList {} fun _ => true
  have hmentions : (patterns.withoutMentions input).2.replacementCount =
      (patterns.mentionStretches input).raws.length := by
    rw [withoutMentions_snd, TokenRegistry.replacementCount_enterAll]
    exact Nat.zero_add _
  have hnames := hcount (patterns.withoutMentions input).1 patterns.atUsername "USER".toList
    (patterns.withoutMentions input).2 isPlainMention
  have hphones := hcount (patterns.beforePhones input) patterns.phone "PHONE".toList {}
    isPhoneNumber
  rw [hmentions] at hnames
  rw [Nat.zero_add] at hemails hphones
  have hstats : (maskPii patterns input).stats =
      { mentionReplacements := (replaceWithRegistryWithInput (patterns.withoutMentions input).1
          patterns.atUsername "USER".toList (patterns.withoutMentions input).2
          isPlainMention).2.replacementCount
        emailReplacements := (replaceWithRegistryWithInput input patterns.email "EMAIL".toList {}
          fun _ => true).2.replacementCount
        phoneReplacements := (replaceWithRegistryWithInput (patterns.beforePhones input)
          patterns.phone "PHONE".toList {} isPhoneNumber).2.replacementCount } := rfl
  rw [hstats, hnames, hemails, hphones]
  rfl

/-- The token for a text: its place among the different texts of its category, counted from one
in the order in which they first come. -/
def tokenOf (label : List Char) (texts : List (List Char)) (raw : List Char) : List Char :=
  placeholder label (texts.eraseDups.idxOf raw + 1)

/-- A pass replaces the matches that its filter takes by the tokens for their texts. -/
structure Replaces (label : List Char) (texts : List (List Char)) (stretches : Stretches)
    (input output : List Char) : Prop where
  source : stretches.source = input
  result : output = stretches.result (tokenOf label texts)

/-- What one call replaces. Mentions and names are one category, in which mentions come first. -/
structure TokensFollowTexts (patterns : PiiPatterns) (input : List Char) : Prop where
  addresses : Replaces "EMAIL".toList (patterns.addressStretches input).raws
    (patterns.addressStretches input) input (patterns.withoutAddresses input)
  mentions : Replaces "USER".toList
    ((patterns.mentionStretches input).raws ++ (patterns.nameStretches input).raws)
    (patterns.mentionStretches input) (patterns.withoutAddresses input)
    (patterns.withoutMentions input).1
  names : Replaces "USER".toList
    ((patterns.mentionStretches input).raws ++ (patterns.nameStretches input).raws)
    (patterns.nameStretches input) (patterns.withoutMentions input).1 (patterns.beforePhones input)
  phones : Replaces "PHONE".toList (patterns.phoneStretches input).raws
    (patterns.phoneStretches input) (patterns.beforePhones input) (maskPii patterns input).text

theorem placeholder_injective (label : List Char) : Function.Injective (placeholder label) := by
  intro left right hsame
  have hnumbers : decimal left = decimal right := by simpa [placeholder, decimal] using hsame
  exact decimal_injective hnumbers

theorem tokenOf_injOn (label : List Char) (texts : List (List Char)) :
    Set.InjOn (tokenOf label texts) {raw | raw ∈ texts} := by
  intro raw hraw other _ hsame
  have hplace := Nat.succ_injective (placeholder_injective label hsame)
  exact (List.idxOf_inj (List.mem_eraseDups.mpr hraw)).mp hplace

theorem result_enterAll {label : List Char} {stretches : Stretches} {texts : List (List Char)}
    (hraws : stretches.raws ⊆ texts) :
    (stretches.result fun raw => placeholder label ((TokenRegistry.enterAll {} texts).number raw)) =
      stretches.result (tokenOf label texts) := by
  apply Stretches.result_congr
  intro raw hraw
  rw [tokenOf, (TokenRegistry.numbers_enterAll texts).2 raw (hraws hraw)]

/-- Whatever the patterns match, every match that is replaced gets the token for its text, and two
matches of one category get the same token if and only if their texts are equal. -/
theorem tokens_follow_texts (patterns : PiiPatterns) (input : List Char) :
    TokensFollowTexts patterns input ∧
      ∀ label texts, Set.InjOn (tokenOf label texts) {raw | raw ∈ texts} := by
  have hnames := replaceWithRegistryWithInput_eq (patterns.withoutMentions input).1
    patterns.atUsername "USER".toList (patterns.withoutMentions input).2 isPlainMention
  rw [withoutMentions_snd, ← TokenRegistry.enterAll_append] at hnames
  refine ⟨?_, tokenOf_injOn⟩
  constructor
  · refine ⟨Regex.source_stretches _ _ _, ?_⟩
    rw [PiiPatterns.withoutAddresses, replaceWithRegistryWithInput_eq]
    exact result_enterAll (List.Subset.refl _)
  · refine ⟨Regex.source_stretches _ _ _, ?_⟩
    rw [withoutMentions_fst, ← result_enterAll (List.subset_append_left _ _)]
    apply Stretches.result_congr
    intro raw hraw
    -- The pass for names leaves the numbers of mentions as they are.
    have hkey : raw ∈ (TokenRegistry.enterAll {} (patterns.mentionStretches input).raws).tokens.map
        Prod.fst := (TokenRegistry.keys_enterAll _ _ _).mpr (.inl hraw)
    rw [TokenRegistry.enterAll_append, TokenRegistry.number_enterAll _ hkey]
  · refine ⟨Regex.source_stretches _ _ _, ?_⟩
    rw [PiiPatterns.beforePhones, withoutMentions_snd, hnames]
    exact result_enterAll (List.subset_append_right _ _)
  · refine ⟨Regex.source_stretches _ _ _, ?_⟩
    rw [maskPii_text, replaceWithRegistryWithInput_eq]
    exact result_enterAll (List.Subset.refl _)

section

variable {unicode : UnicodeClasses} {patterns : PiiPatterns}

theorem found_eq_nil_iff (regex : Regex) (input : List Char) :
    regex.found input = [] ↔ (regex.stretches (fun _ => true) input).rest = [] := by
  rw [rest_eq_nil_iff_found]
  simp [List.eq_nil_iff_forall_not_mem]

/-- A masking that counts nothing is one in which no pass replaces anything. -/
theorem maskPii_unchanged_iff (patterns : PiiPatterns) (input : List Char) :
    maskPii patterns input = ⟨input, {}⟩ ↔
      (patterns.email.stretches (fun _ => true) input).rest = [] ∧
        (patterns.discordMention.stretches (fun _ => true) input).rest = [] ∧
          (patterns.atUsername.stretches isPlainMention input).rest = [] ∧
            (patterns.phone.stretches isPhoneNumber input).rest = [] := by
  constructor
  · intro hmasked
    have hstats := (maskPii_stats patterns input).symm.trans (congrArg MaskedText.stats hmasked)
    simp only [MaskingStats.mk.injEq, Nat.add_eq_zero_iff, List.length_eq_zero_iff,
      ← Stretches.rest_eq_nil_iff] at hstats
    obtain ⟨⟨hmentions, hnames⟩, haddresses, hphones⟩ := hstats
    have hfirst : patterns.withoutAddresses input = input := by
      rw [PiiPatterns.withoutAddresses, replaceWithRegistryWithInput_of_rest_nil haddresses]
    rw [PiiPatterns.mentionStretches, hfirst] at hmentions
    have hsecond : (patterns.withoutMentions input).1 = input := by
      rw [PiiPatterns.withoutMentions, hfirst, replaceWithRegistryWithInput_of_rest_nil hmentions]
    rw [PiiPatterns.nameStretches, hsecond] at hnames
    have hthird : patterns.beforePhones input = input := by
      rw [PiiPatterns.beforePhones, hsecond, replaceWithRegistryWithInput_of_rest_nil hnames]
    rw [PiiPatterns.phoneStretches, hthird] at hphones
    exact ⟨haddresses, hmentions, hnames, hphones⟩
  · rintro ⟨haddresses, hmentions, hnames, hphones⟩
    unfold maskPii
    simp only [replaceWithRegistryWithInput_of_rest_nil haddresses,
      replaceWithRegistryWithInput_of_rest_nil hmentions,
      replaceWithRegistryWithInput_of_rest_nil hnames,
      replaceWithRegistryWithInput_of_rest_nil hphones]

/-- A text without an `@` and with fewer digits than a phone number has nothing to mask. -/
theorem maskPii_of_plain (hdocumented : patterns.Documented unicode) {input : List Char}
    (hat : '@' ∉ input) (hdigits : countDigits input < 10) :
    (maskPii patterns input).text = input := by
  have hnone : ∀ {regex : Regex} {pattern : Pattern} {allowed : Char → Bool}
      (filter : RegexMatch → Bool), AtPattern unicode pattern allowed →
      regex.cut = (unicode.regex pattern).cut → (regex.stretches filter input).rest = [] := by
    intro regex pattern allowed filter hpattern hregex
    rw [rest_eq_nil_iff_found]
    intro found hfound
    obtain ⟨hinput, -, hmatch⟩ := matchAt_of_mem_found unicode pattern hregex hfound
    have hmatches := (Pattern.matches_of_matchAt unicode.word hmatch).2
    rw [List.take_left] at hmatches
    have hmem := hpattern.has_at _ _ _ hmatches
    exact absurd (hinput ▸ List.mem_append_right _ (List.mem_append_left _ hmem)) hat
  have hphones : (patterns.phone.stretches isPhoneNumber input).rest = [] := by
    rw [rest_eq_nil_iff_found]
    intro found hfound
    obtain ⟨hinput, -, -⟩ := matchAt_of_mem_found unicode (phonePattern unicode) hdocumented.phone
      hfound
    have hfew : countDigits found.raw < 10 := by
      rw [hinput] at hdigits
      simp only [countDigits, List.countP_append] at hdigits ⊢
      omega
    simp [isPhoneNumber, hfew]
  rw [(maskPii_unchanged_iff patterns input).mpr
    ⟨hnone _ (atPattern_email unicode) hdocumented.email,
      hnone _ (atPattern_discordMention unicode) hdocumented.discordMention,
      hnone _ (atPattern_atUsername unicode) hdocumented.atUsername, hphones⟩]

/-! ## Masking again -/

theorem blindToTokens_email (hwords : unicode.WordsDocumented) :
    BlindToTokens unicode emailPattern :=
  (atPattern_email unicode).blindToTokens (by decide) hwords

theorem blindToTokens_discordMention (hwords : unicode.WordsDocumented) :
    BlindToTokens unicode (discordMentionPattern unicode) := by
  apply (atPattern_discordMention unicode).blindToTokens _ hwords
  rw [unicode.digit_ascii ']' (by decide)]
  decide

theorem discordMention_unbounded : Unbounded unicode (discordMentionPattern unicode) := by
  rintro prev prev' raw after after' (⟨a, _, rfl, ha, b, _, rfl, hb, sign, _, rfl, hsign, digits,
    _, rfl, hdigits, he⟩ | ⟨a, _, rfl, ha, b, _, rfl, hb, sign, _, rfl, hsign, digits, _, rfl,
    hdigits, he⟩)
  · exact .inl ⟨a, _, rfl, ha, b, _, rfl, hb, sign, _, rfl, hsign, digits, _, rfl, hdigits, he⟩
  · exact .inr ⟨a, _, rfl, ha, b, _, rfl, hb, sign, _, rfl, hsign, digits, _, rfl, hdigits, he⟩

theorem beforePhones_eq (patterns : PiiPatterns) (input : List Char) :
    patterns.beforePhones input = (patterns.nameStretches input).result fun raw =>
      placeholder "USER".toList (((patterns.withoutMentions input).2.enterAll
        (patterns.nameStretches input).raws).number raw) := by
  rw [PiiPatterns.beforePhones, replaceWithRegistryWithInput_eq]
  rfl

theorem maskPii_text_eq (patterns : PiiPatterns) (input : List Char) :
    (maskPii patterns input).text = (patterns.phoneStretches input).result fun raw =>
      placeholder "PHONE".toList
        ((TokenRegistry.enterAll {} (patterns.phoneStretches input).raws).number raw) := by
  rw [maskPii_text, replaceWithRegistryWithInput_eq]
  rfl

/-- No mention is left behind the passes for mentions, names and phone numbers. -/
theorem discordMention_noMatch_masked (hwords : unicode.WordsDocumented)
    (hdocumented : patterns.Documented unicode) (input : List Char) :
    (discordMentionPattern unicode).NoMatch unicode.word (maskPii patterns input).text := by
  have hblind := blindToTokens_discordMention hwords
  have huser : ∀ index, IsToken (placeholder "USER".toList index) :=
    isToken_placeholder (by decide)
  have hmentions : (discordMentionPattern unicode).NoMatch unicode.word
      (patterns.withoutMentions input).1 := by
    rw [withoutMentions_fst, hblind.noMatch_result fun raw _ => huser _]
    exact (cuts_stretches hdocumented.discordMention _).noMatch_kept discordMention_unbounded
      hblind.not_nil
  have hnames : (discordMentionPattern unicode).NoMatch unicode.word
      (patterns.beforePhones input) := by
    rw [beforePhones_eq]
    apply hblind.noMatch_masked discordMention_unbounded fun raw _ => huser _
    rwa [PiiPatterns.nameStretches, Regex.source_stretches]
  rw [maskPii_text_eq]
  apply hblind.noMatch_masked discordMention_unbounded
    fun raw _ => isToken_placeholder (by decide) _
  rwa [PiiPatterns.phoneStretches, Regex.source_stretches]

/-- The names that are left are spared ones. -/
theorem sparedNames_masked (hdocumented : patterns.Documented unicode) (input : List Char) :
    SparedNames (maskPii patterns input).text := by
  have hnames : SparedNames (patterns.beforePhones input) := by
    rw [beforePhones_eq]
    apply sparedNames_result fun raw _ => isToken_placeholder (by decide) _
    exact sparedNames_kept (cuts_stretches hdocumented.atUsername _)
  rw [maskPii_text_eq]
  apply sparedNames_result fun raw _ => isToken_placeholder (by decide) _
  exact sparedNames_kept_phones (cuts_stretches hdocumented.phone _) hnames

/-- The numbers of phone numbers stay too short for one as long as there are few of them. -/
theorem phones_again_iff (hdocumented : patterns.Documented unicode) (input : List Char) :
    (patterns.phone.stretches isPhoneNumber (maskPii patterns input).text).rest = [] ↔
      (patterns.phoneStretches input).raws.toFinset.card < 10 ^ 9 := by
  rw [← TokenRegistry.number_lt_iff (by decide), maskPii_text_eq]
  constructor
  · intro hrest raw hraw
    by_contra hlong
    obtain ⟨front, back, hresult⟩ := Stretches.exists_token (fun raw => placeholder "PHONE".toList
      ((TokenRegistry.enterAll {} (patterns.phoneStretches input).raws).number raw)) hraw
    rw [hresult] at hrest
    exact phone_of_long_number hdocumented.phone (not_lt.mp hlong) front back hrest
  · intro hsmall
    have hcuts : Cuts unicode (phonePattern unicode) isPhoneNumber []
        (patterns.beforePhones input) (patterns.phoneStretches input) :=
      cuts_stretches hdocumented.phone _
    have hquiet : ∀ raw ∈ (patterns.phoneStretches input).raws, QuietToken unicode
        (placeholder "PHONE".toList
          ((TokenRegistry.enterAll {} (patterns.phoneStretches input).raws).number raw)) :=
      fun raw hraw => quietToken_placeholder unicode (hsmall raw hraw)
    have hagain := @phone_again unicode [] _ _ hcuts _ hquiet [] id
    rw [hagain.stretches_eq hdocumented.phone]

/-- Masking a masked text changes nothing and counts nothing, unless a stretch that the pass for
phone numbers kept has an address of its own or a billion phone numbers were replaced. -/
theorem masked_again_iff (hwords : unicode.WordsDocumented)
    (hdocumented : patterns.Documented unicode) (input : List Char) :
    maskPii patterns (maskPii patterns input).text = ⟨(maskPii patterns input).text, {}⟩ ↔
      (∀ stretch ∈ (patterns.phoneStretches input).kept, patterns.email.found stretch = []) ∧
        (patterns.phoneStretches input).raws.toFinset.card < 10 ^ 9 := by
  have hblind := blindToTokens_email hwords
  have haddresses : (patterns.email.stretches (fun _ => true) (maskPii patterns input).text).rest =
      [] ↔ ∀ stretch ∈ (patterns.phoneStretches input).kept, patterns.email.found stretch = [] := by
    rw [stretches_rest_eq_nil_iff hdocumented.email hblind.not_nil, maskPii_text_eq,
      hblind.noMatch_result fun raw _ => isToken_placeholder (by decide) _]
    simp only [found_eq_nil_iff, stretches_rest_eq_nil_iff hdocumented.email hblind.not_nil]
  have hmentions : (patterns.discordMention.stretches (fun _ => true)
      (maskPii patterns input).text).rest = [] :=
    (stretches_rest_eq_nil_iff hdocumented.discordMention
      (blindToTokens_discordMention hwords).not_nil _).mpr
        (discordMention_noMatch_masked hwords hdocumented input)
  have hnames : (patterns.atUsername.stretches isPlainMention
      (maskPii patterns input).text).rest = [] :=
    rest_nil_of_sparedNames (cuts_stretches hdocumented.atUsername _)
      (sparedNames_masked hdocumented input)
  rw [maskPii_unchanged_iff, haddresses, phones_again_iff hdocumented]
  simp only [hmentions, hnames, true_and]

end

theorem masked_call_stays_masked :
    maskPii kanaPatterns (maskPii kanaPatterns "mail a@b.co or dial 090-1234-5678".toList).text =
      ⟨"mail [EMAIL_1] or dial [PHONE_1]".toList, {}⟩ := by
  have hdocumented : kanaPatterns.Documented kanaClasses := ⟨rfl, rfl, rfl, rfl⟩
  have hagain := (masked_again_iff kanaClasses_words hdocumented
    "mail a@b.co or dial 090-1234-5678".toList).mpr
      ⟨by simp only [found_eq_nil_iff]; decide +kernel, by decide +kernel⟩
  rw [hagain]
  decide +kernel

/-- A digit behind an address hides it until the phone number that begins there is replaced. -/
example :
    (maskPii kanaPatterns "a@b.co09012345678".toList).text = "a@b.co[PHONE_1]".toList ∧
      (maskPii kanaPatterns "a@b.co[PHONE_1]".toList).text = "[EMAIL_1][PHONE_1]".toList := by
  decide +kernel

end DiscordTranscript.Domain
