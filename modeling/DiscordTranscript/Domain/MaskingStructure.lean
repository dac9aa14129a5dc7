import DiscordTranscript.Domain.MaskingFences
import DiscordTranscript.Domain.TranscriptLines
import DiscordTranscript.Foundation.Pointwise

/-! # Masking keeps the lines of a transcript

The fixed parts of a rendered line are fences for all four patterns. Three of them need an
`@`, which no fixed part has, and stop at its first and last character. A phone number begins
and ends with a digit (or a plus) and has no bracket, no letter and no colon; the only digits
of fixed parts are those of time stamps, which are matched as a whole and spared.
-/

namespace DiscordTranscript.Domain

open Text

/-! ## Fixed parts -/

/-- What stands between the fields of the rendered text. -/
inductive FixedPart : List Char → Prop
  | stamp (fields : LineFields) : FixedPart fields.stamp
  | nextStamp (fields : LineFields) : FixedPart ('\n' :: fields.stamp)
  | beforeId : FixedPart " (id:".toList
  | afterLabel (fields : LineFields) : FixedPart (fields.tags ++ ": ".toList)
  | afterId (fields : LineFields) : FixedPart (')' :: (fields.tags ++ ": ".toList))

/-- The characters at the ends of fixed parts. -/
def edgeChars : List Char := ['[', '\n', ' ', ')', ':']

theorem forall_edgeChars {p : Char → Prop} :
    (∀ c ∈ edgeChars, p c) ↔ p '[' ∧ p '\n' ∧ p ' ' ∧ p ')' ∧ p ':' := by
  simp [edgeChars]

theorem tags_cases (fields : LineFields) :
    fields.tags = [] ∨ fields.tags = " [VC_TEXT]".toList ∨ fields.tags = " [NOISY]".toList ∨
      fields.tags = " [VC_TEXT] [NOISY]".toList := by
  unfold LineFields.tags
  cases fields.source <;> cases fields.isNoisy <;> simp

theorem FixedPart.head_mem {fixed : List Char} (hfixed : FixedPart fixed) :
    ∃ c back, fixed = c :: back ∧ c ∈ edgeChars := by
  cases hfixed with
  | stamp fields => exact ⟨'[', _, rfl, by decide⟩
  | nextStamp fields => exact ⟨'\n', _, rfl, by decide⟩
  | beforeId => exact ⟨' ', _, rfl, by decide⟩
  | afterLabel fields =>
      rcases tags_cases fields with htags | htags | htags | htags <;> rw [htags]
      · exact ⟨':', _, rfl, by decide⟩
      · exact ⟨' ', _, rfl, by decide⟩
      · exact ⟨' ', _, rfl, by decide⟩
      · exact ⟨' ', _, rfl, by decide⟩
  | afterId fields => exact ⟨')', _, rfl, by decide⟩

theorem FixedPart.last_mem {fixed : List Char} (hfixed : FixedPart fixed) :
    ∃ front c, fixed = front ++ [c] ∧ c ∈ edgeChars := by
  cases hfixed with
  | stamp fields =>
      exact ⟨'[' :: decimal fields.startMs ++ '-' :: decimal fields.endMs ++ [']'], ' ',
        by simp [LineFields.stamp], by decide⟩
  | nextStamp fields =>
      exact ⟨'\n' :: '[' :: decimal fields.startMs ++ '-' :: decimal fields.endMs ++ [']'], ' ',
        by simp [LineFields.stamp], by decide⟩
  | beforeId => exact ⟨" (id".toList, ':', rfl, by decide⟩
  | afterLabel fields => exact ⟨fields.tags ++ [':'], ' ', by simp, by decide⟩
  | afterId fields => exact ⟨')' :: fields.tags ++ [':'], ' ', by simp, by decide⟩

theorem FixedPart.at_notMem {fixed : List Char} (hfixed : FixedPart fixed) : '@' ∉ fixed := by
  have hstamp : ∀ fields : LineFields, '@' ∉ fields.stamp := by
    intro fields
    have hstart := notMem_decimal (c := '@') (by decide) fields.startMs
    have hend := notMem_decimal (c := '@') (by decide) fields.endMs
    simp [LineFields.stamp, hstart, hend]
  have htags : ∀ fields : LineFields, '@' ∉ fields.tags := by
    intro fields
    rcases tags_cases fields with htags | htags | htags | htags <;> rw [htags] <;> decide
  cases hfixed with
  | stamp fields => exact hstamp fields
  | nextStamp fields => simp [hstamp fields]
  | beforeId => decide
  | afterLabel fields => simp [htags fields]
  | afterId fields => simp [htags fields]

/-! ## Patterns with an `@` -/

/-- A pattern whose matches have an `@` and no characters but the allowed ones. -/
structure AtPattern (unicode : UnicodeClasses) (pattern : Pattern) (allowed : Char → Bool) :
    Prop where
  has_at : ∀ prev raw after, pattern.Matches unicode.word prev raw after → '@' ∈ raw
  only : ∀ prev raw after, pattern.Matches unicode.word prev raw after →
    ∀ c ∈ raw, allowed c = true
  edges : ∀ c ∈ edgeChars, allowed c = false

theorem mem_take_append_cons {α : Type*} {front back : List α} {c : α} {n : ℕ}
    (hn : front.length < n) : c ∈ (front ++ c :: back).take n := by
  obtain ⟨k, hk⟩ : ∃ k, n - front.length = k + 1 := ⟨n - front.length - 1, by omega⟩
  rw [List.take_append, hk, List.take_succ_cons]
  simp

/-- A part between two characters that are not allowed is a fence. -/
theorem AtPattern.fence_of_edges {unicode : UnicodeClasses} {pattern : Pattern}
    {allowed : Char → Bool} (hpattern : AtPattern unicode pattern allowed) (label : List Char)
    (filter : RegexMatch → Bool) {fixed : List Char}
    (hhead : ∃ c back, fixed = c :: back ∧ allowed c = false)
    (hlast : ∃ front c, fixed = front ++ [c] ∧ allowed c = false) (hat : '@' ∉ fixed) :
    Fence unicode pattern label filter fixed := by
  have hblocked : ∀ prev text n front c back,
      pattern.matchAt unicode.word prev text = some n → text = front ++ c :: back →
      allowed c = false → n ≤ front.length := by
    intro prev text n front c back hmatch htext hedge
    obtain ⟨-, hmatches⟩ := Pattern.matches_of_matchAt unicode.word hmatch
    by_contra hlong
    have hmem : c ∈ text.take n := htext ▸ mem_take_append_cons (by omega)
    have hallowed := hpattern.only _ _ _ hmatches c hmem
    rw [hedge] at hallowed
    cases hallowed
  have hnone : ∀ prev front c back rest n, fixed = front ++ c :: back →
      pattern.matchAt unicode.word prev (c :: back ++ rest) ≠ some n := by
    intro prev front c back rest n hsplit hmatch
    -- The match ends before the last character of the fixed part, so it lies in the part.
    obtain ⟨first, last, hlast, hedge⟩ := hlast
    obtain ⟨-, hmatches⟩ := Pattern.matches_of_matchAt unicode.word hmatch
    have hwithin : n ≤ (c :: back).length := by
      rcases List.eq_nil_or_concat (c :: back) with hnil | ⟨inner, last', hinner⟩
      · cases hnil
      · have hsame : last' = last := by
          rw [hsplit, hinner, List.concat_eq_append, ← List.append_assoc] at hlast
          simpa using (List.append_inj' hlast rfl).2
        rw [List.concat_eq_append, hsame] at hinner
        have hle := hblocked _ _ n inner last rest hmatch (by rw [hinner]; simp) hedge
        rw [hinner, List.length_append]
        omega
    have hmem := hpattern.has_at _ _ _ hmatches
    rw [List.take_append_of_le_length hwithin] at hmem
    apply hat
    rw [hsplit]
    exact List.mem_append_right _ (List.mem_of_mem_take hmem)
  constructor
  · intro prev front rest n hmatch
    obtain ⟨c, back, rfl, hedge⟩ := hhead
    exact hblocked prev _ n front c (back ++ rest) hmatch rfl hedge
  · intro prev front c back rest n hsplit hmatch
    exact absurd hmatch (hnone prev front c back rest n hsplit)
  · intro before rest out hpass
    apply hpass.keep_fixed
    intro front c back n hsplit hmatch
    exact absurd hmatch (hnone _ front c back rest n hsplit)

theorem AtPattern.fence {unicode : UnicodeClasses} {pattern : Pattern} {allowed : Char → Bool}
    (hpattern : AtPattern unicode pattern allowed) (label : List Char)
    (filter : RegexMatch → Bool) {fixed : List Char} (hfixed : FixedPart fixed) :
    Fence unicode pattern label filter fixed := by
  obtain ⟨first, back, hfirst, hfirstEdge⟩ := hfixed.head_mem
  obtain ⟨front, last, hlast, hlastEdge⟩ := hfixed.last_mem
  exact hpattern.fence_of_edges label filter ⟨first, back, hfirst, hpattern.edges first hfirstEdge⟩
    ⟨front, last, hlast, hpattern.edges last hlastEdge⟩ hfixed.at_notMem

theorem atPattern_email (unicode : UnicodeClasses) :
    AtPattern unicode emailPattern fun c => isMailboxChar c || c = '@' := by
  have hmatched : ∀ prev raw after, emailPattern.Matches unicode.word prev raw after →
      ∃ mailbox domain letters, raw = mailbox ++ '@' :: (domain ++ '.' :: letters) ∧
        (∀ c ∈ mailbox, isMailboxChar c = true) ∧ (∀ c ∈ domain, isDomainChar c = true) ∧
        ∀ c ∈ letters, isFoldedLetter c = true := by
    rintro prev raw after ⟨_, _, rfl, ⟨rfl, -⟩, mailbox, _, rfl, ⟨hmailbox, -⟩, _, _, rfl,
      ⟨c, rfl, hc⟩, domain, _, rfl, ⟨hdomain, -⟩, _, _, rfl, ⟨d, rfl, hd⟩, letters, _, rfl,
      ⟨hletters, -⟩, rfl, -⟩
    rw [decide_eq_true_eq] at hc hd
    refine ⟨mailbox, domain, letters, ?_, hmailbox, hdomain, hletters⟩
    simp [hc, hd]
  refine ⟨?_, ?_, forall_edgeChars.mpr (by decide)⟩
  · intro prev raw after hmatches
    obtain ⟨mailbox, domain, letters, rfl, -⟩ := hmatched prev raw after hmatches
    simp
  · intro prev raw after hmatches c hc
    obtain ⟨mailbox, domain, letters, rfl, hmailbox, hdomain, hletters⟩ :=
      hmatched prev raw after hmatches
    simp only [List.mem_append, List.mem_cons] at hc
    rcases hc with hc | rfl | hc | rfl | hc
    · simp [hmailbox c hc]
    · decide
    · have := hdomain c hc
      simp only [isDomainChar, isMailboxChar, Bool.or_eq_true, List.contains_eq_mem,
        List.mem_cons, decide_eq_true_eq] at this ⊢
      tauto
    · decide
    · simp [isMailboxChar, hletters c hc]

theorem atPattern_discordMention (unicode : UnicodeClasses) :
    AtPattern unicode (discordMentionPattern unicode) fun c =>
      unicode.digit c || ['<', '@', '!', '&', '>'].contains c := by
  have hmatched : ∀ prev raw after,
      (discordMentionPattern unicode).Matches unicode.word prev raw after →
      ∃ sign digits, raw = '<' :: '@' :: (sign ++ (digits ++ ['>'])) ∧
        (∀ c ∈ sign, c = '!' ∨ c = '&') ∧ ∀ c ∈ digits, unicode.digit c = true := by
    rintro prev raw after (⟨_, _, rfl, ⟨a, rfl, ha⟩, _, _, rfl, ⟨b, rfl, hb⟩, sign, _, rfl, hsign,
      digits, _, rfl, ⟨hdigits, -⟩, e, rfl, he⟩ | ⟨_, _, rfl, ⟨a, rfl, ha⟩, _, _, rfl,
      ⟨b, rfl, hb⟩, sign, _, rfl, hsign, digits, _, rfl, ⟨hdigits, -⟩, e, rfl, he⟩)
    · rw [decide_eq_true_eq] at ha hb he
      refine ⟨sign, digits, by simp [ha, hb, he], ?_, hdigits⟩
      rcases hsign with rfl | ⟨d, rfl, hd⟩
      · simp
      · rw [decide_eq_true_eq] at hd
        simp [hd]
    · rw [decide_eq_true_eq] at ha hb he
      obtain ⟨d, rfl, hd⟩ := hsign
      rw [decide_eq_true_eq] at hd
      exact ⟨[d], digits, by simp [ha, hb, he], by simp [hd], hdigits⟩
  refine ⟨?_, ?_, ?_⟩
  · intro prev raw after hmatches
    obtain ⟨sign, digits, rfl, -⟩ := hmatched prev raw after hmatches
    simp
  · intro prev raw after hmatches c hc
    obtain ⟨sign, digits, rfl, hsign, hdigits⟩ := hmatched prev raw after hmatches
    simp only [List.mem_append, List.mem_cons, List.not_mem_nil, or_false] at hc
    rcases hc with rfl | rfl | hc | hc | rfl
    · simp
    · simp
    · rcases hsign c hc with rfl | rfl <;> simp
    · simp [hdigits c hc]
    · simp
  · have hascii : ∀ c ∈ edgeChars, c.toNat < 128 ∧ c.isDigit = false ∧
        ['<', '@', '!', '&', '>'].contains c = false := forall_edgeChars.mpr (by decide)
    intro c hc
    obtain ⟨hlt, hdigit, hother⟩ := hascii c hc
    rw [unicode.digit_ascii c hlt, hdigit, hother]
    rfl

theorem atPattern_atUsername (unicode : UnicodeClasses) :
    AtPattern unicode atUsernamePattern fun c => c.isAlphanum || c = '_' || c = '@' := by
  have hmatched : ∀ prev raw after, atUsernamePattern.Matches unicode.word prev raw after →
      ∃ name, raw = '@' :: name ∧ ∀ c ∈ name, (c.isAlphanum || c = '_') = true := by
    rintro prev raw after ⟨_, name, rfl, ⟨a, rfl, ha⟩, hname, -⟩
    rw [decide_eq_true_eq] at ha
    exact ⟨name, by simp [ha], hname⟩
  refine ⟨?_, ?_, forall_edgeChars.mpr (by decide)⟩
  · intro prev raw after hmatches
    obtain ⟨name, rfl, -⟩ := hmatched prev raw after hmatches
    simp
  · intro prev raw after hmatches c hc
    obtain ⟨name, rfl, hname⟩ := hmatched prev raw after hmatches
    rcases List.mem_cons.mp hc with rfl | hc
    · decide
    · simp [hname c hc]

/-! ## Phone numbers -/

section

variable (unicode : UnicodeClasses)

/-- A phone number begins with a plus or a digit, ends with a digit and has ten characters. -/
structure PhoneShaped (raw : List Char) : Prop where
  length_le : 10 ≤ raw.length
  first : ∃ c back, raw = c :: back ∧ (c = '+' ∨ unicode.digit c = true)
  last : ∃ front c, raw = front ++ [c] ∧ unicode.digit c = true
  only : ∀ c ∈ raw, c = '+' ∨ isPhoneChar unicode c = true

theorem phoneShaped_of_matches {prev : Option Char} {raw after : List Char}
    (hmatches : (phonePattern unicode).Matches unicode.word prev raw after) :
    PhoneShaped unicode raw := by
  obtain ⟨sign, _, rfl, hsign, _, _, rfl, ⟨d, rfl, hd⟩, inner, _, rfl, ⟨hinner, hlength, -⟩, e,
    rfl, he⟩ := hmatches
  have hdigit : ∀ c, unicode.digit c = true → isPhoneChar unicode c = true := by
    intro c hc
    simp [isPhoneChar, hc]
  have hplus : sign = [] ∨ sign = ['+'] := by
    rcases hsign with hnone | ⟨c, rfl, hc⟩
    · exact .inl hnone
    · rw [decide_eq_true_eq] at hc
      exact .inr (by rw [hc])
  constructor
  · simp only [List.length_append, List.length_cons, List.length_nil]
    omega
  · rcases hplus with rfl | rfl
    · exact ⟨d, inner ++ [e], by simp, .inr hd⟩
    · exact ⟨'+', d :: (inner ++ [e]), by simp, .inl rfl⟩
  · exact ⟨sign ++ d :: inner, e, by simp, he⟩
  · intro c hc
    simp only [List.mem_append, List.mem_cons, List.not_mem_nil, or_false] at hc
    rcases hc with hc | rfl | hc | rfl
    · rcases hplus with rfl | rfl
      · cases hc
      · exact .inl (List.mem_singleton.mp hc)
    · exact .inr (hdigit c hd)
    · exact .inr (hinner c hc)
    · exact .inr (hdigit c he)

theorem phoneShaped_of_matchAt {prev : Option Char} {text : List Char} {n : ℕ}
    (hmatch : (phonePattern unicode).matchAt unicode.word prev text = some n) :
    n ≤ text.length ∧ PhoneShaped unicode (text.take n) := by
  obtain ⟨hle, hmatches⟩ := Pattern.matches_of_matchAt unicode.word hmatch
  exact ⟨hle, phoneShaped_of_matches unicode hmatches⟩

/-- A character of no phone number. -/
def NoPhoneChar (c : Char) : Prop := c ≠ '+' ∧ isPhoneChar unicode c = false

theorem noPhoneChar_of_ascii {c : Char} (hascii : c.toNat < 128 ∧ c.isDigit = false)
    (hother : (c = '+' || c = '-' || isWhitespace c || c = '(' || c = ')' || c = '.') = false) :
    NoPhoneChar unicode c := by
  simp only [Bool.or_eq_false_iff, decide_eq_false_iff_not] at hother
  obtain ⟨⟨⟨⟨⟨hplus, hminus⟩, hspace⟩, hopen⟩, hclose⟩, hdot⟩ := hother
  refine ⟨hplus, ?_⟩
  simp [isPhoneChar, unicode.digit_ascii c hascii.1, hascii.2, hminus, hspace, hopen, hclose, hdot]

/-- No phone number reaches a character of none. -/
theorem le_of_phone_match {prev : Option Char} {text front back : List Char} {c : Char} {n : ℕ}
    (hmatch : (phonePattern unicode).matchAt unicode.word prev text = some n)
    (htext : text = front ++ c :: back) (hc : NoPhoneChar unicode c) : n ≤ front.length := by
  by_contra hlong
  have hmem : c ∈ text.take n := htext ▸ mem_take_append_cons (by omega)
  rcases (phoneShaped_of_matchAt unicode hmatch).2.only c hmem with hplus | hphone
  · exact hc.1 hplus
  · rw [hc.2] at hphone
    cases hphone

/-- No phone number reaches into a part whose first characters it cannot end with. -/
theorem phone_stops {fixed margin back : List Char} {c : Char} (hfixed : fixed = margin ++ c :: back)
    (hc : NoPhoneChar unicode c) (hmargin : ∀ d ∈ margin, unicode.digit d = false)
    {prev : Option Char} {front rest : List Char} {n : ℕ}
    (hmatch : (phonePattern unicode).matchAt unicode.word prev (front ++ (fixed ++ rest)) = some n) :
    n ≤ front.length := by
  have hle := le_of_phone_match unicode hmatch
    (show front ++ (fixed ++ rest) = (front ++ margin) ++ c :: (back ++ rest) by
      rw [hfixed]
      simp) hc
  rw [List.length_append] at hle
  by_contra hlong
  obtain ⟨k, hk⟩ : ∃ k, n - front.length = k + 1 := ⟨n - front.length - 1, by omega⟩
  obtain ⟨inner, last, hraw, hdigit⟩ := (phoneShaped_of_matchAt unicode hmatch).2.last
  -- What the match has of the part is not empty and ends with the match.
  have htake : (front ++ (fixed ++ rest)).take n = front ++ margin.take (k + 1) := by
    rw [hfixed, List.append_assoc, List.take_append, hk, List.take_of_length_le (by omega),
      List.take_append_of_le_length (by omega)]
  have hne : margin.take (k + 1) ≠ [] := by
    apply List.ne_nil_of_length_pos
    rw [List.length_take]
    omega
  have hlast : last ∈ margin.take (k + 1) := by
    have hget : (front ++ margin.take (k + 1)).getLast? = some last := by
      rw [← htake, hraw, List.getLast?_concat]
    rw [List.getLast?_append_of_ne_nil _ hne] at hget
    exact List.mem_of_getLast? hget
  rw [hmargin last (List.mem_of_mem_take hlast)] at hdigit
  cases hdigit

/-- No phone number begins with another character. -/
theorem phone_no_match {prev : Option Char} {c : Char} {rest : List Char} {n : ℕ}
    (hc : c ≠ '+' ∧ unicode.digit c = false) :
    (phonePattern unicode).matchAt unicode.word prev (c :: rest) ≠ some n := by
  intro hmatch
  obtain ⟨first, tail, hraw, hfirst⟩ := (phoneShaped_of_matchAt unicode hmatch).2.first
  have hhead : first = c := by
    cases n with
    | zero => cases hraw
    | succ n =>
        rw [List.take_succ_cons] at hraw
        exact (List.cons.inj hraw).1.symm
  rw [hhead] at hfirst
  rcases hfirst with hfirst | hfirst
  · exact hc.1 hfirst
  · rw [hc.2] at hfirst
    cases hfirst

/-- A part without digits and pluses is kept. -/
theorem phone_keeps {before fixed rest out : List Char} {label : List Char}
    {filter : RegexMatch → Bool}
    (hpass : Pass unicode (phonePattern unicode) label filter before (fixed ++ rest) out)
    (hfixed : ∀ c ∈ fixed, c ≠ '+' ∧ unicode.digit c = false) :
    ∃ out', out = fixed ++ out' ∧
      Pass unicode (phonePattern unicode) label filter (before ++ fixed) rest out' := by
  apply hpass.keep_fixed
  intro front c back n hsplit hmatch
  exact absurd hmatch (phone_no_match unicode (hfixed c (by rw [hsplit]; simp)))

/-! ### Time stamps -/

/-- The greedy match of a run that begins and ends with a digit is the run. -/
theorem phone_match_run (prev : Option Char) {d e stop : Char} {inner : List Char}
    (rest : List Char)
    (hd : unicode.digit d = true) (hplus : d ≠ '+') (he : unicode.digit e = true)
    (hinner : ∀ c ∈ inner, isPhoneChar unicode c = true)
    (hstop : isPhoneChar unicode stop = false) (hlength : 8 ≤ inner.length) :
    (phonePattern unicode).matchAt unicode.word prev (d :: (inner ++ e :: stop :: rest)) =
      some (inner.length + 2) := by
  have hphone : isPhoneChar unicode e = true := by simp [isPhoneChar, he]
  have hstopDigit : unicode.digit stop = false := by
    simp only [isPhoneChar, Bool.or_eq_false_iff] at hstop
    exact hstop.1.1.1.1.1
  have hrun : (inner ++ e :: stop :: rest).takeWhile (isPhoneChar unicode) = inner ++ [e] := by
    rw [List.takeWhile_append_of_pos hinner, List.takeWhile_cons_of_pos hphone,
      List.takeWhile_cons_of_neg (by simp [hstop])]
  have hcandidates : (List.range (inner.length + 1 + 1)).reverse.filter (8 ≤ ·) =
      (inner.length + 1) :: inner.length ::
        (List.range inner.length).reverse.filter (8 ≤ ·) := by
    rw [List.range_succ, List.range_succ]
    simp [hlength, Nat.le_succ_of_le hlength]
  unfold Pattern.matchAt phonePattern exactly
  simp only [Pattern.lengths, List.head?_cons, Option.any_some, hplus, decide_false,
    Bool.false_eq_true, if_false, List.nil_append, List.flatMap_cons, List.flatMap_nil,
    List.append_nil, List.drop_zero, hd, if_true, List.drop_succ_cons, hrun,
    List.length_append, List.length_singleton, Option.elim_none, hcandidates]
  have hsum : 1 + (inner.length + 1) = inner.length + 2 := by omega
  simp [hstopDigit, he, hsum]

/-- The numbers of a time stamp. -/
def stampRun (fields : LineFields) : List Char :=
  decimal fields.startMs ++ '-' :: decimal fields.endMs

theorem stamp_eq (fields : LineFields) :
    fields.stamp = '[' :: (stampRun fields ++ [']', ' ']) := by
  simp [LineFields.stamp, stampRun]

theorem digit_of_isDigit {c : Char} (hc : c.isDigit = true) :
    unicode.digit c = true ∧ c ≠ '+' := by
  have hrange : c.toNat < 128 := by
    simp only [Char.isDigit, Bool.and_eq_true, decide_eq_true_eq, UInt32.le_iff_toNat_le] at hc
    have hupper : c.val.toNat ≤ 57 := hc.2
    exact lt_of_le_of_lt hupper (by decide)
  refine ⟨(unicode.digit_ascii c hrange).trans hc, ?_⟩
  rintro rfl
  cases hc

/-- A time stamp begins and ends with a digit. -/
theorem stampRun_split (fields : LineFields) :
    ∃ d inner e, stampRun fields = d :: (inner ++ [e]) ∧ d.isDigit = true ∧ e.isDigit = true ∧
      ∀ c ∈ inner, isPhoneChar unicode c = true := by
  obtain ⟨d, front, hstart⟩ := List.exists_cons_of_ne_nil (decimal_ne_nil fields.startMs)
  rcases List.eq_nil_or_concat (decimal fields.endMs) with hnil | ⟨back, e, hend⟩
  · exact absurd hnil (decimal_ne_nil fields.endMs)
  · rw [List.concat_eq_append] at hend
    refine ⟨d, front ++ '-' :: back, e, ?_, ?_, ?_, ?_⟩
    · simp [stampRun, hstart, hend]
    · exact isDigit_of_mem_decimal (hstart ▸ List.mem_cons_self)
    · exact isDigit_of_mem_decimal (hend ▸ List.mem_append_right _ (List.mem_singleton_self e))
    · intro c hc
      have hdigit : ∀ value, c ∈ decimal value → isPhoneChar unicode c = true := by
        intro value hmem
        simp [isPhoneChar, (digit_of_isDigit unicode (isDigit_of_mem_decimal hmem)).1]
      rcases List.mem_append.mp hc with hc | hc
      · exact hdigit fields.startMs (hstart ▸ List.mem_cons_of_mem _ hc)
      · rcases List.mem_cons.mp hc with rfl | hc
        · simp [isPhoneChar]
        · exact hdigit fields.endMs (hend ▸ List.mem_append_left _ hc)

theorem noPhoneChar_closing : NoPhoneChar unicode ']' :=
  noPhoneChar_of_ascii unicode (by decide) (by decide)

theorem isPhoneNumber_stamp (before after : List Char) (raw : List Char) :
    isPhoneNumber ⟨before ++ ['['], raw, ']' :: after⟩ = false := by
  simp [isPhoneNumber]

/-- The numbers of a time stamp are too short for a phone number, or they are matched as a
whole and spared. -/
theorem phone_keeps_stampRun {before rest out label : List Char} {fields : LineFields}
    (hpass : Pass unicode (phonePattern unicode) label isPhoneNumber (before ++ ['['])
      (stampRun fields ++ ']' :: rest) out) :
    ∃ out', out = stampRun fields ++ out' ∧
      Pass unicode (phonePattern unicode) label isPhoneNumber
        (before ++ ['['] ++ stampRun fields) (']' :: rest) out' := by
  obtain ⟨d, inner, e, hrun, hd, he, hinner⟩ := stampRun_split unicode fields
  obtain ⟨hdigit, hplus⟩ := digit_of_isDigit unicode hd
  by_cases hlong : 8 ≤ inner.length
  · have hmatch := phone_match_run unicode (before ++ ['[']).getLast? rest hdigit hplus
      (digit_of_isDigit unicode he).1 hinner (noPhoneChar_closing unicode).2 hlong
    apply hpass.keep_spared
    · simp [hrun]
    · simpa [hrun] using hmatch
    · exact isPhoneNumber_stamp before rest (stampRun fields)
  · apply hpass.keep_fixed
    intro front c back n hsplit hmatch
    exfalso
    have hle := le_of_phone_match unicode hmatch rfl (noPhoneChar_closing unicode)
    obtain ⟨-, hshape⟩ := phoneShaped_of_matchAt unicode hmatch
    have hten := hshape.length_le
    have htotal := congrArg List.length hsplit
    rw [hrun] at htotal
    simp only [List.length_cons, List.length_append, List.length_take, List.length_nil] at *
    omega

/-- A phone number that begins in a time stamp ends with it. -/
theorem phone_inside_stamp {margin front back rest : List Char} {c : Char} {prev : Option Char}
    {n : ℕ} {fields : LineFields} (hmargin : ∀ c ∈ margin, c ≠ '+' ∧ unicode.digit c = false)
    (hsplit : margin ++ fields.stamp = front ++ c :: back)
    (hmatch : (phonePattern unicode).matchAt unicode.word prev (c :: back ++ rest) = some n) :
    n ≤ (c :: back).length ∧ '\n' ∉ (c :: back).take n := by
  have hdigit : ∀ c, c.toNat < 128 ∧ c.isDigit = false → unicode.digit c = false := by
    intro c hc
    rw [unicode.digit_ascii c hc.1, hc.2]
  have hbefore : c ∉ margin ++ ['['] := by
    intro hc
    rcases List.mem_append.mp hc with hc | hc
    · exact phone_no_match unicode (hmargin c hc) hmatch
    · rw [List.mem_singleton.mp hc] at hmatch
      exact phone_no_match unicode ⟨by decide, hdigit _ (by decide)⟩ hmatch
  have hafter : c ∉ [']', ' '] := by
    intro hc
    simp only [List.mem_cons, List.not_mem_nil, or_false] at hc
    rcases hc with rfl | rfl
    · exact phone_no_match unicode ⟨by decide, hdigit _ (by decide)⟩ hmatch
    · exact phone_no_match unicode ⟨by decide, hdigit _ (by decide)⟩ hmatch
  have htext : front ++ c :: back = (margin ++ ['[']) ++ (stampRun fields ++ [']', ' ']) := by
    rw [← hsplit, stamp_eq]
    simp
  obtain ⟨front', -, hstamp⟩ := Separated.append_cons_eq_append_of_notMem htext hbefore
  obtain ⟨back', rfl, hrun⟩ := Separated.append_cons_eq_append_of_notMem_right hstamp.symm hafter
  have hle := le_of_phone_match unicode hmatch
    (show c :: (back' ++ [']', ' ']) ++ rest = (c :: back') ++ ']' :: (' ' :: rest) by simp)
    (noPhoneChar_closing unicode)
  refine ⟨hle.trans (by simp), ?_⟩
  intro hline
  rw [← List.cons_append, List.take_append_of_le_length hle] at hline
  have hstart := notMem_decimal (c := '\n') (by decide) fields.startMs
  have hend := notMem_decimal (c := '\n') (by decide) fields.endMs
  have hmem : '\n' ∈ stampRun fields := by
    rw [hrun]
    exact List.mem_append_right _ (List.mem_of_mem_take hline)
  simp [stampRun, hstart, hend] at hmem

theorem phone_fence_stamp (label margin : List Char) (fields : LineFields)
    (hmargin : ∀ c ∈ margin, c ≠ '+' ∧ unicode.digit c = false) :
    Fence unicode (phonePattern unicode) label isPhoneNumber (margin ++ fields.stamp) := by
  have hopening : NoPhoneChar unicode '[' := noPhoneChar_of_ascii unicode (by decide) (by decide)
  have hdigit : ∀ c, c.toNat < 128 → c.isDigit = false → unicode.digit c = false := by
    intro c hascii hc
    rw [unicode.digit_ascii c hascii, hc]
  constructor
  · intro prev front rest n hmatch
    exact phone_stops unicode (by rw [stamp_eq]) hopening (fun c hc => (hmargin c hc).2) hmatch
  · intro prev front c back rest n hsplit hmatch
    exact phone_inside_stamp unicode hmargin hsplit hmatch
  · intro before rest out hpass
    have htext : margin ++ fields.stamp ++ rest =
        (margin ++ ['[']) ++ (stampRun fields ++ ']' :: ' ' :: rest) := by
      simp [stamp_eq]
    rw [htext] at hpass
    obtain ⟨first, rfl, hstamp⟩ := phone_keeps unicode hpass (by
      intro c hc
      rcases List.mem_append.mp hc with hc | hc
      · exact hmargin c hc
      · rw [List.mem_singleton.mp hc]
        exact ⟨by decide, hdigit _ (by decide) (by decide)⟩)
    rw [← List.append_assoc] at hstamp
    obtain ⟨second, rfl, hclosing⟩ := phone_keeps_stampRun unicode hstamp
    obtain ⟨third, rfl, hrest⟩ := phone_keeps unicode
      (show Pass unicode (phonePattern unicode) label isPhoneNumber _ ([']', ' '] ++ rest) second
        from hclosing) (by
      intro c hc
      simp only [List.mem_cons, List.not_mem_nil, or_false] at hc
      rcases hc with rfl | rfl
      · exact ⟨by decide, hdigit _ (by decide) (by decide)⟩
      · exact ⟨by decide, hdigit _ (by decide) (by decide)⟩)
    refine ⟨third, by simp [stamp_eq], ?_⟩
    simpa [stamp_eq] using hrest

theorem phone_fence_plain (label : List Char) (filter : RegexMatch → Bool)
    {fixed margin back : List Char} {c : Char}
    (hplain : fixed.all (fun d => decide (d.toNat < 128) && !d.isDigit && decide (d ≠ '+')) = true)
    (hfixed : fixed = margin ++ c :: back) (hc : NoPhoneChar unicode c) :
    Fence unicode (phonePattern unicode) label filter fixed := by
  have hchars : ∀ d ∈ fixed, d ≠ '+' ∧ unicode.digit d = false := by
    intro d hd
    have hplain := List.all_eq_true.mp hplain d hd
    simp only [Bool.and_eq_true, decide_eq_true_eq, Bool.not_eq_true'] at hplain
    exact ⟨hplain.2, (unicode.digit_ascii d hplain.1.1).trans hplain.1.2⟩
  constructor
  · intro prev front rest n hmatch
    apply phone_stops unicode hfixed hc _ hmatch
    intro d hd
    exact (hchars d (by rw [hfixed]; exact List.mem_append_left _ hd)).2
  · intro prev front d back rest n hsplit hmatch
    exact absurd hmatch (phone_no_match unicode (hchars d (by rw [hsplit]; simp)))
  · intro before rest out hpass
    exact phone_keeps unicode hpass hchars

/-- A colon or the bracket of a tag ends the names. -/
theorem after_names (fields : LineFields) :
    (fields.tags ++ ": ".toList).all
        (fun d => decide (d.toNat < 128) && !d.isDigit && decide (d ≠ '+')) = true ∧
      ∃ margin c back, fields.tags ++ ": ".toList = margin ++ c :: back ∧ NoPhoneChar unicode c := by
  have hopening : NoPhoneChar unicode '[' := noPhoneChar_of_ascii unicode (by decide) (by decide)
  have hcolon : NoPhoneChar unicode ':' := noPhoneChar_of_ascii unicode (by decide) (by decide)
  rcases tags_cases fields with htags | htags | htags | htags <;> rw [htags]
  · exact ⟨by decide, [], ':', _, rfl, hcolon⟩
  · exact ⟨by decide, [' '], '[', _, rfl, hopening⟩
  · exact ⟨by decide, [' '], '[', _, rfl, hopening⟩
  · exact ⟨by decide, [' '], '[', _, rfl, hopening⟩

theorem FixedPart.phone_fence (label : List Char) {fixed : List Char} (hfixed : FixedPart fixed) :
    Fence unicode (phonePattern unicode) label isPhoneNumber fixed := by
  cases hfixed with
  | stamp fields => exact phone_fence_stamp unicode label [] fields (by simp)
  | nextStamp fields =>
      apply phone_fence_stamp unicode label ['\n'] fields
      intro c hc
      rw [List.mem_singleton.mp hc]
      exact ⟨by decide, unicode.digit_ascii '\n' (by decide)⟩
  | beforeId =>
      exact phone_fence_plain unicode label _ (by decide)
        (show " (id:".toList = [' ', '('] ++ 'i' :: ['d', ':'] from rfl)
        (noPhoneChar_of_ascii unicode (by decide) (by decide))
  | afterLabel fields =>
      obtain ⟨hplain, margin, c, back, hsplit, hc⟩ := after_names unicode fields
      exact phone_fence_plain unicode label _ hplain hsplit hc
  | afterId fields =>
      obtain ⟨hplain, margin, c, back, hsplit, hc⟩ := after_names unicode fields
      apply phone_fence_plain unicode label _ _
        (show ')' :: (fields.tags ++ ": ".toList) = (')' :: margin) ++ c :: back by rw [hsplit]; rfl)
        hc
      rw [List.all_cons, hplain]
      decide

end

/-! ## The four passes -/

/-- What the four passes make of a field. -/
def MaskedField (field masked : List Char) : Prop :=
  ∃ first second third, Masks "EMAIL".toList field first ∧ Masks "USER".toList first second ∧
    Masks "USER".toList second third ∧ Masks "PHONE".toList third masked

def BlockMasked (block masked : List Char × List Char) : Prop :=
  masked.1 = block.1 ∧ MaskedField block.2 masked.2

theorem forall₂_blockMasked {blocks first second third masked : List (List Char × List Char)}
    (hfirst : List.Forall₂ (BlockMasks "EMAIL".toList) blocks first)
    (hsecond : List.Forall₂ (BlockMasks "USER".toList) first second)
    (hthird : List.Forall₂ (BlockMasks "USER".toList) second third)
    (hmasked : List.Forall₂ (BlockMasks "PHONE".toList) third masked) :
    List.Forall₂ BlockMasked blocks masked := by
  have hmentions : List.Forall₂ (fun block masked : List Char × List Char =>
      masked.1 = block.1 ∧ ∃ between, Masks "USER".toList block.2 between ∧
        Masks "USER".toList between masked.2) first third := by
    apply hsecond.comp_of _ hthird
    intro block between masked hblock hnext
    exact ⟨hnext.1.trans hblock.1, between.2, hblock.2, hnext.2⟩
  have hnamed : List.Forall₂ (fun block masked : List Char × List Char =>
      masked.1 = block.1 ∧ ∃ first second, Masks "EMAIL".toList block.2 first ∧
        Masks "USER".toList first second ∧ Masks "USER".toList second masked.2) blocks third := by
    apply hfirst.comp_of _ hmentions
    rintro block first masked hblock ⟨hfixed, second, hmention, hname⟩
    exact ⟨hfixed.trans hblock.1, first.2, second, hblock.2, hmention, hname⟩
  apply hnamed.comp_of _ hmasked
  rintro block third masked ⟨hfixed, first, second, hemail, hmention, hname⟩ hphone
  exact ⟨hphone.1.trans hfixed, first, second, third.2, hemail, hmention, hname, hphone.2⟩

/-- A character that no placeholder has does not come in. -/
theorem Masks.notMem {label text out : List Char} {c : Char} (hmasks : Masks label text out)
    (hplaceholder : ∀ index, c ∉ placeholder label index) (hc : c ∉ text) : c ∉ out := by
  induction hmasks with
  | nil => exact hc
  | keep d _ ih =>
      simp only [List.mem_cons, not_or] at hc ⊢
      exact ⟨hc.1, ih hc.2⟩
  | mask index _ _ ih =>
      simp only [List.mem_append, not_or] at hc ⊢
      exact ⟨hplaceholder index, ih hc.2⟩

theorem notMem_placeholder {label : List Char} {c : Char} (hdigit : c.isDigit = false)
    (hlabel : c ∉ '[' :: '_' :: ']' :: label) (index : ℕ) : c ∉ placeholder label index := by
  have hindex : c ∉ (toString index).toList := notMem_decimal hdigit index
  simp only [List.mem_cons, not_or] at hlabel
  simp only [placeholder, List.mem_append, List.mem_cons, List.not_mem_nil, not_or, or_false]
  exact ⟨⟨⟨hlabel.1, hlabel.2.2.2⟩, hlabel.2.1, hindex⟩, hlabel.2.2.1⟩

/-! ### Framed text -/

/-- Blocks of a rendered text: fences and fields of one line. -/
structure Framed (blocks : List (List Char × List Char)) : Prop where
  fixed : ∀ block ∈ blocks, FixedPart block.1
  line : ∀ block ∈ blocks, '\n' ∉ block.2

theorem Framed.of_blockMasks {label : List Char} {blocks blocks' : List (List Char × List Char)}
    (hframed : Framed blocks) (hlabel : '\n' ∉ '[' :: '_' :: ']' :: label)
    (hblocks : List.Forall₂ (BlockMasks label) blocks blocks') : Framed blocks' := by
  constructor
  · intro block' hblock'
    obtain ⟨block, hblock, hsame, -⟩ := hblocks.exists_of_mem_right hblock'
    rw [hsame]
    exact hframed.fixed block hblock
  · intro block' hblock'
    obtain ⟨block, hblock, -, hmasks⟩ := hblocks.exists_of_mem_right hblock'
    exact hmasks.notMem (notMem_placeholder (by decide) hlabel) (hframed.line block hblock)

/-- The text that a search goes through has the fixed parts of the rendered one, and every
match of the search lies between them or in one of them. -/
def SearchedApart (blocks : List (List Char × List Char)) (search : Regex × List Char) : Prop :=
  ∃ scanned, search.2 = blocksText scanned ∧ scanned.map (·.1) = blocks.map (·.1) ∧
    ∀ found ∈ search.1.found search.2, found.InOne (blockParts scanned)

theorem fixed_of_blockMasks {label : List Char} {blocks blocks' : List (List Char × List Char)}
    (hblocks : List.Forall₂ (BlockMasks label) blocks blocks') :
    blocks'.map (·.1) = blocks.map (·.1) := by
  apply hblocks.map_eq_of
  intro block block' hblock
  exact hblock.1

theorem Framed.searchedApart {unicode : UnicodeClasses} {pattern : Pattern} {label : List Char}
    {filter : RegexMatch → Bool} {regex : Regex} {blocks whole : List (List Char × List Char)}
    (hframed : Framed blocks) (hwhole : blocks.map (·.1) = whole.map (·.1))
    (hregex : regex.cut = (unicode.regex pattern).cut)
    (hfences : ∀ block ∈ blocks, Fence unicode pattern label filter block.1) :
    SearchedApart whole (regex, blocksText blocks) := by
  refine ⟨blocks, rfl, hwhole, ?_⟩
  intro found hfound
  obtain ⟨htext, hraw, hmatch⟩ := matchAt_of_mem_found unicode pattern hregex hfound
  exact inOne_of_matchAt hfences hframed.line hraw htext hmatch

/-- The searches of a masking, each with the text that the ones before it leave. -/
def maskSearches (patterns : PiiPatterns) (input : List Char) : List (Regex × List Char) :=
  let (first, _) := replaceWithRegistryWithInput input patterns.email "EMAIL".toList {}
    fun _ => true
  let (second, mentions) := replaceWithRegistryWithInput first patterns.discordMention
    "USER".toList {} fun _ => true
  let (third, _) := replaceWithRegistryWithInput second patterns.atUsername "USER".toList
    mentions isPlainMention
  [(patterns.email, input), (patterns.discordMention, first), (patterns.atUsername, second),
    (patterns.phone, third)]

theorem maskPii_blocks {unicode : UnicodeClasses} {patterns : PiiPatterns}
    (hdocumented : patterns.Documented unicode) {blocks : List (List Char × List Char)}
    (hframed : Framed blocks) :
    (∃ masked, (maskPii patterns (blocksText blocks)).text = blocksText masked ∧
      List.Forall₂ BlockMasked blocks masked) ∧
    ∀ search ∈ maskSearches patterns (blocksText blocks), SearchedApart blocks search := by
  unfold maskPii maskSearches
  dsimp only
  have hfences₁ := fun block hblock =>
    (atPattern_email unicode).fence "EMAIL".toList (fun _ => true) (hframed.fixed block hblock)
  obtain ⟨first, hfirstText, hfirst⟩ := (pass_replaceWithRegistryWithInput unicode emailPattern
    "EMAIL".toList (fun _ => true) hdocumented.email (blocksText blocks) {}).mask_blocks hfences₁
  have hframed₁ := hframed.of_blockMasks (by decide) hfirst
  have hwhole₁ := fixed_of_blockMasks hfirst
  rw [hfirstText]
  have hfences₂ := fun block hblock => (atPattern_discordMention unicode).fence "USER".toList
    (fun _ => true) (hframed₁.fixed block hblock)
  obtain ⟨second, hsecondText, hsecond⟩ := (pass_replaceWithRegistryWithInput unicode
    (discordMentionPattern unicode) "USER".toList (fun _ => true) hdocumented.discordMention
    (blocksText first) {}).mask_blocks hfences₂
  have hframed₂ := hframed₁.of_blockMasks (by decide) hsecond
  have hwhole₂ := (fixed_of_blockMasks hsecond).trans hwhole₁
  rw [hsecondText]
  have hfences₃ := fun block hblock => (atPattern_atUsername unicode).fence "USER".toList
    isPlainMention (hframed₂.fixed block hblock)
  obtain ⟨third, hthirdText, hthird⟩ := (pass_replaceWithRegistryWithInput unicode
    atUsernamePattern "USER".toList isPlainMention hdocumented.atUsername (blocksText second)
    _).mask_blocks hfences₃
  have hframed₃ := hframed₂.of_blockMasks (by decide) hthird
  have hwhole₃ := (fixed_of_blockMasks hthird).trans hwhole₂
  rw [hthirdText]
  have hfences₄ := fun block hblock =>
    (hframed₃.fixed block hblock).phone_fence unicode "PHONE".toList
  obtain ⟨masked, hmaskedText, hmasked⟩ := (pass_replaceWithRegistryWithInput unicode
    (phonePattern unicode) "PHONE".toList isPhoneNumber hdocumented.phone (blocksText third)
    {}).mask_blocks hfences₄
  refine ⟨⟨masked, hmaskedText, forall₂_blockMasked hfirst hsecond hthird hmasked⟩, ?_⟩
  intro search hsearch
  simp only [List.mem_cons, List.not_mem_nil, or_false] at hsearch
  rcases hsearch with rfl | rfl | rfl | rfl
  · exact hframed.searchedApart rfl hdocumented.email hfences₁
  · exact hframed₁.searchedApart hwhole₁ hdocumented.discordMention hfences₂
  · exact hframed₂.searchedApart hwhole₂ hdocumented.atUsername hfences₃
  · exact hframed₃.searchedApart hwhole₃ hdocumented.phone hfences₄

end DiscordTranscript.Domain
