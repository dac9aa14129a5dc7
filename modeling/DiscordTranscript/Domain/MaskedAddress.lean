import DiscordTranscript.Domain.MaskedTranscript

/-! # Masking of whole addresses

An e-mail address is masked as a whole where the pattern of addresses finds a word boundary at
both of its ends. Between a letter and a letter of another script there is none.
-/

namespace DiscordTranscript.Domain

open Text

/-! ## Addresses -/

/-- What `\w` is documented to have of the characters of the patterns. -/
structure UnicodeClasses.WordsDocumented (unicode : UnicodeClasses) : Prop where
  word_ascii : ∀ c, c.toNat < 128 → unicode.word c = (c.isAlphanum || c = '_')
  word_folded : unicode.word 'ſ' = true ∧ unicode.word '\u212A' = true

def isAddressLetter (c : Char) : Bool := isFoldedLetter c || c.isDigit

theorem UnicodeClasses.WordsDocumented.word_letter {unicode : UnicodeClasses}
    (hwords : unicode.WordsDocumented) {c : Char} (hc : isAddressLetter c = true) :
    unicode.word c = true := by
  simp only [isAddressLetter, isFoldedLetter, Bool.or_eq_true, decide_eq_true_eq] at hc
  have halphanum : c.isAlphanum = true → unicode.word c = true := by
    intro halphanum
    have hascii := (isAlphanum_iff_toNat c).mp halphanum
    rw [hwords.word_ascii c (by omega), halphanum, Bool.true_or]
  rcases hc with ((hc | rfl) | rfl) | hc
  · exact halphanum ((Bool.or_eq_true _ _).mpr (.inl hc))
  · exact hwords.word_folded.1
  · exact hwords.word_folded.2
  · exact halphanum ((Bool.or_eq_true _ _).mpr (.inr hc))

/-- An address `mailbox@label.….top`. -/
structure MailAddress where
  mailbox : List Char
  labels : List (List Char)
  top : List Char
  mailbox_chars : ∀ c ∈ mailbox, isMailboxChar c = true
  mailbox_first : mailbox.head?.any isAddressLetter = true
  mailbox_last : mailbox.getLast?.any isAddressLetter = true
  labels_nonempty : labels ≠ []
  labels_letters : ∀ label ∈ labels, label ≠ [] ∧ ∀ c ∈ label, isAddressLetter c = true
  top_letters : ∀ c ∈ top, isFoldedLetter c = true
  top_length : 2 ≤ top.length

namespace MailAddress

variable (address : MailAddress)

def domain : List Char := join ['.'] (address.labels ++ [address.top])

def text : List Char := address.mailbox ++ '@' :: address.domain

theorem top_ne_nil : address.top ≠ [] := by
  apply List.ne_nil_of_length_pos
  have hlength := address.top_length
  omega

theorem mailbox_ne_nil : address.mailbox ≠ [] := by
  intro hnil
  have hfirst := address.mailbox_first
  rw [hnil] at hfirst
  cases hfirst

theorem domain_eq : ∃ front, address.domain = front ++ '.' :: address.top ∧ front ≠ [] ∧
    ∀ c ∈ front, isDomainChar c = true := by
  have hletters := address.labels_letters
  have hlabels := address.labels_nonempty
  unfold domain join
  generalize address.labels = labels at hletters hlabels
  induction labels with
  | nil => exact absurd rfl hlabels
  | cons label labels ih =>
      obtain ⟨⟨hne, hlabel⟩, hrest⟩ := List.forall_mem_cons.mp hletters
      have hchars : ∀ c ∈ label, isDomainChar c = true := by
        intro c hc
        have hletter := hlabel c hc
        simp only [isAddressLetter, Bool.or_eq_true] at hletter
        rcases hletter with hletter | hletter <;> simp [isDomainChar, hletter]
      cases labels with
      | nil => exact ⟨label, by simp [List.intercalate_cons_cons], hne, hchars⟩
      | cons next labels =>
          obtain ⟨front, hfront, -, hfrontChars⟩ := ih hrest (List.cons_ne_nil _ _)
          refine ⟨label ++ '.' :: front, ?_, by simp, ?_⟩
          · rw [List.cons_append, List.cons_append, List.intercalate_cons_cons, ← List.cons_append,
              hfront]
            simp
          · intro c hc
            rcases List.mem_append.mp hc with hc | hc
            · exact hchars c hc
            · rcases List.mem_cons.mp hc with rfl | hc
              · decide
              · exact hfrontChars c hc

theorem text_first : ∃ c rest, address.text = c :: rest ∧ isAddressLetter c = true := by
  obtain ⟨c, rest, hmailbox⟩ := List.exists_cons_of_ne_nil address.mailbox_ne_nil
  have hfirst := address.mailbox_first
  rw [hmailbox] at hfirst
  exact ⟨c, rest ++ '@' :: address.domain, by rw [text, hmailbox]; rfl, hfirst⟩

theorem text_last : ∃ front c, address.text = front ++ [c] ∧ isAddressLetter c = true := by
  obtain ⟨front, hdomain, -⟩ := address.domain_eq
  rcases List.eq_nil_or_concat address.top with hnil | ⟨inner, last, hlast⟩
  · exact absurd hnil address.top_ne_nil
  · rw [List.concat_eq_append] at hlast
    refine ⟨address.mailbox ++ '@' :: (front ++ '.' :: inner), last, ?_, ?_⟩
    · rw [text, hdomain, hlast]
      simp
    · have hletter := address.top_letters last (by rw [hlast]; simp)
      rw [isAddressLetter, hletter, Bool.true_or]

end MailAddress

/-! ## The match of an address -/

/-- A neighbour, if there is one, that is no part of an address. -/
def Outside (neighbour : Option Char) : Prop :=
  ∀ c, neighbour = some c → isMailboxChar c = false ∧ c ≠ '@'

section

variable {unicode : UnicodeClasses}

theorem isMailboxChar_of_domainChar {c : Char} (hc : isDomainChar c = true) :
    isMailboxChar c = true := by
  simp only [isDomainChar, isMailboxChar, Bool.or_eq_true, List.contains_eq_mem, List.mem_cons,
    decide_eq_true_eq] at hc ⊢
  tauto

theorem any_eq_false_of_outside {text : List Char} (houtside : Outside text.head?)
    {accepts : Char → Bool} (haccepts : ∀ c, accepts c = true → isMailboxChar c = true) :
    text.head?.any accepts = false := by
  cases text with
  | nil => rfl
  | cons c rest =>
      rw [List.head?_cons, Option.any_some]
      by_contra hc
      rw [Bool.not_eq_false] at hc
      have hnone := (houtside c rfl).1
      rw [haccepts c hc] at hnone
      cases hnone

theorem email_matchAt (hwords : unicode.WordsDocumented) (address : MailAddress)
    {prev : Option Char} {after : List Char} (hprev : prev.any unicode.word = false)
    (hafter : after.head?.any unicode.word = false) (houtside : Outside after.head?) :
    emailPattern.matchAt unicode.word prev (address.text ++ after) = some address.text.length := by
  obtain ⟨front, hdomain, hfront, hfrontChars⟩ := address.domain_eq
  obtain ⟨c, rest, htext, hc⟩ := address.text_first
  have hboundary : Pattern.wordBoundary.matchAt unicode.word
      (Pattern.advance (some '.') address.top) after = some 0 := by
    obtain ⟨d, hd, hletter⟩ : ∃ d, address.top.getLast? = some d ∧ isAddressLetter d = true := by
      rcases List.eq_nil_or_concat address.top with hnil | ⟨inner, last, hlast⟩
      · exact absurd hnil address.top_ne_nil
      · rw [List.concat_eq_append] at hlast
        have hletter := address.top_letters last (by rw [hlast]; simp)
        exact ⟨last, by rw [hlast, List.getLast?_concat],
          by rw [isAddressLetter, hletter, Bool.true_or]⟩
    simp [Pattern.matchAt, Pattern.lengths, Pattern.advance, hd, hwords.word_letter hletter, hafter]
  have hmatch : emailPattern.matchAt unicode.word prev
      (address.mailbox ++ '@' :: (front ++ '.' :: (address.top ++ after))) =
        some (0 + (address.mailbox.length + (1 + (front.length + (1 +
          (address.top.length + 0)))))) := by
    apply Pattern.matchAt_wordBoundary_seq
    · rw [hprev, show address.mailbox ++ '@' :: (front ++ '.' :: (address.top ++ after)) =
        address.text ++ after by rw [MailAddress.text, hdomain]; simp, htext]
      simp [hwords.word_letter hc]
    apply Pattern.matchAt_many_seq unicode.word address.mailbox_chars
      (List.length_pos_of_ne_nil address.mailbox_ne_nil)
    · intro inner later hne hsplit haccepts
      obtain ⟨d, tail, rfl⟩ := List.exists_cons_of_ne_nil hne
      obtain ⟨rfl, -⟩ := List.cons.inj hsplit
      exact absurd (haccepts '@' List.mem_cons_self) (by decide)
    apply Pattern.matchAt_one_seq unicode.word (by decide)
    apply Pattern.matchAt_many_seq unicode.word hfrontChars (List.length_pos_of_ne_nil hfront)
    · -- Behind the last dot of the address there is no other one that the domain could end at.
      intro inner later hne hsplit haccepts before
      apply Pattern.lengths_one_seq_of_head
      obtain ⟨d, tail, rfl⟩ := List.exists_cons_of_ne_nil hne
      obtain ⟨rfl, htail⟩ := List.cons.inj hsplit
      rcases List.append_eq_append_iff.mp htail with ⟨more, rfl, hmore⟩ | ⟨back, hback, rfl⟩
      · cases more with
        | nil =>
            rw [List.nil_append] at hmore
            rw [← hmore]
            exact any_eq_false_of_outside houtside fun c hc => by
              rw [of_decide_eq_true hc]
              decide
        | cons e more =>
            have hdomainChar := haccepts e (by simp)
            have hnone := (houtside e (by rw [hmore]; rfl)).1
            rw [isMailboxChar_of_domainChar hdomainChar] at hnone
            cases hnone
      · cases back with
        | nil =>
            exact any_eq_false_of_outside houtside fun c hc => by
              rw [of_decide_eq_true hc]
              decide
        | cons e back =>
            have hletter := address.top_letters e (by rw [hback]; simp)
            rw [List.cons_append, List.head?_cons, Option.any_some, decide_eq_false_iff_not]
            rintro rfl
            exact absurd hletter (by decide)
    apply Pattern.matchAt_one_seq unicode.word (by decide)
    apply Pattern.matchAt_many_seq unicode.word address.top_letters address.top_length _ hboundary
    intro inner later hne hsplit haccepts
    obtain ⟨d, tail, rfl⟩ := List.exists_cons_of_ne_nil hne
    have hletter := haccepts d List.mem_cons_self
    have hnone := (houtside d (by rw [hsplit]; rfl)).1
    rw [isMailboxChar, hletter] at hnone
    cases hnone
  have htexts : address.text ++ after =
      address.mailbox ++ '@' :: (front ++ '.' :: (address.top ++ after)) := by
    rw [MailAddress.text, hdomain]
    simp
  rw [htexts, hmatch, MailAddress.text, hdomain]
  simp
  omega

/-- No address reaches over a neighbour that is no part of one. -/
theorem email_stops {before text : List Char} (houtside : Outside before.getLast?)
    {front back : List Char} {n : ℕ} (hbefore : before = front ++ back) (hback : back ≠ [])
    (hmatch : emailPattern.matchAt unicode.word front.getLast? (back ++ text) = some n) :
    n ≤ back.length := by
  obtain ⟨inner, last, rfl⟩ : ∃ inner last, back = inner ++ [last] := by
    rcases List.eq_nil_or_concat back with hnil | ⟨inner, last, hlast⟩
    · exact absurd hnil hback
    · exact ⟨inner, last, by rw [hlast, List.concat_eq_append]⟩
  have hlast := houtside last (by rw [hbefore, ← List.append_assoc, List.getLast?_concat])
  by_contra hlong
  rw [List.length_append, List.length_singleton] at hlong
  have hmem : last ∈ (inner ++ [last] ++ text).take n := by
    rw [List.append_assoc]
    exact mem_take_append_cons (by omega)
  have hallowed := (atPattern_email unicode).only _ _ _
    (Pattern.matches_of_matchAt unicode.word hmatch).2 last hmem
  simp [hlast.1, hlast.2] at hallowed

/-- An address begins and ends at word boundaries. -/
theorem email_edges {prev : Option Char} {raw after : List Char}
    (hmatches : emailPattern.Matches unicode.word prev raw after) :
    prev.any unicode.word ≠ (raw ++ after).head?.any unicode.word ∧
      raw.getLast?.any unicode.word ≠ after.head?.any unicode.word := by
  obtain ⟨_, _, rfl, ⟨rfl, hstart⟩, mailbox, _, rfl, -, _, _, rfl, ⟨c, rfl, -⟩, domain, _, rfl, -,
    _, _, rfl, ⟨d, rfl, -⟩, letters, _, rfl, ⟨-, hlength, -⟩, rfl, hend⟩ := hmatches
  have hne : letters ≠ [] := by
    apply List.ne_nil_of_length_pos
    omega
  refine ⟨hstart, ?_⟩
  have hlast : ∀ front : List Char, (front ++ letters).getLast? = letters.getLast? :=
    fun front => List.getLast?_append_of_ne_nil front hne
  have hadvance : ∀ before : Option Char, Pattern.advance before letters = letters.getLast? := by
    intro before
    rw [Pattern.advance, List.getLast?_eq_some_getLast hne, Option.some_or]
  rw [hadvance] at hend
  have hraw : [] ++ (mailbox ++ ([c] ++ (domain ++ ([d] ++ (letters ++ []))))) =
      (mailbox ++ c :: (domain ++ [d])) ++ letters := by simp
  rw [hraw, hlast]
  simpa using hend

/-- The search finds an address between such neighbours exactly at word boundaries. -/
theorem address_found_iff (hwords : unicode.WordsDocumented) {regex : Regex}
    (hregex : regex.cut = (unicode.regex emailPattern).cut) {before after : List Char}
    (address : MailAddress) (hbefore : Outside before.getLast?) (hafter : Outside after.head?) :
    ⟨before, address.text, after⟩ ∈ regex.found (before ++ (address.text ++ after)) ↔
      before.getLast?.any unicode.word = false ∧ after.head?.any unicode.word = false := by
  obtain ⟨c, rest, hfirst, hc⟩ := address.text_first
  obtain ⟨front, d, hlast, hd⟩ := address.text_last
  constructor
  · intro hfound
    obtain ⟨-, -, hmatch⟩ := matchAt_of_mem_found unicode emailPattern hregex hfound
    have hmatches := (Pattern.matches_of_matchAt unicode.word hmatch).2
    rw [List.take_left, List.drop_left] at hmatches
    obtain ⟨hstart, hend⟩ := email_edges hmatches
    simp only at hstart hend
    rw [hfirst, List.cons_append, List.head?_cons, Option.any_some, hwords.word_letter hc] at hstart
    rw [hlast, List.getLast?_concat, Option.any_some, hwords.word_letter hd] at hend
    exact ⟨by simpa using hstart, by simpa using hend.symm⟩
  · rintro ⟨hleft, hright⟩
    apply mem_found unicode emailPattern hregex
    · rw [hfirst]
      exact List.cons_ne_nil _ _
    · intro front back n hsplit hback hmatch
      exact email_stops hbefore hsplit hback hmatch
    · exact email_matchAt hwords address hleft hright hafter

/-! ## The token of an address -/

theorem AtPattern.fence_placeholder {pattern : Pattern} {allowed : Char → Bool}
    (hpattern : AtPattern unicode pattern allowed) (hclosing : allowed ']' = false)
    (label : List Char) (filter : RegexMatch → Bool) (index : ℕ) :
    Fence unicode pattern label filter (placeholder "EMAIL".toList index) := by
  refine hpattern.fence_of_edges label filter ?_ ?_ (notMem_placeholder (by decide) (by decide) _)
  · exact ⟨'[', _, rfl, hpattern.edges '[' List.mem_cons_self⟩
  · exact ⟨_, ']', rfl, hclosing⟩

/-- The last pass leaves a token alone unless its number is long enough for a phone number. -/
theorem phone_mask_around {before left right out : List Char} {index : ℕ}
    (hpass : Pass unicode (phonePattern unicode) "PHONE".toList isPhoneNumber before
      (left ++ (placeholder "EMAIL".toList index ++ right)) out) :
    ∃ left' token right', out = left' ++ (token ++ right') ∧ Masks "PHONE".toList left left' ∧
      Masks "PHONE".toList right right' ∧
      Masks "PHONE".toList (placeholder "EMAIL".toList index) token ∧
      (index < 10 ^ 9 → token = placeholder "EMAIL".toList index) := by
  have hopening : NoPhoneChar unicode '[' := noPhoneChar_of_ascii unicode (by decide) (by decide)
  have hclosing := noPhoneChar_closing unicode
  have htoken : placeholder "EMAIL".toList index =
      "[EMAIL_".toList ++ (decimal index ++ [']']) := rfl
  have hplain : ∀ c ∈ "[EMAIL_".toList, c ≠ '+' ∧ unicode.digit c = false := by
    intro c hc
    have hall : "[EMAIL_".toList.all
        (fun c => decide (c ≠ '+') && decide (c.toNat < 128) && !c.isDigit) = true := by decide
    have hascii := List.all_eq_true.mp hall c hc
    simp only [Bool.and_eq_true, decide_eq_true_eq, Bool.not_eq_true'] at hascii
    exact ⟨hascii.1.1, (unicode.digit_ascii c hascii.1.2).trans hascii.2⟩
  have hbracket : ∀ c ∈ [']'], c ≠ '+' ∧ unicode.digit c = false := by
    intro c hc
    rw [List.mem_singleton.mp hc]
    exact ⟨by decide, unicode.digit_ascii ']' (by decide)⟩
  rw [htoken, List.append_assoc, List.append_assoc] at hpass
  obtain ⟨left', out₁, rfl, hleft, hrest₁⟩ := hpass.mask_free fun front back n _ _ hmatch =>
    le_of_phone_match unicode hmatch rfl hopening
  obtain ⟨out₂, rfl, hrest₂⟩ := phone_keeps unicode hrest₁ hplain
  have hreach : ∀ front back n, decimal index = front ++ back → ∀ prev,
      (phonePattern unicode).matchAt unicode.word prev (back ++ ([']'] ++ right)) = some n →
      n ≤ back.length := by
    intro front back n _ prev hmatch
    exact le_of_phone_match unicode hmatch rfl hclosing
  obtain ⟨digits, out₃, rfl, hdigits, hshort, hrest₃⟩ : ∃ digits out₃, out₂ = digits ++ out₃ ∧
      Masks "PHONE".toList (decimal index) digits ∧ (index < 10 ^ 9 → digits = decimal index) ∧
      Pass unicode (phonePattern unicode) "PHONE".toList isPhoneNumber
        (before ++ left ++ "[EMAIL_".toList ++ decimal index) ([']'] ++ right) out₃ := by
    by_cases hindex : index < 10 ^ 9
    · obtain ⟨out₃, rfl, hrest₃⟩ := hrest₂.keep_fixed (fun front c back n hsplit hmatch => by
        have hle := hreach front (c :: back) n hsplit _ (by simpa using hmatch)
        have hten := (phoneShaped_of_matchAt unicode hmatch).2.length_le
        have hnine : (decimal index).length ≤ 9 := by
          rw [decimal, String.length_toList]
          exact (Nat.length_repr_le_iff (by decide)).mpr hindex
        rw [List.length_take] at hten
        rw [hsplit, List.length_append] at hnine
        omega)
      exact ⟨_, out₃, rfl, Masks.refl _ _, fun _ => rfl, hrest₃⟩
    · obtain ⟨digits, out₃, rfl, hdigits, hrest₃⟩ := hrest₂.mask_free
        fun front back n hsplit _ hmatch => hreach front back n hsplit _ hmatch
      exact ⟨digits, out₃, rfl, hdigits, fun hlt => absurd hlt hindex, hrest₃⟩
  obtain ⟨right', rfl, hrest₄⟩ := phone_keeps unicode hrest₃ hbracket
  refine ⟨left', "[EMAIL_".toList ++ (digits ++ [']']), right', by simp, hleft, hrest₄.mask_last,
    ?_, fun hlt => by rw [hshort hlt]; rfl⟩
  rw [htoken]
  exact (hdigits.append (Masks.refl _ _)).keep_append _

end

/-! ## The masked address -/

/-- The first pass replaces the address and nothing else by one token. The other passes mask
what is before it and what is behind it; of the token they can take only a number of ten
digits or more for a phone number. -/
structure AddressMasked (patterns : PiiPatterns) (before : List Char) (address : MailAddress)
    (after : List Char) : Prop where
  found : ⟨before, address.text, after⟩ ∈
    patterns.email.found (before ++ (address.text ++ after))
  replaced : ∃ index left token right,
    (maskPii patterns (before ++ (address.text ++ after))).text = left ++ (token ++ right) ∧
      MaskedField before left ∧ MaskedField after right ∧
      Masks "PHONE".toList (placeholder "EMAIL".toList index) token ∧
      (index < 10 ^ 9 → token = placeholder "EMAIL".toList index)

theorem maskPii_around {unicode : UnicodeClasses} {patterns : PiiPatterns}
    (hdocumented : patterns.Documented unicode) {before raw after : List Char}
    (hstops : ∀ front back n, before = front ++ back → back ≠ [] →
      emailPattern.matchAt unicode.word front.getLast? (back ++ (raw ++ after)) = some n →
      n ≤ back.length) (hraw : raw ≠ [])
    (hmatch : emailPattern.matchAt unicode.word before.getLast? (raw ++ after) =
      some raw.length) :
    ∃ index left token right,
      (maskPii patterns (before ++ (raw ++ after))).text = left ++ (token ++ right) ∧
        MaskedField before left ∧ MaskedField after right ∧
        Masks "PHONE".toList (placeholder "EMAIL".toList index) token ∧
        (index < 10 ^ 9 → token = placeholder "EMAIL".toList index) := by
  unfold maskPii
  dsimp only
  have hpass := pass_replaceWithRegistryWithInput unicode emailPattern "EMAIL".toList
    (fun _ => true) hdocumented.email (before ++ (raw ++ after)) {}
  -- The first pass puts the token.
  obtain ⟨left₁, rest₁, hout₁, hleft₁, hrest₁⟩ := hpass.mask_free hstops
  obtain ⟨index, rest₂, rfl, hrest₂⟩ := hrest₁.mask_match hraw hmatch rfl
  have hright₁ := hrest₂.mask_last
  rw [hout₁]
  -- The token is a fence of the other passes that look for an `@`.
  have hfence₂ := (atPattern_discordMention unicode).fence_placeholder (by
    rw [unicode.digit_ascii ']' (by decide)]
    decide) "USER".toList (fun _ => true) index
  have hfence₃ := (atPattern_atUsername unicode).fence_placeholder (by decide) "USER".toList
    isPlainMention index
  obtain ⟨left₂, right₂, hout₂, hleft₂, hright₂⟩ := hfence₂.mask_around
    (pass_replaceWithRegistryWithInput unicode _ _ _ hdocumented.discordMention _ {})
  rw [hout₂]
  obtain ⟨left₃, right₃, hout₃, hleft₃, hright₃⟩ := hfence₃.mask_around
    (pass_replaceWithRegistryWithInput unicode _ _ _ hdocumented.atUsername _ _)
  rw [hout₃]
  obtain ⟨left, token, right, hout, hleft, hright, htoken⟩ := phone_mask_around
    (pass_replaceWithRegistryWithInput unicode _ _ _ hdocumented.phone _ {})
  exact ⟨index, left, token, right, hout, ⟨left₁, left₂, left₃, hleft₁, hleft₂, hleft₃, hleft⟩,
    ⟨_, right₂, right₃, hright₁, hright₂, hright₃, hright⟩, htoken⟩

/-- Between neighbours that are no part of an address it is masked as a whole exactly where
neither of them is a word character. -/
theorem address_masked_iff {unicode : UnicodeClasses} (hwords : unicode.WordsDocumented)
    {patterns : PiiPatterns} (hdocumented : patterns.Documented unicode)
    (before : List Char) (address : MailAddress) (after : List Char)
    (hbefore : Outside before.getLast?) (hafter : Outside after.head?) :
    AddressMasked patterns before address after ↔
      before.getLast?.any unicode.word = false ∧ after.head?.any unicode.word = false := by
  have hfound := address_found_iff hwords hdocumented.email address hbefore hafter
  constructor
  · intro hmasked
    exact hfound.mp hmasked.found
  · intro hboundaries
    have hmem := hfound.mpr hboundaries
    refine ⟨hmem, ?_⟩
    obtain ⟨-, hraw, hmatch⟩ := matchAt_of_mem_found unicode emailPattern hdocumented.email hmem
    exact maskPii_around hdocumented
      (fun front back n hsplit hback hfound => email_stops hbefore hsplit hback hfound) hraw hmatch

/-! ## Addresses in Japanese text -/

/-- The classes on ASCII and kana. -/
def kanaClasses : UnicodeClasses where
  digit := Char.isDigit
  word c := c.isAlphanum || c = '_' || c = 'ſ' || c = '\u212A' ||
    (0x3041 ≤ c.toNat && c.toNat ≤ 0x30FF)
  digit_ascii := asciiClasses.digit_ascii

def kanaPatterns : PiiPatterns where
  email := kanaClasses.regex emailPattern
  discordMention := kanaClasses.regex (discordMentionPattern kanaClasses)
  atUsername := kanaClasses.regex atUsernamePattern
  phone := kanaClasses.regex (phonePattern kanaClasses)

theorem kanaClasses_words : kanaClasses.WordsDocumented where
  word_ascii c hc := by
    have hlong : c ≠ 'ſ' := by
      rintro rfl
      exact absurd hc (by decide)
    have hkelvin : c ≠ '\u212A' := by
      rintro rfl
      exact absurd hc (by decide)
    have hkana : ¬0x3041 ≤ c.toNat := by omega
    simp [kanaClasses, hlong, hkelvin, hkana]
  word_folded := by decide

def shortAddress : MailAddress where
  mailbox := ['a']
  labels := [['b']]
  top := ['c', 'o']
  mailbox_chars := by simp [isMailboxChar, isFoldedLetter]
  mailbox_first := by decide
  mailbox_last := by decide
  labels_nonempty := by decide
  labels_letters := by simp [isAddressLetter, isFoldedLetter]
  top_letters := by simp [isFoldedLetter]
  top_length := by decide

/-- Between kana the address stays as it is. -/
theorem address_kept_between_kana :
    Outside ['は'].getLast? ∧ Outside ['で'].head? ∧
      ¬AddressMasked kanaPatterns ['は'] shortAddress ['で'] ∧
      (maskPii kanaPatterns ("はa@b.coで".toList)).text = "はa@b.coで".toList := by
  have houtside : ∀ c : Char, isMailboxChar c = false → c ≠ '@' → Outside (some c) := by
    rintro c hmailbox hat d ⟨⟩
    exact ⟨hmailbox, hat⟩
  refine ⟨houtside 'は' (by decide) (by decide), houtside 'で' (by decide) (by decide), ?_,
    by decide +kernel⟩
  intro hmasked
  have hnone : (kanaPatterns.email.found
      (['は'] ++ (shortAddress.text ++ ['で']))).map (·.raw) = [] := by decide +kernel
  rw [List.map_eq_nil_iff] at hnone
  have hfound := hmasked.found
  rw [hnone] at hfound
  cases hfound

theorem address_masked_in_quotes :
    AddressMasked kanaPatterns ['「'] shortAddress ['」'] := by
  have houtside : ∀ c : Char, isMailboxChar c = false → c ≠ '@' → Outside (some c) := by
    rintro c hmailbox hat d ⟨⟩
    exact ⟨hmailbox, hat⟩
  exact (address_masked_iff kanaClasses_words ⟨rfl, rfl, rfl, rfl⟩ ['「'] shortAddress ['」']
    (houtside '「' (by decide) (by decide)) (houtside '」' (by decide) (by decide))).mpr
    (by decide)

end DiscordTranscript.Domain
