import DiscordTranscript.Application.TranscriptCorrection
import DiscordTranscript.Foundation.WordSearch

/-! # What the leak check finds

`summary_output_verbatim_leak_in_bodies` compares joined words by a text search. It finds
every whole run of words and every decorated one, and it also finds a run whose first or
last word is only a part of a word of the output.
-/

namespace DiscordTranscript.Application

open Text

/-! ## Searches -/

theorem contains_iff {needle text : List Char} :
    contains needle text = true ↔ needle <:+: text := by
  constructor
  · intro hcontains
    obtain ⟨⟨before, after⟩, hsplit⟩ := Option.isSome_iff_exists.mp hcontains
    exact ⟨before, after, by rw [eq_append_of_splitOnce hsplit, List.append_assoc]⟩
  · rintro ⟨before, after, rfl⟩
    rw [List.append_assoc]
    exact contains_append before needle after

theorem mem_windows_iff {α : Type} {size : ℕ} {items window : List α} :
    window ∈ windows size items ↔ window <:+: items ∧ window.length = size := by
  simp only [windows, List.mem_filter, List.mem_map, List.mem_tails, decide_eq_true_eq,
    and_congr_left_iff]
  intro hlength
  constructor
  · rintro ⟨rest, hrest, rfl⟩
    exact (List.take_prefix _ _).isInfix.trans hrest.isInfix
  · rintro ⟨front, back, rfl⟩
    refine ⟨window ++ back, ⟨front, by simp⟩, ?_⟩
    rw [← hlength, List.take_left]

/-! ## The tables -/

/-- What the standard library documents of the character tables: white space is not
alphanumeric, case does not matter to being alphanumeric, and lowercase text has no white
space, does not depend on ASCII case and is lowercase again. -/
structure CaseTables.Documented (tables : CaseTables) : Prop where
  alphanumeric_toLower : ∀ c, tables.isAlphanumeric c.toLower = tables.isAlphanumeric c
  lowercased_not_space : ∀ text, (∀ c ∈ text, tables.isAlphanumeric c = true) →
    ∀ c ∈ tables.lowercased text, isWhitespace c = false
  lowercased_ascii_case : ∀ text, tables.lowercased (text.map Char.toLower) =
    tables.lowercased text
  lowercased_again : ∀ text word, (∀ c ∈ word, c ∈ tables.lowercased text) →
    tables.lowercased word = word

section

variable {tables : CaseTables} {markdown : List Char} {body : MaterializedLeakCheckBody}

/-- A normalised word comes from the alphanumeric characters of a word. -/
theorem exists_of_mem_normalizedLeakWords {text word : List Char}
    (hword : word ∈ normalizedLeakWords tables text) :
    word ≠ [] ∧ ∃ letters, (∀ c ∈ letters, tables.isAlphanumeric c = true) ∧
      word = tables.lowercased letters := by
  obtain ⟨hmem, hnonempty⟩ := List.mem_filter.mp hword
  obtain ⟨raw, -, rfl⟩ := List.mem_map.mp hmem
  refine ⟨by simpa using hnonempty, raw.filter tables.isAlphanumeric, ?_, rfl⟩
  intro c hc
  exact (List.mem_filter.mp hc).2

theorem not_space_of_mem_normalizedLeakWords (hdocumented : tables.Documented)
    {text word : List Char} (hword : word ∈ normalizedLeakWords tables text) :
    ∀ c ∈ word, isWhitespace c = false := by
  obtain ⟨-, letters, hletters, rfl⟩ := exists_of_mem_normalizedLeakWords hword
  exact hdocumented.lowercased_not_space letters hletters

theorem space_notMem (hdocumented : tables.Documented) {text word : List Char}
    (hword : word ∈ normalizedLeakWords tables text) : ' ' ∉ word := by
  intro hspace
  have := not_space_of_mem_normalizedLeakWords hdocumented hword ' ' hspace
  simp [isWhitespace] at this

/-! ## What is protected -/

variable (tables markdown body)

/-- The runs of normalised words that must not appear: fifteen consecutive words of the
body, or all of a shorter one. -/
def ProtectedRun (run : List (List Char)) : Prop :=
  (run <:+: normalizedLeakWords tables body.body ∧ run.length = contextLeakWindowWords) ∨
    (run = normalizedLeakWords tables body.body ∧ leakBodyShortMatch body.kind = true ∧
      contextLeakMinBodyWords ≤ run.length ∧ run.length < contextLeakWindowWords)

/-- The two conditions on the compact text of a body with enough CJK characters. -/
def CjkCopy : Prop :=
  contextLeakMinCjkBodyChars ≤
      (normalizedLeakCompact tables body.body).countP isCjkContextChar ∧
    ((leakBodyShortMatch body.kind = true ∧
        normalizedLeakCompact tables body.body <:+: normalizedLeakCompact tables markdown) ∨
      ∃ window, window <:+: normalizedLeakCompact tables body.body ∧
        window.length = contextLeakCjkWindowChars ∧
        contextLeakCjkWindowMinCjkChars ≤ window.countP isCjkContextChar ∧
        window <:+: normalizedLeakCompact tables markdown)

/-- The body is quoted in the sense of the documentation: by whole words. -/
def DocumentedLeak : Prop :=
  (∃ run, ProtectedRun tables body run ∧ run <:+: normalizedLeakWords tables markdown) ∨
    CjkCopy tables markdown body

/-- The body is found: also by a run whose outer words are parts of longer words. -/
def FoundIn : Prop :=
  (∃ run, ProtectedRun tables body run ∧
      Separated.Glued run (normalizedLeakWords tables markdown)) ∨
    CjkCopy tables markdown body

/-- A protected run occurs in the output, but nowhere as whole words. -/
def TornOnly : Prop :=
  ¬ DocumentedLeak tables markdown body ∧ ∃ run, ProtectedRun tables body run ∧
    Separated.Glued run (normalizedLeakWords tables markdown)

variable {tables markdown body}

theorem ProtectedRun.subset {run : List (List Char)} (hrun : ProtectedRun tables body run) :
    ∀ word ∈ run, word ∈ normalizedLeakWords tables body.body := by
  rcases hrun with ⟨hwithin, -⟩ | ⟨rfl, -⟩
  · exact fun word hword => hwithin.subset hword
  · exact fun word hword => hword

theorem ProtectedRun.two_le {run : List (List Char)} (hrun : ProtectedRun tables body run) :
    2 ≤ run.length := by
  rcases hrun with ⟨-, hlength⟩ | ⟨-, -, hlength, -⟩
  · rw [hlength]
    decide
  · exact hlength

theorem foundIn_of_documentedLeak (hleak : DocumentedLeak tables markdown body) :
    FoundIn tables markdown body := by
  rcases hleak with ⟨run, hrun, hwithin⟩ | hcjk
  · exact .inl ⟨run, hrun, .of_whole hrun.two_le hwithin⟩
  · exact .inr hcjk

theorem contains_join_iff (hdocumented : tables.Documented) {run : List (List Char)}
    (hrun : ∀ word ∈ run, word ∈ normalizedLeakWords tables body.body)
    (hlength : 2 ≤ run.length) :
    contains (join [' '] run) (join [' '] (normalizedLeakWords tables markdown)) = true ↔
      Separated.Glued run (normalizedLeakWords tables markdown) := by
  rw [contains_iff]
  apply Separated.intercalate_infix_iff _ _ hlength
  · exact fun word hword => space_notMem hdocumented (hrun word hword)
  · exact fun word hword => space_notMem hdocumented hword

theorem leaksWords_iff (hdocumented : tables.Documented) :
    leaksWords tables markdown body = true ↔ ∃ run, ProtectedRun tables body run ∧
      Separated.Glued run (normalizedLeakWords tables markdown) := by
  dsimp only [leaksWords]
  constructor
  · intro hleaks
    split at hleaks
    next hlong =>
      obtain ⟨run, hrun, hcontains⟩ := List.any_eq_true.mp hleaks
      obtain ⟨hwithin, hlength⟩ := mem_windows_iff.mp hrun
      have hprotected : ProtectedRun tables body run := .inl ⟨hwithin, hlength⟩
      exact ⟨run, hprotected,
        (contains_join_iff hdocumented hprotected.subset hprotected.two_le).mp hcontains⟩
    next hshort =>
      simp only [Bool.and_eq_true, decide_eq_true_eq] at hleaks
      obtain ⟨⟨hmin, hkind⟩, hcontains⟩ := hleaks
      have hprotected : ProtectedRun tables body (normalizedLeakWords tables body.body) :=
        .inr ⟨rfl, hkind, hmin, not_le.mp hshort⟩
      exact ⟨_, hprotected,
        (contains_join_iff hdocumented hprotected.subset hprotected.two_le).mp hcontains⟩
  · rintro ⟨run, hprotected, hglued⟩
    have hcontains := (contains_join_iff hdocumented hprotected.subset hprotected.two_le).mpr hglued
    rcases hprotected with ⟨hwithin, hlength⟩ | ⟨rfl, hkind, hmin, hshort⟩
    · rw [if_pos (hlength ▸ hwithin.length_le)]
      exact List.any_eq_true.mpr ⟨run, mem_windows_iff.mpr ⟨hwithin, hlength⟩, hcontains⟩
    · rw [if_neg (not_le.mpr hshort)]
      simp [hkind, hmin, hcontains]

theorem leaksCompact_iff :
    leaksCompact tables markdown body = true ↔ CjkCopy tables markdown body := by
  unfold leaksCompact CjkCopy
  simp only [Bool.and_eq_true, Bool.or_eq_true, decide_eq_true_eq, ge_iff_le,
    contains_iff, List.any_eq_true, mem_windows_iff, Bool.not_eq_true',
    List.isEmpty_eq_false_iff, and_assoc]
  apply and_congr_right
  intro hcount
  have hnonempty : normalizedLeakCompact tables body.body ≠ [] := by
    intro hempty
    rw [hempty] at hcount
    exact absurd hcount (by decide)
  simp [hnonempty]

theorem foundIn_iff (hdocumented : tables.Documented) :
    (leaksWords tables markdown body || leaksCompact tables markdown body) = true ↔
      FoundIn tables markdown body := by
  rw [Bool.or_eq_true, leaksWords_iff hdocumented, leaksCompact_iff]
  rfl

/-! ## The first body that is found -/

/-- The kinds that the check can name. -/
def KnownKinds (bodies : List MaterializedLeakCheckBody) : Prop :=
  ∀ body ∈ bodies, leakKindStatic body.kind = some body.kind

theorem verbatimLeak_eq_some_iff (hdocumented : tables.Documented)
    {bodies : List MaterializedLeakCheckBody} (hknown : KnownKinds bodies) {kind : String} :
    summaryOutputVerbatimLeakInBodies tables markdown bodies = some kind ↔
      ∃ front body back, bodies = front ++ body :: back ∧
        (∀ other ∈ front, ¬ FoundIn tables markdown other) ∧ FoundIn tables markdown body ∧
        body.kind = kind := by
  induction bodies with
  | nil => simp [summaryOutputVerbatimLeakInBodies]
  | cons first rest ih =>
      have hrest := ih fun body hbody => hknown body (List.mem_cons_of_mem _ hbody)
      unfold summaryOutputVerbatimLeakInBodies
      split
      next hfound =>
        have hfound := (foundIn_iff hdocumented).mp hfound
        rw [hknown first List.mem_cons_self]
        constructor
        · intro hkind
          exact ⟨[], first, rest, rfl, by simp, hfound, Option.some.inj hkind⟩
        · rintro ⟨front, body, back, hsplit, hnone, -, rfl⟩
          cases front with
          | nil => rw [(List.cons.inj hsplit).1]
          | cons other front =>
              obtain ⟨rfl, -⟩ := List.cons.inj hsplit
              exact absurd hfound (hnone first List.mem_cons_self)
      next hfound =>
        rw [foundIn_iff hdocumented] at hfound
        rw [hrest]
        constructor
        · rintro ⟨front, body, back, rfl, hnone, hbody, hkind⟩
          exact ⟨first :: front, body, back, rfl,
            List.forall_mem_cons.mpr ⟨hfound, hnone⟩, hbody, hkind⟩
        · rintro ⟨front, body, back, hsplit, hnone, hbody, hkind⟩
          cases front with
          | nil =>
              obtain ⟨rfl, -⟩ := List.cons.inj hsplit
              exact absurd hbody hfound
          | cons other front =>
              obtain ⟨rfl, rfl⟩ := List.cons.inj hsplit
              exact ⟨front, body, back, rfl, (List.forall_mem_cons.mp hnone).2, hbody, hkind⟩

/-- With known kinds the check is silent exactly when no body is found. -/
theorem verbatimLeak_eq_none_iff (hdocumented : tables.Documented)
    {bodies : List MaterializedLeakCheckBody} (hknown : KnownKinds bodies) :
    summaryOutputVerbatimLeakInBodies tables markdown bodies = none ↔
      ∀ body ∈ bodies, ¬ FoundIn tables markdown body := by
  induction bodies with
  | nil => simp [summaryOutputVerbatimLeakInBodies]
  | cons first rest ih =>
      rw [List.forall_mem_cons, summaryOutputVerbatimLeakInBodies, ← foundIn_iff hdocumented,
        ← ih fun body hbody => hknown body (List.mem_cons_of_mem _ hbody)]
      split
      next hfound => simp [hknown first List.mem_cons_self, hfound]
      next hfound => simp [hfound]

end

end DiscordTranscript.Application
