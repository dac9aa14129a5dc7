import Mathlib.Data.List.TakeWhile
import Mathlib.Tactic.Common

/-! # Regular expressions with preferences

Patterns made of single characters, greedy repetitions of a character class, options,
sequences, alternatives and word boundaries. At a position a pattern has candidate matches in
an order of preference: more repetitions before fewer, the first alternative before the
second. A search takes the preferred candidate at the leftmost position that has one and goes
on behind it. The patterns searched for here match at least one character.
-/

/-- A pattern. -/
inductive Pattern where
  | one (accepts : Char → Bool)
  | many (accepts : Char → Bool) (least : ℕ) (most : Option ℕ)
  | optional (inner : Pattern)
  | seq (first second : Pattern)
  | alt (first second : Pattern)
  | wordBoundary

namespace Pattern

/-- The character before a position, after some more text. -/
def advance (prev : Option Char) (text : List Char) : Option Char := text.getLast?.or prev

@[simp] theorem advance_nil (prev : Option Char) : advance prev [] = prev := rfl

@[simp] theorem advance_singleton (prev : Option Char) (c : Char) : advance prev [c] = some c := rfl

theorem advance_cons (prev : Option Char) (c : Char) (text : List Char) :
    advance prev (c :: text) = advance (some c) text := by
  unfold advance
  rw [List.getLast?_cons]
  cases text.getLast? <;> rfl

section

variable (isWord : Char → Bool)

/-- The text lies between a previous character and more text and matches the pattern. -/
def Matches : Pattern → Option Char → List Char → List Char → Prop
  | .one accepts, _, raw, _ => ∃ c, raw = [c] ∧ accepts c = true
  | .many accepts least most, _, raw, _ =>
      (∀ c ∈ raw, accepts c = true) ∧ least ≤ raw.length ∧ ∀ bound, most = some bound →
        raw.length ≤ bound
  | .optional inner, prev, raw, after => raw = [] ∨ inner.Matches prev raw after
  | .seq first second, prev, raw, after => ∃ front back, raw = front ++ back ∧
      first.Matches prev front (back ++ after) ∧ second.Matches (advance prev front) back after
  | .alt first second, prev, raw, after =>
      first.Matches prev raw after ∨ second.Matches prev raw after
  | .wordBoundary, prev, raw, after =>
      raw = [] ∧ prev.any isWord ≠ after.head?.any isWord

/-- The lengths of the candidates at a position, the preferred one first. -/
def lengths : Pattern → Option Char → List Char → List ℕ
  | .one accepts, _, text => if text.head?.any accepts then [1] else []
  | .many accepts least most, _, text =>
      let run := (text.takeWhile accepts).length
      (List.range (most.elim run (min run) + 1)).reverse.filter (least ≤ ·)
  | .optional inner, prev, text => inner.lengths prev text ++ [0]
  | .seq first second, prev, text => (first.lengths prev text).flatMap fun n =>
      (second.lengths (advance prev (text.take n)) (text.drop n)).map (n + ·)
  | .alt first second, prev, text => first.lengths prev text ++ second.lengths prev text
  | .wordBoundary, prev, text => if prev.any isWord = text.head?.any isWord then [] else [0]

/-- The preferred match at a position. -/
def matchAt (pattern : Pattern) (prev : Option Char) (text : List Char) : Option ℕ :=
  (pattern.lengths isWord prev text).head?

theorem take_of_le_takeWhile {accepts : Char → Bool} {text : List Char} {n : ℕ}
    (hn : n ≤ (text.takeWhile accepts).length) :
    n ≤ text.length ∧ ∀ c ∈ text.take n, accepts c = true := by
  refine ⟨hn.trans (List.takeWhile_sublist accepts).length_le, ?_⟩
  intro c hc
  obtain ⟨rest, hrest⟩ := List.takeWhile_prefix accepts (l := text)
  have hinside : c ∈ (text.takeWhile accepts).take n := by
    rw [← hrest, List.take_append_of_le_length hn] at hc
    exact hc
  exact List.mem_takeWhile_imp (List.mem_of_mem_take hinside)

/-- Candidates match. -/
theorem matches_of_mem_lengths {pattern : Pattern} {prev : Option Char} {text : List Char} {n : ℕ}
    (hn : n ∈ pattern.lengths isWord prev text) :
    n ≤ text.length ∧ pattern.Matches isWord prev (text.take n) (text.drop n) := by
  induction pattern generalizing prev text n with
  | one accepts =>
      unfold lengths at hn
      split at hn
      next haccepts =>
        rw [List.mem_singleton.mp hn]
        cases text with
        | nil => simp at haccepts
        | cons c rest => exact ⟨by simp, c, by simp, by simpa using haccepts⟩
      next => cases hn
  | many accepts least most =>
      simp only [lengths, List.mem_filter, List.mem_reverse, List.mem_range,
        decide_eq_true_eq] at hn
      obtain ⟨hmost, hleast⟩ := hn
      have hrun : n ≤ (text.takeWhile accepts).length := by
        cases most with
        | none => simp only [Option.elim_none] at hmost; omega
        | some bound => simp only [Option.elim_some] at hmost; omega
      obtain ⟨hlength, haccepts⟩ := take_of_le_takeWhile hrun
      refine ⟨hlength, haccepts, by simpa [hlength] using hleast, ?_⟩
      intro bound hbound
      rw [hbound] at hmost
      simp only [Option.elim_some] at hmost
      simp only [List.length_take]
      omega
  | optional inner ih =>
      rw [lengths, List.mem_append, List.mem_singleton] at hn
      rcases hn with hn | rfl
      · exact ⟨(ih hn).1, .inr (ih hn).2⟩
      · exact ⟨Nat.zero_le _, .inl (by simp)⟩
  | seq first second ihFirst ihSecond =>
      rw [lengths, List.mem_flatMap] at hn
      obtain ⟨front, hfront, hsum⟩ := hn
      obtain ⟨back, hback, rfl⟩ := List.mem_map.mp hsum
      obtain ⟨hfrontLe, hfirst⟩ := ihFirst hfront
      obtain ⟨hbackLe, hsecond⟩ := ihSecond hback
      rw [List.length_drop] at hbackLe
      refine ⟨by omega, text.take front, (text.drop front).take back, ?_, ?_, ?_⟩
      · rw [List.take_add]
      · rw [← List.drop_drop, List.take_append_drop]
        exact hfirst
      · rw [← List.drop_drop]
        exact hsecond
  | alt first second ihFirst ihSecond =>
      rw [lengths, List.mem_append] at hn
      rcases hn with hn | hn
      · exact ⟨(ihFirst hn).1, .inl (ihFirst hn).2⟩
      · exact ⟨(ihSecond hn).1, .inr (ihSecond hn).2⟩
  | wordBoundary =>
      unfold lengths at hn
      split at hn
      next => cases hn
      next hdiffer =>
        rw [List.mem_singleton.mp hn]
        exact ⟨Nat.zero_le _, by simp, by simpa using hdiffer⟩

theorem matches_of_matchAt {pattern : Pattern} {prev : Option Char} {text : List Char} {n : ℕ}
    (hn : pattern.matchAt isWord prev text = some n) :
    n ≤ text.length ∧ pattern.Matches isWord prev (text.take n) (text.drop n) :=
  matches_of_mem_lengths isWord (List.mem_of_head? hn)

/-! ### Every match is a candidate -/

theorem mem_lengths_of_matches {pattern : Pattern} {prev : Option Char} {raw after : List Char}
    (hmatches : pattern.Matches isWord prev raw after) :
    raw.length ∈ pattern.lengths isWord prev (raw ++ after) := by
  induction pattern generalizing prev raw after with
  | one accepts =>
      obtain ⟨c, rfl, hc⟩ := hmatches
      simp [lengths, hc]
  | many accepts least most =>
      obtain ⟨haccepts, hleast, hmost⟩ := hmatches
      have hrun : raw.length ≤ ((raw ++ after).takeWhile accepts).length := by
        rw [List.takeWhile_append_of_pos haccepts, List.length_append]
        omega
      simp only [lengths, List.mem_filter, List.mem_reverse, List.mem_range, decide_eq_true_eq]
      refine ⟨?_, hleast⟩
      cases most with
      | none =>
          simp only [Option.elim_none]
          omega
      | some bound =>
          have hbound := hmost bound rfl
          simp only [Option.elim_some]
          omega
  | optional inner ih =>
      rw [lengths, List.mem_append, List.mem_singleton]
      rcases hmatches with rfl | hmatches
      · exact .inr rfl
      · exact .inl (ih hmatches)
  | seq first second ihFirst ihSecond =>
      obtain ⟨front, back, rfl, hfirst, hsecond⟩ := hmatches
      have hfront := ihFirst hfirst
      rw [← List.append_assoc] at hfront
      rw [lengths, List.mem_flatMap]
      refine ⟨front.length, hfront, List.mem_map.mpr ⟨back.length, ?_, by simp⟩⟩
      have hback := ihSecond hsecond
      rwa [List.append_assoc, List.take_left, List.drop_left]
  | alt first second ihFirst ihSecond =>
      rw [lengths, List.mem_append]
      rcases hmatches with hmatches | hmatches
      · exact .inl (ihFirst hmatches)
      · exact .inr (ihSecond hmatches)
  | wordBoundary =>
      obtain ⟨rfl, hdiffer⟩ := hmatches
      simp [lengths, hdiffer]

theorem matchAt_of_matches {pattern : Pattern}
    (hnonempty : ∀ prev after, ¬pattern.Matches isWord prev [] after) {prev : Option Char}
    {raw after : List Char} (hmatches : pattern.Matches isWord prev raw after) :
    ∃ n, pattern.matchAt isWord prev (raw ++ after) = some n ∧ 0 < n := by
  have hmem := mem_lengths_of_matches isWord hmatches
  obtain ⟨n, others, hlengths⟩ := List.exists_cons_of_ne_nil (List.ne_nil_of_mem hmem)
  refine ⟨n, by rw [matchAt, hlengths, List.head?_cons], ?_⟩
  apply Nat.pos_of_ne_zero
  rintro rfl
  have hnil := matches_of_mem_lengths isWord (hlengths ▸ List.mem_cons_self)
  exact hnonempty _ _ hnil.2

/-! ### Longest matches -/

/-- The longest candidate is preferred at every position. -/
def Descending (pattern : Pattern) : Prop :=
  ∀ prev text, (pattern.lengths isWord prev text).Pairwise (· > ·)

theorem descending_many (accepts : Char → Bool) (least : ℕ) (most : Option ℕ) :
    Descending isWord (.many accepts least most) := by
  intro prev text
  exact List.Pairwise.filter _ (List.pairwise_reverse.mpr List.pairwise_lt_range)

theorem descending_one_seq (accepts : Char → Bool) {second : Pattern}
    (hsecond : Descending isWord second) : Descending isWord (.seq (.one accepts) second) := by
  intro prev text
  rw [lengths, lengths]
  split
  next =>
    rw [List.flatMap_singleton, List.pairwise_map]
    apply (hsecond _ _).imp
    intro longer shorter hlonger
    exact Nat.add_lt_add_left hlonger 1
  next => exact List.Pairwise.nil

theorem descending_seq_one {first : Pattern} (hfirst : Descending isWord first)
    (accepts : Char → Bool) : Descending isWord (.seq first (.one accepts)) := by
  intro prev text
  have hone : ∀ prev text, ∀ n ∈ (Pattern.one accepts).lengths isWord prev text, n = 1 := by
    intro prev text n hn
    rw [lengths] at hn
    split at hn
    next => exact List.mem_singleton.mp hn
    next => cases hn
  rw [lengths, List.pairwise_flatMap]
  constructor
  · intro n _
    rw [lengths]
    split <;> simp
  · apply (hfirst prev text).imp
    intro longer shorter hlonger n hn m hm
    obtain ⟨k, hk, rfl⟩ := List.mem_map.mp hn
    obtain ⟨l, hl, rfl⟩ := List.mem_map.mp hm
    rw [hone _ _ k hk, hone _ _ l hl]
    omega

theorem le_of_descending {pattern : Pattern} {prev : Option Char} {text : List Char} {n m : ℕ}
    (hdescending : (pattern.lengths isWord prev text).Pairwise (· > ·))
    (hmatch : pattern.matchAt isWord prev text = some n)
    (hm : m ∈ pattern.lengths isWord prev text) : m ≤ n := by
  rw [matchAt] at hmatch
  obtain ⟨others, hlengths⟩ := List.head?_eq_some_iff.mp hmatch
  rw [hlengths] at hdescending hm
  rcases List.mem_cons.mp hm with rfl | hm
  · exact le_rfl
  · exact ((List.pairwise_cons.mp hdescending).1 m hm).le

/-- Of its surroundings a match sees only whether word characters are next to it. -/
theorem Matches.congr {pattern : Pattern} {prev prev' : Option Char} {raw after after' : List Char}
    (hprev : prev.any isWord = prev'.any isWord)
    (hafter : after.head?.any isWord = after'.head?.any isWord)
    (hmatches : pattern.Matches isWord prev raw after) : pattern.Matches isWord prev' raw after' := by
  induction pattern generalizing prev prev' raw after after' with
  | one accepts => exact hmatches
  | many accepts least most => exact hmatches
  | optional inner ih => exact hmatches.imp_right (ih hprev hafter)
  | seq first second ihFirst ihSecond =>
      obtain ⟨front, back, rfl, hfirst, hsecond⟩ := hmatches
      refine ⟨front, back, rfl, ihFirst hprev ?_ hfirst, ihSecond ?_ hafter hsecond⟩
      · cases back with
        | nil => exact hafter
        | cons c back => rfl
      · unfold advance
        cases front.getLast? with
        | none => exact hprev
        | some c => rfl
  | alt first second ihFirst ihSecond =>
      exact hmatches.imp (ihFirst hprev hafter) (ihSecond hprev hafter)
  | wordBoundary =>
      obtain ⟨rfl, hdiffer⟩ := hmatches
      exact ⟨rfl, by rw [← hprev, ← hafter]; exact hdiffer⟩

/-- Nowhere in the text on its own does the pattern match. -/
def NoMatch (pattern : Pattern) (text : List Char) : Prop :=
  ∀ front raw back, text = front ++ (raw ++ back) → raw ≠ [] →
    ¬pattern.Matches isWord front.getLast? raw back

/-! ## Preferred candidates -/

theorem matchAt_seq {first second : Pattern} {prev : Option Char} {text : List Char}
    {skipped rest : List ℕ} {n k : ℕ}
    (hfirst : first.lengths isWord prev text = skipped ++ n :: rest)
    (hskipped : ∀ m ∈ skipped,
      second.lengths isWord (advance prev (text.take m)) (text.drop m) = [])
    (hsecond : second.matchAt isWord (advance prev (text.take n)) (text.drop n) = some k) :
    (Pattern.seq first second).matchAt isWord prev text = some (n + k) := by
  have hnone : (skipped.flatMap fun m =>
      (second.lengths isWord (advance prev (text.take m)) (text.drop m)).map (m + ·)) = [] := by
    rw [List.flatMap_eq_nil_iff]
    intro m hm
    rw [hskipped m hm, List.map_nil]
  unfold matchAt at hsecond ⊢
  rw [lengths, hfirst, List.flatMap_append, hnone, List.nil_append, List.flatMap_cons,
    List.head?_append, List.head?_map, hsecond]
  rfl

theorem matchAt_one_seq {accepts : Char → Bool} {second : Pattern} {prev : Option Char} {c : Char}
    {rest : List Char} {k : ℕ} (hc : accepts c = true)
    (hsecond : second.matchAt isWord (some c) rest = some k) :
    (Pattern.seq (.one accepts) second).matchAt isWord prev (c :: rest) = some (1 + k) := by
  have hfirst : (Pattern.one accepts).lengths isWord prev (c :: rest) = [] ++ [1] := by
    simp [lengths, hc]
  exact matchAt_seq isWord hfirst (by simp) (by simpa using hsecond)

theorem matchAt_wordBoundary_seq {second : Pattern} {prev : Option Char} {text : List Char} {k : ℕ}
    (hboundary : prev.any isWord ≠ text.head?.any isWord)
    (hsecond : second.matchAt isWord prev text = some k) :
    (Pattern.seq .wordBoundary second).matchAt isWord prev text = some (0 + k) := by
  have hfirst : Pattern.wordBoundary.lengths isWord prev text = [] ++ [0] := by
    simp [lengths, hboundary]
  exact matchAt_seq isWord hfirst (by simp) (by simpa using hsecond)

theorem lengths_one_seq_of_head {accepts : Char → Bool} {second : Pattern} {prev : Option Char}
    {text : List Char} (hhead : text.head?.any accepts = false) :
    (Pattern.seq (.one accepts) second).lengths isWord prev text = [] := by
  simp [lengths, hhead]

/-- A repetition takes as much as leaves a match to the rest of the pattern. -/
theorem matchAt_many_seq {accepts : Char → Bool} {least : ℕ} {second : Pattern}
    {prev : Option Char} {front rest : List Char} {k : ℕ} (hfront : ∀ c ∈ front, accepts c = true)
    (hleast : least ≤ front.length)
    (hlonger : ∀ inner later, inner ≠ [] → rest = inner ++ later →
      (∀ c ∈ inner, accepts c = true) → ∀ before, second.lengths isWord before later = [])
    (hsecond : second.matchAt isWord (advance prev front) rest = some k) :
    (Pattern.seq (.many accepts least none) second).matchAt isWord prev (front ++ rest) =
      some (front.length + k) := by
  have hrun : ((front ++ rest).takeWhile accepts).length =
      front.length + (rest.takeWhile accepts).length := by
    rw [List.takeWhile_append_of_pos hfront, List.length_append]
  have hcandidates : (Pattern.many accepts least none).lengths isWord prev (front ++ rest) =
      (List.range (front.length + (rest.takeWhile accepts).length + 1)).reverse.filter
        (least ≤ ·) := by
    rw [← hrun]
    rfl
  have hmem : front.length ∈ (Pattern.many accepts least none).lengths isWord prev
      (front ++ rest) := by
    rw [hcandidates, List.mem_filter, List.mem_reverse, List.mem_range, decide_eq_true_eq]
    omega
  have hsorted : ((Pattern.many accepts least none).lengths isWord prev
      (front ++ rest)).Pairwise (· > ·) := by
    rw [hcandidates]
    exact List.Pairwise.filter _ (List.pairwise_reverse.mpr List.pairwise_lt_range)
  obtain ⟨skipped, behind, hsplit⟩ := List.append_of_mem hmem
  apply matchAt_seq isWord hsplit
  · intro m hm
    have hlong : front.length < m := by
      rw [hsplit, List.pairwise_append] at hsorted
      exact hsorted.2.2 m hm _ List.mem_cons_self
    have hbound : m ≤ front.length + (rest.takeWhile accepts).length := by
      have hcandidate : m ∈ (Pattern.many accepts least none).lengths isWord prev
          (front ++ rest) := hsplit ▸ List.mem_append_left _ hm
      rw [hcandidates, List.mem_filter, List.mem_reverse, List.mem_range] at hcandidate
      omega
    obtain ⟨hlength, haccepts⟩ := take_of_le_takeWhile
      (show m - front.length ≤ (rest.takeWhile accepts).length by omega)
    have hdrop : (front ++ rest).drop m = rest.drop (m - front.length) := by
      rw [List.drop_append, List.drop_eq_nil_of_le hlong.le, List.nil_append]
    rw [hdrop]
    apply hlonger (rest.take (m - front.length)) _ _ (List.take_append_drop _ _).symm haccepts
    apply List.ne_nil_of_length_pos
    rw [List.length_take]
    omega
  · rwa [List.take_left, List.drop_left]

/-! ## Searching -/

/-- A gap and a match for every match, and what is left behind the last one. -/
abbrev Found := List (List Char × List Char) × List Char

def Found.consGap (c : Char) : Found → Found
  | ((gap, raw) :: pieces, tail) => ((c :: gap, raw) :: pieces, tail)
  | ([], tail) => ([], c :: tail)

/-- The search from a position on; the first characters may belong to a match already found. -/
def search (pattern : Pattern) : Option Char → ℕ → List Char → Found
  | _, _, [] => ([], [])
  | _, skip + 1, c :: rest => search pattern (some c) skip rest
  | prev, 0, c :: rest =>
      match pattern.matchAt isWord prev (c :: rest) with
      | some (n + 1) =>
          let found := search pattern (some c) n rest
          (([], (c :: rest).take (n + 1)) :: found.1, found.2)
      | _ => (search pattern (some c) 0 rest).consGap c

def Found.joined (found : Found) : List Char :=
  (found.1.flatMap fun piece => piece.1 ++ piece.2) ++ found.2

theorem Found.joined_consGap (c : Char) (found : Found) :
    (found.consGap c).joined = c :: found.joined := by
  obtain ⟨pieces, tail⟩ := found
  cases pieces with
  | nil => rfl
  | cons piece pieces => rfl

variable {isWord} {pattern : Pattern}

/-- Behind a match the search goes on as if it started there. -/
theorem search_skip (prev : Option Char) (front rest : List Char) :
    search isWord pattern prev front.length (front ++ rest) =
      search isWord pattern (advance prev front) 0 rest := by
  induction front generalizing prev with
  | nil => rfl
  | cons c front ih =>
      rw [List.length_cons, List.cons_append, search, ih, advance_cons]

theorem search_of_match {prev : Option Char} {raw rest : List Char} (hraw : raw ≠ [])
    (hmatch : pattern.matchAt isWord prev (raw ++ rest) = some raw.length) :
    search isWord pattern prev 0 (raw ++ rest) =
      (([], raw) :: (search isWord pattern (advance prev raw) 0 rest).1,
        (search isWord pattern (advance prev raw) 0 rest).2) := by
  cases raw with
  | nil => exact absurd rfl hraw
  | cons c raw =>
      rw [List.cons_append] at hmatch ⊢
      rw [search, hmatch, List.length_cons]
      dsimp only
      rw [search_skip, ← List.cons_append, ← List.length_cons, List.take_left, advance_cons]

theorem search_of_none {prev : Option Char} {c : Char} {rest : List Char}
    (hnone : ∀ n, pattern.matchAt isWord prev (c :: rest) = some n → n = 0) :
    search isWord pattern prev 0 (c :: rest) =
      (search isWord pattern (some c) 0 rest).consGap c := by
  rw [search]
  split
  next n hmatch => exact absurd (hnone _ hmatch) (Nat.succ_ne_zero n)
  next => rfl

/-- A search goes on character by character where there is no match, and match by match. -/
theorem search_induction {motive : Option Char → List Char → Found → Prop}
    (hnil : ∀ prev, motive prev [] ([], []))
    (hgap : ∀ prev c rest, (∀ n, pattern.matchAt isWord prev (c :: rest) = some n → n = 0) →
      motive (some c) rest (search isWord pattern (some c) 0 rest) →
      motive prev (c :: rest) ((search isWord pattern (some c) 0 rest).consGap c))
    (hmatch : ∀ prev raw rest, raw ≠ [] →
      pattern.matchAt isWord prev (raw ++ rest) = some raw.length →
      motive (advance prev raw) rest (search isWord pattern (advance prev raw) 0 rest) →
      motive prev (raw ++ rest) (([], raw) :: (search isWord pattern (advance prev raw) 0 rest).1,
        (search isWord pattern (advance prev raw) 0 rest).2))
    (prev : Option Char) (text : List Char) :
    motive prev text (search isWord pattern prev 0 text) := by
  induction hlength : text.length using Nat.strong_induction_on generalizing prev text with
  | _ length ih =>
      cases text with
      | nil => exact hnil prev
      | cons c rest =>
          by_cases hnone : ∀ n, pattern.matchAt isWord prev (c :: rest) = some n → n = 0
          · rw [search_of_none hnone]
            apply hgap prev c rest hnone
            exact ih rest.length (by rw [← hlength]; simp) _ _ rfl
          · push Not at hnone
            obtain ⟨n, hfound, hn⟩ := hnone
            have hle := (matches_of_matchAt isWord hfound).1
            have hsplit := List.take_append_drop n (c :: rest)
            have hraw : ((c :: rest).take n).length = n := by
              rw [List.length_take]
              omega
            have hne : (c :: rest).take n ≠ [] := by
              apply List.ne_nil_of_length_pos
              omega
            have hstart : pattern.matchAt isWord prev
                ((c :: rest).take n ++ (c :: rest).drop n) =
                  some ((c :: rest).take n).length := by
              rw [hsplit, hfound, hraw]
            have hmotive := hmatch prev _ _ hne hstart
              (ih _ (by rw [List.length_drop, ← hlength]; omega) _ _ rfl)
            rw [← search_of_match hne hstart, hsplit] at hmotive
            exact hmotive

theorem joined_search (prev : Option Char) (text : List Char) :
    Found.joined (search isWord pattern prev 0 text) = text := by
  apply search_induction (motive := fun _ text found => Found.joined found = text)
  · intro prev
    rfl
  · intro prev c rest _ ih
    rw [Found.joined_consGap, ih]
  · intro prev raw rest _ _ ih
    simp only [Found.joined, List.flatMap_cons, List.nil_append, List.append_assoc] at ih ⊢
    rw [ih]

end

end Pattern
