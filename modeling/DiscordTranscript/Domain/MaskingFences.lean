import Mathlib.Data.List.Forall2
import DiscordTranscript.Domain.PiiPatterns
import DiscordTranscript.Foundation.Separated

/-! # Fences

A text that alternates between fixed parts and free ones is masked free part by free part,
provided that the fixed parts are fences: no match reaches into one from before, and none that
begins in one is replaced or reaches behind it.
-/

namespace DiscordTranscript.Domain

/-- Some parts of the text are replaced by placeholders of the label. -/
inductive Masks (label : List Char) : List Char → List Char → Prop
  | nil : Masks label [] []
  | keep {text out : List Char} (c : Char) (hrest : Masks label text out) :
      Masks label (c :: text) (c :: out)
  | mask {text out raw : List Char} (index : ℕ) (hraw : raw ≠ []) (hrest : Masks label text out) :
      Masks label (raw ++ text) (placeholder label index ++ out)

theorem Masks.keep_append {label text out : List Char} (raw : List Char)
    (hrest : Masks label text out) : Masks label (raw ++ text) (raw ++ out) := by
  induction raw with
  | nil => exact hrest
  | cons c raw ih => exact ih.keep c

theorem Masks.append {label front front' back back' : List Char} (hfront : Masks label front front')
    (hback : Masks label back back') : Masks label (front ++ back) (front' ++ back') := by
  induction hfront with
  | nil => exact hback
  | keep c _ ih => exact ih.keep c
  | mask index hraw _ ih =>
      rw [List.append_assoc, List.append_assoc]
      exact ih.mask index hraw

section

variable {unicode : UnicodeClasses} {pattern : Pattern} {label : List Char}
  {filter : RegexMatch → Bool}

/-! ## Passes over parts -/

theorem Pass.eq_nil {before out : List Char}
    (hpass : Pass unicode pattern label filter before [] out) : out = [] := by
  generalize htext : [] = text at hpass
  cases hpass with
  | done => rfl
  | keep => cases htext
  | spare hraw => exact absurd (List.append_eq_nil_iff.mp htext.symm).1 hraw
  | mask index hraw => exact absurd (List.append_eq_nil_iff.mp htext.symm).1 hraw

/-- Where no match begins, the text stays. -/
theorem Pass.keep_fixed {before fixed rest out : List Char}
    (hpass : Pass unicode pattern label filter before (fixed ++ rest) out)
    (hnone : ∀ front c back n, fixed = front ++ c :: back →
      pattern.matchAt unicode.word (before ++ front).getLast? (c :: back ++ rest) = some n →
      n = 0) :
    ∃ out', out = fixed ++ out' ∧ Pass unicode pattern label filter (before ++ fixed) rest out' := by
  induction fixed generalizing before out with
  | nil => exact ⟨out, rfl, by simpa using hpass⟩
  | cons c fixed ih =>
      have hhere : ∀ n, pattern.matchAt unicode.word before.getLast? (c :: (fixed ++ rest)) =
          some n → n = 0 := by
        intro n hmatch
        exact hnone [] c fixed n rfl (by simpa using hmatch)
      have hmatched : ∀ raw text : List Char, raw ≠ [] → c :: (fixed ++ rest) = raw ++ text →
          pattern.matchAt unicode.word before.getLast? (raw ++ text) ≠ some raw.length := by
        intro raw text hraw htext hmatch
        rw [← htext] at hmatch
        exact hraw (List.length_eq_zero_iff.mp (hhere _ hmatch))
      generalize htext : c :: fixed ++ rest = text at hpass
      cases hpass with
      | done => cases htext
      | @keep _ _ out c' _ hrest =>
          obtain ⟨rfl, rfl⟩ := List.cons.inj htext
          obtain ⟨out', hout, hpass'⟩ := ih hrest (by
            intro front d back n hfixed hmatch
            exact hnone (c :: front) d back n (by rw [hfixed]; rfl) (by simpa using hmatch))
          exact ⟨out', by rw [hout]; rfl, by simpa using hpass'⟩
      | spare hraw hmatch => exact absurd hmatch (hmatched _ _ hraw htext)
      | mask index hraw hmatch => exact absurd hmatch (hmatched _ _ hraw htext)

/-- A match that the filter spares stays. -/
theorem Pass.keep_spared {before raw rest out : List Char}
    (hpass : Pass unicode pattern label filter before (raw ++ rest) out) (hraw : raw ≠ [])
    (hmatch : pattern.matchAt unicode.word before.getLast? (raw ++ rest) = some raw.length)
    (hfilter : filter ⟨before, raw, rest⟩ = false) :
    ∃ out', out = raw ++ out' ∧ Pass unicode pattern label filter (before ++ raw) rest out' := by
  have hsame : ∀ other text : List Char, raw ++ rest = other ++ text →
      pattern.matchAt unicode.word before.getLast? (other ++ text) = some other.length →
      raw = other ∧ rest = text := by
    intro other text htext hother
    rw [← htext, hmatch, Option.some.injEq] at hother
    exact List.append_inj htext hother
  generalize htext : raw ++ rest = text at hpass
  cases hpass with
  | done => exact absurd (List.append_eq_nil_iff.mp htext).1 hraw
  | keep hnone =>
      rw [htext] at hmatch
      exact absurd (List.length_eq_zero_iff.mp (hnone _ hmatch)) hraw
  | spare _ hother _ hrest =>
      obtain ⟨rfl, rfl⟩ := hsame _ _ htext hother
      exact ⟨_, rfl, hrest⟩
  | mask index _ hother hmasked _ =>
      obtain ⟨rfl, rfl⟩ := hsame _ _ htext hother
      rw [hfilter] at hmasked
      cases hmasked

/-- A match that the filter takes is replaced. -/
theorem Pass.mask_match {before raw rest out : List Char}
    (hpass : Pass unicode pattern label filter before (raw ++ rest) out) (hraw : raw ≠ [])
    (hmatch : pattern.matchAt unicode.word before.getLast? (raw ++ rest) = some raw.length)
    (hfilter : filter ⟨before, raw, rest⟩ = true) :
    ∃ index out', out = placeholder label index ++ out' ∧
      Pass unicode pattern label filter (before ++ raw) rest out' := by
  have hsame : ∀ other text : List Char, raw ++ rest = other ++ text →
      pattern.matchAt unicode.word before.getLast? (other ++ text) = some other.length →
      raw = other ∧ rest = text := by
    intro other text htext hother
    rw [← htext, hmatch, Option.some.injEq] at hother
    exact List.append_inj htext hother
  generalize htext : raw ++ rest = text at hpass
  cases hpass with
  | done => exact absurd (List.append_eq_nil_iff.mp htext).1 hraw
  | keep hnone =>
      rw [htext] at hmatch
      exact absurd (List.length_eq_zero_iff.mp (hnone _ hmatch)) hraw
  | spare _ hother hspared _ =>
      obtain ⟨rfl, rfl⟩ := hsame _ _ htext hother
      rw [hfilter] at hspared
      cases hspared
  | mask index _ hother _ hrest =>
      obtain ⟨rfl, rfl⟩ := hsame _ _ htext hother
      exact ⟨index, _, rfl, hrest⟩

/-- Where matches that begin in a part end in it, the part is masked on its own. -/
theorem Pass.mask_free {before free rest out : List Char}
    (hpass : Pass unicode pattern label filter before (free ++ rest) out)
    (hinside : ∀ front back n, free = front ++ back → back ≠ [] →
      pattern.matchAt unicode.word (before ++ front).getLast? (back ++ rest) = some n →
      n ≤ back.length) :
    ∃ free' out', out = free' ++ out' ∧ Masks label free free' ∧
      Pass unicode pattern label filter (before ++ free) rest out' := by
  induction hlength : free.length using Nat.strong_induction_on generalizing before free out with
  | _ length ih =>
      cases free with
      | nil => exact ⟨[], out, rfl, .nil, by simpa using hpass⟩
      | cons d free =>
          have hbehind : ∀ raw back : List Char, d :: free = raw ++ back →
              ∀ front later n, back = front ++ later → later ≠ [] →
              pattern.matchAt unicode.word (before ++ raw ++ front).getLast? (later ++ rest) =
                some n → n ≤ later.length := by
            intro raw back hfree front later n hback hlater hmatch
            refine hinside (raw ++ front) later n ?_ hlater ?_
            · rw [hfree, hback, List.append_assoc]
            · rw [← List.append_assoc]
              exact hmatch
          have hmatched : ∀ raw text : List Char, raw ≠ [] → d :: free ++ rest = raw ++ text →
              pattern.matchAt unicode.word before.getLast? (raw ++ text) = some raw.length →
              ∃ back, d :: free = raw ++ back ∧ text = back ++ rest ∧ back.length < length := by
            intro raw text hraw htext hmatch
            rw [← htext] at hmatch
            obtain ⟨back, hback, hrest⟩ := Separated.exists_back_of_append_eq htext
              (hinside [] (d :: free) _ rfl (List.cons_ne_nil _ _) (by simpa using hmatch))
            refine ⟨back, hback, hrest, ?_⟩
            have hpos := List.length_pos_of_ne_nil hraw
            rw [← hlength, hback, List.length_append]
            omega
          generalize htext : d :: free ++ rest = text at hpass
          cases hpass with
          | done => cases htext
          | keep _ hrest =>
              obtain ⟨rfl, rfl⟩ := List.cons.inj htext
              obtain ⟨free', out', rfl, hmasks, hpass'⟩ := ih free.length
                (by rw [← hlength]; simp) hrest (hbehind [d] free rfl) rfl
              exact ⟨d :: free', out', rfl, hmasks.keep d, by simpa using hpass'⟩
          | spare hraw hmatch _ hrest =>
              obtain ⟨back, hback, rfl, hshort⟩ := hmatched _ _ hraw htext hmatch
              obtain ⟨free', out', rfl, hmasks, hpass'⟩ := ih back.length hshort hrest
                (hbehind _ back hback) rfl
              rw [hback]
              refine ⟨_ ++ free', out', ?_, hmasks.keep_append _, by simpa using hpass'⟩
              rw [List.append_assoc]
          | mask index hraw hmatch _ hrest =>
              obtain ⟨back, hback, rfl, hshort⟩ := hmatched _ _ hraw htext hmatch
              obtain ⟨free', out', rfl, hmasks, hpass'⟩ := ih back.length hshort hrest
                (hbehind _ back hback) rfl
              rw [hback]
              refine ⟨placeholder label index ++ free', out', ?_, hmasks.mask index hraw,
                by simpa using hpass'⟩
              rw [List.append_assoc]

/-! ## Fences -/

variable (unicode pattern label filter) in
/-- A fixed part that matches neither enter nor leave, and that a pass keeps. -/
structure Fence (fixed : List Char) : Prop where
  stops : ∀ prev front rest n,
    pattern.matchAt unicode.word prev (front ++ (fixed ++ rest)) = some n → n ≤ front.length
  inside : ∀ prev front c back rest n, fixed = front ++ c :: back →
    pattern.matchAt unicode.word prev (c :: back ++ rest) = some n →
      n ≤ (c :: back).length ∧ '\n' ∉ (c :: back).take n
  kept : ∀ before rest out, Pass unicode pattern label filter before (fixed ++ rest) out →
    ∃ out', out = fixed ++ out' ∧ Pass unicode pattern label filter (before ++ fixed) rest out'

/-- The text behind the last fence is masked on its own. -/
theorem Pass.mask_last {before free out : List Char}
    (hpass : Pass unicode pattern label filter before free out) : Masks label free out := by
  rw [← List.append_nil free] at hpass
  obtain ⟨free', out', rfl, hmasks, hnil⟩ := hpass.mask_free fun front back n _ _ hmatch => by
    have hle := (Pattern.matches_of_matchAt unicode.word hmatch).1
    simpa using hle
  rw [hnil.eq_nil, List.append_nil]
  exact hmasks

/-- The text before a fence and the text behind it are masked on their own. -/
theorem Fence.mask_around {fixed : List Char} (hfence : Fence unicode pattern label filter fixed)
    {before left right out : List Char}
    (hpass : Pass unicode pattern label filter before (left ++ (fixed ++ right)) out) :
    ∃ left' right', out = left' ++ (fixed ++ right') ∧ Masks label left left' ∧
      Masks label right right' := by
  obtain ⟨left', out', rfl, hleft, hrest⟩ := hpass.mask_free
    fun front back n _ _ hmatch => hfence.stops _ back right n hmatch
  obtain ⟨right', rfl, hright⟩ := hfence.kept _ _ _ hrest
  exact ⟨left', right', rfl, hleft, hright.mask_last⟩

/-- Fixed and free parts in turn. -/
def blocksText (blocks : List (List Char × List Char)) : List Char :=
  blocks.flatMap fun block => block.1 ++ block.2

variable (label) in
def BlockMasks (block block' : List Char × List Char) : Prop :=
  block'.1 = block.1 ∧ Masks label block.2 block'.2

/-- Between fences the free parts are masked one by one. -/
theorem Pass.mask_blocks {blocks : List (List Char × List Char)}
    (hfences : ∀ block ∈ blocks, Fence unicode pattern label filter block.1)
    {before out : List Char}
    (hpass : Pass unicode pattern label filter before (blocksText blocks) out) :
    ∃ blocks', out = blocksText blocks' ∧ List.Forall₂ (BlockMasks label) blocks blocks' := by
  induction blocks generalizing before out with
  | nil => exact ⟨[], hpass.eq_nil, .nil⟩
  | cons block blocks ih =>
      obtain ⟨fixed, free⟩ := block
      have htext : blocksText ((fixed, free) :: blocks) = fixed ++ (free ++ blocksText blocks) := by
        simp [blocksText]
      rw [htext] at hpass
      obtain ⟨kept, rfl, hfree⟩ := (hfences (fixed, free) List.mem_cons_self).kept _ _ _ hpass
      have hinside : ∀ front back n, free = front ++ back → back ≠ [] →
          pattern.matchAt unicode.word (before ++ fixed ++ front).getLast?
            (back ++ blocksText blocks) = some n → n ≤ back.length := by
        intro front back n _ _ hmatch
        cases blocks with
        | nil =>
            have hle := (Pattern.matches_of_matchAt unicode.word hmatch).1
            simpa [blocksText] using hle
        | cons next rest =>
            have hnext := (hfences next (by simp)).stops
            apply hnext _ back (next.2 ++ blocksText rest) n
            simpa [blocksText] using hmatch
      obtain ⟨free', later, rfl, hmasks, hlater⟩ := hfree.mask_free hinside
      obtain ⟨blocks', rfl, hblocks⟩ := ih
        (fun block hblock => hfences block (List.mem_cons_of_mem _ hblock)) hlater
      refine ⟨(fixed, free') :: blocks', by simp [blocksText], .cons ⟨rfl, hmasks⟩ hblocks⟩

/-! ## Matches -/

/-- The fixed and the free parts. -/
def blockParts (blocks : List (List Char × List Char)) : List (List Char) :=
  blocks.flatMap fun block => [block.1, block.2]

/-- A match that lies in one of the parts and in one line. -/
structure RegexMatch.InOne (parts : List (List Char)) (found : RegexMatch) : Prop where
  part : ∃ front whole back first last, parts = front ++ whole :: back ∧
    found.before = front.flatten ++ first ∧ whole = first ++ found.raw ++ last ∧
    found.after = last ++ back.flatten
  line : '\n' ∉ found.raw

theorem RegexMatch.InOne.behind {parts : List (List Char)} {before raw after : List Char}
    (front : List (List Char)) (hin : RegexMatch.InOne parts ⟨before, raw, after⟩) :
    RegexMatch.InOne (front ++ parts) ⟨front.flatten ++ before, raw, after⟩ := by
  obtain ⟨⟨earlier, whole, back, first, last, hparts, hbefore, hwhole, hafter⟩, hline⟩ := hin
  refine ⟨⟨front ++ earlier, whole, back, first, last, ?_, ?_, hwhole, hafter⟩, hline⟩
  · rw [hparts, List.append_assoc]
  · simp only at hbefore
    rw [hbefore, List.flatten_append, List.append_assoc]

theorem flatten_blockParts (blocks : List (List Char × List Char)) :
    (blockParts blocks).flatten = blocksText blocks := by
  induction blocks with
  | nil => rfl
  | cons block blocks ih =>
      simp only [blockParts, blocksText, List.flatMap_cons, List.cons_append, List.nil_append,
        List.flatten_cons] at ih ⊢
      rw [ih, List.append_assoc]

/-- Between fences every match lies in one part. -/
theorem inOne_of_matchAt {blocks : List (List Char × List Char)}
    (hfences : ∀ block ∈ blocks, Fence unicode pattern label filter block.1)
    (hlines : ∀ block ∈ blocks, '\n' ∉ block.2)
    {prev : Option Char} {before raw after : List Char} (hraw : raw ≠ [])
    (htext : blocksText blocks = before ++ (raw ++ after))
    (hmatch : pattern.matchAt unicode.word prev (raw ++ after) = some raw.length) :
    RegexMatch.InOne (blockParts blocks) ⟨before, raw, after⟩ := by
  induction blocks generalizing before with
  | nil =>
      have hnil := List.append_eq_nil_iff.mp htext.symm
      exact absurd (List.append_eq_nil_iff.mp hnil.2).1 hraw
  | cons block blocks ih =>
      obtain ⟨fixed, free⟩ := block
      have hparts : blockParts ((fixed, free) :: blocks) = [fixed, free] ++ blockParts blocks := rfl
      have hsplit : blocksText ((fixed, free) :: blocks) = fixed ++ (free ++ blocksText blocks) := by
        simp [blocksText]
      rw [hsplit] at htext
      rw [hparts]
      by_cases hfixed : fixed.length ≤ before.length
      · obtain ⟨later, hbefore, hlater⟩ := Separated.exists_back_of_append_eq htext.symm hfixed
        by_cases hfree : free.length ≤ later.length
        · obtain ⟨behind, hbehind, hrest⟩ := Separated.exists_back_of_append_eq hlater.symm hfree
          have hin := ih (fun block hblock => hfences block (List.mem_cons_of_mem _ hblock))
            (fun block hblock => hlines block (List.mem_cons_of_mem _ hblock)) hrest
          have hshifted := hin.behind [fixed, free]
          rw [hbefore, hbehind]
          simpa using hshifted
        · obtain ⟨back, hback, hfirst⟩ := Separated.exists_back_of_append_eq hlater (Nat.le_of_not_le hfree)
          have hle : raw.length ≤ back.length := by
            rw [hfirst] at hmatch
            cases blocks with
            | nil =>
                have hle := (Pattern.matches_of_matchAt unicode.word hmatch).1
                simpa [blocksText] using hle
            | cons next rest =>
                have hnext := (hfences next (by simp)).stops
                apply hnext prev back (next.2 ++ blocksText rest) raw.length
                simpa [blocksText] using hmatch
          obtain ⟨last, hlast, hafter⟩ := Separated.exists_back_of_append_eq hfirst.symm hle
          refine ⟨⟨[fixed], free, blockParts blocks, later, last, by simp, by simp [hbefore], ?_, ?_⟩,
            ?_⟩
          · rw [hback, hlast, List.append_assoc]
          · rw [hafter, flatten_blockParts]
          · intro hline
            apply hlines (fixed, free) List.mem_cons_self
            simp only
            rw [hback, hlast]
            exact List.mem_append_right _ (List.mem_append_left _ hline)
      · obtain ⟨back, hback, hfirst⟩ := Separated.exists_back_of_append_eq htext (Nat.le_of_not_le hfixed)
        cases back with
        | nil =>
            rw [hback, List.append_nil] at hfixed
            exact absurd le_rfl hfixed
        | cons c back =>
            have hinside := (hfences (fixed, free) List.mem_cons_self).inside prev before c back
              (free ++ blocksText blocks) raw.length hback (by rw [← hfirst]; exact hmatch)
            obtain ⟨last, hlast, hafter⟩ := Separated.exists_back_of_append_eq hfirst.symm hinside.1
            refine ⟨⟨[], fixed, free :: blockParts blocks, before, last, by simp, by simp, ?_, ?_⟩, ?_⟩
            · rw [hback, hlast, List.append_assoc]
            · simp [hafter, flatten_blockParts]
            · have hline := hinside.2
              rwa [hlast, List.take_left] at hline

end

end DiscordTranscript.Domain
