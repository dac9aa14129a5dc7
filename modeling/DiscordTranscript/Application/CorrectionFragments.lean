import DiscordTranscript.Application.CorrectionChunks
import DiscordTranscript.Foundation.Separated

/-! # Fragments of an oversized line

With room for one character of any size every round of the splitting takes something, so that
the loop ends. No fragment is larger than the budget, and no bracketed token that fits the budget
is divided.
-/

namespace DiscordTranscript.Application

open Text

/-! ## Progress -/

theorem takeBytes_ne_nil {budget : ℕ} {body : List Char} (hbudget : 4 ≤ budget)
    (hbody : body ≠ []) : takeBytes budget body ≠ [] := by
  cases body with
  | nil => exact absurd rfl hbody
  | cons c rest =>
      have hsize := c.utf8Size_le_four
      rw [takeBytes, if_pos (by omega)]
      exact List.cons_ne_nil _ _

theorem splitFragment_ne_nil {budget : ℕ} {body : List Char} (hbudget : 4 ≤ budget)
    (hbody : body ≠ []) : (splitFragment budget body).1 ≠ [] := by
  rcases splitFragment_cases budget body with ⟨hcut, -⟩ | ⟨hcut, hne⟩
  · rw [hcut]
    exact takeBytes_ne_nil hbudget hbody
  · rw [hcut]
    exact hne

theorem splitRounds_eq_some {budget rounds : ℕ} {body : List Char} (hbudget : 4 ≤ budget)
    (hrounds : body.length ≤ rounds) : ∃ fragments, splitRounds budget rounds body = some fragments := by
  induction rounds generalizing body with
  | zero =>
      rw [List.length_eq_zero_iff.mp (Nat.le_zero.mp hrounds)]
      exact ⟨[], rfl⟩
  | succ rounds ih =>
      cases body with
      | nil => exact ⟨[], rfl⟩
      | cons c rest =>
          have hpos := List.length_pos_of_ne_nil
            (splitFragment_ne_nil hbudget (List.cons_ne_nil c rest))
          have hleft : ((c :: rest).drop ((splitFragment budget (c :: rest)).1.length +
              (splitFragment budget (c :: rest)).2.length)).length ≤ rounds := by
            rw [List.length_drop, List.length_cons] at *
            omega
          obtain ⟨fragments, hfragments⟩ := ih hleft
          exact ⟨_ :: fragments, by rw [splitRounds, hfragments]; rfl⟩

theorem splitTranscriptBody_eq_some {budget : ℕ} (body : List Char) (hbudget : 4 ≤ budget) :
    ∃ fragments, splitTranscriptBody body budget = some fragments :=
  splitRounds_eq_some hbudget le_rfl

/-! ## Size -/

theorem cutAtSpace_fst_isPrefix (window body : List Char) :
    (cutAtSpace window body).1 <+: window := by
  unfold cutAtSpace
  split
  next before space after hlast =>
    split
    · exact List.prefix_rfl
    · rw [(splitLast_some hlast).1]
      exact List.prefix_append _ _
  next => exact List.prefix_rfl

theorem splitFragment_fst_isPrefix (budget : ℕ) (body : List Char) :
    (splitFragment budget body).1 <+: takeBytes budget body := by
  rcases splitFragment_cases budget body with ⟨hcut, -⟩ | ⟨hcut, -⟩
  · rw [hcut]
  · rw [hcut]
    exact (cutAtSpace_fst_isPrefix _ _).trans (beforeUnclosed_isPrefix _)

theorem Fragments.length_le {budget : ℕ} {body : List Char}
    {fragments : List (List Char × List Char)} (hfragments : Fragments budget body fragments) :
    ∀ piece ∈ fragments, piece.1.length ≤ budget := by
  induction hfragments with
  | done => simp
  | @round body _ _ _ _ _ ih =>
      intro piece hpiece
      rcases List.mem_cons.mp hpiece with rfl | hpiece
      · calc (splitFragment budget body).1.length
            ≤ (takeBytes budget body).length := (splitFragment_fst_isPrefix budget body).length_le
          _ ≤ utf8Len (takeBytes budget body) := length_le_utf8Len _
          _ ≤ budget := utf8Len_takeBytes_le budget body
      · exact ih piece hpiece

/-! ## Tokens -/

/-- The last opening bracket is found wherever it is known to be. -/
theorem splitLast_opening {before inside : List Char} (hinside : '[' ∉ inside) :
    splitLast (· = '[') (before ++ '[' :: inside) = some (before, '[', inside) := by
  have hnone : splitLast (· = '[') inside = none := by
    cases hlast : splitLast (· = '[') inside with
    | none => rfl
    | some found =>
        obtain ⟨front, c, back⟩ := found
        obtain ⟨hsplit, hc, -⟩ := splitLast_some hlast
        rw [decide_eq_true_eq] at hc
        exact absurd (by rw [hsplit, hc]; simp) hinside
  induction before with
  | nil => simp [splitLast, hnone]
  | cons d before ih => simp [splitLast, ih]

/-- A cut at a space gives the window, or what is followed by white space. -/
theorem cutAtSpace_cases (window body : List Char) :
    cutAtSpace window body = (window, []) ∨
      ∃ space after, window = (cutAtSpace window body).1 ++ space :: after ∧
        isWhitespace space = true ∧ (cutAtSpace window body).1 ≠ [] := by
  unfold cutAtSpace
  split
  next before space after hlast =>
    split
    · exact .inl rfl
    next hne =>
      obtain ⟨hsplit, hspace, -⟩ := splitLast_some hlast
      exact .inr ⟨space, after, hsplit, hspace, by simpa using hne⟩
  next => exact .inl rfl

/-- No fragment ends in a bracketed token that fits the budget: it would have been cut in front
of the bracket. -/
theorem splitFragment_not_inside {budget : ℕ} {body before inside rest : List Char} {c : Char}
    (hcut : (splitFragment budget body).1 = before ++ '[' :: inside)
    (hbody : body = before ++ '[' :: inside ++ c :: rest) (hopening : '[' ∉ inside)
    (hclosing : ']' ∉ inside) (hc : c ≠ '[') (hspace : isWhitespace c = false)
    (hfits : utf8Len ('[' :: inside ++ [c]) ≤ budget) : False := by
  have hunclosed : beforeUnclosed (before ++ '[' :: inside) = before := by
    rw [beforeUnclosed, splitLast_opening hopening]
    simp [hclosing]
  rcases splitFragment_cases budget body with ⟨hsame, hwhy⟩ | ⟨hsame, hne⟩
  · rw [hsame] at hcut
    dsimp only at hcut
    rcases hwhy with hwhole | hempty
    · rw [hcut, hbody] at hwhole
      simp at hwhole
    · rw [hcut, hunclosed] at hempty
      -- Nothing is left in front of the token, so the window has all of it.
      have hbefore : before = [] := by
        rcases cutAtSpace_cases before body with hall | ⟨space, after, -, -, hne⟩
        · rw [hall] at hempty
          exact hempty
        · exact absurd hempty hne
      subst hbefore
      have hwindow : '[' :: inside ++ [c] <+: takeBytes budget body := by
        apply prefix_takeBytes _ hfits
        exact ⟨rest, by rw [hbody]; simp⟩
      have hlength := hwindow.length_le
      rw [hcut] at hlength
      simp at hlength
  · rw [hsame] at hcut
    have hwindow := takeBytes_prefix budget body
    -- What follows the fragment in the body.
    have hnext : ∀ d more, (before ++ '[' :: inside) ++ d :: more <+: body → d = c := by
      intro d more hmore
      obtain ⟨tail, htail⟩ := hmore
      rw [hbody, List.append_assoc] at htail
      have hsuffix := List.append_cancel_left htail
      exact (List.cons.inj hsuffix).1
    rcases cutAtSpace_cases (beforeUnclosed (takeBytes budget body)) body with
      hall | ⟨space, after, hsplit, hwhite, -⟩
    · rw [hall] at hcut
      dsimp only at hcut
      cases hlast : splitLast (· = '[') (takeBytes budget body) with
      | none =>
          have hnone := splitLast_none hlast '['
          rw [beforeUnclosed, hlast] at hcut
          dsimp only at hcut
          rw [hcut] at hnone
          simp at hnone
      | some found =>
          obtain ⟨front, opening, back⟩ := found
          obtain ⟨hwhole, hopen, hback⟩ := splitLast_some hlast
          rw [decide_eq_true_eq] at hopen
          subst hopen
          simp only [beforeUnclosed, hlast] at hcut
          split at hcut
          next hclosed =>
            rw [hcut, splitLast_opening hopening] at hlast
            cases hlast
            exact hclosing hclosed
          next =>
            rw [hcut] at hwhole
            have hsame := hnext '[' back (by rw [← hwhole]; exact hwindow)
            exact hc hsame.symm
    · rw [hcut] at hsplit
      have hsame := hnext space after
        (by rw [← hsplit]; exact (beforeUnclosed_isPrefix _).trans hwindow)
      rw [hsame, hspace] at hwhite
      cases hwhite

/-- A bracketed token without brackets or white space in it. -/
structure PlainToken (token inner : List Char) : Prop where
  shape : token = '[' :: inner ++ [']']
  opening : '[' ∉ inner
  closing : ']' ∉ inner
  space : ∀ c ∈ inner, isWhitespace c = false

theorem splitFragment_snd_white (budget : ℕ) (body : List Char) :
    ∀ c ∈ (splitFragment budget body).2, isWhitespace c = true := by
  have hspaces : ∀ window : List Char, ∀ c ∈ (cutAtSpace window body).2, isWhitespace c = true := by
    intro window c hc
    unfold cutAtSpace at hc
    split at hc
    · split at hc
      · cases hc
      · exact List.mem_takeWhile_imp hc
    · cases hc
  rcases splitFragment_cases budget body with ⟨hcut, -⟩ | ⟨hcut, -⟩
  · rw [hcut]
    simp
  · rw [hcut]
    exact hspaces _

/-- A token that fits the budget is not divided by the end of a fragment. -/
theorem PlainToken.not_divided {token inner before after rest : List Char} {budget : ℕ}
    {body : List Char} (htoken : PlainToken token inner) (hfits : utf8Len token ≤ budget)
    (hbody : body = before ++ (token ++ after))
    (hrest : body = (splitFragment budget body).1 ++ rest)
    (hbegins : before.length < (splitFragment budget body).1.length) :
    (before ++ token).length ≤ (splitFragment budget body).1.length := by
  by_contra hlong
  generalize hcut : (splitFragment budget body).1 = fragment at hrest hbegins hlong
  obtain ⟨shown, hfragment, hshown⟩ := Separated.exists_back_of_append_eq
    (hrest.symm.trans hbody) hbegins.le
  have hlength : shown.length < token.length := by
    rw [hfragment, List.length_append, List.length_append] at hlong
    omega
  obtain ⟨hidden, htokenSplit, -⟩ := Separated.exists_back_of_append_eq hshown hlength.le
  have hshownNe : shown ≠ [] := by
    rintro rfl
    rw [hfragment, List.append_nil] at hbegins
    exact lt_irrefl _ hbegins
  have hhiddenNe : hidden ≠ [] := by
    rintro rfl
    rw [htokenSplit, List.append_nil] at hlength
    exact lt_irrefl _ hlength
  obtain ⟨opening, inside, rfl⟩ := List.exists_cons_of_ne_nil hshownNe
  obtain ⟨c, more, rfl⟩ := List.exists_cons_of_ne_nil hhiddenNe
  have hshape := htokenSplit.symm.trans htoken.shape
  obtain ⟨rfl, hinner⟩ := List.cons.inj hshape
  have hinsideLe : inside.length ≤ inner.length := by
    have hlengths := congrArg List.length hinner
    simp only [List.length_append, List.length_cons, List.length_nil, List.append_eq] at hlengths
    omega
  obtain ⟨back, hback, hmore⟩ := Separated.exists_back_of_append_eq hinner.symm hinsideLe
  have hinside : ∀ d ∈ inside, d ∈ inner := by
    intro d hd
    rw [hback]
    exact List.mem_append_left _ hd
  have hc : c ∈ inner ∨ c = ']' := by
    have hmem : c ∈ back ++ [']'] := by
      rw [← hmore]
      exact List.mem_cons_self
    rcases List.mem_append.mp hmem with hmem | hmem
    · left
      rw [hback]
      exact List.mem_append_right _ hmem
    · exact .inr (List.mem_singleton.mp hmem)
  have hcFacts : c ≠ '[' ∧ isWhitespace c = false := by
    rcases hc with hc | rfl
    · exact ⟨fun heq => htoken.opening (heq ▸ hc), htoken.space c hc⟩
    · exact ⟨by decide, by decide⟩
  apply splitFragment_not_inside (hcut.trans hfragment) _ (fun h => htoken.opening (hinside _ h))
    (fun h => htoken.closing (hinside _ h)) hcFacts.1 hcFacts.2
  · have hstart : utf8Len token =
        utf8Len ('[' :: inside ++ [c]) + utf8Len more := by
      rw [htokenSplit, ← utf8Len_append]
      simp
    omega
  · exact more ++ after
  · rw [hbody, htokenSplit]
    simp

/-- No token that fits the budget is divided. -/
theorem Fragments.uncut {budget : ℕ} {body : List Char}
    {fragments : List (List Char × List Char)} (hfragments : Fragments budget body fragments)
    {token inner before after : List Char} (htoken : PlainToken token inner)
    (hfits : utf8Len token ≤ budget) (hbody : body = before ++ (token ++ after)) :
    ∃ front piece back first last, fragments = front ++ piece :: back ∧
      before = joinedFragments front ++ first ∧ piece.1 = first ++ (token ++ last) := by
  induction hfragments generalizing before with
  | done =>
      rw [htoken.shape] at hbody
      simp at hbody
  | @round body rest fragments _ hrest _ ih =>
      by_cases hbehind : ((splitFragment budget body).1 ++ (splitFragment budget body).2).length ≤
          before.length
      · obtain ⟨later, hbefore, hlater⟩ := Separated.exists_back_of_append_eq
          (hbody.symm.trans (hrest.trans (List.append_assoc _ _ _).symm)) hbehind
        obtain ⟨front, piece, back, first, last, hsplit, hfirst, hpiece⟩ := ih hlater
        refine ⟨splitFragment budget body :: front, piece, back, first, last, by rw [hsplit]; rfl,
          ?_, hpiece⟩
        rw [hbefore, hfirst]
        simp [joinedFragments]
      · have hbegins : before.length < (splitFragment budget body).1.length := by
          by_contra hnot
          -- The opening bracket would be in the white space behind the fragment.
          obtain ⟨later, hbefore, hlater⟩ := Separated.exists_back_of_append_eq
            (hbody.symm.trans hrest) (Nat.le_of_not_lt hnot)
          have hshort : later.length ≤ (splitFragment budget body).2.length := by
            rw [hbefore, List.length_append, List.length_append] at hbehind
            omega
          obtain ⟨spaces, hspaces, htail⟩ :=
            Separated.exists_back_of_append_eq hlater hshort
          have hne : spaces ≠ [] := by
            rintro rfl
            rw [hbefore, hspaces] at hbehind
            simp at hbehind
          obtain ⟨c, spaces, rfl⟩ := List.exists_cons_of_ne_nil hne
          rw [htoken.shape] at htail
          have hc := (List.cons.inj htail).1
          have hwhite := splitFragment_snd_white budget body c (by rw [hspaces]; simp)
          rw [← hc] at hwhite
          cases hwhite
        have hwithin := htoken.not_divided hfits hbody hrest hbegins
        obtain ⟨last, hlast, -⟩ := Separated.exists_back_of_append_eq
          (hrest.symm.trans (hbody.trans (List.append_assoc _ _ _).symm)) hwithin
        refine ⟨[], splitFragment budget body, fragments, before, last, rfl, rfl, ?_⟩
        rw [hlast, List.append_assoc]

end DiscordTranscript.Application
