import Mathlib.Data.Finset.Card
import Mathlib.Data.List.Dedup
import DiscordTranscript.Domain.MaskingStructure

/-! # What a pass of the masking keeps

A pass replaces the matches that its filter takes and keeps the stretches of text between them.
Equal matches of one registry get the same number and different ones different numbers, so that a
pass is given by its stretches and by one token for each replaced text.
-/

namespace DiscordTranscript.Domain

/-! ## Stretches -/

/-- The stretches of a text, the first one and each of the others behind the match replaced there. -/
structure Stretches where
  first : List Char
  rest : List (List Char × List Char)

namespace Stretches

def raws (stretches : Stretches) : List (List Char) := stretches.rest.map Prod.fst

def kept (stretches : Stretches) : List (List Char) :=
  stretches.first :: stretches.rest.map Prod.snd

/-- The text with a token for every replaced match. -/
def result (token : List Char → List Char) (stretches : Stretches) : List Char :=
  stretches.first ++ stretches.rest.flatMap fun part => token part.1 ++ part.2

def source (stretches : Stretches) : List Char := stretches.result id

/-- More text before the first stretch. -/
def keep (front : List Char) (stretches : Stretches) : Stretches :=
  { stretches with first := front ++ stretches.first }

/-- A replaced match before the first stretch. -/
def mask (raw : List Char) (stretches : Stretches) : Stretches :=
  ⟨[], (raw, stretches.first) :: stretches.rest⟩

variable (token : List Char → List Char) (front raw : List Char) (stretches : Stretches)

@[simp] theorem result_keep :
    (stretches.keep front).result token = front ++ stretches.result token := by
  simp [result, keep]

@[simp] theorem result_mask :
    (stretches.mask raw).result token = token raw ++ stretches.result token := by
  simp [result, mask]

@[simp] theorem source_keep : (stretches.keep front).source = front ++ stretches.source :=
  result_keep id front stretches

@[simp] theorem source_mask : (stretches.mask raw).source = raw ++ stretches.source :=
  result_mask id raw stretches

@[simp] theorem rest_keep : (stretches.keep front).rest = stretches.rest := rfl

@[simp] theorem raws_keep : (stretches.keep front).raws = stretches.raws := rfl

@[simp] theorem raws_mask : (stretches.mask raw).raws = raw :: stretches.raws := rfl

theorem result_of_rest_nil {stretches : Stretches} (hrest : stretches.rest = []) :
    stretches.result token = stretches.first := by
  simp [result, hrest]

theorem result_congr {token token' : List Char → List Char} {stretches : Stretches}
    (htoken : ∀ raw ∈ stretches.raws, token raw = token' raw) :
    stretches.result token = stretches.result token' := by
  have hparts : ∀ part ∈ stretches.rest,
      token part.1 ++ part.2 = token' part.1 ++ part.2 := by
    intro part hpart
    rw [htoken part.1 (List.mem_map_of_mem hpart)]
  rw [result, result, List.flatMap_congr hparts]

theorem result_cons (first stretch : List Char) (rest : List (List Char × List Char)) :
    Stretches.result token ⟨first, (raw, stretch) :: rest⟩ =
      first ++ (token raw ++ Stretches.result token ⟨stretch, rest⟩) := by
  simp [result]

theorem kept_cons (first stretch : List Char) (rest : List (List Char × List Char)) :
    Stretches.kept ⟨first, (raw, stretch) :: rest⟩ = first :: Stretches.kept ⟨stretch, rest⟩ := rfl

theorem exists_behind : ∃ behind, stretches.result token = stretches.first ++ behind ∧
    (behind = [] ∨ ∃ raw ∈ stretches.raws, token raw <+: behind) := by
  obtain ⟨first, rest⟩ := stretches
  refine ⟨_, rfl, ?_⟩
  cases rest with
  | nil => exact .inl rfl
  | cons part rest =>
      refine .inr ⟨part.1, List.mem_cons_self, ?_⟩
      simp

/-- Behind a stretch comes a match that is replaced, or the end. -/
theorem exists_around {stretch : List Char} (hstretch : stretch ∈ stretches.kept) :
    ∃ front back, stretches.source = front ++ (stretch ++ back) ∧
      (back = [] ∨ ∃ raw ∈ stretches.raws, raw <+: back) := by
  obtain ⟨first, rest⟩ := stretches
  induction rest generalizing first with
  | nil =>
      rw [List.mem_singleton.mp hstretch]
      exact ⟨[], [], by simp [source, result], .inl rfl⟩
  | cons part rest ih =>
      obtain ⟨raw, behind⟩ := part
      rw [source, result_cons]
      rw [kept_cons] at hstretch
      rcases List.mem_cons.mp hstretch with rfl | hstretch
      · exact ⟨[], raw ++ Stretches.result id ⟨behind, rest⟩, rfl,
          .inr ⟨raw, List.mem_cons_self, List.prefix_append _ _⟩⟩
      · obtain ⟨front, back, hsource, hback⟩ := ih behind hstretch
        refine ⟨first ++ (raw ++ front), back, ?_, ?_⟩
        · rw [source] at hsource
          rw [hsource]
          simp
        · exact hback.imp_right fun ⟨other, hother, hbegins⟩ =>
            ⟨other, List.mem_cons_of_mem _ hother, hbegins⟩

theorem exists_token {stretches : Stretches} {raw : List Char} (hraw : raw ∈ stretches.raws) :
    ∃ front back, stretches.result token = front ++ (token raw ++ back) := by
  obtain ⟨first, rest⟩ := stretches
  induction rest generalizing first with
  | nil => cases hraw
  | cons part rest ih =>
      obtain ⟨other, behind⟩ := part
      rw [result_cons]
      rcases List.mem_cons.mp hraw with rfl | hraw
      · exact ⟨first, _, rfl⟩
      · obtain ⟨front, back, hresult⟩ := ih behind hraw
        exact ⟨first ++ (token other ++ front), back, by rw [hresult]; simp⟩

end Stretches

/-- The stretches that the closure of `replace_all` leaves of the pieces of a cut. -/
def keptPieces (filter : RegexMatch → Bool) (tail : List Char) :
    List Char → List (List Char × List Char) → Stretches
  | _, [] => ⟨tail, []⟩
  | before, (gap, raw) :: pieces =>
      let found : RegexMatch :=
        { before := before ++ gap, raw, after := RegexCut.joined ⟨pieces, tail⟩ }
      let behind := keptPieces filter tail (before ++ gap ++ raw) pieces
      if filter found then (behind.mask raw).keep gap else behind.keep (gap ++ raw)

/-- The stretches that a pass keeps of a text. -/
def Regex.stretches (regex : Regex) (filter : RegexMatch → Bool) (input : List Char) : Stretches :=
  keptPieces filter (regex.cut input).tail [] (regex.cut input).pieces

/-! ## Registries -/

namespace TokenRegistry

/-- The number of a text that has been replaced. -/
def number (registry : TokenRegistry) (raw : List Char) : ℕ :=
  (registry.tokens.lookup raw).getD 0

def enterAll (registry : TokenRegistry) (raws : List (List Char)) : TokenRegistry :=
  raws.foldl (fun registry raw => (registry.entry raw).2) registry

/-- Every number up to the last one belongs to one text. -/
structure Numbered (registry : TokenRegistry) : Prop where
  nodup : (registry.tokens.map Prod.fst).Nodup
  numbers : registry.tokens.map Prod.snd = (List.range' 1 registry.nextIndex).reverse

theorem lookup_entry (registry : TokenRegistry) (raw : List Char) :
    (registry.entry raw).2.tokens.lookup raw = some (registry.entry raw).1 := by
  unfold entry
  split
  next index hfound => exact hfound
  next => simp

theorem lookup_entry_of_some {registry : TokenRegistry} {raw other : List Char} {index : ℕ}
    (hother : registry.tokens.lookup other = some index) :
    (registry.entry raw).2.tokens.lookup other = some index := by
  unfold entry
  split
  next => exact hother
  next hnone =>
    have hne : (other == raw) = false := by
      apply beq_eq_false_iff_ne.mpr
      rintro rfl
      rw [hnone] at hother
      cases hother
    simpa [List.lookup_cons, hne] using hother

theorem lookup_enterAll {registry : TokenRegistry} {other : List Char} {index : ℕ}
    (raws : List (List Char)) (hother : registry.tokens.lookup other = some index) :
    (registry.enterAll raws).tokens.lookup other = some index := by
  induction raws generalizing registry with
  | nil => exact hother
  | cons raw raws ih => exact ih (lookup_entry_of_some hother)

theorem replacementCount_enterAll (registry : TokenRegistry) (raws : List (List Char)) :
    (registry.enterAll raws).replacementCount = registry.replacementCount + raws.length := by
  have hentry : ∀ (registry : TokenRegistry) raw,
      (registry.entry raw).2.replacementCount = registry.replacementCount + 1 := by
    intro registry raw
    unfold entry
    split <;> rfl
  induction raws generalizing registry with
  | nil => rfl
  | cons raw raws ih =>
      rw [enterAll, List.foldl_cons, ← enterAll, ih, hentry, List.length_cons]
      omega

theorem keys_entry (registry : TokenRegistry) (raw other : List Char) :
    other ∈ (registry.entry raw).2.tokens.map Prod.fst ↔
      other = raw ∨ other ∈ registry.tokens.map Prod.fst := by
  unfold entry
  split
  next index hfound =>
    have hmem : raw ∈ registry.tokens.map Prod.fst := by
      obtain ⟨front, back, hsplit, -⟩ := List.lookup_eq_some_iff.mp hfound
      rw [hsplit]
      simp
    exact ⟨.inr, fun hother => hother.elim (fun heq => heq ▸ hmem) id⟩
  next => simp

theorem keys_enterAll (registry : TokenRegistry) (raws : List (List Char)) (other : List Char) :
    other ∈ (registry.enterAll raws).tokens.map Prod.fst ↔
      other ∈ raws ∨ other ∈ registry.tokens.map Prod.fst := by
  induction raws generalizing registry with
  | nil => simp [enterAll]
  | cons raw raws ih =>
      rw [enterAll, List.foldl_cons, ← enterAll, ih, keys_entry, List.mem_cons]
      tauto

theorem Numbered.entry {registry : TokenRegistry} (hnumbered : registry.Numbered)
    (raw : List Char) : (registry.entry raw).2.Numbered := by
  unfold TokenRegistry.entry
  split
  next => exact ⟨hnumbered.nodup, hnumbered.numbers⟩
  next hnone =>
    constructor
    · rw [List.map_cons, List.nodup_cons]
      refine ⟨?_, hnumbered.nodup⟩
      intro hmem
      obtain ⟨part, hpart, hraw⟩ := List.mem_map.mp hmem
      have hdiffer := List.lookup_eq_none_iff.mp hnone part hpart
      rw [hraw] at hdiffer
      simp at hdiffer
    · rw [List.map_cons, hnumbered.numbers, List.range'_concat, List.reverse_append]
      simp [Nat.add_comm]

theorem Numbered.enterAll {registry : TokenRegistry} (hnumbered : registry.Numbered)
    (raws : List (List Char)) : (registry.enterAll raws).Numbered := by
  induction raws generalizing registry with
  | nil => exact hnumbered
  | cons raw raws ih => exact ih (hnumbered.entry raw)

theorem numbered_empty : Numbered {} := ⟨List.nodup_nil, rfl⟩

theorem number_mem {registry : TokenRegistry} {raw : List Char}
    (hraw : raw ∈ registry.tokens.map Prod.fst) :
    (raw, registry.number raw) ∈ registry.tokens := by
  unfold number
  cases hlookup : registry.tokens.lookup raw with
  | none =>
      obtain ⟨part, hpart, rfl⟩ := List.mem_map.mp hraw
      have hdiffer := List.lookup_eq_none_iff.mp hlookup part hpart
      simp at hdiffer
  | some index =>
      obtain ⟨front, back, hsplit, -⟩ := List.lookup_eq_some_iff.mp hlookup
      rw [hsplit]
      simp

theorem Numbered.number_le {registry : TokenRegistry} (hnumbered : registry.Numbered)
    {raw : List Char} (hraw : raw ∈ registry.tokens.map Prod.fst) :
    registry.number raw ≤ registry.nextIndex := by
  have hmem : registry.number raw ∈ registry.tokens.map Prod.snd :=
    List.mem_map.mpr ⟨_, number_mem hraw, rfl⟩
  rw [hnumbered.numbers, List.mem_reverse, List.mem_range'_1] at hmem
  omega

theorem Numbered.exists_number {registry : TokenRegistry} (hnumbered : registry.Numbered)
    (hpos : 0 < registry.nextIndex) :
    ∃ raw ∈ registry.tokens.map Prod.fst, registry.number raw = registry.nextIndex := by
  have hmem : registry.nextIndex ∈ registry.tokens.map Prod.snd := by
    rw [hnumbered.numbers, List.mem_reverse, List.mem_range'_1]
    omega
  obtain ⟨part, hpart, hindex⟩ := List.mem_map.mp hmem
  have hraw : part.1 ∈ registry.tokens.map Prod.fst := List.mem_map_of_mem hpart
  have hpair := List.inj_on_of_nodup_map hnumbered.nodup (number_mem hraw) hpart rfl
  exact ⟨part.1, hraw, by rw [← hindex, ← hpair]⟩

/-- A number that was given stays. -/
theorem number_enterAll {registry : TokenRegistry} {raw : List Char} (raws : List (List Char))
    (hraw : raw ∈ registry.tokens.map Prod.fst) :
    (registry.enterAll raws).number raw = registry.number raw := by
  unfold number
  cases hlookup : registry.tokens.lookup raw with
  | none =>
      obtain ⟨part, hpart, rfl⟩ := List.mem_map.mp hraw
      have hdiffer := List.lookup_eq_none_iff.mp hlookup part hpart
      simp at hdiffer
  | some index => rw [lookup_enterAll raws hlookup]

theorem enterAll_append (registry : TokenRegistry) (front back : List (List Char)) :
    registry.enterAll (front ++ back) = (registry.enterAll front).enterAll back :=
  List.foldl_append

/-- As many numbers are given as there are different texts. -/
theorem nextIndex_enterAll (raws : List (List Char)) :
    (enterAll {} raws).nextIndex = raws.toFinset.card := by
  have hnumbered := numbered_empty.enterAll raws
  have hkeys : raws.toFinset = ((enterAll {} raws).tokens.map Prod.fst).toFinset := by
    ext raw
    rw [List.mem_toFinset, List.mem_toFinset, keys_enterAll]
    simp
  have hlength := congrArg List.length hnumbered.numbers
  rw [List.length_reverse, List.length_range', List.length_map] at hlength
  rw [hkeys, List.toFinset_card_of_nodup hnumbered.nodup, List.length_map, hlength]

/-- A text that has no number gets the next one. -/
theorem entry_of_not_mem {registry : TokenRegistry} {raw : List Char}
    (hraw : raw ∉ registry.tokens.map Prod.fst) :
    (registry.entry raw).1 = registry.nextIndex + 1 ∧
      (registry.entry raw).2.nextIndex = registry.nextIndex + 1 := by
  unfold entry
  split
  next index hfound =>
    obtain ⟨front, back, hsplit, -⟩ := List.lookup_eq_some_iff.mp hfound
    exact absurd (by simp [hsplit]) hraw
  next => exact ⟨rfl, rfl⟩

theorem entry_of_mem {registry : TokenRegistry} {raw : List Char}
    (hraw : raw ∈ registry.tokens.map Prod.fst) :
    (registry.entry raw).2.nextIndex = registry.nextIndex := by
  unfold entry
  split
  next => rfl
  next hnone =>
    obtain ⟨part, hpart, rfl⟩ := List.mem_map.mp hraw
    have hdiffer := List.lookup_eq_none_iff.mp hnone part hpart
    simp at hdiffer

/-- A text is numbered by its place among the different texts in the order in which they come. -/
theorem numbers_enterAll (raws : List (List Char)) :
    (enterAll {} raws).nextIndex = raws.eraseDups.length ∧
      ∀ raw ∈ raws, (enterAll {} raws).number raw = raws.eraseDups.idxOf raw + 1 := by
  induction raws using List.reverseRecOn with
  | nil => exact ⟨rfl, by simp⟩
  | append_singleton front last ih =>
      obtain ⟨hcount, hnumbers⟩ := ih
      have hkey : ∀ raw, raw ∈ (enterAll {} front).tokens.map Prod.fst ↔ raw ∈ front := by
        intro raw
        rw [keys_enterAll]
        simp
      have hkept : ∀ raw ∈ front, (enterAll {} (front ++ [last])).number raw =
          (front ++ [last]).eraseDups.idxOf raw + 1 := by
        intro raw hraw
        rw [enterAll_append, number_enterAll _ ((hkey raw).mpr hraw), hnumbers raw hraw,
          List.eraseDups_append, List.idxOf_append_of_mem (List.mem_eraseDups.mpr hraw)]
      have henter : enterAll {} (front ++ [last]) = ((enterAll {} front).entry last).2 :=
        enterAll_append {} front [last]
      by_cases hlast : last ∈ front
      · have hsame : (front ++ [last]).eraseDups = front.eraseDups := by
          simp [List.eraseDups_append, List.removeAll, hlast]
        refine ⟨by rw [henter, hsame, entry_of_mem ((hkey last).mpr hlast), hcount], ?_⟩
        intro raw hraw
        rcases List.mem_append.mp hraw with hold | hnew
        · exact hkept raw hold
        · exact hkept raw (List.mem_singleton.mp hnew ▸ hlast)
      · have hlonger : (front ++ [last]).eraseDups = front.eraseDups ++ [last] := by
          simp [List.eraseDups_append, List.removeAll, hlast, List.eraseDups_cons]
        obtain ⟨hnumber, hnext⟩ := entry_of_not_mem (mt (hkey last).mp hlast)
        refine ⟨by rw [henter, hlonger, hnext, hcount, List.length_append]; rfl, ?_⟩
        intro raw hraw
        rcases List.mem_append.mp hraw with hold | hnew
        · exact hkept raw hold
        · obtain rfl := List.mem_singleton.mp hnew
          rw [henter, number, lookup_entry, hlonger, Option.getD_some, hnumber, hcount,
            List.idxOf_append_of_notMem (mt List.mem_eraseDups.mp hlast)]
          simp

theorem number_lt_iff {raws : List (List Char)} {bound : ℕ} (hbound : 0 < bound) :
    (∀ raw ∈ raws, (enterAll {} raws).number raw < bound) ↔ raws.toFinset.card < bound := by
  have hnumbered := numbered_empty.enterAll raws
  have hkeys : ∀ raw, raw ∈ (enterAll {} raws).tokens.map Prod.fst ↔ raw ∈ raws := by
    intro raw
    rw [keys_enterAll]
    simp
  rw [← nextIndex_enterAll]
  constructor
  · intro hsmall
    rcases Nat.eq_zero_or_pos (enterAll {} raws).nextIndex with hzero | hpos
    · rwa [hzero]
    · obtain ⟨raw, hraw, hnumber⟩ := hnumbered.exists_number hpos
      rw [← hnumber]
      exact hsmall raw ((hkeys raw).mp hraw)
  · intro hfew raw hraw
    exact lt_of_le_of_lt (hnumbered.number_le ((hkeys raw).mpr hraw)) hfew

end TokenRegistry

/-! ## The text of a pass -/

theorem keptPieces_consGap (filter : RegexMatch → Bool) (found : Pattern.Found) (c : Char)
    (before : List Char) :
    keptPieces filter (found.consGap c).2 before (found.consGap c).1 =
      (keptPieces filter found.2 (before ++ [c]) found.1).keep [c] := by
  obtain ⟨pieces, tail⟩ := found
  cases pieces with
  | nil => rfl
  | cons piece pieces =>
      obtain ⟨gap, raw⟩ := piece
      simp only [Pattern.Found.consGap, keptPieces, List.append_assoc, List.singleton_append]
      split <;> simp [Stretches.keep, Stretches.mask]

/-- The matches that are replaced are those that the filter takes. -/
theorem raws_keptPieces (filter : RegexMatch → Bool) (tail before : List Char)
    (pieces : List (List Char × List Char)) :
    (keptPieces filter tail before pieces).raws =
      ((matchesFrom tail before pieces).filter filter).map RegexMatch.raw := by
  induction pieces generalizing before with
  | nil => rfl
  | cons piece pieces ih =>
      obtain ⟨gap, raw⟩ := piece
      simp only [keptPieces, matchesFrom, List.filter_cons]
      split
      next => simp [ih]
      next => simp [ih]

/-- What the closure of `replace_all` makes of the pieces: a token for each text that it replaces,
given by the number that the text has in the end. -/
theorem replacePieces_eq (label : List Char) (filter : RegexMatch → Bool) (tail before : List Char)
    (registry : TokenRegistry) (pieces : List (List Char × List Char)) :
    replacePieces label filter tail before registry pieces =
      ((keptPieces filter tail before pieces).result fun raw => placeholder label
          ((registry.enterAll (keptPieces filter tail before pieces).raws).number raw),
        registry.enterAll (keptPieces filter tail before pieces).raws) := by
  induction pieces generalizing before registry with
  | nil => simp [replacePieces, keptPieces, Stretches.result, Stretches.raws, TokenRegistry.enterAll]
  | cons piece pieces ih =>
      obtain ⟨gap, raw⟩ := piece
      simp only [replacePieces, keptPieces]
      split
      next htaken =>
        rw [ih]
        have hlookup := TokenRegistry.lookup_enterAll
          (keptPieces filter tail (before ++ gap ++ raw) pieces).raws
          (registry.lookup_entry raw)
        have hnumber : ((registry.entry raw).2.enterAll
            (keptPieces filter tail (before ++ gap ++ raw) pieces).raws).number raw =
              (registry.entry raw).1 := by
          rw [TokenRegistry.number, hlookup, Option.getD_some]
        simp only [Stretches.result_keep, Stretches.result_mask, Stretches.raws_keep,
          Stretches.raws_mask, TokenRegistry.enterAll, List.foldl_cons]
        rw [← TokenRegistry.enterAll, hnumber, List.append_assoc]
      next hspared =>
        rw [ih]
        simp

theorem source_keptPieces (filter : RegexMatch → Bool) (tail before : List Char)
    (pieces : List (List Char × List Char)) :
    (keptPieces filter tail before pieces).source = RegexCut.joined ⟨pieces, tail⟩ := by
  induction pieces generalizing before with
  | nil => simp [keptPieces, Stretches.source, Stretches.result, RegexCut.joined]
  | cons piece pieces ih =>
      obtain ⟨gap, raw⟩ := piece
      simp only [keptPieces]
      split <;> simp [ih, RegexCut.joined]

theorem Regex.source_stretches (regex : Regex) (filter : RegexMatch → Bool) (input : List Char) :
    (regex.stretches filter input).source = input := by
  rw [Regex.stretches, source_keptPieces]
  exact regex.joined_cut input

theorem Regex.raws_stretches (regex : Regex) (filter : RegexMatch → Bool) (input : List Char) :
    (regex.stretches filter input).raws =
      ((regex.found input).filter filter).map RegexMatch.raw :=
  raws_keptPieces filter _ [] _

theorem Stretches.rest_eq_nil_iff (stretches : Stretches) :
    stretches.rest = [] ↔ stretches.raws = [] := by
  rw [Stretches.raws, List.map_eq_nil_iff]

theorem replaceWithRegistryWithInput_eq (input : List Char) (regex : Regex) (label : List Char)
    (registry : TokenRegistry) (filter : RegexMatch → Bool) :
    replaceWithRegistryWithInput input regex label registry filter =
      ((regex.stretches filter input).result fun raw => placeholder label
          ((registry.enterAll (regex.stretches filter input).raws).number raw),
        registry.enterAll (regex.stretches filter input).raws) :=
  replacePieces_eq label filter _ [] registry _

/-- A pass that replaces nothing changes nothing. -/
theorem replaceWithRegistryWithInput_of_rest_nil {input : List Char} {regex : Regex}
    {filter : RegexMatch → Bool} (hrest : (regex.stretches filter input).rest = [])
    (label : List Char) (registry : TokenRegistry) :
    replaceWithRegistryWithInput input regex label registry filter = (input, registry) := by
  have hsource := regex.source_stretches filter input
  rw [Stretches.source, Stretches.result_of_rest_nil _ hrest] at hsource
  rw [replaceWithRegistryWithInput_eq, Stretches.result_of_rest_nil _ hrest, hsource,
    (Stretches.rest_eq_nil_iff _).mp hrest]
  rfl

/-! ## Passes and their stretches -/

section

variable (unicode : UnicodeClasses) (pattern : Pattern) (filter : RegexMatch → Bool)

/-- A pass through the text behind what it has gone through already, with what it keeps. -/
inductive Cuts : List Char → List Char → Stretches → Prop
  | done (before : List Char) : Cuts before [] ⟨[], []⟩
  | keep {before text : List Char} {c : Char} {stretches : Stretches}
      (hnone : ∀ n, pattern.matchAt unicode.word before.getLast? (c :: text) = some n → n = 0)
      (hrest : Cuts (before ++ [c]) text stretches) : Cuts before (c :: text) (stretches.keep [c])
  | spare {before raw text : List Char} {stretches : Stretches} (hraw : raw ≠ [])
      (hmatch : pattern.matchAt unicode.word before.getLast? (raw ++ text) = some raw.length)
      (hfilter : filter ⟨before, raw, text⟩ = false)
      (hrest : Cuts (before ++ raw) text stretches) :
      Cuts before (raw ++ text) (stretches.keep raw)
  | mask {before raw text : List Char} {stretches : Stretches} (hraw : raw ≠ [])
      (hmatch : pattern.matchAt unicode.word before.getLast? (raw ++ text) = some raw.length)
      (hfilter : filter ⟨before, raw, text⟩ = true)
      (hrest : Cuts (before ++ raw) text stretches) :
      Cuts before (raw ++ text) (stretches.mask raw)

theorem exists_cuts (before text : List Char) :
    ∃ stretches, Cuts unicode pattern filter before text stretches := by
  have hcuts : ∀ before', before'.getLast? = before.getLast? →
      ∃ stretches, Cuts unicode pattern filter before' text stretches := by
    apply @Pattern.search_induction unicode.word pattern
      (fun prev text _ => ∀ before', before'.getLast? = prev →
        ∃ stretches, Cuts unicode pattern filter before' text stretches)
    · intro prev before _
      exact ⟨_, .done before⟩
    · rintro prev c rest hnone ih before rfl
      obtain ⟨stretches, hrest⟩ := ih (before ++ [c]) List.getLast?_concat
      exact ⟨_, .keep hnone hrest⟩
    · rintro prev raw rest hraw hmatch ih before rfl
      obtain ⟨stretches, hrest⟩ := ih (before ++ raw) (advance_getLast? before raw).symm
      cases hfilter : filter ⟨before, raw, rest⟩ with
      | true => exact ⟨_, .mask hraw hmatch hfilter hrest⟩
      | false => exact ⟨_, .spare hraw hmatch hfilter hrest⟩
  exact hcuts before rfl

variable {unicode pattern filter}

/-- A pass has one outcome, the one that the search finds. -/
theorem Cuts.eq_keptPieces {before text : List Char} {stretches : Stretches}
    (hcuts : Cuts unicode pattern filter before text stretches) :
    keptPieces filter (pattern.search unicode.word before.getLast? 0 text).2 before
      (pattern.search unicode.word before.getLast? 0 text).1 = stretches := by
  have hafter : ∀ prev text, RegexCut.joined ⟨(pattern.search unicode.word prev 0 text).1,
      (pattern.search unicode.word prev 0 text).2⟩ = text :=
    fun prev text => Pattern.joined_search prev text
  induction hcuts with
  | done before => rfl
  | keep hnone _ ih =>
      rw [List.getLast?_concat] at ih
      rw [Pattern.search_of_none hnone, keptPieces_consGap, ih]
  | @spare before raw text stretches hraw hmatch hfilter _ ih =>
      rw [← advance_getLast?] at ih
      simp only [Pattern.search_of_match hraw hmatch, keptPieces, List.append_nil, hafter, hfilter,
        Bool.false_eq_true, if_false, List.nil_append, ih]
  | @mask before raw text stretches hraw hmatch hfilter _ ih =>
      rw [← advance_getLast?] at ih
      simp only [Pattern.search_of_match hraw hmatch, keptPieces, List.append_nil, hafter, hfilter,
        if_true, ih]
      simp [Stretches.keep, Stretches.mask]

theorem cuts_stretches {regex : Regex} (hregex : regex.cut = (unicode.regex pattern).cut)
    (input : List Char) : Cuts unicode pattern filter [] input (regex.stretches filter input) := by
  obtain ⟨stretches, hcuts⟩ := exists_cuts unicode pattern filter [] input
  have hsame : regex.stretches filter input = stretches := by
    rw [← hcuts.eq_keptPieces, Regex.stretches, hregex]
    rfl
  rwa [hsame]

theorem Cuts.stretches_eq {regex : Regex} (hregex : regex.cut = (unicode.regex pattern).cut)
    {input : List Char} {stretches : Stretches}
    (hcuts : Cuts unicode pattern filter [] input stretches) :
    regex.stretches filter input = stretches := by
  rw [← hcuts.eq_keptPieces, Regex.stretches, hregex]
  rfl

/-- A part that no match begins in is kept. -/
theorem Cuts.keep_fixed {before fixed rest : List Char} {stretches : Stretches}
    (hrest : Cuts unicode pattern filter (before ++ fixed) rest stretches)
    (hnone : ∀ front c back n, fixed = front ++ c :: back →
      pattern.matchAt unicode.word (before ++ front).getLast? (c :: back ++ rest) = some n →
      n = 0) :
    Cuts unicode pattern filter before (fixed ++ rest) (stretches.keep fixed) := by
  induction fixed generalizing before with
  | nil => simpa [Stretches.keep] using hrest
  | cons c fixed ih =>
      have hlater : Cuts unicode pattern filter (before ++ [c]) (fixed ++ rest)
          (stretches.keep fixed) := by
        apply ih (by simpa using hrest)
        intro front d back n hfixed hmatch
        exact hnone (c :: front) d back n (by rw [hfixed]; rfl) (by simpa using hmatch)
      have hhere : ∀ n, pattern.matchAt unicode.word before.getLast? (c :: (fixed ++ rest)) =
          some n → n = 0 := by
        intro n hmatch
        exact hnone [] c fixed n rfl (by simpa using hmatch)
      simpa [Stretches.keep] using Cuts.keep hhere hlater

theorem Cuts.source_eq {before text : List Char} {stretches : Stretches}
    (hcuts : Cuts unicode pattern filter before text stretches) : stretches.source = text := by
  induction hcuts with
  | done before => rfl
  | keep _ _ ih => rw [Stretches.source_keep, ih, List.singleton_append]
  | spare _ _ _ _ ih => rw [Stretches.source_keep, ih]
  | mask _ _ _ _ ih => rw [Stretches.source_mask, ih]

theorem Cuts.matches_of_mem_raws {before text : List Char} {stretches : Stretches}
    (hcuts : Cuts unicode pattern filter before text stretches) :
    ∀ raw ∈ stretches.raws, raw ≠ [] ∧
      ∃ prev after, pattern.Matches unicode.word prev raw after := by
  induction hcuts with
  | done before => simp [Stretches.raws]
  | keep _ _ ih => exact ih
  | spare _ _ _ _ ih => exact ih
  | @mask before raw text stretches hraw hmatch _ _ ih =>
      rw [Stretches.raws_mask, List.forall_mem_cons]
      refine ⟨⟨hraw, before.getLast?, text, ?_⟩, ih⟩
      have hmatches := (Pattern.matches_of_matchAt unicode.word hmatch).2
      rwa [List.take_left, List.drop_left] at hmatches

end

end DiscordTranscript.Domain
