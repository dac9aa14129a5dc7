import Mathlib.Algebra.Order.BigOperators.Group.List
import Mathlib.Data.List.Chain
import DiscordTranscript.Domain.TranscriptText
import DiscordTranscript.Foundation.OrderedList

/-! # Normalisation loses nothing

The segments that survive the filter are cut, in timeline order, into consecutive groups,
and each group becomes one output segment. The output is in timeline order again, so a
second pass finds nothing to sort, to clean or to merge. Order on the timeline is decided
on timestamps clipped to `i64`, which is why the starts are kept below that bound here.
-/

namespace DiscordTranscript.Domain

open Text MachineInt

def i64Max : ℕ := 2 ^ 63 - 1

/-- Segments with audible text and a positive duration. -/
def TranscriptSegment.kept (segment : TranscriptSegment) : Bool :=
  segment.text.any (fun c => !isWhitespace c) && decide (segment.startMs < segment.endMs)

/-- The output segment is made of the group: one speaker and source, an interval that contains
those of the members and ends at one of them, the cleaned texts joined by spaces. Its
counter is the sum of theirs where that fits its width. -/
structure Merges (group : List TranscriptSegment) (out : TranscriptSegment) : Prop where
  nonempty : group ≠ []
  same : ∀ member ∈ group, member.speakerId = out.speakerId ∧ member.source = out.source
  start_le : ∀ member ∈ group, out.startMs ≤ member.startMs
  start_attained : ∃ member ∈ group, member.startMs = out.startMs
  le_end : ∀ member ∈ group, member.endMs ≤ out.endMs
  end_attained : ∃ member ∈ group, member.endMs = out.endMs
  text_eq : out.text = join [' '] (group.map fun member => cleanText member.text)
  mergedCount_of_le : (group.map (·.mergedCount)).sum ≤ u32Max →
    out.mergedCount = (group.map (·.mergedCount)).sum
  vcText_alone : out.source = .vcText → group.length = 1

/-- The members are cut into consecutive groups, one for each output segment. -/
inductive Normalizes : List TranscriptSegment → List TranscriptSegment → Prop
  | nil : Normalizes [] []
  | concat {members outs group : List TranscriptSegment} {out : TranscriptSegment}
      (hfront : Normalizes members outs) (hmerges : Merges group out) :
      Normalizes (members ++ group) (outs ++ [out])

/-- Both are voice segments of one speaker, at most a second apart. -/
def Mergeable (prev next : TranscriptSegment) : Prop :=
  prev.source = .voice ∧ next.source = .voice ∧ prev.speakerId = next.speakerId ∧
    next.startMs ≤ prev.endMs + 1000

/-! ## Texts -/

theorem collapseWhitespace_eq_nil_iff {previousWasSpace : Bool} {text : List Char}
    (hhead : ∀ c, text.head? = some c → isWhitespace c = false) :
    collapseWhitespace previousWasSpace text = [] ↔ text = [] := by
  constructor
  · intro hnil
    have hhead' := head?_collapseWhitespace previousWasSpace hhead
    rw [hnil] at hhead'
    exact List.head?_eq_none_iff.mp hhead'.symm
  · rintro rfl
    rfl

theorem cleanText_isEmpty (text : List Char) :
    (cleanText text).isEmpty = !text.any fun c => !isWhitespace c := by
  have hclean : cleanText text = [] ↔ ∀ c ∈ text, isWhitespace c = true := by
    unfold cleanText
    rw [collapseWhitespace_eq_nil_iff (trimmed_trim text).head, trim,
      List.rdropWhile_eq_nil_iff]
    constructor
    · intro hall c hc
      rw [← List.takeWhile_append_dropWhile (p := isWhitespace) (l := text)] at hc
      rcases List.mem_append.mp hc with hc | hc
      · exact List.mem_takeWhile_imp hc
      · exact hall c hc
    · intro hall c hc
      exact hall c ((List.dropWhile_sublist isWhitespace).subset hc)
  cases hany : text.any (fun c => !isWhitespace c) with
  | true =>
      obtain ⟨c, hc, hspace⟩ := List.any_eq_true.mp hany
      have hne : cleanText text ≠ [] := by
        intro hnil
        rw [hclean.mp hnil c hc] at hspace
        cases hspace
      simpa using hne
  | false =>
      have hnil : cleanText text = [] := by
        apply hclean.mpr
        intro c hc
        simpa using List.any_eq_false.mp hany c hc
      rw [hnil]
      rfl

theorem join_concat {words : List (List Char)} (hwords : words ≠ []) (word : List Char) :
    join [' '] (words ++ [word]) = join [' '] words ++ ' ' :: word := by
  induction words with
  | nil => exact absurd rfl hwords
  | cons first rest ih =>
      cases rest with
      | nil => simp [join, List.intercalate]
      | cons second rest =>
          have hrest := ih (by simp)
          simp only [join, List.intercalate, List.cons_append, List.intersperse_cons_cons,
            List.flatten_cons] at hrest ⊢
          rw [hrest]
          simp

theorem Merges.clean {group : List TranscriptSegment} {out : TranscriptSegment}
    (hmerges : Merges group out) (hkept : ∀ member ∈ group, member.kept = true) :
    cleanText out.text = out.text ∧ out.text ≠ [] := by
  rw [hmerges.text_eq]
  have hne := hmerges.nonempty
  clear hmerges
  induction group using List.reverseRecOn with
  | nil => exact absurd rfl hne
  | append_singleton front last ih =>
      have hlast : cleanText last.text ≠ [] := by
        have hlastKept := hkept last (by simp)
        unfold TranscriptSegment.kept at hlastKept
        rw [Bool.and_eq_true] at hlastKept
        have hempty := cleanText_isEmpty last.text
        rw [hlastKept.1] at hempty
        simpa using hempty
      cases front with
      | nil => simp [join, List.intercalate, cleanText_idem, hlast]
      | cons first rest =>
          obtain ⟨hclean, hnonempty⟩ := ih
            (fun member hmember => hkept member (List.mem_append_left _ hmember)) (by simp)
          rw [List.map_append, List.map_singleton, join_concat (by simp)]
          refine ⟨cleanText_append hclean (cleanText_idem _) hnonempty hlast, by simp⟩

/-! ## One segment -/

/-- The segment as it is compared with its predecessor. -/
def TranscriptSegment.cleaned (segment : TranscriptSegment) : TranscriptSegment :=
  { segment with
    text := cleanText segment.text
    isNoisy := segment.isNoisy || segment.confidence.any (· < minConfidenceForClean) }

theorem pushNormalized_of_not_kept {outs : List TranscriptSegment} {segment : TranscriptSegment}
    (hkept : segment.kept = false) : pushNormalized outs segment = outs := by
  unfold TranscriptSegment.kept at hkept
  unfold pushNormalized
  dsimp only
  rw [cleanText_isEmpty, if_pos]
  cases htext : segment.text.any (fun c => !isWhitespace c) with
  | false => simp
  | true =>
      rw [htext] at hkept
      simpa using hkept

theorem pushNormalized_of_kept {outs : List TranscriptSegment} {segment : TranscriptSegment}
    (hkept : segment.kept = true) :
    pushNormalized outs segment =
      match outs.getLast? with
      | some prev =>
          if canMerge prev segment.cleaned then outs.dropLast ++ [mergeInto prev segment.cleaned]
          else outs ++ [segment.cleaned]
      | none => [segment.cleaned] := by
  unfold TranscriptSegment.kept at hkept
  rw [Bool.and_eq_true, decide_eq_true_eq] at hkept
  unfold pushNormalized
  dsimp only
  rw [cleanText_isEmpty, hkept.1, if_neg]
  · rfl
  · simpa using hkept.2

theorem merges_cleaned (segment : TranscriptSegment) : Merges [segment] segment.cleaned where
  nonempty := by simp
  same := by simp [TranscriptSegment.cleaned]
  start_le := by simp [TranscriptSegment.cleaned]
  start_attained := ⟨segment, List.mem_cons_self, rfl⟩
  le_end := by simp [TranscriptSegment.cleaned]
  end_attained := ⟨segment, List.mem_cons_self, rfl⟩
  text_eq := by simp [TranscriptSegment.cleaned, join, List.intercalate]
  mergedCount_of_le := by simp [TranscriptSegment.cleaned]
  vcText_alone := fun _ => rfl

theorem canMerge_iff {prev next : TranscriptSegment} :
    canMerge prev next = true ↔
      prev.source = .voice ∧ next.source = .voice ∧ prev.speakerId = next.speakerId ∧
        next.startMs ≤ wrappingAdd u64Max prev.endMs 1000 := by
  unfold canMerge
  cases hprev : prev.source <;> cases hnext : next.source <;> simp

theorem mergeable_of_canMerge {prev next : TranscriptSegment} (hmerge : canMerge prev next = true) :
    Mergeable prev next := by
  obtain ⟨hprev, hnext, hspeaker, hgap⟩ := canMerge_iff.mp hmerge
  exact ⟨hprev, hnext, hspeaker, hgap.trans (wrappingAdd_le _ _ _)⟩

/-- The second after the end is compared without wrapping. -/
theorem canMerge_iff_mergeable {prev next : TranscriptSegment} (hend : prev.endMs + 1000 ≤ u64Max) :
    canMerge prev next = true ↔ Mergeable prev next := by
  rw [canMerge_iff, wrappingAdd_of_le hend, Mergeable]

theorem Merges.mergeInto {group : List TranscriptSegment} {prev segment : TranscriptSegment}
    (hmerges : Merges group prev) (hstart : ∀ member ∈ group, member.startMs ≤ segment.startMs)
    (hmerge : canMerge prev segment.cleaned = true) :
    Merges (group ++ [segment]) (mergeInto prev segment.cleaned) := by
  obtain ⟨hprev, hnext, hspeaker, -⟩ := canMerge_iff.mp hmerge
  have hsource : segment.source = .voice := hnext
  have hid : prev.speakerId = segment.speakerId := hspeaker
  obtain ⟨first, hfirst, hfirstStart⟩ := hmerges.start_attained
  have hafter : prev.startMs ≤ segment.startMs := by
    rw [← hfirstStart]
    exact hstart first hfirst
  constructor
  · simp
  · intro member hmember
    rcases List.mem_append.mp hmember with hmember | hmember
    · exact hmerges.same member hmember
    · rw [List.mem_singleton.mp hmember]
      exact ⟨hid.symm, hsource.trans hprev.symm⟩
  · intro member hmember
    rcases List.mem_append.mp hmember with hmember | hmember
    · exact hmerges.start_le member hmember
    · rw [List.mem_singleton.mp hmember]
      exact hafter
  · exact ⟨first, List.mem_append_left _ hfirst, hfirstStart⟩
  · intro member hmember
    rcases List.mem_append.mp hmember with hmember | hmember
    · exact le_trans (hmerges.le_end member hmember) (le_max_left _ _)
    · rw [List.mem_singleton.mp hmember]
      exact le_max_right _ _
  · rcases le_total segment.endMs prev.endMs with hle | hle
    · obtain ⟨last, hlast, hlastEnd⟩ := hmerges.end_attained
      exact ⟨last, List.mem_append_left _ hlast, hlastEnd.trans (max_eq_left hle).symm⟩
    · exact ⟨segment, by simp, (max_eq_right hle).symm⟩
  · rw [List.map_append, List.map_singleton,
      join_concat (by simpa using hmerges.nonempty), ← hmerges.text_eq]
    rfl
  · rw [List.map_append, List.sum_append]
    intro hle
    have hgroup := hmerges.mergedCount_of_le (le_trans (Nat.le_add_right _ _) hle)
    rw [← hgroup] at hle ⊢
    simpa [Domain.mergeInto, TranscriptSegment.cleaned] using wrappingAdd_of_le hle
  · intro hvc
    have hvcPrev : prev.source = .vcText := hvc
    rw [hprev] at hvcPrev
    cases hvcPrev

/-- No two neighbours could be merged. -/
def Settled (outs : List TranscriptSegment) : Prop :=
  outs.IsChain fun left right => canMerge left right = false

/-- What one more kept segment does to the output. -/
theorem Normalizes.push {members outs : List TranscriptSegment} {segment : TranscriptSegment}
    (hnormalizes : Normalizes members outs) (hsettled : Settled outs)
    (hkept : segment.kept = true)
    (hstart : ∀ member ∈ members, member.startMs ≤ segment.startMs) :
    Normalizes (members ++ [segment]) (pushNormalized outs segment) ∧
      Settled (pushNormalized outs segment) := by
  rw [pushNormalized_of_kept hkept]
  cases hnormalizes with
  | nil =>
      have hone := Normalizes.nil.concat (merges_cleaned segment)
      exact ⟨hone, by simp [Settled]⟩
  | @concat front outs group prev hfront hmerges =>
      simp only [List.getLast?_append, List.getLast?_singleton, Option.some_or,
        List.dropLast_concat]
      split
      next hmerge =>
        refine ⟨?_, ?_⟩
        · rw [List.append_assoc]
          apply hfront.concat
          apply hmerges.mergeInto _ hmerge
          intro member hmember
          exact hstart member (List.mem_append_right _ hmember)
        · -- The merged segment starts where its predecessor did.
          unfold Settled at hsettled ⊢
          rw [List.isChain_append] at hsettled ⊢
          refine ⟨hsettled.1, by simp, ?_⟩
          intro left hleft right hright
          have hprev := hsettled.2.2 left hleft prev (by simp)
          simp only [List.head?_cons, Option.mem_def, Option.some.injEq] at hright
          subst hright
          exact hprev
      next hmerge =>
        refine ⟨(hfront.concat hmerges).concat (merges_cleaned segment), ?_⟩
        unfold Settled at hsettled ⊢
        rw [List.isChain_append]
        refine ⟨hsettled, by simp, ?_⟩
        intro left hleft right hright
        simp only [List.getLast?_append, List.getLast?_singleton, Option.some_or,
          Option.mem_def, Option.some.injEq] at hleft
        simp only [List.head?_cons, Option.mem_def, Option.some.injEq] at hright
        subst hleft hright
        simpa using hmerge

/-! ## All segments -/

theorem Normalizes.foldl (rest : List TranscriptSegment) {members outs : List TranscriptSegment}
    (hnormalizes : Normalizes members outs) (hsettled : Settled outs)
    (hsorted : (members ++ rest.filter (·.kept)).Pairwise
      fun left right => left.startMs ≤ right.startMs) :
    Normalizes (members ++ rest.filter (·.kept)) (rest.foldl pushNormalized outs) ∧
      Settled (rest.foldl pushNormalized outs) := by
  induction rest generalizing members outs with
  | nil => simpa using ⟨hnormalizes, hsettled⟩
  | cons segment rest ih =>
      rw [List.foldl_cons]
      cases hkept : segment.kept with
      | false =>
          rw [pushNormalized_of_not_kept hkept]
          rw [List.filter_cons_of_neg (by simpa using hkept)] at hsorted ⊢
          exact ih hnormalizes hsettled hsorted
      | true =>
          rw [List.filter_cons_of_pos hkept] at hsorted ⊢
          have hstart : ∀ member ∈ members, member.startMs ≤ segment.startMs := by
            intro member hmember
            exact (List.pairwise_append.mp hsorted).2.2 member hmember segment List.mem_cons_self
          obtain ⟨hpushed, hstillSettled⟩ := hnormalizes.push hsettled hkept hstart
          rw [List.append_cons] at hsorted ⊢
          exact ih hpushed hstillSettled hsorted

/-! ## Order -/

theorem Normalizes.exists_group {members outs : List TranscriptSegment} {out : TranscriptSegment}
    (hnormalizes : Normalizes members outs) (hout : out ∈ outs) :
    ∃ group ⊆ members, Merges group out := by
  induction hnormalizes with
  | nil => cases hout
  | @concat members outs group last hfront hmerges ih =>
      rcases List.mem_append.mp hout with hout | hout
      · obtain ⟨earlier, hsubset, hearlier⟩ := ih hout
        exact ⟨earlier, fun _ hmember => List.mem_append_left _ (hsubset hmember), hearlier⟩
      · rw [List.mem_singleton.mp hout]
        exact ⟨group, List.subset_append_right _ _, hmerges⟩

theorem orderTimestampMs_mono {a b : ℕ} (hle : a ≤ b) : orderTimestampMs a ≤ orderTimestampMs b :=
  min_le_min_right _ hle

theorem orderKey_le_iff {left right : TranscriptSegment} :
    left.orderKey ≤ right.orderKey ↔
      orderTimestampMs left.startMs < orderTimestampMs right.startMs ∨
        orderTimestampMs left.startMs = orderTimestampMs right.startMs ∧
          (orderTimestampMs left.endMs < orderTimestampMs right.endMs ∨
            orderTimestampMs left.endMs = orderTimestampMs right.endMs ∧
              left.source.orderPriority ≤ right.source.orderPriority) := by
  unfold TranscriptSegment.orderKey
  rw [Prod.Lex.toLex_le_toLex, Prod.Lex.toLex_le_toLex]

/-- Where each member of one group comes before each member of the other, so do the segments
made of them: growing an end never moves a segment past one that starts with it. -/
theorem Merges.orderKey_le {group group' : List TranscriptSegment} {out out' : TranscriptSegment}
    (hmerges : Merges group out) (hmerges' : Merges group' out')
    (horder : ∀ member ∈ group, ∀ member' ∈ group', member.orderKey ≤ member'.orderKey) :
    out.orderKey ≤ out'.orderKey := by
  obtain ⟨first, hfirst, hfirstStart⟩ := hmerges'.start_attained
  obtain ⟨last, hlast, hlastEnd⟩ := hmerges.end_attained
  have hfirstEnd := orderTimestampMs_mono (hmerges'.le_end first hfirst)
  have hlastStart := orderTimestampMs_mono (hmerges.start_le last hlast)
  have hkey := orderKey_le_iff.mp (horder last hlast first hfirst)
  rw [hfirstStart, hlastEnd, (hmerges.same last hlast).2, (hmerges'.same first hfirst).2] at hkey
  rw [orderKey_le_iff]
  omega

theorem Normalizes.pairwise {members outs : List TranscriptSegment}
    (hnormalizes : Normalizes members outs)
    (hsorted : members.Pairwise fun left right => left.orderKey ≤ right.orderKey) :
    outs.Pairwise fun left right => left.orderKey ≤ right.orderKey := by
  induction hnormalizes with
  | nil => exact List.Pairwise.nil
  | @concat members outs group last hfront hmerges ih =>
      obtain ⟨hmembers, -, hacross⟩ := List.pairwise_append.mp hsorted
      rw [List.pairwise_append]
      refine ⟨ih hmembers, List.pairwise_singleton _ _, ?_⟩
      intro out hout right hright
      rw [List.mem_singleton.mp hright]
      obtain ⟨earlier, hsubset, hearlier⟩ := hfront.exists_group hout
      apply hearlier.orderKey_le hmerges
      intro member hmember member' hmember'
      exact hacross member (hsubset hmember) member' hmember'

theorem startMs_le_of_orderKey_le {left right : TranscriptSegment}
    (hleft : left.startMs ≤ i64Max) (hright : right.startMs ≤ i64Max)
    (hle : left.orderKey ≤ right.orderKey) : left.startMs ≤ right.startMs := by
  have hkey := orderKey_le_iff.mp hle
  unfold orderTimestampMs at hkey
  unfold i64Max at hleft hright
  omega

/-! ## A second pass -/

/-- What the normalisation decides about a segment; confidence and the noise flag left out. -/
def TranscriptSegment.content (segment : TranscriptSegment) :
    String × ℕ × ℕ × List Char × TranscriptSource × ℕ :=
  (segment.speakerId, segment.startMs, segment.endMs, segment.text, segment.source,
    segment.mergedCount)

theorem Merges.kept {group : List TranscriptSegment} {out : TranscriptSegment}
    (hmerges : Merges group out) (hkept : ∀ member ∈ group, member.kept = true) :
    out.kept = true := by
  obtain ⟨hclean, hne⟩ := hmerges.clean hkept
  obtain ⟨first, hfirst, hstart⟩ := hmerges.start_attained
  have hfirstKept := hkept first hfirst
  unfold TranscriptSegment.kept at hfirstKept ⊢
  rw [Bool.and_eq_true, decide_eq_true_eq] at hfirstKept ⊢
  constructor
  · have hempty := cleanText_isEmpty out.text
    rw [hclean] at hempty
    have hnot : out.text.isEmpty = false := by simpa using hne
    rw [hnot] at hempty
    simpa using hempty.symm
  · rw [← hstart]
    exact lt_of_lt_of_le hfirstKept.2 (hmerges.le_end first hfirst)

theorem foldl_pushNormalized_of_settled (outs rest : List TranscriptSegment)
    (hsettled : Settled (outs ++ rest))
    (hkept : ∀ segment ∈ rest, segment.kept = true) :
    rest.foldl pushNormalized (outs.map (·.cleaned)) = (outs ++ rest).map (·.cleaned) := by
  induction rest generalizing outs with
  | nil => simp
  | cons segment rest ih =>
      have hpush : pushNormalized (outs.map (·.cleaned)) segment =
          (outs ++ [segment]).map (·.cleaned) := by
        rw [pushNormalized_of_kept (hkept segment List.mem_cons_self)]
        rcases List.eq_nil_or_concat outs with rfl | ⟨front, prev, rfl⟩
        · rfl
        · have hprev : canMerge prev.cleaned segment.cleaned = false := by
            rw [List.concat_eq_append] at hsettled
            apply (List.isChain_append.mp hsettled).2.2 prev (by simp) segment (by simp)
          simp only [List.concat_eq_append, List.map_append, List.map_singleton,
            List.getLast?_append, List.getLast?_singleton, Option.some_or, hprev]
          simp
      rw [List.foldl_cons, hpush, ih]
      · simp
      · simpa using hsettled
      · intro later hlater
        exact hkept later (List.mem_cons_of_mem _ hlater)

/-! ## The normalised transcript -/

/-- A group with the sum of its members' counters. -/
structure MergesCounted (group : List TranscriptSegment) (out : TranscriptSegment) : Prop
    extends Merges group out where
  mergedCount_eq : out.mergedCount = (group.map (·.mergedCount)).sum

/-- The output keeps every segment worth keeping, once, in timeline order, and cannot be
merged any further. -/
def Lossless (input output : List TranscriptSegment) : Prop :=
  ∃ members : List TranscriptSegment, members.Perm (input.filter (·.kept)) ∧
    members.Pairwise (fun left right => left.orderKey ≤ right.orderKey) ∧
    (∃ groups : List (List TranscriptSegment), groups.flatten = members ∧
      List.Forall₂ MergesCounted groups output) ∧
    output.IsChain fun left right => ¬Mergeable left right

theorem Normalizes.groups {members outs : List TranscriptSegment}
    (hnormalizes : Normalizes members outs)
    (hcount : (members.map (·.mergedCount)).sum ≤ u32Max) :
    ∃ groups : List (List TranscriptSegment), groups.flatten = members ∧
      List.Forall₂ MergesCounted groups outs := by
  induction hnormalizes with
  | nil => exact ⟨[], rfl, .nil⟩
  | @concat members outs group out hfront hmerges ih =>
      rw [List.map_append, List.sum_append] at hcount
      obtain ⟨groups, hflatten, hgroups⟩ := ih (le_trans (Nat.le_add_right _ _) hcount)
      have hcounted : MergesCounted group out :=
        ⟨hmerges, hmerges.mergedCount_of_le (le_trans (Nat.le_add_left _ _) hcount)⟩
      refine ⟨groups ++ [group], by simp [hflatten], ?_⟩
      exact List.rel_append hgroups (.cons hcounted .nil)

theorem Normalizes.append_groups {members outs rest : List TranscriptSegment}
    {groups : List (List TranscriptSegment)} (hnormalizes : Normalizes members outs)
    (hgroups : List.Forall₂ MergesCounted groups rest) :
    Normalizes (members ++ groups.flatten) (outs ++ rest) := by
  induction hgroups generalizing members outs with
  | nil => simpa using hnormalizes
  | cons hcounted _ ih =>
      have hfront := ih (hnormalizes.concat hcounted.toMerges)
      simpa using hfront

theorem normalizes_of_groups {groups : List (List TranscriptSegment)}
    {outs : List TranscriptSegment} (hgroups : List.Forall₂ MergesCounted groups outs) :
    Normalizes groups.flatten outs :=
  Normalizes.nil.append_groups hgroups

theorem sortTranscriptSegments_sorted (input : List TranscriptSegment) :
    (sortTranscriptSegments input).Pairwise fun left right => left.orderKey ≤ right.orderKey :=
  List.pairwise_insertionSort_key TranscriptSegment.orderKey input

theorem sortTranscriptSegments_of_sorted {input : List TranscriptSegment}
    (hsorted : input.Pairwise fun left right => left.orderKey ≤ right.orderKey) :
    sortTranscriptSegments input = input :=
  List.Pairwise.insertionSort_eq hsorted

theorem normalizes_normalizeSegments {input : List TranscriptSegment}
    (hrange : ∀ segment ∈ input, segment.kept = true → segment.startMs ≤ i64Max) :
    Normalizes ((sortTranscriptSegments input).filter (·.kept)) (normalizeSegments input) ∧
      Settled (normalizeSegments input) := by
  have hperm : (sortTranscriptSegments input).Perm input := List.perm_insertionSort _ _
  have hstart : ∀ segment ∈ (sortTranscriptSegments input).filter (·.kept),
      segment.startMs ≤ i64Max := by
    intro segment hsegment
    obtain ⟨hmem, hkept⟩ := List.mem_filter.mp hsegment
    exact hrange segment (hperm.mem_iff.mp hmem) hkept
  have hstarts : ((sortTranscriptSegments input).filter (·.kept)).Pairwise
      fun left right => left.startMs ≤ right.startMs := by
    apply ((sortTranscriptSegments_sorted input).filter (·.kept)).imp_of_mem
    intro left right hleft hright hle
    exact startMs_le_of_orderKey_le (hstart left hleft) (hstart right hright) hle
  have hfold :=
    Normalizes.nil.foldl (sortTranscriptSegments input) (by simp [Settled]) (by simpa using hstarts)
  rw [List.nil_append] at hfold
  exact hfold

/-- Segments that end in range start in range. -/
theorem kept_startMs_le {segments : List TranscriptSegment}
    (hrange : ∀ segment ∈ segments, segment.endMs ≤ i64Max) :
    ∀ segment ∈ segments, segment.kept = true → segment.startMs ≤ i64Max := by
  intro segment hsegment hkept
  unfold TranscriptSegment.kept at hkept
  rw [Bool.and_eq_true, decide_eq_true_eq] at hkept
  exact le_trans hkept.2.le (hrange segment hsegment)

/-- The ends of the output are ends of the input. -/
theorem Normalizes.endMs_le {members outs : List TranscriptSegment} {bound : ℕ}
    (hnormalizes : Normalizes members outs) (hmembers : ∀ member ∈ members, member.endMs ≤ bound) :
    ∀ out ∈ outs, out.endMs ≤ bound := by
  intro out hout
  obtain ⟨group, hsubset, hmerges⟩ := hnormalizes.exists_group hout
  obtain ⟨last, hlast, hend⟩ := hmerges.end_attained
  exact hend ▸ hmembers last (hsubset hlast)

theorem lossless_normalizeSegments {input : List TranscriptSegment}
    (hstart : ∀ segment ∈ input, segment.kept = true → segment.startMs ≤ i64Max)
    (hend : ∀ segment ∈ input, segment.endMs + 1000 ≤ u64Max)
    (hcount : (input.map (·.mergedCount)).sum ≤ u32Max) :
    Lossless input (normalizeSegments input) := by
  obtain ⟨hnormalizes, hsettled⟩ := normalizes_normalizeSegments hstart
  have hperm : (sortTranscriptSegments input).Perm input := List.perm_insertionSort _ _
  have hmember : ∀ member ∈ (sortTranscriptSegments input).filter (·.kept), member ∈ input :=
    fun member hmember => hperm.mem_iff.mp (List.mem_filter.mp hmember).1
  refine ⟨_, hperm.filter _, (sortTranscriptSegments_sorted input).filter _,
    hnormalizes.groups ?_, ?_⟩
  · have hsublist : (((sortTranscriptSegments input).filter (·.kept)).map (·.mergedCount)).Sublist
        ((sortTranscriptSegments input).map (·.mergedCount)) := List.filter_sublist.map _
    have hsum := (hperm.map (·.mergedCount)).sum_eq
    exact (hsublist.sum_le_sum fun _ _ => Nat.zero_le _).trans (hsum.le.trans hcount)
  · have hends : ∀ out ∈ normalizeSegments input, out.endMs ≤ u64Max - 1000 :=
      hnormalizes.endMs_le fun member hmem => by
        have := hend member (hmember member hmem)
        omega
    refine hsettled.imp_of_mem_imp fun left right hleft _ hnot hmergeable => ?_
    have hleftEnd : left.endMs + 1000 ≤ u64Max := by
      have := hends left hleft
      unfold u64Max at this ⊢
      omega
    rw [(canMerge_iff_mergeable hleftEnd).mpr hmergeable] at hnot
    cases hnot

/-- What the members of the groups have in common carries over. -/
theorem Normalizes.clean_kept {members outs : List TranscriptSegment}
    (hnormalizes : Normalizes members outs) (hkept : ∀ member ∈ members, member.kept = true)
    {out : TranscriptSegment} (hout : out ∈ outs) :
    cleanText out.text = out.text ∧ out.kept = true := by
  obtain ⟨group, hsubset, hmerges⟩ := hnormalizes.exists_group hout
  have hgroup : ∀ member ∈ group, member.kept = true := by
    intro member hmember
    exact hkept member (hsubset hmember)
  exact ⟨(hmerges.clean hgroup).1, hmerges.kept hgroup⟩

theorem normalizeSegments_of_lossless {input output : List TranscriptSegment}
    (hlossless : Lossless input output) :
    (normalizeSegments output).map (·.content) = output.map (·.content) := by
  obtain ⟨members, hperm, hsorted, ⟨groups, hflatten, hgroups⟩, happart⟩ := hlossless
  have hnormalizes : Normalizes members output := hflatten ▸ normalizes_of_groups hgroups
  have hsettled : Settled output := by
    refine happart.imp fun left right hnot => ?_
    rw [Bool.eq_false_iff]
    exact fun hmerge => hnot (mergeable_of_canMerge hmerge)
  have hkept : ∀ out ∈ output, cleanText out.text = out.text ∧ out.kept = true := by
    intro out hout
    apply hnormalizes.clean_kept _ hout
    intro member hmember
    exact (List.mem_filter.mp (hperm.mem_iff.mp hmember)).2
  have hagain : normalizeSegments output = output.map (·.cleaned) := by
    unfold normalizeSegments
    rw [sortTranscriptSegments_of_sorted (hnormalizes.pairwise hsorted)]
    exact foldl_pushNormalized_of_settled [] output hsettled
      fun segment hsegment => (hkept segment hsegment).2
  rw [hagain, List.map_map]
  apply List.map_congr_left
  intro out hout
  simp only [Function.comp_apply, TranscriptSegment.content, TranscriptSegment.cleaned,
    (hkept out hout).1]

theorem normalize_segments_lossless {input : List TranscriptSegment}
    (hstart : ∀ segment ∈ input, segment.kept = true → segment.startMs ≤ i64Max)
    (hend : ∀ segment ∈ input, segment.endMs + 1000 ≤ u64Max)
    (hcount : (input.map (·.mergedCount)).sum ≤ u32Max) :
    Lossless input (normalizeSegments input) ∧
      (normalizeSegments (normalizeSegments input)).map (·.content) =
        (normalizeSegments input).map (·.content) := by
  have hlossless := lossless_normalizeSegments hstart hend hcount
  exact ⟨hlossless, normalizeSegments_of_lossless hlossless⟩

/-- Two speakers, the first heard again after the second, and twice in a row; a segment far
in the future says nothing. -/
def interruptedSpeech : List TranscriptSegment :=
  [{ speakerId := "u1", startMs := 900, endMs := 1500, text := "again".toList },
   { speakerId := "u1", startMs := 0, endMs := 300, text := " hello ".toList, mergedCount := 2 },
   { speakerId := "u1", startMs := 2 ^ 63, endMs := 2 ^ 63 + 1, text := [' '] },
   { speakerId := "u1", startMs := 310, endMs := 800, text := "there".toList },
   { speakerId := "u2", startMs := 850, endMs := 890, text := "hm".toList }]

theorem interrupted_speech_lossless :
    Lossless interruptedSpeech (normalizeSegments interruptedSpeech) ∧
      (normalizeSegments (normalizeSegments interruptedSpeech)).map (·.content) =
        (normalizeSegments interruptedSpeech).map (·.content) := by
  apply normalize_segments_lossless
  · intro segment hsegment hkept
    simp only [interruptedSpeech, List.mem_cons, List.not_mem_nil, or_false] at hsegment
    rcases hsegment with rfl | rfl | rfl | rfl | rfl
    · simp [i64Max]
    · simp [i64Max]
    · exact absurd hkept (by decide)
    · simp [i64Max]
    · simp [i64Max]
  · intro segment hsegment
    simp only [interruptedSpeech, List.mem_cons, List.not_mem_nil, or_false] at hsegment
    rcases hsegment with rfl | rfl | rfl | rfl | rfl <;> simp [u64Max]
  · decide

/-! ## Beyond the order's range -/

theorem Normalizes.covered {members outs : List TranscriptSegment} {member : TranscriptSegment}
    (hnormalizes : Normalizes members outs) (hmember : member ∈ members) :
    ∃ out ∈ outs, out.startMs ≤ member.startMs := by
  induction hnormalizes with
  | nil => cases hmember
  | @concat members outs group last hfront hmerges ih =>
      rcases List.mem_append.mp hmember with hmember | hmember
      · obtain ⟨out, hout, hle⟩ := ih hmember
        exact ⟨out, List.mem_append_left _ hout, hle⟩
      · exact ⟨last, by simp, hmerges.start_le member hmember⟩

/-- Both starts are beyond `i64::MAX`, where the order no longer tells them apart. -/
def farFutureSpeech : List TranscriptSegment :=
  [{ speakerId := "u1", startMs := 2 ^ 63 + 5, endMs := 2 ^ 63 + 10, text := ['a'] },
   { speakerId := "u1", startMs := 2 ^ 63 + 1, endMs := 2 ^ 63 + 20, text := ['b'] }]

theorem far_future_speech_merged :
    (∀ segment ∈ farFutureSpeech, segment.endMs + 1000 < 2 ^ 64) ∧
      (farFutureSpeech.map (·.mergedCount)).sum < 2 ^ 32 ∧
      ¬ Lossless farFutureSpeech (normalizeSegments farFutureSpeech) := by
  refine ⟨?_, by decide, ?_⟩
  · simp [farFutureSpeech]
  · rintro ⟨members, hperm, -, ⟨groups, hflatten, hgroups⟩, -⟩
    have hnormalizes := normalizes_of_groups hgroups
    rw [hflatten] at hnormalizes
    have hkept : farFutureSpeech.filter (·.kept) = farFutureSpeech := rfl
    rw [hkept] at hperm
    obtain ⟨out, hout, hle⟩ := hnormalizes.covered
      (hperm.mem_iff.mpr (List.mem_of_getElem? (i := 1) rfl))
    have houtput : (normalizeSegments farFutureSpeech).map (·.startMs) = [2 ^ 63 + 5] := rfl
    have hstart := List.mem_map_of_mem (f := (·.startMs)) hout
    rw [houtput, List.mem_singleton] at hstart
    rw [hstart] at hle
    simp at hle

end DiscordTranscript.Domain
