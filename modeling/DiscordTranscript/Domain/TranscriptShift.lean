import DiscordTranscript.Domain.TranscriptNormalization

/-! # Moving a transcript on the timeline

As long as no timestamp leaves the range in which the timeline order tells timestamps apart,
normalisation commutes with moving all segments by one offset. What a list of segments says,
whatever it was cut into, is the text of the segments worth keeping in timeline order.
-/

namespace DiscordTranscript.Domain

open Text MachineInt

def TranscriptSegment.delay (offset : ℕ) (segment : TranscriptSegment) : TranscriptSegment :=
  { segment with startMs := segment.startMs + offset, endMs := segment.endMs + offset }

/-- Both timestamps stay in range when the segment is moved by the offset. -/
def TranscriptSegment.FitsAt (offset : ℕ) (segment : TranscriptSegment) : Prop :=
  segment.startMs + offset ≤ i64Max ∧ segment.endMs + offset ≤ i64Max

namespace TranscriptSegment

@[simp] theorem delay_speakerId (offset : ℕ) (segment : TranscriptSegment) :
    (segment.delay offset).speakerId = segment.speakerId := rfl

@[simp] theorem delay_text (offset : ℕ) (segment : TranscriptSegment) :
    (segment.delay offset).text = segment.text := rfl

@[simp] theorem delay_source (offset : ℕ) (segment : TranscriptSegment) :
    (segment.delay offset).source = segment.source := rfl

@[simp] theorem delay_zero (segment : TranscriptSegment) : segment.delay 0 = segment := rfl

theorem delay_delay (first second : ℕ) (segment : TranscriptSegment) :
    (segment.delay first).delay second = segment.delay (first + second) := by
  simp [delay, Nat.add_assoc]

theorem kept_delay (offset : ℕ) (segment : TranscriptSegment) :
    (segment.delay offset).kept = segment.kept := by
  simp [kept, delay]

theorem FitsAt.mono {offset smaller : ℕ} {segment : TranscriptSegment}
    (hfits : segment.FitsAt offset) (hle : smaller ≤ offset) : segment.FitsAt smaller := by
  unfold FitsAt at hfits ⊢
  omega

theorem orderKey_delay_le_iff {offset : ℕ} {left right : TranscriptSegment}
    (hleft : left.FitsAt offset) (hright : right.FitsAt offset) :
    (left.delay offset).orderKey ≤ (right.delay offset).orderKey ↔
      left.orderKey ≤ right.orderKey := by
  unfold FitsAt i64Max at hleft hright
  rw [orderKey_le_iff, orderKey_le_iff]
  simp only [delay, orderTimestampMs]
  omega

end TranscriptSegment

/-! ## Normalisation -/

theorem canMerge_delay {offset : ℕ} {prev : TranscriptSegment}
    (hprev : prev.endMs + offset ≤ i64Max) (next : TranscriptSegment) :
    canMerge (prev.delay offset) (next.delay offset) = canMerge prev next := by
  have hend : prev.endMs + 1000 ≤ u64Max := by
    unfold i64Max at hprev
    unfold u64Max
    omega
  have hdelayed : (prev.delay offset).endMs + 1000 ≤ u64Max := by
    unfold i64Max at hprev
    unfold u64Max
    simp only [TranscriptSegment.delay]
    omega
  rw [Bool.eq_iff_iff, canMerge_iff_mergeable hdelayed, canMerge_iff_mergeable hend]
  have hgap : (next.delay offset).startMs ≤ (prev.delay offset).endMs + 1000 ↔
      next.startMs ≤ prev.endMs + 1000 := by
    simp only [TranscriptSegment.delay]
    omega
  unfold Mergeable
  rw [hgap]
  simp

theorem mergeInto_delay (offset : ℕ) (prev next : TranscriptSegment) :
    mergeInto (prev.delay offset) (next.delay offset) = (mergeInto prev next).delay offset := by
  simp only [mergeInto, TranscriptSegment.delay, Nat.add_max_add_right]

theorem pushNormalized_delay {offset : ℕ} {outs : List TranscriptSegment}
    (houts : ∀ out ∈ outs, out.endMs + offset ≤ i64Max) (segment : TranscriptSegment) :
    pushNormalized (outs.map (·.delay offset)) (segment.delay offset) =
      (pushNormalized outs segment).map (·.delay offset) := by
  cases hkept : segment.kept with
  | false =>
      rw [pushNormalized_of_not_kept hkept,
        pushNormalized_of_not_kept ((segment.kept_delay offset).trans hkept)]
  | true =>
      rw [pushNormalized_of_kept hkept,
        pushNormalized_of_kept ((segment.kept_delay offset).trans hkept), List.getLast?_map]
      cases hlast : outs.getLast? with
      | none => rfl
      | some prev =>
          have hprev := houts prev (List.mem_of_getLast? hlast)
          have hcleaned : (segment.delay offset).cleaned = segment.cleaned.delay offset := rfl
          simp only [Option.map_some, hcleaned, canMerge_delay hprev]
          split
          next =>
            rw [mergeInto_delay, List.map_append, List.map_dropLast]
            rfl
          next =>
            rw [List.map_append]
            rfl

/-- Ends come from the segments. -/
theorem endMs_le_pushNormalized {outs : List TranscriptSegment} {segment : TranscriptSegment}
    {bound : ℕ} (houts : ∀ out ∈ outs, out.endMs ≤ bound) (hsegment : segment.endMs ≤ bound) :
    ∀ out ∈ pushNormalized outs segment, out.endMs ≤ bound := by
  cases hkept : segment.kept with
  | false => rwa [pushNormalized_of_not_kept hkept]
  | true =>
      rw [pushNormalized_of_kept hkept]
      have hcleaned : segment.cleaned.endMs ≤ bound := hsegment
      split
      next prev hlast =>
        split
        · intro out hout
          rcases List.mem_append.mp hout with hout | hout
          · exact houts out (List.mem_of_mem_dropLast hout)
          · rw [List.mem_singleton.mp hout]
            exact max_le (houts prev (List.mem_of_getLast? hlast)) hcleaned
        · intro out hout
          rcases List.mem_append.mp hout with hout | hout
          · exact houts out hout
          · rwa [List.mem_singleton.mp hout]
      next =>
        intro out hout
        rwa [List.mem_singleton.mp hout]

theorem sortTranscriptSegments_delay {offset : ℕ} {segments : List TranscriptSegment}
    (hfits : ∀ segment ∈ segments, segment.FitsAt offset) :
    sortTranscriptSegments (segments.map (·.delay offset)) =
      (sortTranscriptSegments segments).map (·.delay offset) := by
  unfold sortTranscriptSegments
  symm
  apply List.map_insertionSort
  intro left hleft right hright
  exact (TranscriptSegment.orderKey_delay_le_iff (hfits left hleft) (hfits right hright)).symm

theorem normalizeSegments_delay {offset : ℕ} {segments : List TranscriptSegment}
    (hfits : ∀ segment ∈ segments, segment.FitsAt offset) :
    normalizeSegments (segments.map (·.delay offset)) =
      (normalizeSegments segments).map (·.delay offset) := by
  unfold normalizeSegments
  rw [sortTranscriptSegments_delay hfits, List.foldl_map]
  have hfold (ordered outs : List TranscriptSegment)
      (hordered : ∀ segment ∈ ordered, segment.endMs ≤ i64Max - offset)
      (houts : ∀ out ∈ outs, out.endMs ≤ i64Max - offset) (hoffset : offset ≤ i64Max) :
      ordered.foldl (fun outs segment => pushNormalized outs (segment.delay offset))
        (outs.map (·.delay offset)) = (ordered.foldl pushNormalized outs).map (·.delay offset) := by
    induction ordered generalizing outs with
    | nil => rfl
    | cons segment rest ih =>
        rw [List.foldl_cons, List.foldl_cons, pushNormalized_delay fun out hout => by
          have := houts out hout
          omega]
        exact ih _ (fun later hlater => hordered later (List.mem_cons_of_mem _ hlater))
          (endMs_le_pushNormalized houts (hordered segment List.mem_cons_self))
  cases segments with
  | nil => rfl
  | cons first rest =>
      have hends : ∀ segment ∈ sortTranscriptSegments (first :: rest),
          segment.endMs ≤ i64Max - offset := by
        intro segment hsegment
        have := (hfits segment ((List.perm_insertionSort _ _).mem_iff.mp hsegment)).2
        omega
      have hfirst := (hfits first List.mem_cons_self).2
      exact hfold _ [] hends (by simp) (by omega)

/-- Normalising takes its timestamps from the segments. -/
theorem fitsAt_normalizeSegments {offset : ℕ} {segments : List TranscriptSegment}
    (hfits : ∀ segment ∈ segments, segment.FitsAt offset) :
    ∀ out ∈ normalizeSegments segments, out.FitsAt offset := by
  intro out hout
  have hrange : ∀ segment ∈ segments, segment.endMs ≤ i64Max := by
    intro segment hsegment
    have hend := (hfits segment hsegment).2
    omega
  obtain ⟨hnormalizes, -⟩ := normalizes_normalizeSegments (kept_startMs_le hrange)
  obtain ⟨group, hsubset, hmerges⟩ := hnormalizes.exists_group hout
  have hmember : ∀ member ∈ group, member.FitsAt offset := by
    intro member hmember
    have hsorted := (List.mem_filter.mp (hsubset hmember)).1
    exact hfits member ((List.perm_insertionSort _ _).mem_iff.mp hsorted)
  obtain ⟨first, hfirst, hstart⟩ := hmerges.start_attained
  obtain ⟨last, hlast, hend⟩ := hmerges.end_attained
  exact ⟨hstart ▸ (hmember first hfirst).1, hend ▸ (hmember last hlast).2⟩

/-! ## What is said -/

/-- The cleaned texts of the segments worth keeping, in timeline order, joined by spaces. -/
def spokenText (segments : List TranscriptSegment) : List Char :=
  join [' '] (((sortTranscriptSegments segments).filter (·.kept)).map
    fun segment => cleanText segment.text)

theorem spokenText_delay {offset : ℕ} {segments : List TranscriptSegment}
    (hfits : ∀ segment ∈ segments, segment.FitsAt offset) :
    spokenText (segments.map (·.delay offset)) = spokenText segments := by
  unfold spokenText
  rw [sortTranscriptSegments_delay hfits, List.filter_map, List.map_map]
  have hkept : (fun segment : TranscriptSegment => (segment.delay offset).kept) =
      (·.kept) := by
    funext segment
    exact segment.kept_delay offset
  have hcomp : ((·.kept) ∘ fun segment : TranscriptSegment => segment.delay offset) = (·.kept) :=
    hkept
  rw [hcomp]
  rfl

theorem join_append {front back : List (List Char)} (hfront : front ≠ []) (hback : back ≠ []) :
    join [' '] (front ++ back) = join [' '] front ++ ' ' :: join [' '] back := by
  induction back using List.reverseRecOn with
  | nil => exact absurd rfl hback
  | append_singleton rest last ih =>
      rw [← List.append_assoc, join_concat (by simp [hfront])]
      rcases List.eq_nil_or_concat rest with rfl | ⟨init, word, hrest⟩
      · simp [join, List.intercalate]
      · have hne : rest ≠ [] := by simp [hrest]
        rw [ih hne, join_concat hne]
        simp

theorem Normalizes.eq_nil_iff {members outs : List TranscriptSegment}
    (hnormalizes : Normalizes members outs) : outs = [] ↔ members = [] := by
  cases hnormalizes with
  | nil => simp
  | concat hfront hmerges => simp [hmerges.nonempty]

/-- Joining the texts of groups is joining the texts of all members. -/
theorem Normalizes.join_text {members outs : List TranscriptSegment}
    (hnormalizes : Normalizes members outs) :
    join [' '] (outs.map (·.text)) =
      join [' '] (members.map fun member => cleanText member.text) := by
  induction hnormalizes with
  | nil => rfl
  | @concat members outs group out hfront hmerges ih =>
      by_cases hempty : members = []
      · rw [hempty, hfront.eq_nil_iff.mpr hempty]
        simp only [List.nil_append, List.map_singleton, ← hmerges.text_eq]
        simp [join, List.intercalate]
      · have houts : outs ≠ [] := fun hnil => hempty (hfront.eq_nil_iff.mp hnil)
        rw [List.map_append, List.map_append, join_append (by simpa using houts) (by simp),
          join_append (by simpa using hempty) (by simpa using hmerges.nonempty), ih,
          ← hmerges.text_eq]
        simp [join, List.intercalate]

/-- Normalising says the same. -/
theorem spokenText_normalizeSegments {segments : List TranscriptSegment}
    (hrange : ∀ segment ∈ segments, segment.endMs ≤ i64Max) :
    spokenText (normalizeSegments segments) = spokenText segments := by
  obtain ⟨hnormalizes, -⟩ := normalizes_normalizeSegments (kept_startMs_le hrange)
  have hmembers : ∀ member ∈ (sortTranscriptSegments segments).filter (·.kept),
      member.kept = true := fun member hmember => (List.mem_filter.mp hmember).2
  have hsorted := hnormalizes.pairwise ((sortTranscriptSegments_sorted segments).filter _)
  unfold spokenText
  rw [sortTranscriptSegments_of_sorted hsorted, List.filter_eq_self.mpr, ← hnormalizes.join_text]
  · congr 1
    apply List.map_congr_left
    intro out hout
    exact (hnormalizes.clean_kept hmembers hout).1
  · intro out hout
    exact (hnormalizes.clean_kept hmembers hout).2

end DiscordTranscript.Domain
