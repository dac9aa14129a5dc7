import DiscordTranscript.Foundation.Comparison
import DiscordTranscript.Foundation.InsertionMap
import Mathlib.Data.List.Induction
import Mathlib.Data.String.Basic

/-! # The live transcript of the page

The index that `web/src/hooks/useMeetingData.ts` keeps of the segments it has received: a map by
key and a sorted list. A batch is merged into the index of the moment. Times are the finite numbers
that pass the validation of a response; the order and the text of numbers and strings that depend on
the browser are parameters.
-/

namespace DiscordTranscript.Interfaces

open Comparison

inductive SegmentSource where
  | voice
  | vcText
deriving DecidableEq, Repr

structure SpeakerResponse where
  id : String
  username : Option String
  nickname : Option String
  displayName : Option String
  displayLabel : String
deriving DecidableEq, Repr

structure PageSegment where
  id : Option String
  speakerId : String
  speaker : SpeakerResponse
  startMs : ℚ
  endMs : ℚ
  text : String
  confidence : Option ℚ
  isNoisy : Bool
  source : SegmentSource
deriving DecidableEq, Repr

/-- `String.prototype.localeCompare`, a total order. -/
structure Locale where
  compare : String → String → ℚ
  lawful : Lawful compare
  eq_of_zero : ∀ left right, compare left right = 0 → left = right

/-- The order of code points. -/
def ordinalLocale : Locale where
  compare left right := if left < right then -1 else if left = right then 0 else 1
  lawful := {
    flip := by
      intro left right
      rcases lt_trichotomy left right with hless | rfl | hless
      · simp [hless, hless.not_gt, hless.ne']
      · simp
      · simp [hless, hless.not_gt, hless.ne']
    trans := by
      have hle : ∀ left right : String,
          (if left < right then (-1 : ℚ) else if left = right then 0 else 1) ≤ 0 ↔
            left ≤ right := by
        intro left right
        rcases lt_trichotomy left right with hless | rfl | hless
        · simp [hless, hless.le]
        · simp
        · simp [hless.not_gt, hless.ne', hless.not_ge]
      intro left middle right hleft hright
      rw [hle] at hleft hright ⊢
      exact hleft.trans hright }
  eq_of_zero := by
    intro left right hzero
    rcases lt_trichotomy left right with hless | rfl | hless
    · simp [hless] at hzero
    · rfl
    · simp [hless.not_gt, hless.ne'] at hzero

def SegmentSource.text : SegmentSource → String
  | .voice => "voice"
  | .vcText => "vc_text"

@[ext] structure TranscriptSegmentIndex where
  segments : List PageSegment
  byKey : InsertionMap String PageSegment

section

variable (locale : Locale) (numberText : ℚ → String)

def transcriptSegmentKey (segment : PageSegment) : String :=
  segment.id.getD (":".intercalate [segment.source.text, segment.speakerId,
    numberText segment.startMs, numberText segment.endMs, segment.text])

def compareTranscriptSegments (a b : PageSegment) : ℚ :=
  orElse (orElse (orElse (a.startMs - b.startMs) (a.endMs - b.endMs))
    (locale.compare a.speakerId b.speakerId))
    (locale.compare (transcriptSegmentKey numberText a) (transcriptSegmentKey numberText b))

def setByKey (byKey : InsertionMap String PageSegment) (segment : PageSegment) :
    InsertionMap String PageSegment :=
  byKey.set (transcriptSegmentKey numberText segment) segment

def createTranscriptSegmentIndex (segments : List PageSegment) : TranscriptSegmentIndex :=
  let byKey := segments.foldl (setByKey numberText) .empty
  ⟨byKey.values.mergeSort fun a b => compareTranscriptSegments locale numberText a b ≤ 0, byKey⟩

def transcriptSegmentPosition (segments : List PageSegment) (target : PageSegment) : ℕ :=
  searchFrom (fun segment => compareTranscriptSegments locale numberText segment target < 0)
    segments 0 segments.length

/-- `splice` without a deletion. -/
def insertAt (segments : List PageSegment) (position : ℕ) (segment : PageSegment) :
    List PageSegment :=
  segments.take position ++ segment :: segments.drop position

/-- `splice` of one element. -/
def removeAt (segments : List PageSegment) (position : ℕ) : List PageSegment :=
  segments.take position ++ segments.drop (position + 1)

/-- An assignment to an index that is not beyond the end. -/
def assignAt (segments : List PageSegment) (position : ℕ) (segment : PageSegment) :
    List PageSegment :=
  segments.take position ++ segment :: segments.drop (position + 1)

/-- One round of the loop over a batch. -/
def mergeSegment (index : TranscriptSegmentIndex) (segment : PageSegment) :
    TranscriptSegmentIndex :=
  let insertInto (segments : List PageSegment) : TranscriptSegmentIndex :=
    ⟨insertAt segments (transcriptSegmentPosition locale numberText segments segment) segment,
      setByKey numberText index.byKey segment⟩
  match index.byKey.get (transcriptSegmentKey numberText segment) with
  | some existing =>
      let existingPosition := transcriptSegmentPosition locale numberText index.segments existing
      if compareTranscriptSegments locale numberText existing segment = 0 then
        ⟨assignAt index.segments existingPosition segment,
          setByKey numberText index.byKey segment⟩
      else insertInto (removeAt index.segments existingPosition)
  | none => insertInto index.segments

def mergeTranscriptSegmentIndex (current : TranscriptSegmentIndex) (incoming : List PageSegment) :
    TranscriptSegmentIndex :=
  if incoming.isEmpty then current else incoming.foldl (mergeSegment locale numberText) current

/-! ## The order of the list -/

theorem lawful_compareTranscriptSegments :
    Lawful (compareTranscriptSegments locale numberText) :=
  (((lawful_sub PageSegment.startMs).orElse (lawful_sub PageSegment.endMs)).orElse
    (locale.lawful.comap PageSegment.speakerId)).orElse
      (locale.lawful.comap (transcriptSegmentKey numberText))

variable {locale numberText}

theorem key_eq_of_compare {a b : PageSegment}
    (hzero : compareTranscriptSegments locale numberText a b = 0) :
    transcriptSegmentKey numberText a = transcriptSegmentKey numberText b :=
  locale.eq_of_zero _ _ (orElse_eq_zero.mp hzero).2

/-- The search finds where the segments before the target end. -/
theorem transcriptSegmentPosition_eq {front back : List PageSegment} {target : PageSegment}
    (hfront : ∀ segment ∈ front, compareTranscriptSegments locale numberText segment target < 0)
    (hback : ∀ segment ∈ back, 0 ≤ compareTranscriptSegments locale numberText segment target) :
    transcriptSegmentPosition locale numberText (front ++ back) target = front.length := by
  apply searchFrom_eq _ _ _ _ (Nat.zero_le _) (by simp)
  · intro segment hsegment
    exact decide_eq_true (hfront segment hsegment)
  · intro segment hsegment
    exact decide_eq_false (not_lt.mpr (hback segment hsegment))

/-- A segment of the list is found where it stands. -/
theorem transcriptSegmentPosition_of_mem {segments : List PageSegment} {existing : PageSegment}
    (hsorted : Sorted (compareTranscriptSegments locale numberText) segments)
    (hmem : existing ∈ segments) :
    ∃ front back, segments = front ++ existing :: back ∧
      transcriptSegmentPosition locale numberText segments existing = front.length := by
  have hlawful := lawful_compareTranscriptSegments locale numberText
  obtain ⟨front, back, rfl⟩ := List.append_of_mem hmem
  refine ⟨front, back, rfl, transcriptSegmentPosition_eq ?_ ?_⟩
  · intro segment hsegment
    exact (List.pairwise_append.mp hsorted).2.2 segment hsegment existing List.mem_cons_self
  · intro segment hsegment
    rcases List.mem_cons.mp hsegment with rfl | hsegment
    · exact (hlawful.self segment).ge
    · have hpair := List.pairwise_cons.mp (List.pairwise_append.mp hsorted).2.1
      exact (hlawful.neg_iff.mp (hpair.1 segment hsegment)).le

/-- A segment whose key is new is inserted where it belongs. -/
theorem sorted_insertAt {segments : List PageSegment} {segment : PageSegment}
    (hsorted : Sorted (compareTranscriptSegments locale numberText) segments)
    (hnew : ∀ other ∈ segments,
      transcriptSegmentKey numberText other ≠ transcriptSegmentKey numberText segment) :
    let position := transcriptSegmentPosition locale numberText segments segment
    Sorted (compareTranscriptSegments locale numberText) (insertAt segments position segment) ∧
      (insertAt segments position segment).Perm (segment :: segments) := by
  have hlawful := lawful_compareTranscriptSegments locale numberText
  obtain ⟨front, back, rfl, hfront, hback⟩ := hsorted.split hlawful segment
  dsimp only
  rw [transcriptSegmentPosition_eq hfront hback, insertAt, List.take_left, List.drop_left]
  refine ⟨hsorted.insert hlawful hfront ?_, List.perm_middle⟩
  intro other hother
  apply lt_of_le_of_ne (hback other hother)
  intro hzero
  exact hnew other (List.mem_append_right _ hother) (key_eq_of_compare hzero.symm)

/-! ## What holds of an index -/

variable (locale numberText)

structure Indexed (index : TranscriptSegmentIndex) : Prop where
  keyed : ∀ entry ∈ index.byKey.entries, transcriptSegmentKey numberText entry.2 = entry.1
  sorted : Sorted (compareTranscriptSegments locale numberText) index.segments
  listed : index.segments.Perm index.byKey.values

variable {locale numberText}

theorem keyed_setByKey {byKey : InsertionMap String PageSegment}
    (hkeyed : ∀ entry ∈ byKey.entries, transcriptSegmentKey numberText entry.2 = entry.1)
    (segment : PageSegment) :
    ∀ entry ∈ (setByKey numberText byKey segment).entries,
      transcriptSegmentKey numberText entry.2 = entry.1 := by
  rintro ⟨key, other⟩ hentry
  rcases InsertionMap.mem_entries_set hentry with ⟨rfl, rfl⟩ | hentry
  · rfl
  · exact hkeyed _ hentry

theorem map_key_values {byKey : InsertionMap String PageSegment}
    (hkeyed : ∀ entry ∈ byKey.entries, transcriptSegmentKey numberText entry.2 = entry.1) :
    byKey.values.map (transcriptSegmentKey numberText) = byKey.entries.map Prod.fst := by
  rw [InsertionMap.values, List.map_map]
  exact List.map_congr_left hkeyed

/-- The segments of a map have different keys. -/
theorem nodup_keys {byKey : InsertionMap String PageSegment}
    (hkeyed : ∀ entry ∈ byKey.entries, transcriptSegmentKey numberText entry.2 = entry.1) :
    (byKey.values.map (transcriptSegmentKey numberText)).Nodup := by
  rw [map_key_values hkeyed]
  exact byKey.nodup

theorem byKey_mergeSegment (index : TranscriptSegmentIndex) (segment : PageSegment) :
    (mergeSegment locale numberText index segment).byKey =
      setByKey numberText index.byKey segment := by
  unfold mergeSegment
  dsimp only
  split
  next =>
    split
    next => rfl
    next => rfl
  next => rfl

/-- A segment takes the place of one that compares equal to it. -/
theorem sorted_replace {front back : List PageSegment} {existing segment : PageSegment}
    (hsorted : Sorted (compareTranscriptSegments locale numberText) (front ++ existing :: back))
    (hequal : compareTranscriptSegments locale numberText existing segment = 0) :
    Sorted (compareTranscriptSegments locale numberText) (front ++ segment :: back) := by
  have hlawful := lawful_compareTranscriptSegments locale numberText
  obtain ⟨-, hright, hboth⟩ := List.pairwise_append.mp hsorted
  apply hsorted.erase.insert hlawful
  · intro other hother
    exact hlawful.neg_trans (hboth other hother existing List.mem_cons_self) hequal.le
  · intro other hother
    apply hlawful.neg_iff.mp
    exact hlawful.trans_neg (hlawful.zero_symm hequal).le
      ((List.pairwise_cons.mp hright).1 other hother)

/-- One round keeps the list sorted and in step with the map. -/
theorem Indexed.mergeSegment {index : TranscriptSegmentIndex}
    (hindex : Indexed locale numberText index) (segment : PageSegment) :
    Indexed locale numberText (mergeSegment locale numberText index segment) := by
  obtain ⟨hkeyed, hsorted, hlisted⟩ := hindex
  have hdistinct := nodup_keys hkeyed
  have hlist : Sorted (compareTranscriptSegments locale numberText)
      (Interfaces.mergeSegment locale numberText index segment).segments ∧
        (Interfaces.mergeSegment locale numberText index segment).segments.Perm
          (setByKey numberText index.byKey segment).values := by
    unfold Interfaces.mergeSegment
    dsimp only
    split
    next existing hget =>
      obtain ⟨before, after, hvalues, hset⟩ :=
        @InsertionMap.values_set_of_get _ _ _ _ _ segment _ hget
      have hkey : transcriptSegmentKey numberText existing =
          transcriptSegmentKey numberText segment :=
        hkeyed _ (InsertionMap.mem_entries_of_get hget)
      have hmem : existing ∈ index.segments := by
        rw [hlisted.mem_iff, hvalues]
        simp
      obtain ⟨front, back, hsplit, hposition⟩ := transcriptSegmentPosition_of_mem hsorted hmem
      rw [hsplit] at hsorted hlisted
      rw [hvalues] at hlisted hdistinct
      have hothers : (front ++ back).Perm (before ++ after) := by
        apply List.Perm.cons_inv
        exact List.perm_middle.symm.trans (hlisted.trans List.perm_middle)
      have hlistedNow : (segment :: (front ++ back)).Perm
          (setByKey numberText index.byKey segment).values := by
        rw [setByKey, hset]
        exact (hothers.cons segment).trans List.perm_middle.symm
      split
      next hequal =>
        have hassign : assignAt index.segments (transcriptSegmentPosition locale numberText
            index.segments existing) segment = front ++ segment :: back := by
          rw [hposition, hsplit, assignAt]
          simp
        dsimp only
        rw [hassign]
        exact ⟨sorted_replace hsorted hequal, List.perm_middle.trans hlistedNow⟩
      next =>
        have hremove : removeAt index.segments (transcriptSegmentPosition locale numberText
            index.segments existing) = front ++ back := by
          rw [hposition, hsplit, removeAt]
          simp
        have hnew : ∀ other ∈ front ++ back,
            transcriptSegmentKey numberText other ≠ transcriptSegmentKey numberText segment := by
          intro other hother hsame
          have hother := hothers.mem_iff.mp hother
          rw [List.perm_middle.map _ |>.nodup_iff, List.map_cons, List.nodup_cons] at hdistinct
          apply hdistinct.1
          rw [hkey, ← hsame]
          exact List.mem_map_of_mem hother
        have hinserted := sorted_insertAt hsorted.erase hnew
        rw [hremove]
        exact ⟨hinserted.1, hinserted.2.trans hlistedNow⟩
    next hget =>
      have hnew : ∀ other ∈ index.segments,
          transcriptSegmentKey numberText other ≠ transcriptSegmentKey numberText segment := by
        intro other hother hsame
        obtain ⟨entry, hentry, rfl⟩ := List.mem_map.mp (hlisted.mem_iff.mp hother)
        have hfound := InsertionMap.get_of_mem_entries hentry
        rw [← hkeyed entry hentry, hsame, hget] at hfound
        cases hfound
      have hinserted := sorted_insertAt hsorted hnew
      refine ⟨hinserted.1, hinserted.2.trans ?_⟩
      rw [setByKey, InsertionMap.values_set_of_get_none hget]
      exact (hlisted.cons segment).trans (List.perm_append_singleton segment _).symm
  rw [← byKey_mergeSegment] at hlist
  refine ⟨?_, hlist.1, hlist.2⟩
  rw [byKey_mergeSegment]
  exact keyed_setByKey hkeyed segment

theorem Indexed.foldl_mergeSegment (incoming : List PageSegment) {index : TranscriptSegmentIndex}
    (hindex : Indexed locale numberText index) :
    Indexed locale numberText (incoming.foldl (Interfaces.mergeSegment locale numberText) index) ∧
      (incoming.foldl (Interfaces.mergeSegment locale numberText) index).byKey =
        incoming.foldl (setByKey numberText) index.byKey := by
  induction incoming generalizing index with
  | nil => exact ⟨hindex, rfl⟩
  | cons segment incoming ih =>
      rw [List.foldl_cons, List.foldl_cons, ← byKey_mergeSegment]
      exact ih (hindex.mergeSegment segment)

theorem keyed_foldl (received : List PageSegment) {byKey : InsertionMap String PageSegment}
    (hkeyed : ∀ entry ∈ byKey.entries, transcriptSegmentKey numberText entry.2 = entry.1) :
    ∀ entry ∈ (received.foldl (setByKey numberText) byKey).entries,
      transcriptSegmentKey numberText entry.2 = entry.1 := by
  induction received generalizing byKey with
  | nil => exact hkeyed
  | cons segment received ih => exact ih (keyed_setByKey hkeyed segment)

theorem indexed_createTranscriptSegmentIndex (segments : List PageSegment) :
    Indexed locale numberText (createTranscriptSegmentIndex locale numberText segments) := by
  have hkeyed : ∀ entry ∈ (segments.foldl (setByKey numberText) .empty).entries,
      transcriptSegmentKey numberText entry.2 = entry.1 :=
    keyed_foldl segments (by simp [InsertionMap.empty])
  refine ⟨hkeyed, ?_, List.mergeSort_perm _ _⟩
  apply sorted_mergeSort (lawful_compareTranscriptSegments locale numberText)
  apply (List.pairwise_map.mp (nodup_keys hkeyed)).imp
  intro a b hdiffer hzero
  exact hdiffer (key_eq_of_compare hzero)

/-! ## What was received last -/

variable (numberText) in
def lastReceived (received : List PageSegment) (key : String) : Option PageSegment :=
  received.reverse.find? fun segment => transcriptSegmentKey numberText segment = key

theorem get_foldl_setByKey (received : List PageSegment) (key : String) :
    (received.foldl (setByKey numberText) .empty).get key =
      lastReceived numberText received key := by
  induction received using List.reverseRecOn with
  | nil => rfl
  | append_singleton received segment ih =>
      rw [List.foldl_append, List.foldl_cons, List.foldl_nil, setByKey, InsertionMap.get_set, ih,
        lastReceived, lastReceived, List.reverse_append, List.reverse_singleton,
        List.singleton_append, List.find?_cons]
      by_cases hkey : transcriptSegmentKey numberText segment = key
      · simp [hkey]
      · simp [hkey]

theorem Indexed.mem_segments_iff {index : TranscriptSegmentIndex}
    (hindex : Indexed locale numberText index) (segment : PageSegment) :
    segment ∈ index.segments ↔
      index.byKey.get (transcriptSegmentKey numberText segment) = some segment := by
  rw [hindex.listed.mem_iff, InsertionMap.values, List.mem_map]
  constructor
  · rintro ⟨entry, hentry, rfl⟩
    rw [hindex.keyed entry hentry]
    exact InsertionMap.get_of_mem_entries hentry
  · intro hget
    exact ⟨_, InsertionMap.mem_entries_of_get hget, rfl⟩

theorem mergeTranscriptSegmentIndex_eq (current : TranscriptSegmentIndex)
    (incoming : List PageSegment) :
    mergeTranscriptSegmentIndex locale numberText current incoming =
      incoming.foldl (Interfaces.mergeSegment locale numberText) current := by
  unfold mergeTranscriptSegmentIndex
  split
  next hempty =>
    rw [List.isEmpty_iff.mp hempty]
    rfl
  next => rfl

theorem foldl_mergeTranscriptSegmentIndex (current : TranscriptSegmentIndex)
    (batches : List (List PageSegment)) :
    batches.foldl (mergeTranscriptSegmentIndex locale numberText) current =
      batches.flatten.foldl (Interfaces.mergeSegment locale numberText) current := by
  induction batches generalizing current with
  | nil => rfl
  | cons batch batches ih =>
      rw [List.foldl_cons, List.flatten_cons, List.foldl_append, mergeTranscriptSegmentIndex_eq, ih]

variable (locale numberText) in
/-- Merging batch by batch gives the index of everything that was received: sorted, the last segment
of each key, and a map of the segments in the list. -/
theorem merged_index_is_rebuilt_index (segments : List PageSegment)
    (batches : List (List PageSegment)) :
    let merged := batches.foldl (mergeTranscriptSegmentIndex locale numberText)
      (createTranscriptSegmentIndex locale numberText segments)
    let received := segments ++ batches.flatten
    merged = createTranscriptSegmentIndex locale numberText received ∧
      Sorted (compareTranscriptSegments locale numberText) merged.segments ∧
      (merged.segments.map (transcriptSegmentKey numberText)).Nodup ∧
      (∀ segment, segment ∈ merged.segments ↔
        lastReceived numberText received (transcriptSegmentKey numberText segment) =
          some segment) ∧
      merged.byKey.values.Perm merged.segments := by
  dsimp only
  have hcreated := @indexed_createTranscriptSegmentIndex locale numberText segments
  have hrebuilt := @indexed_createTranscriptSegmentIndex locale numberText
    (segments ++ batches.flatten)
  obtain ⟨hmerged, hbyKey⟩ := hcreated.foldl_mergeSegment batches.flatten
  rw [foldl_mergeTranscriptSegmentIndex]
  have hmap : (batches.flatten.foldl (Interfaces.mergeSegment locale numberText)
      (createTranscriptSegmentIndex locale numberText segments)).byKey =
        (segments ++ batches.flatten).foldl (setByKey numberText) .empty := by
    rw [hbyKey, List.foldl_append]
    rfl
  have hsame : batches.flatten.foldl (Interfaces.mergeSegment locale numberText)
      (createTranscriptSegmentIndex locale numberText segments) =
        createTranscriptSegmentIndex locale numberText (segments ++ batches.flatten) := by
    have hlists := hmerged.sorted.eq_of_perm (lawful_compareTranscriptSegments locale numberText)
      hrebuilt.sorted (hmerged.listed.trans (by rw [hmap]; exact hrebuilt.listed.symm))
    exact TranscriptSegmentIndex.ext hlists hmap
  refine ⟨hsame, hmerged.sorted, ?_, ?_, hmerged.listed.symm⟩
  · rw [(hmerged.listed.map _).nodup_iff]
    exact nodup_keys hmerged.keyed
  · intro segment
    rw [hmerged.mem_segments_iff, hmap, get_foldl_setByKey]

end

def heardSegment (id : String) (startMs : ℚ) (text : String) : PageSegment where
  id := some id
  speakerId := "alice"
  speaker := ⟨"alice", none, none, none, "Alice"⟩
  startMs := startMs
  endMs := startMs + 1
  text := text
  confidence := none
  isNoisy := false
  source := .voice

/-- The first segment is corrected and goes behind the others. -/
example : ([[heardSegment "a" 5 "one", heardSegment "b" 7 "two"],
    [heardSegment "a" 9 "won", heardSegment "c" 7 "too"]].foldl
      (mergeTranscriptSegmentIndex ordinalLocale fun _ => "0") ⟨[], .empty⟩).segments =
        [heardSegment "b" 7 "two", heardSegment "c" 7 "too", heardSegment "a" 9 "won"] := by
  decide +kernel

end DiscordTranscript.Interfaces
