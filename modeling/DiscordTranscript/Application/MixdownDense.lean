import Mathlib.Algebra.BigOperators.Group.List.Basic
import DiscordTranscript.Application.MixdownWriter

/-! # The mixdown without resampling

The specification is the naive dense mix: one sum over all chunks for each sample
of the meeting. The writer's clusters, windows and silence blocks produce it.
-/

namespace DiscordTranscript.Application

open MachineInt Audio Rendering

/-! ## The dense mix -/

section

variable (files : ChunkPath → Option (List UInt8)) (chunks : List AudioChunkManifestEntry)
  (sampleRate : ℕ)

def denseOffset (chunk : AudioChunkManifestEntry) : ℕ :=
  (chunk.startMs - manifestMeetingStartMs chunks) * sampleRate / 1000

/-- The samples of a chunk before the cap; none of a chunk that starts beyond it. -/
def denseUsable (chunk : AudioChunkManifestEntry) : ℕ :=
  if chunk.startMs - manifestMeetingStartMs chunks > maxMeetingAudioSpanMs then 0
  else min (chunk.pcmDataSizeBytes / 2)
    (capSamples sampleRate - denseOffset chunks sampleRate chunk)

def denseLength : ℕ :=
  ((chunks.filter fun chunk => 0 < denseUsable chunks sampleRate chunk).map fun chunk =>
    denseOffset chunks sampleRate chunk + denseUsable chunks sampleRate chunk).max?.getD 0

/-- What a chunk adds at a position. -/
def denseContribution (position : ℕ) (chunk : AudioChunkManifestEntry) : ℤ :=
  if denseOffset chunks sampleRate chunk ≤ position ∧
      position < denseOffset chunks sampleRate chunk + denseUsable chunks sampleRate chunk then
    sampleAt (chunkBody files chunk) (position - denseOffset chunks sampleRate chunk)
  else 0

def denseSample (position : ℕ) : ℤ :=
  clampI16 (chunks.map (denseContribution files chunks sampleRate position)).sum

def denseMix : List UInt8 :=
  (List.range (denseLength chunks sampleRate)).flatMap fun position =>
    i16ToLeBytes (denseSample files chunks sampleRate position)

end

variable {files : ChunkPath → Option (List UInt8)} {chunks : List AudioChunkManifestEntry}
  {sampleRate : ℕ}

theorem denseMix_eq_render : denseMix files chunks sampleRate =
    render (fun position => i16ToLeBytes (denseSample files chunks sampleRate position)) 0
      (denseLength chunks sampleRate) := by
  rw [denseMix, render, Nat.sub_zero, List.range_eq_range']

theorem length_denseMix (files : ChunkPath → Option (List UInt8)) :
    (denseMix files chunks sampleRate).length = denseLength chunks sampleRate * 2 := by
  rw [denseMix_eq_render, length_render fun _ => length_i16ToLeBytes _, Nat.sub_zero]

/-! ## Placements and chunks -/

theorem mixdownPlacement_eq (chunk : AudioChunkManifestEntry) :
    mixdownPlacement (manifestMeetingStartMs chunks) sampleRate chunk =
      if hpos : 0 < denseUsable chunks sampleRate chunk then some {
        startSamples := denseOffset chunks sampleRate chunk
        endSamples := denseOffset chunks sampleRate chunk + denseUsable chunks sampleRate chunk
        samples := denseUsable chunks sampleRate chunk
        chunk := chunk
        samples_pos := hpos
        end_eq := rfl }
      else none := by
  by_cases hbeyond : chunk.startMs - manifestMeetingStartMs chunks > maxMeetingAudioSpanMs
  · simp [mixdownPlacement, denseUsable, hbeyond]
  · have husable : denseUsable chunks sampleRate chunk = min (chunk.pcmDataSizeBytes / 2)
        (capSamples sampleRate - denseOffset chunks sampleRate chunk) := if_neg hbeyond
    simp only [mixdownPlacement, if_neg hbeyond, ← denseOffset.eq_1, ← husable]
    by_cases hnone : denseUsable chunks sampleRate chunk = 0
    · rw [dif_pos hnone, dif_neg (by omega)]
    · rw [dif_neg hnone, dif_pos (Nat.pos_of_ne_zero hnone)]

/-- The chunk as the writer places it. -/
def denseSource (chunks : List AudioChunkManifestEntry) (sampleRate : ℕ)
    (chunk : AudioChunkManifestEntry) : ℕ × ℕ × AudioChunkManifestEntry :=
  (denseOffset chunks sampleRate chunk, denseUsable chunks sampleRate chunk, chunk)

theorem map_source_mixdownPlacements :
    (mixdownPlacements chunks sampleRate).map (·.source) =
      (chunks.filter fun chunk => 0 < denseUsable chunks sampleRate chunk).map
        (denseSource chunks sampleRate) := by
  unfold mixdownPlacements
  -- The meeting start stays that of the whole list.
  suffices h : ∀ part : List AudioChunkManifestEntry,
      (part.filterMap (mixdownPlacement (manifestMeetingStartMs chunks) sampleRate)).map
          (·.source) =
        (part.filter fun chunk => 0 < denseUsable chunks sampleRate chunk).map
          (denseSource chunks sampleRate) from h chunks
  intro part
  induction part with
  | nil => rfl
  | cons chunk rest ih =>
      rw [List.filterMap_cons, mixdownPlacement_eq, List.filter_cons]
      by_cases hpos : 0 < denseUsable chunks sampleRate chunk
      · simp only [hpos, dite_true, decide_true, if_true, List.map_cons, ih]
        rfl
      · simp [hpos, ih]

theorem clusterSources_perm :
    ((streamMixdownClusters chunks sampleRate).flatMap (·.chunks)).Perm
      ((chunks.filter fun chunk => 0 < denseUsable chunks sampleRate chunk).map
        (denseSource chunks sampleRate)) := by
  rw [(streamMixdownClusters_spec chunks sampleRate).sources, ← map_source_mixdownPlacements]
  exact (List.perm_insertionSort _ _).map _

theorem forall_clusterSources {property : ℕ × ℕ × AudioChunkManifestEntry → Prop} :
    (∀ cluster ∈ streamMixdownClusters chunks sampleRate, ∀ source ∈ cluster.chunks,
        property source) ↔
      ∀ chunk ∈ chunks, 0 < denseUsable chunks sampleRate chunk →
        property (denseSource chunks sampleRate chunk) := by
  calc (∀ cluster ∈ streamMixdownClusters chunks sampleRate, ∀ source ∈ cluster.chunks,
        property source)
      ↔ ∀ source ∈ (streamMixdownClusters chunks sampleRate).flatMap (·.chunks),
          property source := by
        simp only [List.mem_flatMap]
        exact ⟨fun h source ⟨cluster, hcluster, hsource⟩ => h cluster hcluster source hsource,
          fun h cluster hcluster source hsource => h source ⟨cluster, hcluster, hsource⟩⟩
    _ ↔ _ := by
        simp only [clusterSources_perm.mem_iff, List.forall_mem_map, List.mem_filter,
          decide_eq_true_eq, and_imp]

/-- What a placed source adds at a position. -/
def sourceContribution (files : ChunkPath → Option (List UInt8)) (position : ℕ)
    (source : ℕ × ℕ × AudioChunkManifestEntry) : ℤ :=
  if source.1 ≤ position ∧ position < source.1 + source.2.1 then
    sampleAt (chunkBody files source.2.2) (position - source.1)
  else 0

theorem sum_sourceContribution (position : ℕ) :
    (((streamMixdownClusters chunks sampleRate).flatMap (·.chunks)).map
        (sourceContribution files position)).sum =
      (chunks.map (denseContribution files chunks sampleRate position)).sum := by
  rw [(clusterSources_perm.map _).sum_eq, List.map_map]
  -- A chunk without usable samples is not placed, and contributes nothing to the dense sum.
  suffices h : ∀ part : List AudioChunkManifestEntry,
      ((part.filter fun chunk => 0 < denseUsable chunks sampleRate chunk).map
          (denseContribution files chunks sampleRate position)).sum =
        (part.map (denseContribution files chunks sampleRate position)).sum from h chunks
  intro part
  induction part with
  | nil => rfl
  | cons chunk rest ih =>
      rw [List.filter_cons, List.map_cons, List.sum_cons]
      by_cases hpos : 0 < denseUsable chunks sampleRate chunk
      · simp [hpos, ih]
      · have hnone : denseContribution files chunks sampleRate position chunk = 0 :=
          if_neg (by omega)
        simp [hpos, ih, hnone]

/-! ## Sums that never saturate -/

theorem sampleAt_bounds (pcm : List UInt8) (index : ℕ) :
    -(2 ^ 15) ≤ sampleAt pcm index ∧ sampleAt pcm index < 2 ^ 15 :=
  i16OfLeBytes_bounds _ _

theorem sourceContribution_bounds (position : ℕ) (source : ℕ × ℕ × AudioChunkManifestEntry) :
    -(2 ^ 15) ≤ sourceContribution files position source ∧
      sourceContribution files position source < 2 ^ 15 := by
  unfold sourceContribution
  split
  · exact sampleAt_bounds _ _
  · omega

/-- A bounded sum stays bounded and exact through one addition. -/
theorem addSample_eq {position : ℕ} {sum : ℤ} {source : ℕ × ℕ × AudioChunkManifestEntry}
    {added : ℕ} (hadded : added < maxMeetingAudioChunks)
    (hsum : -(2 ^ 15 * added) ≤ sum ∧ sum ≤ 2 ^ 15 * added) :
    addSample files position sum source = sum + sourceContribution files position source := by
  have hmax : maxMeetingAudioChunks = 4096 := rfl
  unfold addSample sourceContribution
  split
  · have hsample := sampleAt_bounds (chunkBody files source.2.2) (position - source.1)
    exact i32SaturatingAdd_of_bounds (by omega) (by omega)
  · rw [add_zero]

theorem foldl_addSample_eq {position : ℕ} {sources : List (ℕ × ℕ × AudioChunkManifestEntry)}
    {sum : ℤ} (added : ℕ) (hcount : added + sources.length ≤ maxMeetingAudioChunks)
    (hsum : -(2 ^ 15 * added) ≤ sum ∧ sum ≤ 2 ^ 15 * added) :
    sources.foldl (addSample files position) sum =
      sum + (sources.map (sourceContribution files position)).sum := by
  -- The bound grows with the number of sources added, and 4096 of them stay below 2^31.
  induction sources generalizing sum added with
  | nil => simp
  | cons source rest ih =>
      rw [List.length_cons] at hcount
      have hbounds : _ ≤ sourceContribution files position source ∧ _ :=
        sourceContribution_bounds position source
      rw [List.foldl_cons, List.map_cons, List.sum_cons, addSample_eq (by omega) hsum,
        ih (added + 1) (by omega) (by push_cast; omega), add_assoc]

theorem mixedSample_eq_sum {sources : List (ℕ × ℕ × AudioChunkManifestEntry)}
    (hcount : sources.length ≤ maxMeetingAudioChunks) (position : ℕ) :
    mixedSample files sources position =
      (sources.map (sourceContribution files position)).sum := by
  rw [mixedSample, foldl_addSample_eq 0 (by omega) (by simp), zero_add]

/-! ## One cluster at a time -/

theorem sourceContribution_of_outside {cluster : StreamMixdownCluster} (hexact : cluster.Exact)
    {source : ℕ × ℕ × AudioChunkManifestEntry} (hsource : source ∈ cluster.chunks) {position : ℕ}
    (houtside : position < cluster.startSamples ∨ cluster.endSamples ≤ position) :
    sourceContribution files position source = 0 := by
  have hstart := hexact.start_le source hsource
  have hend := hexact.le_end source hsource
  exact if_neg (by omega)

theorem sum_contribution_of_silent {clusters : List StreamMixdownCluster}
    (hexact : ∀ cluster ∈ clusters, cluster.Exact) {position : ℕ}
    (houtside : ∀ cluster ∈ clusters,
      position < cluster.startSamples ∨ cluster.endSamples ≤ position) :
    ((clusters.flatMap (·.chunks)).map (sourceContribution files position)).sum = 0 := by
  refine List.sum_eq_zero fun value hvalue => ?_
  obtain ⟨source, hsource, rfl⟩ := List.mem_map.mp hvalue
  obtain ⟨cluster, hcluster, hsource⟩ := List.mem_flatMap.mp hsource
  exact sourceContribution_of_outside (hexact cluster hcluster) hsource (houtside cluster hcluster)

/-- Where one cluster sounds, the others are silent. -/
theorem sum_contribution_of_mem (files : ChunkPath → Option (List UInt8))
    {clusters : List StreamMixdownCluster}
    (hexact : ∀ cluster ∈ clusters, cluster.Exact)
    (hseparated : clusters.Pairwise StreamMixdownCluster.Before)
    {cluster : StreamMixdownCluster} (hcluster : cluster ∈ clusters) {position : ℕ}
    (hstart : cluster.startSamples ≤ position) (hend : position < cluster.endSamples) :
    ((clusters.flatMap (·.chunks)).map (sourceContribution files position)).sum =
      (cluster.chunks.map (sourceContribution files position)).sum := by
  induction clusters with
  | nil => cases hcluster
  | cons first rest ih =>
      obtain ⟨hbefore, hseparated⟩ := List.pairwise_cons.mp hseparated
      obtain ⟨hfirst, hrest⟩ := List.forall_mem_cons.mp hexact
      rw [List.flatMap_cons, List.map_append, List.sum_append]
      rcases List.mem_cons.mp hcluster with rfl | hlater
      · -- The later clusters start behind the end of this one.
        rw [sum_contribution_of_silent hrest fun other hother => .inl ?_, add_zero]
        have hgap := hbefore other hother
        unfold StreamMixdownCluster.Before at hgap
        omega
      · have hgap := hbefore cluster hlater
        have hlt := (hrest cluster hlater).start_lt_end
        unfold StreamMixdownCluster.Before at hgap
        have hsilent : (first.chunks.map (sourceContribution files position)).sum = 0 := by
          rw [← List.flatMap_singleton (·.chunks) first]
          refine sum_contribution_of_silent (by simpa using hfirst) fun cluster hcluster => ?_
          rw [List.mem_singleton.mp hcluster]
          exact .inr (by omega)
        rw [ih hrest hseparated hlater, hsilent, zero_add]

theorem length_clusterChunks_le {cluster : StreamMixdownCluster}
    (hcluster : cluster ∈ streamMixdownClusters chunks sampleRate) :
    cluster.chunks.length ≤ chunks.length := by
  have hsublist : cluster.chunks.Sublist
      ((streamMixdownClusters chunks sampleRate).flatMap (·.chunks)) :=
    List.sublist_flatten_of_mem (List.mem_map_of_mem hcluster)
  calc cluster.chunks.length
      ≤ ((streamMixdownClusters chunks sampleRate).flatMap (·.chunks)).length := hsublist.length_le
    _ = (chunks.filter fun chunk => 0 < denseUsable chunks sampleRate chunk).length := by
        rw [clusterSources_perm.length_eq, List.length_map]
    _ ≤ chunks.length := List.length_filter_le _ _

section

variable {fir : List ℤ → ℤ} {resampleTo16k : Bool}
  (hrate : 0 < sampleRate) (hoff : ¬(resampleTo16k = true ∧ sampleRate = 48000))

theorem mixdownFormat_of_off (hoff : ¬(resampleTo16k = true ∧ sampleRate = 48000)) :
    mixdownFormat sampleRate resampleTo16k = ⟨sampleRate, sampleRate, false⟩ :=
  if_neg hoff

include hrate hoff

theorem outStart_of_off (cluster : StreamMixdownCluster) :
    (mixdownFormat sampleRate resampleTo16k).outStart cluster = cluster.startSamples := by
  refine MixdownFormat.outStart_of_plain (mixdownFormat_valid hrate _) ?_ cluster
  rw [mixdownFormat_of_off hoff]

theorem outEnd_of_off {cluster : StreamMixdownCluster} (hexact : cluster.Exact) :
    (mixdownFormat sampleRate resampleTo16k).outEnd cluster = cluster.endSamples := by
  rw [MixdownFormat.outEnd, outStart_of_off hrate hoff, mixdownFormat_of_off hoff,
    ← hexact.startSamples_add_span]
  rfl

theorem denseTimeline (hcount : chunks.length ≤ maxMeetingAudioChunks) :
    OnTimeline fir files (mixdownFormat sampleRate resampleTo16k)
      (fun position => i16ToLeBytes (denseSample files chunks sampleRate position))
      (streamMixdownClusters chunks sampleRate) 0 := by
  have hclusters := streamMixdownClusters_spec chunks sampleRate
  refine ⟨fun cluster hcluster n hn => ?_, fun n _ houtside => ?_⟩
  · have hexact := hclusters.exact cluster hcluster
    have hspan := hexact.startSamples_add_span
    have hsamples : (mixdownFormat sampleRate resampleTo16k).outSamples cluster =
        cluster.span := by
      rw [mixdownFormat_of_off hoff]
      rfl
    have hblock : clusterBlock fir files (mixdownFormat sampleRate resampleTo16k) cluster n =
        mixedBlock files cluster.chunks (cluster.startSamples + n) := by
      rw [mixdownFormat_of_off hoff]
      rfl
    have hsum := sum_contribution_of_mem files hclusters.exact hclusters.separated hcluster
      (Nat.le_add_right _ n) (by omega)
    rw [hblock, mixedBlock, mixedSample_eq_sum ((length_clusterChunks_le hcluster).trans hcount),
      outStart_of_off hrate hoff, denseSample, ← sum_sourceContribution, hsum]
  · have hsum : (chunks.map (denseContribution files chunks sampleRate n)).sum = 0 := by
      rw [← sum_sourceContribution]
      refine sum_contribution_of_silent hclusters.exact fun cluster hcluster => ?_
      rw [← outEnd_of_off hrate hoff (hclusters.exact cluster hcluster),
        ← outStart_of_off hrate hoff cluster]
      exact houtside cluster hcluster
    rw [denseSample, hsum]
    decide

theorem mixdownSamples_eq_denseLength :
    mixdownSamples chunks sampleRate resampleTo16k = denseLength chunks sampleRate := by
  have hclusters := streamMixdownClusters_spec chunks sampleRate
  refine eq_of_forall_ge_iff fun bound => ?_
  rw [mixdownSamples, MixdownFormat.plannedSamples, denseLength, List.max?_getD_le_iff,
    List.max?_getD_le_iff, List.forall_mem_map, List.forall_mem_map]
  have hends : (∀ cluster ∈ streamMixdownClusters chunks sampleRate,
      (mixdownFormat sampleRate resampleTo16k).outEnd cluster ≤ bound) ↔
      ∀ cluster ∈ streamMixdownClusters chunks sampleRate, ∀ source ∈ cluster.chunks,
        source.1 + source.2.1 ≤ bound := by
    -- The end of a cluster is the largest end of its sources, and one of them reaches it.
    refine forall₂_congr fun cluster hcluster => ?_
    have hexact := hclusters.exact cluster hcluster
    rw [outEnd_of_off hrate hoff hexact]
    constructor
    · exact fun hend source hsource => (hexact.le_end source hsource).trans hend
    · intro hsources
      obtain ⟨source, hsource, hreached⟩ := hexact.end_reached
      exact hreached ▸ hsources source hsource
  refine (hends.trans forall_clusterSources).trans ?_
  simp [denseSource]

theorem writeStreamingMixdownWav_off_ok_iff (hcount : chunks.length ≤ maxMeetingAudioChunks)
    {file : List UInt8} :
    writeStreamingMixdownWav fir files chunks sampleRate resampleTo16k = .ok file ↔
      (∀ chunk ∈ chunks, 0 < denseUsable chunks sampleRate chunk →
        Readable files (denseSource chunks sampleRate chunk)) ∧
      (denseMix files chunks sampleRate).length ≤ maxMixdownDataBytes ∧
      file = mixdownWavHeader sampleRate (denseMix files chunks sampleRate).length ++
        denseMix files chunks sampleRate := by
  rw [writeStreamingMixdownWav_ok_iff hrate (denseTimeline hrate hoff hcount),
    mixdownSamples_eq_denseLength hrate hoff, ← length_denseMix files,
    ← denseMix_eq_render, mixdownFormat_of_off hoff, forall_clusterSources]

end

/-! ## Order independence -/

section

variable {reordered : List AudioChunkManifestEntry} (hperm : reordered.Perm chunks)

include hperm

theorem manifestMeetingStartMs_perm :
    manifestMeetingStartMs reordered = manifestMeetingStartMs chunks := by
  have hstarts := hperm.map (·.startMs)
  rw [manifestMeetingStartMs, manifestMeetingStartMs, List.min?_perm hstarts,
    List.min?_perm (hstarts.filter _)]

theorem denseOffset_perm : denseOffset reordered sampleRate = denseOffset chunks sampleRate := by
  funext chunk
  rw [denseOffset, denseOffset, manifestMeetingStartMs_perm hperm]

theorem denseUsable_perm : denseUsable reordered sampleRate = denseUsable chunks sampleRate := by
  funext chunk
  rw [denseUsable, denseUsable, manifestMeetingStartMs_perm hperm, denseOffset_perm hperm]

theorem denseSource_perm : denseSource reordered sampleRate = denseSource chunks sampleRate := by
  funext chunk
  rw [denseSource, denseSource, denseOffset_perm hperm, denseUsable_perm hperm]

theorem denseLength_perm : denseLength reordered sampleRate = denseLength chunks sampleRate := by
  refine eq_of_forall_ge_iff fun bound => ?_
  simp only [denseLength, List.max?_getD_le_iff, List.forall_mem_map, List.mem_filter, hperm.mem_iff,
    denseOffset_perm hperm, denseUsable_perm hperm]

theorem denseSample_perm (position : ℕ) :
    denseSample files reordered sampleRate position =
      denseSample files chunks sampleRate position := by
  have hsame : denseContribution files reordered sampleRate position =
      denseContribution files chunks sampleRate position := by
    funext chunk
    rw [denseContribution, denseContribution, denseOffset_perm hperm, denseUsable_perm hperm]
  rw [denseSample, denseSample, hsame, (hperm.map _).sum_eq]

theorem denseMix_perm : denseMix files reordered sampleRate = denseMix files chunks sampleRate := by
  simp only [denseMix, denseLength_perm hperm, denseSample_perm hperm]

end

/-! ## The result -/

theorem sampleAt_denseMix {position : ℕ} (hposition : position < denseLength chunks sampleRate) :
    sampleAt (denseMix files chunks sampleRate) position =
      denseSample files chunks sampleRate position := by
  rw [denseMix_eq_render, sampleAt_render (fun _ => length_i16ToLeBytes _) (by omega), zero_add]
  have hbounds := clampI16_bounds
    (chunks.map (denseContribution files chunks sampleRate position)).sum
  exact i16OfLeBytes_i16ToLeBytes hbounds.1 hbounds.2

/-- Without resampling the writer produces the naive dense mix, whatever the
order of the chunks, behind a header that states its size. -/
theorem streaming_mixdown_eq_dense_mix (fir : List ℤ → ℤ)
    (files : ChunkPath → Option (List UInt8)) (chunks : List AudioChunkManifestEntry)
    (sampleRate : ℕ) (resampleTo16k : Bool) (file : List UInt8)
    (hrate : isSupportedWavSampleRate sampleRate = true)
    (hoff : ¬(resampleTo16k = true ∧ sampleRate = 48000))
    (hcount : chunks.length ≤ maxMeetingAudioChunks)
    (hwrite : writeStreamingMixdownWav fir files chunks sampleRate resampleTo16k = .ok file) :
    file = mixdownWavHeader sampleRate (denseMix files chunks sampleRate).length ++
        denseMix files chunks sampleRate ∧
      (denseMix files chunks sampleRate).length = denseLength chunks sampleRate * 2 ∧
      (∀ position < denseLength chunks sampleRate,
        sampleAt (denseMix files chunks sampleRate) position =
          denseSample files chunks sampleRate position) ∧
      DeclaresItsSize file ∧
      ∀ reordered : List AudioChunkManifestEntry, reordered.Perm chunks →
        writeStreamingMixdownWav fir files reordered sampleRate resampleTo16k = .ok file := by
  have hpos : 0 < sampleRate := by
    simp only [isSupportedWavSampleRate, Bool.and_eq_true, decide_eq_true_eq] at hrate
    exact hrate.1
  obtain ⟨hreadable, hsize, hfile⟩ :=
    (writeStreamingMixdownWav_off_ok_iff hpos hoff hcount).mp hwrite
  refine ⟨hfile, length_denseMix files, fun position => sampleAt_denseMix, ?_, ?_⟩
  · rw [hfile]
    exact declaresItsSize_mixdown hsize
  · intro reordered hperm
    rw [writeStreamingMixdownWav_off_ok_iff hpos hoff (hperm.length_eq.trans_le hcount),
      denseMix_perm hperm, denseUsable_perm hperm, denseSource_perm hperm]
    exact ⟨fun chunk hchunk => hreadable chunk (hperm.mem_iff.mp hchunk), hsize, hfile⟩

def twoSampleEntry (name : String) (startMs : ℕ) : AudioChunkManifestEntry where
  speakerId := "42"
  sequence := 1
  startMs := startMs
  durationMs := 2
  sampleRate := 1000
  fileSizeBytes := 48
  pcmDataSizeBytes := 4
  path := ⟨"audio", name⟩

def overlappingFiles (path : ChunkPath) : Option (List UInt8) :=
  if path.name = "a.wav" then some (mixdownWavHeader 1000 4 ++ [16, 0, 32, 0])
  else if path.name = "b.wav" then some (mixdownWavHeader 1000 4 ++ [20, 0, 7, 0])
  else none

theorem dense_mix_of_overlapping_chunks :
    writeStreamingMixdownWav (fun _ => 0) overlappingFiles
        [twoSampleEntry "b.wav" 1001, twoSampleEntry "a.wav" 1000] 1000 false =
      .ok (mixdownWavHeader 1000 6 ++ [16, 0, 52, 0, 7, 0]) := by
  have hcount : [twoSampleEntry "a.wav" 1000, twoSampleEntry "b.wav" 1001].length ≤
      maxMeetingAudioChunks := by decide
  have hwrite : writeStreamingMixdownWav (fun _ => 0) overlappingFiles
      [twoSampleEntry "a.wav" 1000, twoSampleEntry "b.wav" 1001] 1000 false =
        .ok (mixdownWavHeader 1000 6 ++ [16, 0, 52, 0, 7, 0]) := by
    refine (writeStreamingMixdownWav_off_ok_iff (by decide) (by decide) hcount).mpr
      ⟨fun chunk hchunk _ => ?_, by decide, by decide⟩
    simp only [List.mem_cons, List.not_mem_nil, or_false] at hchunk
    rcases hchunk with rfl | rfl
    · exact ⟨_, rfl, by decide⟩
    · exact ⟨_, rfl, by decide⟩
  exact (streaming_mixdown_eq_dense_mix _ _ _ _ _ _ (by decide) (by decide) hcount
    hwrite).2.2.2.2 _ (List.Perm.swap _ _ _)

end DiscordTranscript.Application
