import DiscordTranscript.Application.Mixdown

/-! # Clusters of a mixdown

The clusters partition the placed chunks, each spans exactly its chunks, and
consecutive clusters are at least twice the reach of the filter apart.
-/

namespace DiscordTranscript.Application

open Audio

namespace StreamMixdownCluster

/-- A cluster spans its chunks and nothing more. -/
structure Exact (cluster : StreamMixdownCluster) : Prop where
  start_le : ∀ source ∈ cluster.chunks, cluster.startSamples ≤ source.1
  le_end : ∀ source ∈ cluster.chunks, source.1 + source.2.1 ≤ cluster.endSamples
  end_reached : ∃ source ∈ cluster.chunks, source.1 + source.2.1 = cluster.endSamples
  start_lt_end : cluster.startSamples < cluster.endSamples
  samples_pos : ∀ source ∈ cluster.chunks, 0 < source.2.1

/-- Far enough apart that no filter tap of one reaches the other. -/
def Before (left right : StreamMixdownCluster) : Prop :=
  left.endSamples + 2 * resampleFirTaps ≤ right.startSamples

theorem Exact.startSamples_add_span {cluster : StreamMixdownCluster} (hexact : cluster.Exact) :
    cluster.startSamples + cluster.span = cluster.endSamples := by
  have hlt := hexact.start_lt_end
  unfold span
  omega

end StreamMixdownCluster

/-- What the clustering loop has made of the placements so far. -/
structure ClustersOf (placements : List MixdownPlacement) (clusters : List StreamMixdownCluster) :
    Prop where
  sources : clusters.flatMap (·.chunks) = placements.map (·.source)
  exact : ∀ cluster ∈ clusters, cluster.Exact
  separated : clusters.Pairwise StreamMixdownCluster.Before
  started : ∀ cluster ∈ clusters, ∃ placement ∈ placements,
    cluster.startSamples = placement.startSamples

theorem clustersOf_nil : ClustersOf [] [] :=
  ⟨rfl, by simp, .nil, by simp⟩

def freshCluster (placement : MixdownPlacement) : StreamMixdownCluster where
  startSamples := placement.startSamples
  endSamples := placement.endSamples
  chunks := [placement.source]

theorem freshCluster_exact (placement : MixdownPlacement) : (freshCluster placement).Exact := by
  have hend := placement.end_eq
  have hpos := placement.samples_pos
  refine ⟨?_, ?_, ⟨placement.source, List.mem_singleton.mpr rfl, hend.symm⟩, ?_, ?_⟩
  · simp [freshCluster, MixdownPlacement.source]
  · simp [freshCluster, MixdownPlacement.source, hend]
  · simp only [freshCluster]
    omega
  · simpa [freshCluster, MixdownPlacement.source] using hpos

def extendCluster (cluster : StreamMixdownCluster) (placement : MixdownPlacement) :
    StreamMixdownCluster :=
  { cluster with
    endSamples := max cluster.endSamples placement.endSamples
    chunks := cluster.chunks ++ [placement.source] }

theorem extendCluster_exact {cluster : StreamMixdownCluster} {placement : MixdownPlacement}
    (hexact : cluster.Exact) (hstart : cluster.startSamples ≤ placement.startSamples) :
    (extendCluster cluster placement).Exact := by
  have hend := placement.end_eq
  refine ⟨?_, ?_, ?_, lt_max_of_lt_left hexact.start_lt_end, ?_⟩
  · intro source hsource
    rcases List.mem_append.mp hsource with hold | hnew
    · exact hexact.start_le source hold
    · rw [List.mem_singleton.mp hnew]
      exact hstart
  · intro source hsource
    rcases List.mem_append.mp hsource with hold | hnew
    · exact (hexact.le_end source hold).trans (le_max_left _ _)
    · rw [List.mem_singleton.mp hnew]
      exact hend.symm.le.trans (le_max_right _ _)
  · rcases le_total cluster.endSamples placement.endSamples with hle | hle
    · refine ⟨placement.source, List.mem_append_right _ (List.mem_singleton.mpr rfl), ?_⟩
      exact hend.symm.trans (max_eq_right hle).symm
    · obtain ⟨source, hsource, hreached⟩ := hexact.end_reached
      exact ⟨source, List.mem_append_left _ hsource, hreached.trans (max_eq_left hle).symm⟩
  · intro source hsource
    rcases List.mem_append.mp hsource with hold | hnew
    · exact hexact.samples_pos source hold
    · rw [List.mem_singleton.mp hnew]
      exact placement.samples_pos

theorem addPlacement_nil (placement : MixdownPlacement) :
    addPlacement [] placement = [freshCluster placement] := rfl

theorem addPlacement_concat (clusters : List StreamMixdownCluster)
    (cluster : StreamMixdownCluster) (placement : MixdownPlacement) :
    addPlacement (clusters ++ [cluster]) placement =
      if placement.startSamples - cluster.endSamples < 2 * resampleFirTaps then
        clusters ++ [extendCluster cluster placement]
      else clusters ++ [cluster] ++ [freshCluster placement] := by
  simp [addPlacement, freshCluster, extendCluster]

theorem ClustersOf.addPlacement {placements : List MixdownPlacement}
    {clusters : List StreamMixdownCluster} (hclusters : ClustersOf placements clusters)
    (placement : MixdownPlacement)
    (hsorted : ∀ earlier ∈ placements, earlier.startSamples ≤ placement.startSamples) :
    ClustersOf (placements ++ [placement]) (addPlacement clusters placement) := by
  rcases List.eq_nil_or_concat clusters with rfl | ⟨front, last, rfl⟩
  · have hnone : placements.map (·.source) = [] := hclusters.sources.symm
    rw [addPlacement_nil]
    refine ⟨?_, ?_, List.pairwise_singleton _ _, ?_⟩
    · simp [hnone, freshCluster]
    · simpa using freshCluster_exact placement
    · exact fun cluster hcluster => ⟨placement, by simp, by simp_all [freshCluster]⟩
  · rw [List.concat_eq_append] at hclusters ⊢
    have hlast : last ∈ front ++ [last] := List.mem_append_right _ (List.mem_singleton.mpr rfl)
    obtain ⟨hfront, -, hbefore⟩ := List.pairwise_append.mp hclusters.separated
    have hstarted : ∀ cluster ∈ front ++ [last], ∃ earlier ∈ placements ++ [placement],
        cluster.startSamples = earlier.startSamples := fun cluster hcluster =>
      (hclusters.started cluster hcluster).imp fun earlier hearlier =>
        ⟨List.mem_append_left _ hearlier.1, hearlier.2⟩
    have hsources := hclusters.sources
    rw [List.flatMap_append] at hsources
    rw [addPlacement_concat]
    split
    next hclose =>
      -- Placements arrive by start, so the cluster cannot start after the new one.
      obtain ⟨first, hfirst, hstart⟩ := hclusters.started last hlast
      have hle : last.startSamples ≤ placement.startSamples := hstart ▸ hsorted first hfirst
      refine ⟨?_, ?_, ?_, ?_⟩
      · rw [List.map_append, ← hsources, List.flatMap_append, List.append_assoc]
        simp [extendCluster]
      · intro cluster hcluster
        rcases List.mem_append.mp hcluster with hold | hnew
        · exact hclusters.exact cluster (List.mem_append_left _ hold)
        · rw [List.mem_singleton.mp hnew]
          exact extendCluster_exact (hclusters.exact last hlast) hle
      · refine List.pairwise_append.mpr ⟨hfront, List.pairwise_singleton _ _, ?_⟩
        intro cluster hcluster extended hextended
        rw [List.mem_singleton.mp hextended]
        exact hbefore cluster hcluster last (List.mem_singleton.mpr rfl)
      · intro cluster hcluster
        rcases List.mem_append.mp hcluster with hold | hnew
        · exact hstarted cluster (List.mem_append_left _ hold)
        · rw [List.mem_singleton.mp hnew]
          exact hstarted last hlast
    next hfar =>
      have hgap : last.endSamples + 2 * resampleFirTaps ≤ placement.startSamples := by
        have htaps : 0 < 2 * resampleFirTaps := by decide
        omega
      refine ⟨?_, ?_, ?_, ?_⟩
      · rw [List.map_append, ← hsources]
        simp [freshCluster]
      · intro cluster hcluster
        rcases List.mem_append.mp hcluster with hold | hnew
        · exact hclusters.exact cluster hold
        · rw [List.mem_singleton.mp hnew]
          exact freshCluster_exact placement
      · refine List.pairwise_append.mpr ⟨hclusters.separated, List.pairwise_singleton _ _, ?_⟩
        intro cluster hcluster fresh hfresh
        rw [List.mem_singleton.mp hfresh]
        rcases List.mem_append.mp hcluster with hold | hnew
        · have hearlier := hbefore cluster hold last (List.mem_singleton.mpr rfl)
          have hspan := (hclusters.exact last hlast).start_lt_end
          unfold StreamMixdownCluster.Before at hearlier ⊢
          simp only [freshCluster]
          omega
        · rw [List.mem_singleton.mp hnew]
          exact hgap
      · intro cluster hcluster
        rcases List.mem_append.mp hcluster with hold | hnew
        · exact hstarted cluster hold
        · rw [List.mem_singleton.mp hnew]
          exact ⟨placement, List.mem_append_right _ (List.mem_singleton.mpr rfl), rfl⟩

theorem ClustersOf.foldl {placements rest : List MixdownPlacement}
    {clusters : List StreamMixdownCluster} (hclusters : ClustersOf placements clusters)
    (hsorted : (placements ++ rest).Pairwise fun left right =>
      left.startSamples ≤ right.startSamples) :
    ClustersOf (placements ++ rest) (rest.foldl Application.addPlacement clusters) := by
  induction rest generalizing placements clusters with
  | nil => simpa using hclusters
  | cons placement rest ih =>
      have hstep := hclusters.addPlacement placement fun earlier hearlier =>
        (List.pairwise_append.mp hsorted).2.2 earlier hearlier placement List.mem_cons_self
      have hassoc : placements ++ placement :: rest = placements ++ [placement] ++ rest := by simp
      rw [hassoc] at hsorted ⊢
      exact ih hstep hsorted

theorem pairwise_sortPlacements (placements : List MixdownPlacement) :
    (sortPlacements placements).Pairwise fun left right =>
      left.startSamples ≤ right.startSamples :=
  List.pairwise_insertionSort_key (fun placement : MixdownPlacement => placement.startSamples) _

theorem streamMixdownClusters_spec (chunks : List AudioChunkManifestEntry) (sampleRate : ℕ) :
    ClustersOf (sortPlacements (mixdownPlacements chunks sampleRate))
      (streamMixdownClusters chunks sampleRate) := by
  have hsorted := pairwise_sortPlacements (mixdownPlacements chunks sampleRate)
  rw [← List.nil_append (sortPlacements _)] at hsorted ⊢
  exact clustersOf_nil.foldl hsorted

end DiscordTranscript.Application
