import DiscordTranscript.Application.MixdownWriter

/-! # The resampled mixdown

With 48 kHz to 16 kHz resampling, the windows of a cluster add up to one run of
the resampler over the whole cluster, for any filter. The clusters keep their
places on the decimated timeline.
-/

namespace DiscordTranscript.Application

open MachineInt Audio Rendering

variable {fir : List ℤ → ℤ} {files : ChunkPath → Option (List UInt8)} {format : MixdownFormat}

/-! ## The decimated timeline -/

/-- The cluster that sounds at a position of the output, or silence. -/
def clusterTimeline (fir : List ℤ → ℤ) (files : ChunkPath → Option (List UInt8))
    (format : MixdownFormat) (clusters : List StreamMixdownCluster) (position : ℕ) : List UInt8 :=
  match clusters.find? fun cluster =>
    format.outStart cluster ≤ position && position < format.outEnd cluster with
  | some cluster => clusterBlock fir files format cluster (position - format.outStart cluster)
  | none => [0, 0]

@[simp]
theorem length_clusterTimeline (clusters : List StreamMixdownCluster) (position : ℕ) :
    (clusterTimeline fir files format clusters position).length = 2 := by
  unfold clusterTimeline
  split
  · exact length_clusterBlock _ _
  · rfl

/-- Two clusters that sound at one position are one. -/
theorem eq_of_outRange {clusters : List StreamMixdownCluster} (hvalid : format.Valid)
    (hexact : ∀ cluster ∈ clusters, cluster.Exact)
    (hseparated : clusters.Pairwise StreamMixdownCluster.Before)
    {left right : StreamMixdownCluster} (hleft : left ∈ clusters) (hright : right ∈ clusters)
    {position : ℕ} (hleftStart : format.outStart left ≤ position)
    (hleftEnd : position < format.outEnd left) (hrightStart : format.outStart right ≤ position)
    (hrightEnd : position < format.outEnd right) : left = right := by
  have hapart : clusters.Pairwise fun left right =>
      format.outEnd left ≤ format.outStart right ∨ format.outEnd right ≤ format.outStart left :=
    hseparated.imp_of_mem fun hmem _ hbefore =>
      .inl (MixdownFormat.outEnd_le_outStart hvalid (hexact _ hmem) hbefore)
  by_contra hne
  have hsymm : Std.Symm fun left right : StreamMixdownCluster =>
      format.outEnd left ≤ format.outStart right ∨ format.outEnd right ≤ format.outStart left :=
    ⟨fun _ _ => Or.symm⟩
  rcases hapart.forall hleft hright hne with hbefore | hafter
  · omega
  · omega

theorem clusterTimeline_onTimeline {clusters : List StreamMixdownCluster} (hvalid : format.Valid)
    (hexact : ∀ cluster ∈ clusters, cluster.Exact)
    (hseparated : clusters.Pairwise StreamMixdownCluster.Before) :
    OnTimeline fir files format (clusterTimeline fir files format clusters) clusters 0 := by
  refine ⟨fun cluster hcluster n hn => ?_, fun n _ houtside => ?_⟩
  · have hend : format.outStart cluster + n < format.outEnd cluster := Nat.add_lt_add_left hn _
    unfold clusterTimeline
    split
    next found hfound =>
      have hrange := List.find?_some hfound
      simp only [Bool.and_eq_true, decide_eq_true_eq] at hrange
      obtain rfl := eq_of_outRange hvalid hexact hseparated hcluster
        (List.mem_of_find?_eq_some hfound) (Nat.le_add_right _ n) hend hrange.1 hrange.2
      rw [Nat.add_sub_cancel_left]
    next hnone =>
      have hmissing := List.find?_eq_none.mp hnone cluster hcluster
      simp only [Bool.and_eq_true, decide_eq_true_eq] at hmissing
      exact absurd ⟨Nat.le_add_right _ n, hend⟩ hmissing
  · unfold clusterTimeline
    split
    next found hfound =>
      have hrange := List.find?_some hfound
      simp only [Bool.and_eq_true, decide_eq_true_eq] at hrange
      have hsilent := houtside found (List.mem_of_find?_eq_some hfound)
      omega
    next => rfl

/-! ## One cluster -/

theorem outStart_of_on (cluster : StreamMixdownCluster) :
    (mixdownFormat 48000 true).outStart cluster = cluster.startSamples / 3 :=
  MixdownFormat.outStart_of_resample (mixdownFormat_valid (by decide) true) rfl cluster

theorem outEnd_of_on (cluster : StreamMixdownCluster) :
    (mixdownFormat 48000 true).outEnd cluster = cluster.startSamples / 3 + cluster.span / 3 := by
  rw [MixdownFormat.outEnd, outStart_of_on]
  rfl

theorem resample_clusterPcm {cluster : StreamMixdownCluster} (hspan : 3 ≤ cluster.span) :
    resamplePcm16le fir (clusterPcm files cluster) 48000 16000 =
      (render (clusterBlock fir files (mixdownFormat 48000 true) cluster) 0 (cluster.span / 3),
        16000) := by
  have hsamples : (clusterPcm files cluster).length / 2 = cluster.span := by
    rw [clusterPcm, samples_render (length_mixedBlock cluster.chunks), Nat.add_sub_cancel_left]
  rw [resamplePcm16le_eq_render (by omega), hsamples]
  rfl

theorem slice_behind_header (sampleRate dataSize : ℕ) (pcm : List UInt8) (start stop : ℕ) :
    slice (mixdownWavHeader sampleRate dataSize ++ pcm) (44 + start) (44 + stop) =
      slice pcm start stop := by
  have hcount : 44 + stop - (44 + start) = stop - start := by omega
  have hheader := length_mixdownWavHeader sampleRate dataSize
  have hdrop : (mixdownWavHeader sampleRate dataSize ++ pcm).drop (44 + start) =
      pcm.drop start := by
    rw [← List.drop_drop, List.drop_left' hheader]
  rw [slice, slice, hcount, hdrop]

/-- The window loop of a cluster, started on its own. -/
theorem writeWindows_eq_resample (fir : List ℤ → ℤ) {cluster : StreamMixdownCluster}
    (hexact : cluster.Exact)
    (hspan : 3 ≤ cluster.span) (hreadable : ∀ source ∈ cluster.chunks, Readable files source) :
    ∃ whole stream, mixManifestWindow files cluster 0 cluster.span = .ok whole ∧
      resamplePcm16le fir whole 48000 16000 = (stream.pcm, 16000) ∧
      writeWindows fir files (mixdownFormat 48000 true) cluster 0 {} = .ok stream ∧
      stream.pcm = render (clusterBlock fir files (mixdownFormat 48000 true) cluster) 0
        (cluster.span / 3) := by
  have hvalid := mixdownFormat_valid (by decide : 0 < 48000) true
  have hwhole : mixManifestWindow files cluster 0 cluster.span = .ok (clusterPcm files cluster) :=
    mixManifestWindow_ok_iff.mpr
      ⟨fun source hsource _ => (hreadable source hsource).upTo _, rfl⟩
  have hboundary : WindowBoundary cluster.span 0 := ⟨Nat.zero_le _, .inl rfl⟩
  obtain ⟨stream, hstream⟩ : ∃ stream,
      writeWindows fir files (mixdownFormat 48000 true) cluster 0 {} = .ok stream :=
    writeWindows_of_readable hvalid (fun _ => hspan) hreadable hboundary {}
  obtain ⟨hpcm, -, -⟩ := writeWindows_ok hvalid hexact (fun _ => hspan) hboundary
    (Nat.zero_le _) (by omega) hstream
  rw [MixdownFormat.progress_zero] at hpcm
  refine ⟨clusterPcm files cluster, stream, hwhole, ?_, hstream, hpcm⟩
  rw [resample_clusterPcm hspan, hpcm]
  rfl

/-- With resampling on, where the windows are cut cannot be observed: each cluster
is one run of the resampler over its whole mix, at a third of its start, with
silence around it and a header that states the size of it all. -/
theorem streaming_mixdown_windows_unobservable (fir : List ℤ → ℤ)
    (files : ChunkPath → Option (List UInt8)) (chunks : List AudioChunkManifestEntry)
    (file : List UInt8)
    (hwrite : writeStreamingMixdownWav fir files chunks 48000 true = .ok file) :
    (∀ cluster ∈ streamMixdownClusters chunks 48000, 3 ≤ cluster.span →
      ∃ whole stream, mixManifestWindow files cluster 0 cluster.span = .ok whole ∧
        resamplePcm16le fir whole 48000 16000 = (stream.pcm, 16000) ∧
        stream.pcm.length = cluster.span / 3 * 2 ∧
        writeWindows fir files (mixdownFormat 48000 true) cluster 0 {} = .ok stream ∧
        slice file (44 + cluster.startSamples / 3 * 2)
          (44 + (cluster.startSamples / 3 + cluster.span / 3) * 2) = stream.pcm) ∧
      (∀ position, 44 + (position + 1) * 2 ≤ file.length →
        (∀ cluster ∈ streamMixdownClusters chunks 48000,
          position < cluster.startSamples / 3 ∨
            cluster.startSamples / 3 + cluster.span / 3 ≤ position) →
        slice file (44 + position * 2) (44 + (position + 1) * 2) = [0, 0]) ∧
      (streamMixdownClusters chunks 48000).Pairwise (fun left right =>
        left.startSamples / 3 + left.span / 3 ≤ right.startSamples / 3) ∧
      (∀ cluster ∈ streamMixdownClusters chunks 48000,
        44 + (cluster.startSamples / 3 + cluster.span / 3) * 2 ≤ file.length) ∧
      DeclaresItsSize file := by
  have hvalid := mixdownFormat_valid (by decide : 0 < 48000) true
  have hclusters := streamMixdownClusters_spec chunks 48000
  have htimeline : OnTimeline fir files (mixdownFormat 48000 true) _ _ 0 :=
    clusterTimeline_onTimeline hvalid hclusters.exact hclusters.separated
  obtain ⟨hreadable, hsize, hfile⟩ :=
    (writeStreamingMixdownWav_ok_iff (by decide) htimeline).mp hwrite
  have hwidth : ∀ position, (clusterTimeline fir files (mixdownFormat 48000 true)
      (streamMixdownClusters chunks 48000) position).length = 2 := length_clusterTimeline _
  have hlength : (render (clusterTimeline fir files (mixdownFormat 48000 true)
      (streamMixdownClusters chunks 48000)) 0 (mixdownSamples chunks 48000 true)).length =
        mixdownSamples chunks 48000 true * 2 := by
    rw [length_render hwidth, Nat.sub_zero]
  have hends : ∀ cluster ∈ streamMixdownClusters chunks 48000,
      cluster.startSamples / 3 + cluster.span / 3 ≤ mixdownSamples chunks 48000 true := by
    intro cluster hcluster
    rw [← outEnd_of_on]
    exact List.max?_getD_le_iff.mp le_rfl _ (List.mem_map_of_mem hcluster)
  have hfileLength : file.length = 44 + mixdownSamples chunks 48000 true * 2 := by
    rw [hfile, List.length_append, length_mixdownWavHeader, hlength]
  refine ⟨fun cluster hcluster hspan => ?_, fun position hinside houtside => ?_, ?_, ?_, ?_⟩
  · have hexact := hclusters.exact cluster hcluster
    obtain ⟨whole, stream, hwhole, hresampled, hstream, hpcm⟩ :=
      writeWindows_eq_resample fir hexact hspan (hreadable cluster hcluster)
    refine ⟨whole, stream, hwhole, hresampled, ?_, hstream, ?_⟩
    · rw [hpcm, length_render (length_clusterBlock cluster), Nat.sub_zero]
    · rw [hfile, slice_behind_header, slice_render hwidth (Nat.le_add_right _ _)
        (hends cluster hcluster), hpcm, ← outEnd_of_on, ← outStart_of_on,
        htimeline.render_cluster hcluster]
      rfl
  · rw [hfile, slice_behind_header, slice_render hwidth (Nat.le_succ position) (by omega),
      render_succ (Nat.lt_succ_self position), render_of_le le_rfl, List.append_nil]
    refine htimeline.silence position (Nat.zero_le _) fun cluster hcluster => ?_
    rw [outStart_of_on, outEnd_of_on]
    exact houtside cluster hcluster
  · refine hclusters.separated.imp_of_mem fun hmem _ hbefore => ?_
    rw [← outEnd_of_on, ← outStart_of_on]
    exact MixdownFormat.outEnd_le_outStart hvalid (hclusters.exact _ hmem) hbefore
  · intro cluster hcluster
    have hend := hends cluster hcluster
    omega
  · rw [hfile, ← hlength]
    exact declaresItsSize_mixdown (hlength.trans_le hsize)

def silentEntry (name : String) (startMs : ℕ) : AudioChunkManifestEntry where
  speakerId := "42"
  sequence := 1
  startMs := startMs
  durationMs := 0
  sampleRate := 48000
  fileSizeBytes := 52
  pcmDataSizeBytes := 8
  path := ⟨"audio", name⟩

def silentFiles (_ : ChunkPath) : Option (List UInt8) :=
  some (mixdownWavHeader 48000 8 ++ List.replicate 8 0)

/-- On silent input the filter gives zero. The second chunk is a cluster of its own. -/
theorem silent_clusters_windows_unobservable :
    ∃ file, writeStreamingMixdownWav (fun _ => 0) silentFiles
        [silentEntry "b.wav" 1010, silentEntry "a.wav" 1000] 48000 true = .ok file ∧
      slice file (44 + 480 / 3 * 2) (44 + (480 / 3 + 4 / 3) * 2) = [0, 0] ∧
      DeclaresItsSize file := by
  have hclusters : streamMixdownClusters
      [silentEntry "b.wav" 1010, silentEntry "a.wav" 1000] 48000 =
        [⟨0, 4, [(0, 4, silentEntry "a.wav" 1000)]⟩,
          ⟨480, 484, [(480, 4, silentEntry "b.wav" 1010)]⟩] := by decide +kernel
  have hspec := streamMixdownClusters_spec
    [silentEntry "b.wav" 1010, silentEntry "a.wav" 1000] 48000
  have htimeline : OnTimeline (fun _ => 0) silentFiles (mixdownFormat 48000 true) _ _ 0 :=
    clusterTimeline_onTimeline (mixdownFormat_valid (by decide) true) hspec.exact
      hspec.separated
  obtain ⟨file, hwrite⟩ : ∃ file, writeStreamingMixdownWav (fun _ => 0) silentFiles
      [silentEntry "b.wav" 1010, silentEntry "a.wav" 1000] 48000 true = .ok file := by
    have hsamples : mixdownSamples [silentEntry "b.wav" 1010, silentEntry "a.wav" 1000] 48000
        true = 161 := by
      rw [mixdownSamples, hclusters]
      rfl
    refine ⟨_, (writeStreamingMixdownWav_ok_iff (by decide) htimeline).mpr
      ⟨?_, by rw [hsamples]; decide, rfl⟩⟩
    rw [hclusters]
    intro cluster hcluster source hsource
    refine ⟨_, rfl, ?_⟩
    simp only [List.mem_cons, List.not_mem_nil, or_false] at hcluster
    rcases hcluster with rfl | rfl
    · rw [List.mem_singleton.mp hsource]
      decide
    · rw [List.mem_singleton.mp hsource]
      decide
  obtain ⟨hresampled, -, -, -, hsize⟩ :=
    streaming_mixdown_windows_unobservable (fun _ => 0) silentFiles _ file hwrite
  obtain ⟨whole, stream, hwhole, hpcm, -, -, hslice⟩ := hresampled
    ⟨480, 484, [(480, 4, silentEntry "b.wav" 1010)]⟩ (by rw [hclusters]; simp) (by decide)
  have hzeros : mixManifestWindow silentFiles
      ⟨480, 484, [(480, 4, silentEntry "b.wav" 1010)]⟩ 0 4 = .ok (List.replicate 8 0) := rfl
  obtain rfl : List.replicate 8 0 = whole := Except.ok.inj (hzeros.symm.trans hwhole)
  exact ⟨file, hwrite, hslice.trans (congrArg Prod.fst hpcm).symm, hsize⟩

end DiscordTranscript.Application
