import DiscordTranscript.Application.MixdownWindows

/-! # The mixdown writer

The bytes behind the header are the rendering of one timeline: each cluster at
its place, silence between them. The writer succeeds when the staged files hold
the samples that their metadata promises and the result fits a WAV file.
-/

namespace DiscordTranscript.Application

open MachineInt Audio Rendering

namespace MixdownFormat

/-- The two formats that the writer works in. -/
structure Valid (format : MixdownFormat) : Prop where
  resampled : format.resample = true → format.sampleRate = 48000 ∧ format.outRate = 16000
  plain : format.resample = false → format.outRate = format.sampleRate ∧ 0 < format.sampleRate

def outSamples (format : MixdownFormat) (cluster : StreamMixdownCluster) : ℕ :=
  if format.resample then cluster.span / 3 else cluster.span

def outEnd (format : MixdownFormat) (cluster : StreamMixdownCluster) : ℕ :=
  format.outStart cluster + format.outSamples cluster

variable {format : MixdownFormat}

theorem outStart_of_resample (hvalid : format.Valid) (hresample : format.resample = true)
    (cluster : StreamMixdownCluster) : format.outStart cluster = cluster.startSamples / 3 := by
  obtain ⟨hrate, hout⟩ := hvalid.resampled hresample
  rw [outStart, hrate, hout]
  omega

theorem outStart_of_plain (hvalid : format.Valid) (hplain : format.resample = false)
    (cluster : StreamMixdownCluster) : format.outStart cluster = cluster.startSamples := by
  obtain ⟨hout, hpos⟩ := hvalid.plain hplain
  rw [outStart, hout, Nat.mul_div_cancel _ hpos]

/-- Clusters never overlap in the output. -/
theorem outEnd_le_outStart (hvalid : format.Valid) {left right : StreamMixdownCluster}
    (hleft : left.Exact) (hbefore : left.Before right) :
    format.outEnd left ≤ format.outStart right := by
  have hspan := hleft.startSamples_add_span
  unfold StreamMixdownCluster.Before at hbefore
  unfold outEnd outSamples
  cases hmode : format.resample with
  | true =>
      -- The start and the span are rounded down apart; the gap outweighs what that gains.
      rw [outStart_of_resample hvalid hmode, outStart_of_resample hvalid hmode, if_pos rfl]
      omega
  | false =>
      rw [outStart_of_plain hvalid hmode, outStart_of_plain hvalid hmode,
        if_neg Bool.false_ne_true]
      omega

/-- How far the output of a cluster has come when its window loop reaches `coreStart`. -/
def progress (format : MixdownFormat) (cluster : StreamMixdownCluster) (coreStart : ℕ) : ℕ :=
  if format.resample then endOut cluster.span coreStart else coreStart

@[simp]
theorem progress_zero (cluster : StreamMixdownCluster) : format.progress cluster 0 = 0 := by
  simp [progress, endOut, divCeil]

theorem progress_span (cluster : StreamMixdownCluster) :
    format.progress cluster cluster.span = format.outSamples cluster := by
  unfold progress outSamples endOut divCeil
  split
  · omega
  · rfl

theorem progress_le_outSamples {cluster : StreamMixdownCluster} {coreStart : ℕ}
    (hle : coreStart ≤ cluster.span) :
    format.progress cluster coreStart ≤ format.outSamples cluster := by
  unfold progress outSamples endOut
  split
  · exact min_le_right _ _
  · exact hle

end MixdownFormat

section

variable (fir : List ℤ → ℤ) (files : ChunkPath → Option (List UInt8))

/-- The whole cluster, mixed at once. -/
def clusterPcm (cluster : StreamMixdownCluster) : List UInt8 :=
  render (mixedBlock files cluster.chunks) cluster.startSamples
    (cluster.startSamples + cluster.span)

/-- One output sample of a cluster, without windows. -/
def clusterBlock (format : MixdownFormat) (cluster : StreamMixdownCluster) (n : ℕ) : List UInt8 :=
  if format.resample then resampledBlock fir (clusterPcm files cluster) n
  else mixedBlock files cluster.chunks (cluster.startSamples + n)

end

variable {fir : List ℤ → ℤ} {files : ChunkPath → Option (List UInt8)} {format : MixdownFormat}

@[simp]
theorem length_clusterBlock (cluster : StreamMixdownCluster) (n : ℕ) :
    (clusterBlock fir files format cluster n).length = 2 := by
  unfold clusterBlock
  split
  · exact length_resampledBlock _ _ _
  · exact length_mixedBlock _ _

/-! ## One window -/

/-- The part of a cluster that the window of a core reads. -/
theorem readRange_core {cluster : StreamMixdownCluster} {coreStart coreEnd : ℕ}
    (hcore : WindowCore cluster.span coreStart coreEnd)
    (hlong : format.resample = true → 3 ≤ cluster.span) :
    (format.readRange coreStart coreEnd cluster.span).1 ≤ coreStart ∧
      coreEnd ≤ (format.readRange coreStart coreEnd cluster.span).2 := by
  cases hmode : format.resample with
  | true =>
      have hrange := haloRange_readRange hmode hcore (hlong hmode)
      exact ⟨hrange.start_le, hrange.core_le⟩
  | false => simp [MixdownFormat.readRange, hmode]

theorem endOut_eq_firstOut {span coreStart coreEnd : ℕ}
    (hcore : WindowCore span coreStart coreEnd) : endOut span coreStart = firstOut coreStart := by
  obtain ⟨hgrid, hadvance, hend⟩ := hcore.onGrid
  unfold endOut firstOut divCeil
  omega

theorem windowOutput_ok_iff (hvalid : format.Valid) {cluster : StreamMixdownCluster}
    {coreStart coreEnd : ℕ} (hcore : WindowCore cluster.span coreStart coreEnd)
    (hlong : format.resample = true → 3 ≤ cluster.span) {output : List UInt8} :
    windowOutput fir files format cluster coreStart coreEnd = .ok output ↔
      WindowReadable files cluster (format.readRange coreStart coreEnd cluster.span).1
          (format.readRange coreStart coreEnd cluster.span).2 ∧
        output = render (clusterBlock fir files format cluster)
          (format.progress cluster coreStart) (format.progress cluster coreEnd) := by
  cases hmode : format.resample with
  | true =>
      obtain ⟨hrate, hout⟩ := hvalid.resampled hmode
      have hrange := haloRange_readRange hmode hcore (hlong hmode)
      have hblocks : clusterBlock fir files format cluster =
          resampledBlock fir (clusterPcm files cluster) := by
        funext n
        simp [clusterBlock, hmode]
      have hwidth : ∀ position, (mixedBlock files cluster.chunks position).length = 2 :=
        length_mixedBlock cluster.chunks
      have htrim := trimWindow_resampled fir hwidth cluster.startSamples hcore hrange
      rw [← clusterPcm, ← hblocks] at htrim
      have hfrom : format.progress cluster coreStart = firstOut coreStart := by
        simp [MixdownFormat.progress, hmode, endOut_eq_firstOut hcore]
      have hto : format.progress cluster coreEnd = endOut cluster.span coreEnd := by
        simp [MixdownFormat.progress, hmode]
      rw [hfrom, hto, ← htrim]
      simp only [windowOutput, bind, Except.bind_eq_ok, mixManifestWindow_ok_iff, hmode, if_true,
        hrate, hout, pure, Except.pure, Except.ok.injEq, and_assoc, exists_and_left,
        exists_eq_left, eq_comm (a := output)]
  | false =>
      have hblocks : ∀ n, clusterBlock fir files format cluster n =
          mixedBlock files cluster.chunks (cluster.startSamples + n) := fun n => by
        simp [clusterBlock, hmode]
      simp only [windowOutput, MixdownFormat.readRange, MixdownFormat.progress, hmode, bind,
        Except.bind_eq_ok, mixManifestWindow_ok_iff, Bool.false_eq_true, if_false, pure,
        Except.pure, Except.ok.injEq, and_assoc, exists_and_left, exists_eq_left,
        eq_comm (a := output), render_add]
      rw [render_congr fun n _ _ => (hblocks n).symm]

/-! ## The window loop -/

theorem progress_le_of_core {cluster : StreamMixdownCluster} {coreStart coreEnd : ℕ}
    (hcore : WindowCore cluster.span coreStart coreEnd) :
    format.progress cluster coreStart ≤ format.progress cluster coreEnd := by
  unfold MixdownFormat.progress
  split
  · exact (endOut_eq_firstOut hcore).trans_le hcore.firstOut_le_endOut
  · exact hcore.onGrid.2.1.le

theorem outputOffset_eq_progress {cluster : StreamMixdownCluster} {coreStart coreEnd : ℕ}
    (hcore : WindowCore cluster.span coreStart coreEnd) :
    (if format.resample then divCeil coreStart 3 else coreStart) =
      format.progress cluster coreStart := by
  unfold MixdownFormat.progress
  split
  · exact (endOut_eq_firstOut hcore).symm
  · rfl

theorem Readable.upTo {source : ℕ × ℕ × AudioChunkManifestEntry} (hreadable : Readable files source)
    (stop : ℕ) : ReadableUpTo files source stop := by
  obtain ⟨bytes, hfile, hlength⟩ := hreadable
  exact ⟨bytes, hfile, by omega⟩

/-- A window that reaches the last sample of a source has read all of it. -/
theorem WindowReadable.readable {cluster : StreamMixdownCluster} {start stop : ℕ}
    (hwindow : WindowReadable files cluster start stop)
    {source : ℕ × ℕ × AudioChunkManifestEntry} (hsource : source ∈ cluster.chunks)
    (hpos : 0 < source.2.1) (hstart : cluster.startSamples + start < source.1 + source.2.1)
    (hstop : source.1 + source.2.1 ≤ cluster.startSamples + stop) : Readable files source := by
  obtain ⟨bytes, hfile, hlength⟩ := hwindow source hsource (by omega)
  exact ⟨bytes, hfile, by omega⟩

/-- A boundary between two windows, or the end of the last one. -/
def WindowBoundary (span coreStart : ℕ) : Prop :=
  coreStart ≤ span ∧ (coreStart % streamMixdownWindowSamples = 0 ∨ coreStart = span)

theorem WindowBoundary.core {span coreStart : ℕ} (hboundary : WindowBoundary span coreStart)
    (hlt : coreStart < span) :
    WindowCore span coreStart (min (coreStart + streamMixdownWindowSamples) span) :=
  ⟨hboundary.2.resolve_right hlt.ne, hlt, rfl⟩

theorem WindowCore.boundary {span coreStart coreEnd : ℕ}
    (hcore : WindowCore span coreStart coreEnd) : WindowBoundary span coreEnd := by
  obtain ⟨haligned, -, hend⟩ := hcore
  refine ⟨by omega, ?_⟩
  rcases min_choice (coreStart + streamMixdownWindowSamples) span with hfull | hlast
  · rw [hend, hfull, Nat.add_mod_right]
    exact .inl haligned
  · exact .inr (hend.trans hlast)

theorem writeWindows_ok (hvalid : format.Valid) {cluster : StreamMixdownCluster}
    (hexact : cluster.Exact) (hlong : format.resample = true → 3 ≤ cluster.span) {coreStart : ℕ}
    {stream next : MixdownStream} (hboundary : WindowBoundary cluster.span coreStart)
    (hwritten : stream.outSamplesWritten ≤
      format.outStart cluster + format.progress cluster coreStart)
    (hdone : coreStart = cluster.span → stream.outSamplesWritten = format.outEnd cluster)
    (hok : writeWindows fir files format cluster coreStart stream = .ok next) :
    next.pcm = stream.pcm ++ render (clusterBlock fir files format cluster)
        (format.progress cluster coreStart) (format.outSamples cluster) ∧
      next.outSamplesWritten = format.outEnd cluster ∧
      ∀ source ∈ cluster.chunks, cluster.startSamples + coreStart < source.1 + source.2.1 →
        Readable files source := by
  -- Induction on the samples that are left; the stream written so far is the invariant.
  induction hleft : cluster.span - coreStart using Nat.strong_induction_on
    generalizing coreStart stream with
  | _ left ih =>
      rw [writeWindows] at hok
      split at hok
      next hlt =>
        have hcore := hboundary.core hlt
        dsimp only at hok
        generalize min (coreStart + streamMixdownWindowSamples) cluster.span = coreEnd at hcore hok
        split at hok
        next => cases hok
        next output houtput =>
          obtain ⟨hwindow, rfl⟩ := (windowOutput_ok_iff hvalid hcore hlong).mp houtput
          obtain ⟨hreadStart, hreadEnd⟩ := readRange_core hcore hlong
          obtain ⟨-, hadvance, hle⟩ := hcore.onGrid
          have hmono : format.progress cluster coreStart ≤ format.progress cluster coreEnd :=
            progress_le_of_core hcore
          have hlength : (render (clusterBlock fir files format cluster)
              (format.progress cluster coreStart) (format.progress cluster coreEnd)).length / 2 =
                format.progress cluster coreEnd - format.progress cluster coreStart :=
            samples_render (length_clusterBlock cluster) _ _
          rw [outputOffset_eq_progress hcore, hlength, max_eq_right (by omega)] at hok
          obtain ⟨hpcm, hfinal, hreadable⟩ := ih (cluster.span - coreEnd) (by omega)
            hcore.boundary (by dsimp only; omega) (fun hend => by
              rw [MixdownFormat.outEnd, ← format.progress_span, ← hend]
              dsimp only
              omega) hok rfl
          refine ⟨?_, hfinal, fun source hsource hstart => ?_⟩
          · rw [hpcm, List.append_assoc,
              render_append hmono (MixdownFormat.progress_le_outSamples hle)]
          · -- A source ends in this window or in a later one, which then has read it.
            by_cases hends : source.1 + source.2.1 ≤ cluster.startSamples + coreEnd
            · exact hwindow.readable hsource (hexact.samples_pos source hsource) (by omega)
                (by omega)
            · exact hreadable source hsource (by omega)
      next hnot =>
        have hend : coreStart = cluster.span := Nat.le_antisymm hboundary.1 (Nat.not_lt.mp hnot)
        cases hok
        refine ⟨?_, hdone hend, fun source hsource hstart => ?_⟩
        · rw [hend, MixdownFormat.progress_span, render_of_le le_rfl, List.append_nil]
        · have hlast := hexact.le_end source hsource
          have hspan := hexact.startSamples_add_span
          omega

theorem writeWindows_of_readable (hvalid : format.Valid) {cluster : StreamMixdownCluster}
    (hlong : format.resample = true → 3 ≤ cluster.span)
    (hreadable : ∀ source ∈ cluster.chunks, Readable files source) {coreStart : ℕ}
    (hboundary : WindowBoundary cluster.span coreStart) (stream : MixdownStream) :
    ∃ next, writeWindows fir files format cluster coreStart stream = .ok next := by
  induction hleft : cluster.span - coreStart using Nat.strong_induction_on
    generalizing coreStart stream with
  | _ left ih =>
      rw [writeWindows]
      split
      next hlt =>
        have hcore := hboundary.core hlt
        dsimp only
        generalize min (coreStart + streamMixdownWindowSamples) cluster.span = coreEnd at hcore
        have houtput : windowOutput fir files format cluster coreStart coreEnd = .ok _ :=
          (windowOutput_ok_iff hvalid hcore hlong).mpr
          ⟨fun source hsource _ => (hreadable source hsource).upTo _, rfl⟩
        have hadvance := hcore.onGrid.2.1
        rw [houtput]
        exact ih (cluster.span - coreEnd) (by omega) hcore.boundary _ rfl
      next => exact ⟨stream, rfl⟩

/-! ## One cluster -/

theorem silenceBlocks_eq (gapBytes : ℕ) : silenceBlocks gapBytes = List.replicate gapBytes 0 := by
  induction gapBytes using Nat.strong_induction_on with
  | _ gapBytes ih =>
      have hblock : mixdownSilenceBlockBytes = 8192 := rfl
      rw [silenceBlocks]
      split
      next hgap =>
        dsimp only
        rw [ih _ (by omega), List.replicate_append_replicate]
        congr 1
        omega
      next hnone =>
        obtain rfl : gapBytes = 0 := by omega
        rfl

/-- A cluster too short for the filter and for the decimation leaves no sample. -/
theorem shortCluster_pcm {pcm : List UInt8} (hlength : pcm.length < 6) :
    (if (resamplePcm16le fir pcm 48000 16000).2 = 16000 then
        (resamplePcm16le fir pcm 48000 16000).1
      else decimatePcm16le (resamplePcm16le fir pcm 48000 16000).1
        (resamplePcm16le fir pcm 48000 16000).2 16000) = [] := by
  have hkept : resamplePcm16le fir pcm 48000 16000 = (pcm, 48000) := by
    unfold resamplePcm16le
    split
    next => rfl
    next =>
      rw [if_neg (by omega), if_pos (by omega)]
  have hnone : pcm.length / 2 * 16000 / max 48000 1 = 0 := by
    rw [Nat.max_eq_left (by omega)]
    omega
  rw [hkept, if_neg (by omega), decimatePcm16le, hnone]
  rfl

theorem writeCluster_ok (hvalid : format.Valid) {cluster : StreamMixdownCluster}
    (hexact : cluster.Exact) {stream next : MixdownStream}
    (hwritten : stream.outSamplesWritten ≤ format.outStart cluster)
    (hok : writeCluster fir files format stream cluster = .ok next) :
    next.pcm = stream.pcm ++
        List.replicate ((format.outStart cluster - stream.outSamplesWritten) * 2) 0 ++
        render (clusterBlock fir files format cluster) 0 (format.outSamples cluster) ∧
      next.outSamplesWritten = format.outEnd cluster ∧
      ∀ source ∈ cluster.chunks, Readable files source := by
  have hspan := hexact.startSamples_add_span
  have hlt := hexact.start_lt_end
  simp only [writeCluster, silenceBlocks_eq] at hok
  split at hok
  next hshort =>
    obtain ⟨hmode, hshort⟩ := hshort
    obtain ⟨hrate, hout⟩ := hvalid.resampled hmode
    split at hok
    next => cases hok
    next pcm hpcm =>
      obtain ⟨hwindow, rfl⟩ := mixManifestWindow_ok_iff.mp hpcm
      rw [hrate, hout, shortCluster_pcm (by
        rw [length_render (length_mixedBlock cluster.chunks)]
        omega)] at hok
      have hnone : format.outSamples cluster = 0 := by
        rw [MixdownFormat.outSamples, if_pos hmode]
        omega
      cases hok
      refine ⟨?_, ?_, fun source hsource => ?_⟩
      · rw [hnone, render_of_le le_rfl]
      · rw [MixdownFormat.outEnd, hnone]
        exact max_eq_right hwritten
      · have hpos := hexact.samples_pos source hsource
        have hstart := hexact.start_le source hsource
        have hend := hexact.le_end source hsource
        exact hwindow.readable hsource hpos (by omega) (by omega)
  next hlong =>
    have hmode : format.resample = true → 3 ≤ cluster.span := fun hmode => by
      by_contra hshort
      exact hlong ⟨hmode, by omega⟩
    obtain ⟨hpcm, hfinal, hreadable⟩ := writeWindows_ok hvalid hexact hmode
      ⟨Nat.zero_le _, .inl rfl⟩ (by simpa using hwritten) (by omega) hok
    refine ⟨?_, hfinal, fun source hsource => hreadable source hsource ?_⟩
    · rw [hpcm, MixdownFormat.progress_zero]
    · have hpos := hexact.samples_pos source hsource
      have hstart := hexact.start_le source hsource
      omega

theorem writeCluster_of_readable (hvalid : format.Valid) {cluster : StreamMixdownCluster}
    (hreadable : ∀ source ∈ cluster.chunks, Readable files source) (stream : MixdownStream) :
    ∃ next, writeCluster fir files format stream cluster = .ok next := by
  simp only [writeCluster]
  split
  next =>
    have hpcm : mixManifestWindow files cluster 0 cluster.span = .ok _ :=
      mixManifestWindow_ok_iff.mpr
        ⟨fun source hsource _ => (hreadable source hsource).upTo _, rfl⟩
    rw [hpcm]
    exact ⟨_, rfl⟩
  next hlong =>
    have hmode : format.resample = true → 3 ≤ cluster.span := fun hmode => by
      by_contra hshort
      exact hlong ⟨hmode, by omega⟩
    exact writeWindows_of_readable hvalid hmode hreadable ⟨Nat.zero_le _, .inl rfl⟩ _

/-! ## All clusters -/

/-- What the timeline of the output holds from position `start` on: the clusters
that are left to write, and silence elsewhere. -/
structure OnTimeline (fir : List ℤ → ℤ) (files : ChunkPath → Option (List UInt8))
    (format : MixdownFormat) (timeline : ℕ → List UInt8) (clusters : List StreamMixdownCluster)
    (start : ℕ) : Prop where
  blocks : ∀ cluster ∈ clusters, ∀ n < format.outSamples cluster,
    timeline (format.outStart cluster + n) = clusterBlock fir files format cluster n
  silence : ∀ n, start ≤ n →
    (∀ cluster ∈ clusters, n < format.outStart cluster ∨ format.outEnd cluster ≤ n) →
    timeline n = [0, 0]

theorem OnTimeline.render_cluster {timeline : ℕ → List UInt8}
    {clusters : List StreamMixdownCluster} {start : ℕ}
    (htimeline : OnTimeline fir files format timeline clusters start)
    {cluster : StreamMixdownCluster} (hcluster : cluster ∈ clusters) :
    render timeline (format.outStart cluster) (format.outEnd cluster) =
      render (clusterBlock fir files format cluster) 0 (format.outSamples cluster) := by
  have hshift : render timeline (format.outStart cluster + 0)
      (format.outStart cluster + format.outSamples cluster) = _ := render_add _ _ _
  rw [Nat.add_zero] at hshift
  rw [MixdownFormat.outEnd, hshift]
  exact render_congr fun n _ hn => htimeline.blocks cluster hcluster n hn

theorem foldlM_writeCluster_ok (hvalid : format.Valid) {timeline : ℕ → List UInt8}
    {clusters : List StreamMixdownCluster} (hexact : ∀ cluster ∈ clusters, cluster.Exact)
    (hseparated : clusters.Pairwise StreamMixdownCluster.Before) {stream final : MixdownStream}
    (hstart : ∀ cluster ∈ clusters, stream.outSamplesWritten ≤ format.outStart cluster)
    (hpcm : stream.pcm = render timeline 0 stream.outSamplesWritten)
    (htimeline : OnTimeline fir files format timeline clusters stream.outSamplesWritten)
    (hok : clusters.foldlM (writeCluster fir files format) stream = .ok final) :
    final.pcm = render timeline 0 final.outSamplesWritten ∧
      (∀ bound, final.outSamplesWritten ≤ bound ↔ stream.outSamplesWritten ≤ bound ∧
        ∀ cluster ∈ clusters, format.outEnd cluster ≤ bound) ∧
      ∀ cluster ∈ clusters, ∀ source ∈ cluster.chunks, Readable files source := by
  induction clusters generalizing stream with
  | nil =>
      cases hok
      exact ⟨hpcm, by simp, by simp⟩
  | cons cluster rest ih =>
      obtain ⟨next, hnext, hrest⟩ := Except.bind_eq_ok.mp hok
      obtain ⟨hbefore, hseparated⟩ := List.pairwise_cons.mp hseparated
      obtain ⟨hexactCluster, hexactRest⟩ := List.forall_mem_cons.mp hexact
      have hfirst : stream.outSamplesWritten ≤ format.outStart cluster :=
        hstart cluster List.mem_cons_self
      obtain ⟨hnextPcm, hnextWritten, hreadable⟩ :=
        writeCluster_ok hvalid hexactCluster hfirst hnext
      have hlater : ∀ other ∈ rest, format.outEnd cluster ≤ format.outStart other :=
        fun other hother =>
          MixdownFormat.outEnd_le_outStart hvalid hexactCluster (hbefore other hother)
      have hends : format.outStart cluster ≤ format.outEnd cluster := Nat.le_add_right _ _
      -- Every cluster that is left starts later, so the timeline is silent up to this one.
      have hgap : render timeline stream.outSamplesWritten (format.outStart cluster) =
          List.replicate ((format.outStart cluster - stream.outSamplesWritten) * 2) 0 := by
        refine render_replicate fun n hlow hhigh => htimeline.silence n hlow ?_
        refine List.forall_mem_cons.mpr ⟨.inl hhigh, fun other hother => .inl ?_⟩
        exact hhigh.trans_le (hends.trans (hlater other hother))
      have hnextRender : next.pcm = render timeline 0 next.outSamplesWritten := by
        rw [hnextPcm, hpcm, ← hgap, render_append (Nat.zero_le _) hfirst,
          ← htimeline.render_cluster List.mem_cons_self,
          render_append (Nat.zero_le _) hends, hnextWritten]
      have hnextTimeline : OnTimeline fir files format timeline rest next.outSamplesWritten := by
        refine ⟨fun other hother => htimeline.blocks other (List.mem_cons_of_mem _ hother), ?_⟩
        intro n hlow houtside
        rw [hnextWritten] at hlow
        exact htimeline.silence n (hfirst.trans (hends.trans hlow))
          (List.forall_mem_cons.mpr ⟨.inr hlow, houtside⟩)
      obtain ⟨hfinal, hbounds, hreadableRest⟩ := ih hexactRest hseparated
        (fun other hother => hnextWritten.trans_le (hlater other hother)) hnextRender
        hnextTimeline hrest
      refine ⟨hfinal, fun bound => ?_, List.forall_mem_cons.mpr ⟨hreadable, hreadableRest⟩⟩
      rw [hbounds, hnextWritten, List.forall_mem_cons]
      exact ⟨fun ⟨hle, hothers⟩ => ⟨hfirst.trans (hends.trans hle), hle, hothers⟩, And.right⟩

theorem foldlM_writeCluster_of_readable (hvalid : format.Valid)
    {clusters : List StreamMixdownCluster}
    (hreadable : ∀ cluster ∈ clusters, ∀ source ∈ cluster.chunks, Readable files source)
    (stream : MixdownStream) :
    ∃ final, clusters.foldlM (writeCluster fir files format) stream = .ok final := by
  induction clusters generalizing stream with
  | nil => exact ⟨stream, rfl⟩
  | cons cluster rest ih =>
      obtain ⟨hcluster, hrest⟩ := List.forall_mem_cons.mp hreadable
      obtain ⟨next, hnext⟩ : ∃ next, writeCluster fir files format stream cluster = .ok next :=
        writeCluster_of_readable hvalid hcluster stream
      obtain ⟨final, hfinal⟩ := ih hrest next
      exact ⟨final, Except.bind_eq_ok.mpr ⟨next, hnext, hfinal⟩⟩

/-! ## The file -/

theorem patchBytes_append {front old new : List UInt8} (back : List UInt8) {offset : ℕ}
    (hoffset : offset = front.length) (hsize : old.length = new.length) :
    patchBytes (front ++ (old ++ back)) offset new = front ++ (new ++ back) := by
  have hdrop : (front ++ (old ++ back)).drop (front.length + new.length) = back := by
    rw [← hsize, ← List.append_assoc, ← List.length_append, List.drop_left]
  rw [patchBytes, hoffset, List.take_left, hdrop, List.append_assoc]

/-- The fields of the header between its two sizes. -/
def headerMiddle (sampleRate : ℕ) : List UInt8 :=
  utf8Bytes "WAVE" ++ utf8Bytes "fmt " ++ toLeBytes 4 16 ++ toLeBytes 2 1 ++ toLeBytes 2 1 ++
    toLeBytes 4 sampleRate ++ toLeBytes 4 (saturatingMul u32Max sampleRate 2) ++ toLeBytes 2 2 ++
    toLeBytes 2 16 ++ utf8Bytes "data"

theorem mixdownWavHeader_append (sampleRate dataSize : ℕ) (pcm : List UInt8) :
    mixdownWavHeader sampleRate dataSize ++ pcm = utf8Bytes "RIFF" ++
      (toLeBytes 4 (36 + dataSize) ++ (headerMiddle sampleRate ++ (toLeBytes 4 dataSize ++ pcm))) := by
  simp only [mixdownWavHeader, headerMiddle, List.append_assoc]

theorem length_riff : (utf8Bytes "RIFF").length = 4 := by decide

theorem length_headerMiddle (sampleRate : ℕ) : (headerMiddle sampleRate).length = 32 := by
  have hwave : (utf8Bytes "WAVE").length = 4 := by decide
  have hfmt : (utf8Bytes "fmt ").length = 4 := by decide
  have hdata : (utf8Bytes "data").length = 4 := by decide
  simp [headerMiddle, hwave, hfmt, hdata]

theorem length_mixdownWavHeader (sampleRate dataSize : ℕ) :
    (mixdownWavHeader sampleRate dataSize).length = 44 := by
  have hlength := congrArg List.length (mixdownWavHeader_append sampleRate dataSize [])
  simpa [length_riff, length_headerMiddle] using hlength

/-- Patching in the sizes gives the header that would have been written with them. -/
theorem patch_mixdownWavHeader (sampleRate dataSize : ℕ) (pcm : List UInt8) :
    patchBytes (patchBytes (mixdownWavHeader sampleRate 0 ++ pcm) 4
        (toLeBytes 4 (36 + dataSize))) 40 (toLeBytes 4 dataSize) =
      mixdownWavHeader sampleRate dataSize ++ pcm := by
  rw [mixdownWavHeader_append, mixdownWavHeader_append,
    patchBytes_append _ length_riff.symm (by simp)]
  have hfront : 40 = (utf8Bytes "RIFF" ++
      (toLeBytes 4 (36 + dataSize) ++ headerMiddle sampleRate)).length := by
    simp [length_riff, length_headerMiddle]
  have hsizes : (toLeBytes 4 0).length = (toLeBytes 4 dataSize).length := by simp
  simpa only [List.append_assoc] using patchBytes_append pcm hfront hsizes

/-- The sizes that a WAV file declares are those of the file. -/
structure DeclaresItsSize (file : List UInt8) : Prop where
  riff : ofLeBytes (slice file 4 8) + 8 = file.length
  data : ofLeBytes (slice file 40 44) + 44 = file.length

theorem slice_append {front middle : List UInt8} (back : List UInt8) {start stop : ℕ}
    (hstart : start = front.length) (hstop : stop = front.length + middle.length) :
    slice (front ++ (middle ++ back)) start stop = middle := by
  rw [slice, hstart, hstop, Nat.add_sub_cancel_left, List.drop_left, List.take_left]

theorem declaresItsSize_mixdown {sampleRate : ℕ} {pcm : List UInt8}
    (hsize : pcm.length ≤ maxMixdownDataBytes) :
    DeclaresItsSize (mixdownWavHeader sampleRate pcm.length ++ pcm) := by
  have hmax : maxMixdownDataBytes + 37 = 256 ^ 4 := by decide
  have hlength : (mixdownWavHeader sampleRate pcm.length ++ pcm).length = 44 + pcm.length := by
    rw [List.length_append, length_mixdownWavHeader]
  refine ⟨?_, ?_⟩
  · rw [hlength, mixdownWavHeader_append, slice_append _ length_riff.symm (by simp [length_riff]),
      ofLeBytes_toLeBytes (by omega)]
    omega
  · have hfront : 40 = (utf8Bytes "RIFF" ++
        (toLeBytes 4 (36 + pcm.length) ++ headerMiddle sampleRate)).length := by
      simp [length_riff, length_headerMiddle]
    have hdata : slice (_ ++ (toLeBytes 4 pcm.length ++ pcm)) 40 44 = toLeBytes 4 pcm.length :=
      slice_append pcm hfront (by rw [← hfront]; simp)
    simp only [List.append_assoc] at hdata
    rw [hlength, mixdownWavHeader_append, hdata, ofLeBytes_toLeBytes (by omega)]
    omega

theorem mixdownFormat_valid {sampleRate : ℕ} (hrate : 0 < sampleRate) (resampleTo16k : Bool) :
    (mixdownFormat sampleRate resampleTo16k).Valid := by
  unfold mixdownFormat
  split
  next h => exact ⟨fun _ => ⟨h.2, rfl⟩, nofun⟩
  next => exact ⟨nofun, fun _ => ⟨rfl, hrate⟩⟩

/-- The number of samples behind the header. -/
def mixdownSamples (chunks : List AudioChunkManifestEntry) (sampleRate : ℕ)
    (resampleTo16k : Bool) : ℕ :=
  (mixdownFormat sampleRate resampleTo16k).plannedSamples (streamMixdownClusters chunks sampleRate)

/-- The writer succeeds when the files are as long as their metadata says and the
result fits, and then the file is the timeline behind its header. -/
theorem writeStreamingMixdownWav_ok_iff {chunks : List AudioChunkManifestEntry} {sampleRate : ℕ}
    {resampleTo16k : Bool} (hrate : 0 < sampleRate) {timeline : ℕ → List UInt8}
    (htimeline : OnTimeline fir files (mixdownFormat sampleRate resampleTo16k) timeline
      (streamMixdownClusters chunks sampleRate) 0) {file : List UInt8} :
    writeStreamingMixdownWav fir files chunks sampleRate resampleTo16k = .ok file ↔
      (∀ cluster ∈ streamMixdownClusters chunks sampleRate, ∀ source ∈ cluster.chunks,
        Readable files source) ∧
      mixdownSamples chunks sampleRate resampleTo16k * 2 ≤ maxMixdownDataBytes ∧
      file = mixdownWavHeader (mixdownFormat sampleRate resampleTo16k).outRate
          (mixdownSamples chunks sampleRate resampleTo16k * 2) ++
        render timeline 0 (mixdownSamples chunks sampleRate resampleTo16k) := by
  have hvalid := mixdownFormat_valid hrate resampleTo16k
  have hclusters := streamMixdownClusters_spec chunks sampleRate
  have hfold : ∀ {final : MixdownStream}, (streamMixdownClusters chunks sampleRate).foldlM
      (writeCluster fir files (mixdownFormat sampleRate resampleTo16k)) {} = .ok final →
      (∀ cluster ∈ streamMixdownClusters chunks sampleRate, ∀ source ∈ cluster.chunks,
        Readable files source) ∧
      final.outSamplesWritten = mixdownSamples chunks sampleRate resampleTo16k ∧
      final.pcm = render timeline 0 (mixdownSamples chunks sampleRate resampleTo16k) := by
    intro final hok
    obtain ⟨hpcm, hbounds, hreadable⟩ := foldlM_writeCluster_ok hvalid hclusters.exact
      hclusters.separated (fun _ _ => Nat.zero_le _) (render_of_le le_rfl).symm htimeline hok
    -- The writer's count ends at the maximum that was planned before writing.
    have hwritten : final.outSamplesWritten = mixdownSamples chunks sampleRate resampleTo16k := by
      refine eq_of_forall_ge_iff fun bound => ?_
      rw [hbounds, mixdownSamples, MixdownFormat.plannedSamples, List.max?_getD_le_iff,
        List.forall_mem_map]
      exact and_iff_right (Nat.zero_le bound)
    exact ⟨hreadable, hwritten, hwritten ▸ hpcm⟩
  constructor
  · intro hok
    obtain ⟨hfits, hok⟩ := Except.ok_of_guard hok
    split at hok
    next => cases hok
    next final hfinal =>
      obtain ⟨hreadable, hwritten, hpcm⟩ := hfold hfinal
      obtain ⟨-, hfile⟩ := Except.ok_of_guard hok
      dsimp only at hfile
      rw [patch_mixdownWavHeader, hwritten, hpcm] at hfile
      exact ⟨hreadable, Nat.not_lt.mp hfits, (Except.ok.inj hfile).symm⟩
  · rintro ⟨hreadable, hfits, rfl⟩
    obtain ⟨final, hfinal⟩ : ∃ final, (streamMixdownClusters chunks sampleRate).foldlM
        (writeCluster fir files (mixdownFormat sampleRate resampleTo16k)) {} = .ok final :=
      foldlM_writeCluster_of_readable hvalid hreadable {}
    obtain ⟨-, hwritten, hpcm⟩ := hfold hfinal
    simp only [writeStreamingMixdownWav, hfinal, hwritten, hpcm, ← mixdownSamples.eq_1]
    rw [if_neg (Nat.not_lt.mpr hfits), if_neg (Nat.not_lt.mpr hfits), patch_mixdownWavHeader]

end DiscordTranscript.Application
