import DiscordTranscript.Audio.Manifest

/-! # Local and S3 manifests

The S3 scanner rewrites the speaker ids of a manifest through the SSRC mapping,
the mixdown scanner does not, and the records of live transcription are
normalised through the mapping in both modes. The two modes therefore agree on
a directory and a list of records exactly when the mapping rewrites no id in the
file names and each completed chunk is recorded under the spelling in its name.
-/

namespace DiscordTranscript.Audio

open MachineInt

/-! ## One id for each speaker -/

/-- The id that all spellings of a speaker stand for: a mapped id is its user,
an unmapped fallback its `ssrc:N` form. -/
def canonicalSpeaker (mapping : AList fun _ : String => String) (speakerId : String) : String :=
  match mapping.lookup speakerId with
  | some user => user
  | none =>
      match SsrcTracker.parseSsrcFallback speakerId with
      | some ssrc =>
          (mapping.lookup (SsrcTracker.fallbackKey ssrc)).getD (SsrcTracker.fallbackKey ssrc)
      | none => speakerId

/-- The ids live transcription records: real ones and unresolved fallbacks. -/
def IsRecordedSpeaker (speakerId : String) : Prop :=
  SsrcTracker.parseSsrcFallback speakerId = none ∨
    ∃ ssrc ≤ u32Max, speakerId = SsrcTracker.fallbackKey ssrc

/-- Live transcription has completed the chunk, under some spelling of its speaker. -/
def CompletedLive (mapping : AList fun _ : String => String)
    (processed : List ProcessedAudioChunk) (chunk : AudioChunkManifestEntry) : Prop :=
  ∃ record ∈ processed, record.sequence = chunk.sequence ∧ record.startMs = chunk.startMs ∧
    canonicalSpeaker mapping record.speakerId = canonicalSpeaker mapping chunk.speakerId

section

variable {mapping : AList fun _ : String => String}

theorem canonicalSpeaker_fallbackKey {ssrc : ℕ} (hssrc : ssrc ≤ u32Max) :
    canonicalSpeaker mapping (SsrcTracker.fallbackKey ssrc) =
      (mapping.lookup (SsrcTracker.fallbackKey ssrc)).getD (SsrcTracker.fallbackKey ssrc) := by
  unfold canonicalSpeaker
  rw [SsrcTracker.parseSsrcFallback_fallbackKey hssrc]
  cases hlookup : mapping.lookup (SsrcTracker.fallbackKey ssrc) with
  | none => simp [hlookup]
  | some user => rfl

/-- Normalising a recorded id gives its canonical form. -/
theorem mem_normalizedProcessedChunks {processed : List ProcessedAudioChunk}
    (hrecorded : ∀ record ∈ processed, IsRecordedSpeaker record.speakerId)
    {speakerId : String} {sequence startMs : ℕ} :
    (speakerId, sequence, startMs) ∈ normalizedProcessedChunks mapping processed ↔
      ∃ record ∈ processed, canonicalSpeaker mapping record.speakerId = speakerId ∧
        record.sequence = sequence ∧ record.startMs = startMs := by
  have hnormal : ∀ record ∈ processed,
      ((mapping.lookup record.speakerId).or
        ((SsrcTracker.parseSsrcFallback record.speakerId).bind fun ssrc =>
          mapping.lookup (SsrcTracker.fallbackKey ssrc))).getD record.speakerId =
        canonicalSpeaker mapping record.speakerId := by
    intro record hrecord
    rcases hrecorded record hrecord with hreal | ⟨ssrc, hssrc, hfallback⟩
    · unfold canonicalSpeaker
      rw [hreal]
      cases mapping.lookup record.speakerId <;> rfl
    · rw [hfallback, canonicalSpeaker_fallbackKey hssrc,
        SsrcTracker.parseSsrcFallback_fallbackKey hssrc]
      simp
  simp only [normalizedProcessedChunks, List.mem_map, Prod.mk.injEq]
  constructor
  · rintro ⟨record, hrecord, hspeaker, hrest⟩
    exact ⟨record, hrecord, (hnormal record hrecord).symm.trans hspeaker, hrest⟩
  · rintro ⟨record, hrecord, hspeaker, hrest⟩
    exact ⟨record, hrecord, (hnormal record hrecord).trans hspeaker, hrest⟩

end

/-! ## What the scanners return -/

/-- The chunks that a scan accepts, in listing order. -/
def MeetingDir.acceptedChunks (dir : MeetingDir) : List AudioChunkManifestEntry :=
  (dir.entries.filter DirEntry.isChunkFile).filterMap fun entry =>
    (loadChunkMetadata (dir.stagedFile entry)).toOption

theorem scanEntry_chunks {dir : MeetingDir} {uploadBudget : Bool} {scan next : ManifestScan}
    {entry : DirEntry} (hscan : dir.scanEntry uploadBudget scan entry = .ok next) :
    next.chunks = scan.chunks ++ ([entry].filter DirEntry.isChunkFile).filterMap fun entry =>
      (loadChunkMetadata (dir.stagedFile entry)).toOption := by
  unfold MeetingDir.scanEntry at hscan
  split at hscan
  next hother =>
    cases hscan
    simp only [Bool.not_eq_true'] at hother
    simp [hother]
  next hchunk =>
    simp only [Bool.not_eq_true', Bool.not_eq_false] at hchunk
    split at hscan
    next hload =>
      cases hscan
      simp [hchunk, hload, Except.toOption]
    next chunk hload =>
      obtain ⟨-, hscan⟩ := Except.ok_of_guard hscan
      split at hscan
      next =>
        cases hscan
        simp [hchunk, hload, Except.toOption]
      next =>
        split at hscan
        next => cases hscan
        next =>
          obtain ⟨-, hscan⟩ := Except.ok_of_guard hscan
          cases hscan
          simp [hchunk, hload, Except.toOption]

theorem foldlM_scanEntry_chunks {dir : MeetingDir} {uploadBudget : Bool}
    (entries : List DirEntry) {scan final : ManifestScan}
    (hscan : entries.foldlM (dir.scanEntry uploadBudget) scan = .ok final) :
    final.chunks = scan.chunks ++ (entries.filter DirEntry.isChunkFile).filterMap fun entry =>
      (loadChunkMetadata (dir.stagedFile entry)).toOption := by
  induction entries generalizing scan with
  | nil =>
      cases hscan
      simp
  | cons entry rest ih =>
      obtain ⟨next, hnext, hrest⟩ := Except.bind_eq_ok.mp hscan
      rw [ih hrest, scanEntry_chunks hnext, List.append_assoc, ← List.filterMap_append,
        ← List.filter_append]
      rfl

theorem scanMixdownChunkManifest_eq {dir : MeetingDir} {chunks : List AudioChunkManifestEntry}
    (hscan : scanMixdownChunkManifest dir = .ok chunks) :
    dir.acceptedChunks ≠ [] ∧ chunks = sortManifest dir.acceptedChunks := by
  obtain ⟨scan, hfold, hrest⟩ := Except.bind_eq_ok.mp hscan
  have hchunks : scan.chunks = dir.acceptedChunks := foldlM_scanEntry_chunks _ hfold
  obtain ⟨hempty, hsorted⟩ := Except.ok_of_guard hrest
  rw [hchunks] at hempty hsorted
  exact ⟨fun hnil => hempty (by rw [hnil]; rfl), (Except.ok.inj hsorted).symm⟩

theorem scanChunkManifest_eq {unicodeAlphanumeric : Char → Bool} {dir : MeetingDir}
    {chunks : List AudioChunkManifestEntry}
    (hscan : scanChunkManifest unicodeAlphanumeric dir = .ok chunks) :
    chunks = sortManifest
      (dir.acceptedChunks.map (resolveSpeaker (loadSsrcMapping unicodeAlphanumeric dir))) := by
  obtain ⟨scan, hfold, hrest⟩ := Except.bind_eq_ok.mp hscan
  have hchunks : scan.chunks = dir.acceptedChunks := foldlM_scanEntry_chunks _ hfold
  obtain ⟨-, hrest⟩ := Except.ok_of_guard hrest
  obtain ⟨-, hrest⟩ := Except.ok_of_guard hrest
  obtain ⟨-, hsorted⟩ := Except.ok_of_guard hrest
  rw [hchunks] at hsorted
  exact (Except.ok.inj hsorted).symm

theorem mem_sortManifest {chunks : List AudioChunkManifestEntry}
    {chunk : AudioChunkManifestEntry} : chunk ∈ sortManifest chunks ↔ chunk ∈ chunks :=
  (List.perm_insertionSort _ _).mem_iff

theorem loadChunkMetadata_path {file : StagedFile} {chunk : AudioChunkManifestEntry}
    (hload : loadChunkMetadata file = .ok chunk) : chunk.path = file.path := by
  obtain ⟨⟨durationMs, sampleRate, dataSize⟩, hread⟩ := readWavMetadata_of_loadChunkMetadata hload
  rw [loadChunkMetadata_of_ok hread] at hload
  cases hload
  rfl

theorem acceptedChunks_path {dir : MeetingDir} {chunk : AudioChunkManifestEntry}
    (hchunk : chunk ∈ dir.acceptedChunks) :
    ∃ entry ∈ dir.entries, chunk.path = dir.chunkPath entry ∧
      loadChunkMetadata (dir.stagedFile entry) = .ok chunk := by
  obtain ⟨entry, hentry, hload⟩ := List.mem_filterMap.mp hchunk
  have hok : loadChunkMetadata (dir.stagedFile entry) = .ok chunk := by
    cases hresult : loadChunkMetadata (dir.stagedFile entry) with
    | ok loaded =>
        rw [hresult] at hload
        exact congrArg Except.ok (Option.some.inj hload)
    | error reason =>
        rw [hresult] at hload
        cases hload
  exact ⟨entry, List.mem_of_mem_filter hentry, loadChunkMetadata_path hok, hok⟩

/-- A path names one staged chunk. -/
theorem acceptedChunks_path_inj {dir : MeetingDir} {left right : AudioChunkManifestEntry}
    (hleft : left ∈ dir.acceptedChunks) (hright : right ∈ dir.acceptedChunks)
    (hpath : left.path = right.path) : left = right := by
  obtain ⟨leftEntry, hleftMem, hleftPath, hleftLoad⟩ := acceptedChunks_path hleft
  obtain ⟨rightEntry, hrightMem, hrightPath, hrightLoad⟩ := acceptedChunks_path hright
  have hname : leftEntry.name = rightEntry.name := by
    rw [hleftPath, hrightPath] at hpath
    exact congrArg ChunkPath.name hpath
  have hentry : leftEntry = rightEntry :=
    List.inj_on_of_nodup_map dir.names_nodup hleftMem hrightMem hname
  rw [hentry, hrightLoad] at hleftLoad
  exact (Except.ok.inj hleftLoad).symm

/-! ## What is submitted -/

/-- The prepared inputs contain the chunk's own file or the one derived from it. -/
def Submits (preparation : AsrPreparation) (path : ChunkPath) : Prop :=
  ∃ input ∈ preparation.prepared,
    input.audioPath = path.display ∨ input.audioPath = asrOutputPath path

/-- Every input comes from a chunk that passes the filter. -/
def ComesFrom (chunks : List AudioChunkManifestEntry) (inputs : List SpeakerAudioInput)
    (input : SpeakerAudioInput) : Prop :=
  ∃ source ∈ inputs, input.audioPath = source.audioPath ∨
    ∃ chunk ∈ chunks, chunk.path.display = source.audioPath ∧
      input.audioPath = asrOutputPath chunk.path

section

variable {fir : List ℤ → ℤ} {outputs : AsrOutputs} {dir : MeetingDir}
  {chunks : List AudioChunkManifestEntry} {resampleTo16k : Bool}

theorem writeOutput_prepared {state next : AsrPreparation} {entry : AudioChunkManifestEntry}
    {input : SpeakerAudioInput} {pcm : List UInt8} {outputRate startMs meetingStartMs : ℕ}
    (hwrite : state.writeOutput outputs entry input pcm outputRate startMs meetingStartMs =
      .ok next) :
    ∃ renamed, next.prepared = state.prepared ++ [renamed] ∧
      renamed.audioPath = asrOutputPath entry.path := by
  simp only [AsrPreparation.writeOutput] at hwrite
  cases hcreate : state.createOutputDir outputs (asrOutputDir entry.path) with
  | some err =>
      rw [hcreate] at hwrite
      cases hwrite
  | none =>
      rw [hcreate] at hwrite
      simp only at hwrite
      split at hwrite
      next => cases hwrite
      next =>
        split at hwrite
        next => cases hwrite
        next =>
          cases hwrite
          exact ⟨_, rfl, rfl⟩

theorem prepareInput_prepared {state next : AsrPreparation} {input : SpeakerAudioInput}
    (hprepare : prepareInput fir outputs dir chunks resampleTo16k state input = .ok next) :
    next.prepared = state.prepared ∨ ∃ added, next.prepared = state.prepared ++ [added] ∧
      (added.audioPath = input.audioPath ∨ ∃ chunk ∈ chunks,
        chunk.path.display = input.audioPath ∧ added.audioPath = asrOutputPath chunk.path) := by
  unfold prepareInput at hprepare
  split at hprepare
  next => cases hprepare
  next entry hfind =>
    have hpath : entry.path.display = input.audioPath := by simpa using List.find?_some hfind
    have hmem : entry ∈ chunks := List.mem_reverse.mp (List.mem_of_find?_eq_some hfind)
    simp only at hprepare
    split at hprepare
    next =>
      cases hprepare
      exact .inl rfl
    next =>
      split at hprepare
      next =>
        cases hprepare
        exact .inr ⟨input, rfl, .inl rfl⟩
      next =>
        obtain ⟨⟨_, pcm⟩, -, hprepare⟩ := Except.bind_eq_ok.mp hprepare
        simp only at hprepare
        split at hprepare
        next =>
          cases hprepare
          exact .inl rfl
        next =>
          split at hprepare
          next =>
            cases hprepare
            exact .inr ⟨input, rfl, .inl rfl⟩
          next =>
            obtain ⟨renamed, hadded, hrenamed⟩ := writeOutput_prepared hprepare
            exact .inr ⟨renamed, hadded, .inr ⟨entry, hmem, hpath, hrenamed⟩⟩

theorem foldlM_prepareInput_comesFrom {inputs : List SpeakerAudioInput}
    {final : AsrPreparation}
    (hprepare : inputs.foldlM (prepareInput fir outputs dir chunks resampleTo16k) {} = .ok final) :
    ∀ input ∈ final.prepared, ComesFrom chunks inputs input := by
  refine Except.foldlM_invariant
    (fun state => ∀ input ∈ state.prepared, ComesFrom chunks inputs input) ?_ (by simp) hprepare
  intro state input next hinput hstate hnext
  rcases prepareInput_prepared hnext with hsame | ⟨added, hadded, hsource⟩
  · rwa [hsame]
  · rw [hadded]
    intro other hother
    rcases List.mem_append.mp hother with hother | hother
    · exact hstate other hother
    · rw [List.mem_singleton.mp hother]
      exact ⟨input, hinput, hsource⟩

end

/-- Where in the directory a file name lives decides its path. -/
theorem display_inj {left right : ChunkPath} (hdir : left.dir = right.dir)
    (hdisplay : left.display = right.display) : left = right := by
  obtain ⟨leftDir, leftName⟩ := left
  obtain ⟨rightDir, rightName⟩ := right
  simp only at hdir
  subst hdir
  simpa [ChunkPath.display] using hdisplay

theorem asrOutputPath_inj {left right : ChunkPath} (hdir : left.dir = right.dir)
    (hpath : asrOutputPath left = asrOutputPath right) : left = right := by
  obtain ⟨leftDir, leftName⟩ := left
  obtain ⟨rightDir, rightName⟩ := right
  simp only at hdir
  subst hdir
  simpa [asrOutputPath, asrOutputDir] using hpath

/-- A derived file lies one directory below the staged ones. -/
theorem display_ne_asrOutputPath {left right : ChunkPath} (hdir : left.dir = right.dir)
    (hplain : '/' ∉ left.name.toList) : left.display ≠ asrOutputPath right := by
  intro heq
  obtain ⟨leftDir, leftName⟩ := left
  obtain ⟨rightDir, rightName⟩ := right
  simp only at hdir hplain
  subst hdir
  have hlist := congrArg String.toList heq
  simp only [ChunkPath.display, asrOutputPath, asrOutputDir, String.toList_append,
    List.append_assoc, List.append_cancel_left_eq] at hlist
  have hslash : '/' ∈ ("/".toList ++ leftName.toList).drop 1 := by
    rw [hlist]
    simp
  exact hplain (by simpa using hslash)

/-! ## Agreement of the two modes -/

section

variable (unicodeAlphanumeric : Char → Bool) (dir : MeetingDir)

/-- The manifest lists the path, and the chunk is excluded as already transcribed. -/
def Excludes (chunks : List AudioChunkManifestEntry) (processed : List ProcessedAudioChunk)
    (path : ChunkPath) : Prop :=
  ∃ chunk ∈ chunks, chunk.path = path ∧
    isProcessed unicodeAlphanumeric dir chunks processed chunk = true

/-- What live transcription has completed is excluded and not submitted again. -/
structure SkipsCompleted (chunks : List AudioChunkManifestEntry)
    (processed : List ProcessedAudioChunk) : Prop where
  excluded : ∀ chunk ∈ dir.acceptedChunks,
    CompletedLive (loadSsrcMapping unicodeAlphanumeric dir) processed chunk →
      Excludes unicodeAlphanumeric dir chunks processed chunk.path
  notSubmitted : ∀ fir outputs resampleTo16k preparation,
    prepareManifestAsrInputs fir outputs unicodeAlphanumeric dir chunks processed resampleTo16k =
      .ok preparation →
    ∀ chunk ∈ dir.acceptedChunks,
      CompletedLive (loadSsrcMapping unicodeAlphanumeric dir) processed chunk →
        ¬Submits preparation chunk.path

/-- With these completed chunks the two manifests name the same speakers, exclude
the same chunks, give the same inputs, and submit nothing twice. -/
structure ModesAgree (localChunks s3Chunks : List AudioChunkManifestEntry)
    (processed : List ProcessedAudioChunk) : Prop where
  speakers : ∀ path speakerId,
    (∃ chunk ∈ localChunks, chunk.path = path ∧ chunk.speakerId = speakerId) ↔
      ∃ chunk ∈ s3Chunks, chunk.path = path ∧ chunk.speakerId = speakerId
  excluded : ∀ path, Excludes unicodeAlphanumeric dir localChunks processed path ↔
    Excludes unicodeAlphanumeric dir s3Chunks processed path
  inputs : ∀ fir outputs resampleTo16k,
    prepareManifestAsrInputs fir outputs unicodeAlphanumeric dir localChunks processed
        resampleTo16k =
      prepareManifestAsrInputs fir outputs unicodeAlphanumeric dir s3Chunks processed
        resampleTo16k
  skipsLocal : SkipsCompleted unicodeAlphanumeric dir localChunks processed
  skipsS3 : SkipsCompleted unicodeAlphanumeric dir s3Chunks processed

/-- The mapping leaves the speaker id of the chunk alone. -/
def KeepsSpeaker (mapping : AList fun _ : String => String) (chunk : AudioChunkManifestEntry) :
    Prop :=
  (mapping.lookup chunk.speakerId).getD chunk.speakerId = chunk.speakerId

/-- A record at the place of the chunk stands for the very spelling of its speaker. -/
def RecordedAsSpelled (mapping : AList fun _ : String => String)
    (processed : List ProcessedAudioChunk) (chunk : AudioChunkManifestEntry) : Prop :=
  ∃ record ∈ processed, canonicalSpeaker mapping record.speakerId = chunk.speakerId ∧
    record.sequence = chunk.sequence ∧ record.startMs = chunk.startMs

/-- A completed chunk whose name spells its speaker in another way than its records
(as the legacy `ssrcN` for `ssrc:N`) is not recognised. -/
def Recognised (mapping : AList fun _ : String => String)
    (processed : List ProcessedAudioChunk) (chunk : AudioChunkManifestEntry) : Prop :=
  canonicalSpeaker mapping chunk.speakerId = chunk.speakerId ∨
    ¬CompletedLive mapping processed chunk ∨ RecordedAsSpelled mapping processed chunk

end

section

variable {unicodeAlphanumeric : Char → Bool} {dir : MeetingDir}

theorem manifestMapping_sortManifest {chunks : List AudioChunkManifestEntry}
    (hchunks : chunks ≠ []) :
    manifestMapping unicodeAlphanumeric dir (sortManifest chunks) =
      loadSsrcMapping unicodeAlphanumeric dir := by
  refine if_neg fun hempty => hchunks ?_
  have hperm : (sortManifest chunks).Perm chunks := List.perm_insertionSort _ _
  rw [List.isEmpty_iff.mp hempty] at hperm
  exact hperm.nil_eq.symm

/-- The filter tests the canonical ids of the records against the manifest's id. -/
theorem isProcessed_iff {chunks : List AudioChunkManifestEntry} (hchunks : chunks ≠ [])
    {processed : List ProcessedAudioChunk}
    (hrecorded : ∀ record ∈ processed, IsRecordedSpeaker record.speakerId)
    (chunk : AudioChunkManifestEntry) :
    isProcessed unicodeAlphanumeric dir (sortManifest chunks) processed chunk = true ↔
      RecordedAsSpelled (loadSsrcMapping unicodeAlphanumeric dir) processed chunk := by
  rw [isProcessed, manifestMapping_sortManifest hchunks, List.contains_iff_mem,
    mem_normalizedProcessedChunks hrecorded, RecordedAsSpelled]

theorem excludes_iff (haccepted : dir.acceptedChunks ≠ [])
    {processed : List ProcessedAudioChunk}
    (hrecorded : ∀ record ∈ processed, IsRecordedSpeaker record.speakerId)
    {chunk : AudioChunkManifestEntry} (hchunk : chunk ∈ dir.acceptedChunks) :
    Excludes unicodeAlphanumeric dir (sortManifest dir.acceptedChunks) processed chunk.path ↔
      RecordedAsSpelled (loadSsrcMapping unicodeAlphanumeric dir) processed chunk := by
  constructor
  · rintro ⟨other, hother, hpath, hprocessed⟩
    obtain rfl := acceptedChunks_path_inj (mem_sortManifest.mp hother) hchunk hpath
    exact (isProcessed_iff haccepted hrecorded _).mp hprocessed
  · intro hspelled
    exact ⟨chunk, mem_sortManifest.mpr hchunk, rfl,
      (isProcessed_iff haccepted hrecorded _).mpr hspelled⟩

/-- A completed chunk with a canonical name is recorded under that name. -/
theorem Recognised.recordedAsSpelled {mapping : AList fun _ : String => String}
    {processed : List ProcessedAudioChunk} {chunk : AudioChunkManifestEntry}
    (hrecognised : Recognised mapping processed chunk)
    (hcompleted : CompletedLive mapping processed chunk) :
    RecordedAsSpelled mapping processed chunk := by
  rcases hrecognised with hcanonical | hnot | hspelled
  · obtain ⟨record, hrecord, hsequence, hstart, hspeaker⟩ := hcompleted
    exact ⟨record, hrecord, hspeaker.trans hcanonical, hsequence, hstart⟩
  · exact absurd hcompleted hnot
  · exact hspelled

/-- What is submitted was not excluded. -/
theorem not_submits_of_excludes {fir : List ℤ → ℤ} {outputs : AsrOutputs}
    {processed : List ProcessedAudioChunk} {resampleTo16k : Bool} {preparation : AsrPreparation}
    (hprepare : prepareManifestAsrInputs fir outputs unicodeAlphanumeric dir
      (sortManifest dir.acceptedChunks) processed resampleTo16k = .ok preparation)
    {path : ChunkPath}
    (hexcluded : Excludes unicodeAlphanumeric dir (sortManifest dir.acceptedChunks) processed
      path) : ¬Submits preparation path := by
  rintro ⟨input, hinput, hsubmitted⟩
  obtain ⟨excluded, hexcludedMem, rfl, hprocessed⟩ := hexcluded
  obtain ⟨source, hsource, hfrom⟩ := foldlM_prepareInput_comesFrom hprepare input hinput
  have hsource := (List.perm_insertionSort _ _).mem_iff.mp hsource
  obtain ⟨kept, hkept, rfl⟩ := List.mem_map.mp hsource
  obtain ⟨hkeptMem, hkeptFilter⟩ := List.mem_filter.mp hkept
  have hexcludedMem := mem_sortManifest.mp hexcludedMem
  have hkeptMem := mem_sortManifest.mp hkeptMem
  have hplace : ∀ chunk ∈ dir.acceptedChunks,
      chunk.path.dir = dir.path ∧ '/' ∉ chunk.path.name.toList := by
    intro chunk hchunk
    obtain ⟨entry, hentry, hpath, -⟩ := acceptedChunks_path hchunk
    rw [hpath]
    exact ⟨rfl, dir.names_plain entry hentry⟩
  obtain ⟨hexcludedDir, hexcludedPlain⟩ := hplace excluded hexcludedMem
  obtain ⟨hkeptDir, hkeptPlain⟩ := hplace kept hkeptMem
  have hdirs := hkeptDir.trans hexcludedDir.symm
  -- An input names either the staged file of its chunk or the file derived from it, and
  -- neither can be mistaken for a file of another chunk.
  have hsame : kept.path = excluded.path := by
    rcases hfrom with hown | ⟨chunk, hchunk, hdisplay, hderived⟩
    · rcases hsubmitted with hfile | hfile
      · exact display_inj hdirs (hown.symm.trans hfile)
      · exact absurd (hown.symm.trans hfile) (display_ne_asrOutputPath hdirs hkeptPlain)
    · have hchunkDir := (hplace chunk (mem_sortManifest.mp hchunk)).1
      rcases hsubmitted with hfile | hfile
      · refine absurd (hfile.symm.trans hderived) (display_ne_asrOutputPath ?_ hexcludedPlain)
        exact hexcludedDir.trans hchunkDir.symm
      · have hkeptChunk := display_inj (hchunkDir.trans hkeptDir.symm) hdisplay
        rw [← hkeptChunk]
        exact asrOutputPath_inj (hchunkDir.trans hexcludedDir.symm) (hderived.symm.trans hfile)
  have heq := acceptedChunks_path_inj hkeptMem hexcludedMem hsame
  rw [heq, hprocessed] at hkeptFilter
  cases hkeptFilter

theorem resolveSpeaker_of_keeps {mapping : AList fun _ : String => String}
    {chunk : AudioChunkManifestEntry} (hkeeps : KeepsSpeaker mapping chunk) :
    resolveSpeaker mapping chunk = chunk := by
  unfold resolveSpeaker
  rw [hkeeps]

theorem modesAgree_of_recognised (haccepted : dir.acceptedChunks ≠ [])
    {processed : List ProcessedAudioChunk}
    (hrecorded : ∀ record ∈ processed, IsRecordedSpeaker record.speakerId)
    (hchunks : ∀ chunk ∈ dir.acceptedChunks,
      KeepsSpeaker (loadSsrcMapping unicodeAlphanumeric dir) chunk ∧
        Recognised (loadSsrcMapping unicodeAlphanumeric dir) processed chunk) :
    ModesAgree unicodeAlphanumeric dir (sortManifest dir.acceptedChunks)
      (sortManifest (dir.acceptedChunks.map
        (resolveSpeaker (loadSsrcMapping unicodeAlphanumeric dir)))) processed := by
  have hsame : dir.acceptedChunks.map
      (resolveSpeaker (loadSsrcMapping unicodeAlphanumeric dir)) = dir.acceptedChunks := by
    conv_rhs => rw [← List.map_id dir.acceptedChunks]
    exact List.map_congr_left fun chunk hchunk => resolveSpeaker_of_keeps (hchunks chunk hchunk).1
  rw [hsame]
  -- Where nothing is rewritten both modes scan the same manifest.
  have hexcluded : ∀ chunk ∈ dir.acceptedChunks,
      CompletedLive (loadSsrcMapping unicodeAlphanumeric dir) processed chunk →
        Excludes unicodeAlphanumeric dir (sortManifest dir.acceptedChunks) processed
          chunk.path := by
    intro chunk hchunk hcompleted
    exact (excludes_iff haccepted hrecorded hchunk).mpr
      ((hchunks chunk hchunk).2.recordedAsSpelled hcompleted)
  have hskips : SkipsCompleted unicodeAlphanumeric dir (sortManifest dir.acceptedChunks)
      processed := by
    refine ⟨hexcluded, ?_⟩
    intro fir outputs resampleTo16k preparation hprepare chunk hchunk hcompleted
    exact not_submits_of_excludes hprepare (hexcluded chunk hchunk hcompleted)
  exact ⟨fun _ _ => Iff.rfl, fun _ => Iff.rfl, fun _ _ _ => rfl, hskips, hskips⟩

theorem recognised_of_modesAgree (haccepted : dir.acceptedChunks ≠ [])
    {processed : List ProcessedAudioChunk}
    (hrecorded : ∀ record ∈ processed, IsRecordedSpeaker record.speakerId)
    (hagree : ModesAgree unicodeAlphanumeric dir (sortManifest dir.acceptedChunks)
      (sortManifest (dir.acceptedChunks.map
        (resolveSpeaker (loadSsrcMapping unicodeAlphanumeric dir)))) processed)
    {chunk : AudioChunkManifestEntry} (hchunk : chunk ∈ dir.acceptedChunks) :
    KeepsSpeaker (loadSsrcMapping unicodeAlphanumeric dir) chunk ∧
      Recognised (loadSsrcMapping unicodeAlphanumeric dir) processed chunk := by
  set mapping := loadSsrcMapping unicodeAlphanumeric dir with hmapping
  constructor
  · -- The S3 manifest has the rewritten id, so the local one must have it.
    obtain ⟨other, hother, hpath, hspeaker⟩ :=
      (hagree.speakers chunk.path (resolveSpeaker mapping chunk).speakerId).mpr
        ⟨resolveSpeaker mapping chunk, mem_sortManifest.mpr (List.mem_map_of_mem hchunk), rfl, rfl⟩
    rw [acceptedChunks_path_inj (mem_sortManifest.mp hother) hchunk hpath] at hspeaker
    exact hspeaker.symm
  · by_cases hcompleted : CompletedLive mapping processed chunk
    · exact .inr (.inr ((excludes_iff haccepted hrecorded hchunk).mp
        (hagree.skipsLocal.excluded chunk hchunk hcompleted)))
    · exact .inr (.inl hcompleted)

end

/-- On a directory that both scanners accept, and for a list of completed chunks, the
two modes agree exactly when the mapping rewrites no speaker id in the name of an
accepted chunk and every accepted chunk that was completed is recognised. -/
theorem manifest_modes_agree_iff (unicodeAlphanumeric : Char → Bool) (dir : MeetingDir)
    {localChunks s3Chunks : List AudioChunkManifestEntry}
    (hlocal : scanMixdownChunkManifest dir = .ok localChunks)
    (hs3 : scanChunkManifest unicodeAlphanumeric dir = .ok s3Chunks)
    {processed : List ProcessedAudioChunk}
    (hrecorded : ∀ record ∈ processed, IsRecordedSpeaker record.speakerId) :
    ModesAgree unicodeAlphanumeric dir localChunks s3Chunks processed ↔
      ∀ chunk ∈ dir.acceptedChunks,
        KeepsSpeaker (loadSsrcMapping unicodeAlphanumeric dir) chunk ∧
          Recognised (loadSsrcMapping unicodeAlphanumeric dir) processed chunk := by
  obtain ⟨haccepted, rfl⟩ := scanMixdownChunkManifest_eq hlocal
  rw [scanChunkManifest_eq hs3]
  exact ⟨fun hagree _ => recognised_of_modesAgree haccepted hrecorded hagree,
    modesAgree_of_recognised haccepted hrecorded⟩

/-- A directory with one chunk of one sample, and user 42 behind SSRC 5. -/
def oneChunkDir (name : String) (hplain : '/' ∉ name.toList) : MeetingDir where
  path := "audio"
  entries := [{ name := name, bytes := wavFileBytes [1, 0] 48000 1 96000 2 16 }]
  tracker := some { ssrcToUser := [(5, "42")] }
  names_nodup := List.nodup_singleton _
  names_plain := by simpa using hplain

/-- The manifest entry of that chunk. -/
def oneChunkEntry (name speakerId : String) : AudioChunkManifestEntry where
  speakerId := speakerId
  sequence := 1
  startMs := 1000
  durationMs := 0
  sampleRate := 48000
  fileSizeBytes := 46
  pcmDataSizeBytes := 2
  path := { dir := "audio", name := name }

/-- The records that live transcription leaves of a chunk of an unmapped SSRC. -/
def fallbackRecords : List ProcessedAudioChunk := [⟨"ssrc:5", 1, 1000⟩]

theorem recorded_fallbackRecords :
    ∀ record ∈ fallbackRecords, IsRecordedSpeaker record.speakerId := by
  simp only [fallbackRecords, List.mem_singleton, forall_eq]
  exact .inr ⟨5, by decide, rfl⟩

theorem manifest_modes_agree_mapped_user :
    ModesAgree (fun _ => false) (oneChunkDir "42_1_1000.wav" (by decide))
      [oneChunkEntry "42_1_1000.wav" "42"] [oneChunkEntry "42_1_1000.wav" "42"]
      fallbackRecords := by
  refine (manifest_modes_agree_iff (fun _ => false) (oneChunkDir "42_1_1000.wav" (by decide))
    (by decide +kernel) (by decide +kernel) recorded_fallbackRecords).mpr ?_
  have haccepted : (oneChunkDir "42_1_1000.wav" (by decide)).acceptedChunks =
      [oneChunkEntry "42_1_1000.wav" "42"] := by decide +kernel
  rw [haccepted]
  simp only [List.mem_singleton, forall_eq]
  exact ⟨by unfold KeepsSpeaker; decide +kernel, .inl (by decide +kernel)⟩

/-- A chunk staged before its SSRC was mapped keeps its fallback id in the local
manifest only, so the record that completes it keeps it from being submitted
again in S3 mode only. -/
theorem manifest_modes_differ_after_mapping :
    let dir := oneChunkDir "ssrc%3A5_1_1000.wav" (by decide)
    let localChunks := [oneChunkEntry "ssrc%3A5_1_1000.wav" "ssrc:5"]
    let s3Chunks := [oneChunkEntry "ssrc%3A5_1_1000.wav" "42"]
    let submitted := fun chunks => (prepareManifestAsrInputs (fun _ => 0) {} (fun _ => false) dir
      chunks fallbackRecords false).toOption.map (·.prepared)
    scanMixdownChunkManifest dir = .ok localChunks ∧
      scanChunkManifest (fun _ => false) dir = .ok s3Chunks ∧
      (∀ record ∈ fallbackRecords, IsRecordedSpeaker record.speakerId) ∧
      submitted localChunks = some [⟨"ssrc:5", "audio/ssrc%3A5_1_1000.wav", 0⟩] ∧
      submitted s3Chunks = some [] ∧
      ¬ModesAgree (fun _ => false) dir localChunks s3Chunks fallbackRecords := by
  intro dir localChunks s3Chunks submitted
  refine ⟨by decide +kernel, by decide +kernel, recorded_fallbackRecords, by decide +kernel,
    by decide +kernel, ?_⟩
  intro hagree
  obtain ⟨chunk, hchunk, -, hspeaker⟩ := (hagree.speakers _ "42").mpr
    ⟨oneChunkEntry "ssrc%3A5_1_1000.wav" "42", List.mem_singleton_self _, rfl, rfl⟩
  rw [List.mem_singleton.mp hchunk] at hspeaker
  exact absurd hspeaker (by decide)

end DiscordTranscript.Audio
