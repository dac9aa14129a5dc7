import DiscordTranscript.Infrastructure.Reconciler

/-! # What reconciliation promises

A run offers to the queue only keys that are neither in the store nor deleted, each of them
once; and a run that reports a complete scan has left no file out.
-/

namespace DiscordTranscript.Infrastructure

/-! ## The walk -/

/-- All files below a directory, readable or not. -/
def allFiles (dir : StagedPath) : StagedEntries → List StagedPath
  | .nil => []
  | .file name _ rest => (dir ++ [name]) :: allFiles dir rest
  | .dir name _ _ children rest => allFiles (dir ++ [name]) children ++ allFiles dir rest
  | .other _ _ rest => allFiles dir rest

def StagingArea.files (staging : StagingArea) : List StagedPath := allFiles [] staging.entries

theorem ne_nil_of_mem_allFiles {rel dir : StagedPath} {entries : StagedEntries}
    (hrel : rel ∈ allFiles dir entries) : rel ≠ [] := by
  induction entries generalizing dir with
  | nil => cases hrel
  | file name read rest ih =>
      rcases List.mem_cons.mp hrel with rfl | hrest
      · exact List.append_ne_nil_of_right_ne_nil _ (List.cons_ne_nil _ _)
      · exact ih hrest
  | dir name read listed children rest ihChildren ihRest =>
      rcases List.mem_append.mp hrel with hchild | hrest
      · exact ihChildren hchild
      · exact ihRest hrest
  | other name read rest ih => exact ih hrel

theorem collectStagedFiles_subset (dir : StagedPath) (entries : StagedEntries) :
    (collectStagedFiles dir entries).2 ⊆ allFiles dir entries := by
  induction entries generalizing dir with
  | nil => exact List.Subset.refl _
  | file name read rest ih =>
      dsimp only [collectStagedFiles, allFiles]
      split
      · exact List.cons_subset_cons _ (ih dir)
      · exact List.subset_cons_of_subset _ (ih dir)
  | dir name read listed children rest ihChildren ihRest =>
      dsimp only [collectStagedFiles, allFiles]
      split
      · apply List.append_subset.mpr
        constructor
        · exact List.subset_append_of_subset_left _ (ihChildren _)
        · exact List.subset_append_of_subset_right _ (ihRest dir)
      · exact List.subset_append_of_subset_right _ (ihRest dir)
  | other name read rest ih => exact ih dir

theorem collectStagedFiles_complete {dir : StagedPath} {entries : StagedEntries}
    (hcomplete : (collectStagedFiles dir entries).1 = true) :
    (collectStagedFiles dir entries).2 = allFiles dir entries := by
  induction entries generalizing dir with
  | nil => rfl
  | file name read rest ih =>
      dsimp only [collectStagedFiles, allFiles] at hcomplete ⊢
      split at hcomplete
      next hread => rw [if_pos hread, ih hcomplete]
      next => cases hcomplete
  | dir name read listed children rest ihChildren ihRest =>
      dsimp only [collectStagedFiles, allFiles] at hcomplete ⊢
      split at hcomplete
      next hread =>
        obtain ⟨hchildren, hrest⟩ := (Bool.and_eq_true _ _).mp hcomplete
        rw [if_pos hread, ihChildren hchildren, ihRest hrest]
      next => cases hcomplete
  | other name read rest ih => exact ih ((Bool.and_eq_true _ _).mp hcomplete).2

theorem StagingArea.walk_subset (staging : StagingArea) : staging.walk.2 ⊆ staging.files := by
  unfold walk
  split
  · exact collectStagedFiles_subset _ _
  · exact List.nil_subset _

theorem StagingArea.walk_complete {staging : StagingArea} (hcomplete : staging.walk.1 = true) :
    staging.walk.2 = staging.files := by
  unfold walk at hcomplete ⊢
  split at hcomplete
  next hlisted =>
    rw [if_pos hlisted, collectStagedFiles_complete hcomplete]
    rfl
  next => cases hcomplete

theorem relKey_ne_empty {rel : StagedPath} (hrel : rel ≠ []) : relKey rel ≠ "" := by
  obtain ⟨name, rest, rfl⟩ := List.exists_cons_of_ne_nil hrel
  intro hempty
  have hlist := congrArg String.toList hempty
  rw [relKey, String.toList_intercalate] at hlist
  cases rest with
  | nil => simp [FileName.toStringLossy, name.nonempty] at hlist
  | cons next rest => simp [FileName.toStringLossy, name.nonempty] at hlist

/-! ## The scan -/

section

variable {keyPrefix : String} {inputs : ReconcileInputs} {accepted : AcceptedUploads}

/-- What the scan knows of the files that it has seen. -/
structure ScanOf (keyPrefix : String) (inputs : ReconcileInputs) (accepted : AcceptedUploads)
    (seen : List StagedPath) (scan : FileScan) : Prop where
  staged_from : ∀ {key : String} {file : StagedPath × StagedFileStamp},
    scan.staged.lookup key = some file →
      file.1 ∈ seen ∧ key = stagedKey keyPrefix file.1 ∧
        inputs.staging.stamp file.1 = some file.2 ∧
        (accepted.lookup key).any (·.2 = file.2) = false
  seen_known : scan.complete = true → ∀ rel ∈ seen, isUploadCandidate rel = true →
    ∃ stamp, inputs.staging.stamp rel = some stamp ∧
      ((accepted.lookup (stagedKey keyPrefix rel)).any (·.2 = stamp) = true ∨
        (scan.staged.lookup (stagedKey keyPrefix rel)).isSome = true)

namespace ScanOf

variable {seen : List StagedPath} {scan : FileScan}

theorem incomplete (hscan : ScanOf keyPrefix inputs accepted seen scan) (more : List StagedPath)
    (scanned : ℕ) :
    ScanOf keyPrefix inputs accepted (seen ++ more)
      { scan with scanned := scanned, complete := false } where
  staged_from hkey := by
    obtain ⟨hmem, hrest⟩ := hscan.staged_from hkey
    exact ⟨List.mem_append_left _ hmem, hrest⟩
  seen_known hcomplete := by cases hcomplete

/-- A file that needs no entry. -/
theorem skip (hscan : ScanOf keyPrefix inputs accepted seen scan) {rel : StagedPath}
    (scanned : ℕ) (hrel : isUploadCandidate rel = true → ∃ stamp,
      inputs.staging.stamp rel = some stamp ∧
        (accepted.lookup (stagedKey keyPrefix rel)).any (·.2 = stamp) = true) :
    ScanOf keyPrefix inputs accepted (seen ++ [rel]) { scan with scanned := scanned } where
  staged_from hkey := by
    obtain ⟨hmem, hrest⟩ := hscan.staged_from hkey
    exact ⟨List.mem_append_left _ hmem, hrest⟩
  seen_known hcomplete other hother hcandidate := by
    rcases List.mem_append.mp hother with hseen | hnew
    · exact hscan.seen_known hcomplete other hseen hcandidate
    · obtain rfl := List.mem_singleton.mp hnew
      obtain ⟨stamp, hstamp, haccepted⟩ := hrel hcandidate
      exact ⟨stamp, hstamp, .inl haccepted⟩

theorem stage (hscan : ScanOf keyPrefix inputs accepted seen scan) {rel : StagedPath}
    {stamp : StagedFileStamp} (scanned : ℕ) (hstamp : inputs.staging.stamp rel = some stamp)
    (hnew : (accepted.lookup (stagedKey keyPrefix rel)).any (·.2 = stamp) = false) :
    ScanOf keyPrefix inputs accepted (seen ++ [rel]) { scan with
      scanned := scanned
      staged := scan.staged.insert (stagedKey keyPrefix rel) (rel, stamp) } where
  staged_from {key file} hkey := by
    by_cases hsame : key = stagedKey keyPrefix rel
    · subst hsame
      rw [AList.lookup_insert, Option.some.injEq] at hkey
      subst hkey
      exact ⟨List.mem_append_right _ List.mem_cons_self, rfl, hstamp, hnew⟩
    · rw [AList.lookup_insert_ne hsame] at hkey
      obtain ⟨hmem, hrest⟩ := hscan.staged_from hkey
      exact ⟨List.mem_append_left _ hmem, hrest⟩
  seen_known hcomplete other hother hcandidate := by
    rcases List.mem_append.mp hother with hseen | hlast
    · obtain ⟨found, hfound, hknown⟩ := hscan.seen_known hcomplete other hseen hcandidate
      refine ⟨found, hfound, hknown.imp_right fun hstaged => ?_⟩
      by_cases hsame : stagedKey keyPrefix other = stagedKey keyPrefix rel
      · rw [hsame, AList.lookup_insert]
        rfl
      · rwa [AList.lookup_insert_ne hsame]
    · obtain rfl := List.mem_singleton.mp hlast
      refine ⟨stamp, hstamp, .inr ?_⟩
      rw [AList.lookup_insert]
      rfl

end ScanOf

theorem scanFile_of {seen : List StagedPath} {scan : FileScan} {rel : StagedPath}
    (hscan : ScanOf keyPrefix inputs accepted seen scan) (hrel : rel ≠ []) :
    ScanOf keyPrefix inputs accepted (seen ++ [rel])
      (scanFile keyPrefix inputs accepted scan rel) := by
  unfold scanFile
  split
  next hcandidate =>
    exact hscan.skip scan.scanned fun htrue => absurd htrue (by simpa using hcandidate)
  next =>
    split
    next => exact hscan.incomplete [rel] _
    next stamp hstamp =>
      dsimp only
      rw [if_neg (relKey_ne_empty hrel)]
      split
      next haccepted => exact hscan.skip _ fun _ => ⟨stamp, hstamp, haccepted⟩
      next haccepted => exact hscan.stage _ hstamp (by simpa using haccepted)

theorem scanFile_complete {scan : FileScan} {rel : StagedPath}
    (hcomplete : (scanFile keyPrefix inputs accepted scan rel).complete = true) :
    scan.complete = true := by
  unfold scanFile at hcomplete
  split at hcomplete
  · exact hcomplete
  · split at hcomplete
    · cases hcomplete
    · dsimp only at hcomplete
      split at hcomplete
      · exact hcomplete
      · split at hcomplete
        · exact hcomplete
        · exact hcomplete

theorem scanFiles_of {seen files : List StagedPath} {scan : FileScan}
    (hscan : ScanOf keyPrefix inputs accepted seen scan) (hfiles : ∀ rel ∈ files, rel ≠ []) :
    ScanOf keyPrefix inputs accepted (seen ++ files)
      (scanFiles keyPrefix inputs accepted files scan) := by
  induction files generalizing seen scan with
  | nil => simpa [scanFiles] using hscan
  | cons rel rest ih =>
      rw [scanFiles]
      split
      next => exact hscan.incomplete _ scan.scanned
      next =>
        rw [List.append_cons]
        exact ih (scanFile_of hscan (hfiles rel List.mem_cons_self))
          fun other hother => hfiles other (List.mem_cons_of_mem _ hother)

theorem scanFiles_complete {files : List StagedPath} {scan : FileScan}
    (hcomplete : (scanFiles keyPrefix inputs accepted files scan).complete = true) :
    scan.complete = true := by
  induction files generalizing scan with
  | nil => exact hcomplete
  | cons rel rest ih =>
      rw [scanFiles] at hcomplete
      split at hcomplete
      next => cases hcomplete
      next => exact scanFile_complete (ih hcomplete)

end

/-! ## The listings -/

theorem visitKeys_ok {σ : Type} {listing : Listing} {stop : String → Bool}
    {onKey : σ → String → σ} {state out : σ}
    (hvisit : visitKeys listing stop onKey state = .ok out) :
    out = listing.keys.foldl onKey state := by
  unfold visitKeys at hvisit
  split at hvisit
  · cases hvisit
  · split at hvisit
    · cases hvisit
    · exact (Except.ok.inj hvisit).symm

theorem lookup_foldl_erase (keys : List String) (map : AcceptedUploads) (key : String) :
    (keys.foldl (fun map key => map.erase key) map).lookup key =
      if key ∈ keys then none else map.lookup key := by
  induction keys generalizing map with
  | nil => rfl
  | cons first rest ih =>
      rw [List.foldl_cons, ih]
      by_cases hfirst : key = first
      · subst hfirst
        simp
      · simp [hfirst, AList.lookup_erase_ne]

theorem lookup_retain (keep : String → StagedPath × StagedFileStamp → Bool)
    (map : AcceptedUploads) (key : String) (file : StagedPath × StagedFileStamp) :
    (retain keep map).lookup key = some file ↔
      map.lookup key = some file ∧ keep key file = true := by
  rw [← Option.mem_def, ← Option.mem_def, AList.mem_lookup_iff, AList.mem_lookup_iff, retain,
    List.mem_filter]

namespace TombstoneIndex

theorem mem_foldl_insertListed {tombstonePrefix tombstone : String} (keys : List String)
    (index : TombstoneIndex) :
    tombstone ∈ (keys.foldl (insertListed tombstonePrefix) index).prefixes ↔
      tombstonePrefix ++ tombstone ∈ keys ∨ tombstone ∈ index.prefixes := by
  induction keys generalizing index with
  | nil => simp
  | cons key rest ih =>
      rw [List.foldl_cons, ih, insertListed]
      cases hstrip : stripStart key tombstonePrefix with
      | none =>
          have hkey : tombstonePrefix ++ tombstone ≠ key := by
            intro heq
            rw [stripStart_eq_some.mpr heq.symm] at hstrip
            cases hstrip
          simp [hkey]
      | some found =>
          obtain rfl := stripStart_eq_some.mp hstrip
          simp only [insert, List.mem_cons, String.append_right_inj]
          tauto

/-- The index agrees with the cancellation check of the queue. -/
theorem containsPrefixOf_eq_isCancelled (prefixes : List String) (key : String) :
    TombstoneIndex.containsPrefixOf ⟨prefixes⟩ key =
      CancelState.isCancelled { prefixes := prefixes } key := by
  rw [Bool.eq_iff_iff]
  simp only [containsPrefixOf, CancelState.isCancelled, Bool.or_eq_true, List.any_eq_true,
    List.contains_iff_mem, List.mem_range]
  constructor
  · rintro (hwhole | ⟨i, -, hpart⟩)
    · exact ⟨key, hwhole, startsWith_iff.mpr (List.prefix_refl _)⟩
    · refine ⟨_, hpart, startsWith_iff.mpr ?_⟩
      rw [String.toList_ofList]
      exact List.take_prefix _ _
  · rintro ⟨tombstone, hmem, hstart⟩
    have hpart := startsWith_iff.mp hstart
    rcases Nat.lt_or_ge tombstone.toList.length key.toList.length with hshorter | hwhole
    · right
      refine ⟨tombstone.toList.length, hshorter, ?_⟩
      rwa [← List.prefix_iff_eq_take.mp hpart, String.ofList_toList]
    · left
      have heq := hpart.eq_of_length_le hwhole
      rwa [← String.toList_injective heq]

end TombstoneIndex

/-! ## The queue -/

/-- What offering the files `rest` adds. -/
structure EnqueueOf (tombstones : TombstoneIndex) (rest : List StagedFile)
    (before after : EnqueueScan) (offered : List String) (queued : List StagedFile) : Prop where
  offered_eq : after.offered = before.offered ++ offered
  queued_eq : after.queuedFiles = before.queuedFiles ++ queued
  offered_sublist : offered.Sublist (rest.map Prod.fst)
  offered_uncovered : ∀ key ∈ offered, tombstones.containsPrefixOf key = false
  queued_sublist : queued.Sublist rest
  complete : after.complete = true → before.complete = true ∧
    ∀ file ∈ rest, tombstones.containsPrefixOf file.1 = true ∨ file ∈ queued
  accepted_from : ∀ key file, after.accepted.lookup key = some file →
    (key, file) ∈ queued ∨ before.accepted.lookup key = some file
  queued_kept : ∀ file ∈ queued, after.accepted.lookup file.1 = some file.2
  others_kept : ∀ key ∉ rest.map Prod.fst,
    after.accepted.lookup key = before.accepted.lookup key

namespace EnqueueOf

variable {tombstones : TombstoneIndex} {rest : List StagedFile} {before after : EnqueueScan}
  {offered : List String} {queued : List StagedFile} {key : String}
  {file : StagedPath × StagedFileStamp}

theorem nil (scan : EnqueueScan) : EnqueueOf tombstones [] scan scan [] [] where
  offered_eq := (List.append_nil _).symm
  queued_eq := (List.append_nil _).symm
  offered_sublist := List.Sublist.refl _
  offered_uncovered _ hkey := by cases hkey
  queued_sublist := List.Sublist.refl _
  complete hcomplete := ⟨hcomplete, by simp⟩
  accepted_from _ _ hkey := .inr hkey
  queued_kept _ hfile := by cases hfile
  others_kept _ _ := rfl

theorem stop (rest : List StagedFile) (scan : EnqueueScan) (backpressured : Bool) :
    EnqueueOf tombstones rest scan
      { scan with complete := false, backpressured := backpressured } [] [] where
  offered_eq := (List.append_nil _).symm
  queued_eq := (List.append_nil _).symm
  offered_sublist := List.nil_sublist _
  offered_uncovered _ hkey := by cases hkey
  queued_sublist := List.nil_sublist _
  complete hcomplete := by cases hcomplete
  accepted_from _ _ hkey := .inr hkey
  queued_kept _ hfile := by cases hfile
  others_kept _ _ := rfl

theorem covered (hcovered : tombstones.containsPrefixOf key = true)
    (hrest : EnqueueOf tombstones rest { before with accepted := before.accepted.erase key }
      after offered queued) :
    EnqueueOf tombstones ((key, file) :: rest) before after offered queued where
  offered_eq := hrest.offered_eq
  queued_eq := hrest.queued_eq
  offered_sublist := hrest.offered_sublist.cons _
  offered_uncovered := hrest.offered_uncovered
  queued_sublist := hrest.queued_sublist.cons _
  complete hcomplete := by
    obtain ⟨hbefore, hfiles⟩ := hrest.complete hcomplete
    exact ⟨hbefore, List.forall_mem_cons.mpr ⟨.inl hcovered, hfiles⟩⟩
  accepted_from other found hother :=
    (hrest.accepted_from other found hother).imp_right AList.lookup_of_lookup_erase
  queued_kept := hrest.queued_kept
  others_kept other hother := by
    rw [hrest.others_kept other (List.not_mem_of_not_mem_cons hother),
      AList.lookup_erase_ne (List.ne_of_not_mem_cons hother)]

theorem accept (huncovered : tombstones.containsPrefixOf key = false)
    (hkey : key ∉ rest.map Prod.fst)
    (hrest : EnqueueOf tombstones rest { before with
        offered := before.offered ++ [key]
        accepted := before.accepted.insert key file
        queuedFiles := before.queuedFiles ++ [(key, file)] } after offered queued) :
    EnqueueOf tombstones ((key, file) :: rest) before after (key :: offered)
      ((key, file) :: queued) where
  offered_eq := hrest.offered_eq.trans (List.append_assoc _ _ _)
  queued_eq := hrest.queued_eq.trans (List.append_assoc _ _ _)
  offered_sublist := hrest.offered_sublist.cons_cons _
  offered_uncovered := List.forall_mem_cons.mpr ⟨huncovered, hrest.offered_uncovered⟩
  queued_sublist := hrest.queued_sublist.cons_cons _
  complete hcomplete := by
    obtain ⟨hbefore, hfiles⟩ := hrest.complete hcomplete
    refine ⟨hbefore, List.forall_mem_cons.mpr ⟨.inr List.mem_cons_self, ?_⟩⟩
    exact fun other hother => (hfiles other hother).imp_right (List.mem_cons_of_mem _)
  accepted_from other found hother := by
    rcases hrest.accepted_from other found hother with hqueued | hbefore
    · exact .inl (List.mem_cons_of_mem _ hqueued)
    · by_cases hsame : other = key
      · subst hsame
        rw [AList.lookup_insert, Option.some.injEq] at hbefore
        subst hbefore
        exact .inl List.mem_cons_self
      · exact .inr (by rwa [AList.lookup_insert_ne hsame] at hbefore)
  queued_kept := by
    refine List.forall_mem_cons.mpr ⟨?_, hrest.queued_kept⟩
    rw [hrest.others_kept key hkey, AList.lookup_insert]
  others_kept other hother := by
    rw [hrest.others_kept other (List.not_mem_of_not_mem_cons hother),
      AList.lookup_insert_ne (List.ne_of_not_mem_cons hother)]

theorem reject {middle : EnqueueScan}
    (hrest : EnqueueOf tombstones rest middle after offered queued)
    (huncovered : tombstones.containsPrefixOf key = false)
    (hincomplete : after.complete = false)
    (hoffered : middle.offered = before.offered ++ [key])
    (hqueued : middle.queuedFiles = before.queuedFiles)
    (haccepted : middle.accepted = before.accepted) :
    EnqueueOf tombstones ((key, file) :: rest) before after (key :: offered) queued where
  offered_eq := by
    rw [hrest.offered_eq, hoffered, List.append_assoc]
    rfl
  queued_eq := by rw [hrest.queued_eq, hqueued]
  offered_sublist := hrest.offered_sublist.cons_cons _
  offered_uncovered := List.forall_mem_cons.mpr ⟨huncovered, hrest.offered_uncovered⟩
  queued_sublist := hrest.queued_sublist.cons _
  complete hcomplete := by
    rw [hincomplete] at hcomplete
    cases hcomplete
  accepted_from other found hother := haccepted ▸ hrest.accepted_from other found hother
  queued_kept := hrest.queued_kept
  others_kept other hother := by
    rw [hrest.others_kept other (List.not_mem_of_not_mem_cons hother), haccepted]

end EnqueueOf

theorem enqueueStaged_of (inputs : ReconcileInputs) (tombstones : TombstoneIndex)
    {rest : List StagedFile} (hnodup : (rest.map Prod.fst).Nodup) (scan : EnqueueScan) :
    ∃ offered queued, EnqueueOf tombstones rest scan
      (enqueueStaged inputs tombstones rest scan) offered queued := by
  induction rest generalizing scan with
  | nil => exact ⟨[], [], EnqueueOf.nil scan⟩
  | cons first rest ih =>
      obtain ⟨key, file⟩ := first
      obtain ⟨hkey, hrest⟩ := List.nodup_cons.mp hnodup
      unfold enqueueStaged
      split
      next => exact ⟨[], [], EnqueueOf.stop _ scan scan.backpressured⟩
      next =>
        split
        next hcovered =>
          obtain ⟨offered, queued, htail⟩ := ih hrest { scan with
            accepted := scan.accepted.erase key }
          exact ⟨offered, queued, htail.covered hcovered⟩
        next huncovered =>
          rw [Bool.not_eq_true] at huncovered
          dsimp only
          split
          next =>
            split
            next => exact ⟨_, _, (EnqueueOf.stop _ _ scan.backpressured).accept huncovered hkey⟩
            next =>
              obtain ⟨offered, queued, htail⟩ := ih hrest { scan with
                offered := scan.offered ++ [key]
                accepted := scan.accepted.insert key file
                queuedFiles := scan.queuedFiles ++ [(key, file)] }
              exact ⟨_, _, htail.accept huncovered hkey⟩
          next =>
            split
            next =>
              exact ⟨_, _, (EnqueueOf.stop rest { scan with offered := scan.offered ++ [key] }
                true).reject huncovered rfl rfl rfl rfl⟩
            next =>
              obtain ⟨offered, queued, htail⟩ := ih hrest { scan with
                offered := scan.offered ++ [key]
                complete := false }
              have hincomplete := mt htail.complete (by simp)
              exact ⟨_, _, htail.reject huncovered (by simpa using hincomplete) rfl rfl rfl⟩

/-! ## One run -/

/-- A listed tombstone covers the key. -/
def Tombstoned (tombstonePrefix : String) (inputs : ReconcileInputs) (key : String) : Prop :=
  ∃ tombstone, tombstonePrefix ++ tombstone ∈ inputs.tombstones.keys ∧
    startsWith key tombstone = true

theorem containsPrefixOf_listed_iff {tombstonePrefix : String} {inputs : ReconcileInputs}
    {key : String} :
    (inputs.tombstones.keys.foldl (TombstoneIndex.insertListed tombstonePrefix)
      {}).containsPrefixOf key = true ↔ Tombstoned tombstonePrefix inputs key := by
  rw [TombstoneIndex.containsPrefixOf_eq_isCancelled, CancelState.isCancelled, List.any_eq_true]
  simp only [TombstoneIndex.mem_foldl_insertListed, List.not_mem_nil, or_false]
  rfl

theorem mem_sortFiles {rel : StagedPath} {files : List StagedPath} :
    rel ∈ sortFiles files ↔ rel ∈ files :=
  (List.perm_insertionSort _ _).mem_iff

theorem mem_sortStaged {key : String} {file : StagedPath × StagedFileStamp}
    {staged : AcceptedUploads} : (key, file) ∈ sortStaged staged ↔ staged.lookup key = some file := by
  rw [sortStaged, (List.perm_insertionSort _ _).mem_iff, List.mem_map, ← Option.mem_def,
    AList.mem_lookup_iff]
  constructor
  · rintro ⟨⟨other, found⟩, hentry, heq⟩
    obtain ⟨rfl, rfl⟩ := Prod.mk.inj heq
    exact hentry
  · exact fun hentry => ⟨_, hentry, rfl⟩

theorem nodup_sortStaged (staged : AcceptedUploads) :
    ((sortStaged staged).map Prod.fst).Nodup := by
  have hperm := (List.perm_insertionSort
    (fun left right : StagedFile => (compare left.1 right.1).isLE)
    (staged.entries.map fun entry => (entry.1, entry.2))).map Prod.fst
  rw [sortStaged, hperm.nodup_iff, List.map_map]
  exact staged.nodupKeys

section

variable (keyPrefix tombstonePrefix : String) (inputs : ReconcileInputs)
  (accepted : AcceptedUploads)

/-- What a run does. -/
structure RunOf (run : ReconcileRun) : Prop where
  offered_missing : ∀ key ∈ run.offered,
    key ∉ inputs.remote.keys ∧ ¬Tombstoned tombstonePrefix inputs key
  offered_nodup : run.offered.Nodup
  offered_new : ∀ key ∈ run.offered, ∃ rel ∈ inputs.staging.files, ∃ stamp,
    key = stagedKey keyPrefix rel ∧ inputs.staging.stamp rel = some stamp ∧
      ∀ file, accepted.lookup key = some file → inputs.staging.stamp file.1 = some file.2 →
        file.2 ≠ stamp
  queued_from : ∀ key file, (key, file) ∈ run.queuedFiles →
    file.1 ∈ inputs.staging.files ∧ key = stagedKey keyPrefix file.1 ∧
      inputs.staging.stamp file.1 = some file.2
  queued_kept : ∀ key file, (key, file) ∈ run.queuedFiles → run.accepted.lookup key = some file
  accepted_from : ∀ key file, run.accepted.lookup key = some file →
    (key, file) ∈ run.queuedFiles ∨ accepted.lookup key = some file
  accepted_kept : ∀ key file, accepted.lookup key = some file →
    inputs.staging.stamp file.1 = some file.2 →
    (∀ rel ∈ inputs.staging.files, stagedKey keyPrefix rel = key →
      inputs.staging.stamp rel = some file.2) →
    ¬Tombstoned tombstonePrefix inputs key → run.accepted.lookup key = some file
  complete : ∀ scan, run.result = .ok scan → scan.complete = true →
    ∀ rel ∈ inputs.staging.files, isUploadCandidate rel = true →
      stagedKey keyPrefix rel ∈ inputs.remote.keys ∨
      Tombstoned tombstonePrefix inputs (stagedKey keyPrefix rel) ∨
      ∃ file, inputs.staging.stamp file.1 = some file.2 ∧
        ((stagedKey keyPrefix rel, file) ∈ run.queuedFiles ∨
          accepted.lookup (stagedKey keyPrefix rel) = some file ∧
            inputs.staging.stamp rel = some file.2)

/-- A run that ends before it offers anything. -/
theorem runOf_cut (result : Except String ReconcileScan)
    (hresult : ∀ scan, result = .ok scan → scan.complete = false) :
    RunOf keyPrefix tombstonePrefix inputs accepted
      ⟨result, retain (fun _ file => inputs.staging.stamp file.1 = some file.2) accepted,
        [], []⟩ where
  offered_missing _ hkey := by cases hkey
  offered_nodup := List.nodup_nil
  offered_new _ hkey := by cases hkey
  queued_from _ _ hfile := by cases hfile
  queued_kept _ _ hfile := by cases hfile
  accepted_from key file hkey := .inr ((lookup_retain _ _ _ _).mp hkey).1
  accepted_kept key file hkey hstamp _ _ :=
    (lookup_retain _ _ _ _).mpr ⟨hkey, decide_eq_true hstamp⟩
  complete scan hscan hcomplete := by
    rw [hresult scan hscan] at hcomplete
    cases hcomplete

/-- The files still accepted at the start of a run. -/
def stillAccepted : AcceptedUploads :=
  retain (fun _ file => inputs.staging.stamp file.1 = some file.2) accepted

/-- A run that reaches the queue. -/
theorem runOf_enqueued {files : List StagedPath} {scan : FileScan} {scanned queued : ℕ}
    {backpressured : Bool} {staged : AcceptedUploads} {tombstones : TombstoneIndex}
    {done : EnqueueScan} {offered : List String} {queuedFiles : List StagedFile}
    (hscan : ScanOf keyPrefix inputs (stillAccepted inputs accepted) files scan)
    (hsubset : files ⊆ inputs.staging.files)
    (hcomplete : scan.complete = true → inputs.staging.files ⊆ files)
    (hstaged : staged = inputs.remote.keys.foldl (fun map key => map.erase key) scan.staged)
    (htombstones : tombstones =
      inputs.tombstones.keys.foldl (TombstoneIndex.insertListed tombstonePrefix) {})
    (hdone : EnqueueOf tombstones (sortStaged staged)
      { accepted := retain (fun key _ => !tombstones.containsPrefixOf key)
          (stillAccepted inputs accepted)
        complete := scan.complete } done offered queuedFiles) :
    RunOf keyPrefix tombstonePrefix inputs accepted
      ⟨.ok ⟨scanned, queued, done.complete, backpressured⟩, done.accepted, done.offered,
        done.queuedFiles⟩ := by
  have hcovered : ∀ key, tombstones.containsPrefixOf key = true ↔
      Tombstoned tombstonePrefix inputs key := by
    intro key
    rw [htombstones, containsPrefixOf_listed_iff]
  have hlookup : ∀ key file, staged.lookup key = some file ↔
      key ∉ inputs.remote.keys ∧ scan.staged.lookup key = some file := by
    intro key file
    rw [hstaged, lookup_foldl_erase]
    by_cases hremote : key ∈ inputs.remote.keys <;> simp [hremote]
  have hoffered : done.offered = offered := hdone.offered_eq
  have hqueued : done.queuedFiles = queuedFiles := hdone.queued_eq
  have hsource : ∀ key ∈ offered, ∃ file, staged.lookup key = some file := by
    intro key hkey
    obtain ⟨⟨other, file⟩, hfile, rfl⟩ := List.mem_map.mp (hdone.offered_sublist.subset hkey)
    exact ⟨file, mem_sortStaged.mp hfile⟩
  have hqueuedSource : ∀ key file, (key, file) ∈ queuedFiles →
      scan.staged.lookup key = some file := by
    intro key file hfile
    exact ((hlookup key file).mp (mem_sortStaged.mp (hdone.queued_sublist.subset hfile))).2
  constructor
  case offered_missing =>
    intro key hkey
    rw [hoffered] at hkey
    obtain ⟨file, hfile⟩ := hsource key hkey
    refine ⟨((hlookup key file).mp hfile).1, fun htombstoned => ?_⟩
    rw [← hcovered, hdone.offered_uncovered key hkey] at htombstoned
    cases htombstoned
  case offered_nodup =>
    rw [hoffered]
    exact hdone.offered_sublist.nodup (nodup_sortStaged staged)
  case offered_new =>
    intro key hkey
    rw [hoffered] at hkey
    obtain ⟨file, hfile⟩ := hsource key hkey
    obtain ⟨hmem, hname, hstamp, hnew⟩ := hscan.staged_from ((hlookup key file).mp hfile).2
    refine ⟨file.1, hsubset hmem, file.2, hname, hstamp, ?_⟩
    intro other hother hstill hsame
    have hlookupStill : (stillAccepted inputs accepted).lookup key = some other :=
      (lookup_retain _ _ _ _).mpr ⟨hother, decide_eq_true hstill⟩
    simp [hlookupStill, hsame] at hnew
  case queued_from =>
    intro key file hfile
    rw [hqueued] at hfile
    obtain ⟨hmem, hname, hstamp, -⟩ := hscan.staged_from (hqueuedSource key file hfile)
    exact ⟨hsubset hmem, hname, hstamp⟩
  case queued_kept =>
    intro key file hfile
    rw [hqueued] at hfile
    exact hdone.queued_kept _ hfile
  case accepted_from =>
    intro key file hkey
    rw [hqueued]
    refine (hdone.accepted_from key file hkey).imp_right fun hbefore => ?_
    exact ((lookup_retain _ _ _ _).mp ((lookup_retain _ _ _ _).mp hbefore).1).1
  case accepted_kept =>
    intro key file hkey hstamp hsame huncovered
    have hstill : (stillAccepted inputs accepted).lookup key = some file :=
      (lookup_retain _ _ _ _).mpr ⟨hkey, decide_eq_true hstamp⟩
    have hother : key ∉ (sortStaged staged).map Prod.fst := by
      intro hmem
      obtain ⟨⟨found, new⟩, hnew, rfl⟩ := List.mem_map.mp hmem
      obtain ⟨hseen, hname, hstampNew, haccepted⟩ :=
        hscan.staged_from ((hlookup _ _).mp (mem_sortStaged.mp hnew)).2
      rw [hsame new.1 (hsubset hseen) hname.symm, Option.some.injEq] at hstampNew
      simp [hstill, hstampNew] at haccepted
    rw [hdone.others_kept key hother]
    rw [← hcovered, Bool.not_eq_true] at huncovered
    exact (lookup_retain _ _ _ _).mpr ⟨hstill, by rw [huncovered]; rfl⟩
  case complete =>
    intro result hresult hdoneComplete rel hrel hcandidate
    obtain rfl := Except.ok.inj hresult
    obtain ⟨hscanComplete, hall⟩ := hdone.complete hdoneComplete
    obtain ⟨stamp, hstamp, hknown⟩ := hscan.seen_known hscanComplete rel
      (hcomplete hscanComplete hrel) hcandidate
    by_cases hremote : stagedKey keyPrefix rel ∈ inputs.remote.keys
    · exact .inl hremote
    · right
      rcases hknown with haccepted | hmissing
      · right
        obtain ⟨file, hfile, hsame⟩ := (Option.any_eq_true _ _).mp haccepted
        obtain ⟨hlookupFile, hstill⟩ := (lookup_retain _ _ _ _).mp hfile
        refine ⟨file, of_decide_eq_true hstill, .inr ⟨hlookupFile, ?_⟩⟩
        rw [hstamp, of_decide_eq_true hsame]
      · obtain ⟨file, hfile⟩ := Option.isSome_iff_exists.mp hmissing
        have hentry := mem_sortStaged.mpr ((hlookup _ _).mpr ⟨hremote, hfile⟩)
        rcases hall _ hentry with hcover | hqueuedFile
        · exact .inl ((hcovered _).mp hcover)
        · refine .inr ⟨file, (hscan.staged_from hfile).2.2.1, .inl ?_⟩
          rwa [hqueued]

/-- Nothing is scanned, and nothing known, before the first file. -/
theorem scanOf_start (complete : Bool) :
    ScanOf keyPrefix inputs accepted [] { complete := complete } where
  staged_from hkey := by cases hkey
  seen_known _ _ hmem := by cases hmem

theorem reconcileStagedUploadsOnce_of : RunOf keyPrefix tombstonePrefix inputs accepted
    (reconcileStagedUploadsOnce keyPrefix tombstonePrefix inputs accepted) := by
  unfold reconcileStagedUploadsOnce
  dsimp only
  split
  next => exact runOf_cut _ _ _ _ _ fun scan hscan => by cases hscan; rfl
  next =>
    split
    next => exact runOf_cut _ _ _ _ _ fun scan hscan => by cases hscan
    next staged hlisted =>
      split
      next => exact runOf_cut _ _ _ _ _ fun scan hscan => by cases hscan; rfl
      next =>
        split
        next => exact runOf_cut _ _ _ _ _ fun scan hscan => by cases hscan
        next tombstones hcovered =>
          obtain ⟨offered, queued, hdone⟩ := enqueueStaged_of inputs tombstones
            (nodup_sortStaged staged) _
          have hfiles : ∀ rel ∈ sortFiles inputs.staging.walk.2, rel ≠ [] := fun rel hrel =>
            ne_nil_of_mem_allFiles (inputs.staging.walk_subset (mem_sortFiles.mp hrel))
          have hscan := scanFiles_of
            (scanOf_start keyPrefix inputs (stillAccepted inputs accepted) inputs.staging.walk.1)
            hfiles
          refine runOf_enqueued _ _ _ _ hscan ?_ ?_ (visitKeys_ok hlisted)
            (visitKeys_ok hcovered) hdone
          · exact fun rel hrel => inputs.staging.walk_subset (mem_sortFiles.mp hrel)
          · intro hcomplete rel hrel
            have hwalk := StagingArea.walk_complete (scanFiles_complete hcomplete)
            rw [List.nil_append, mem_sortFiles, hwalk]
            exact hrel

end

/-! ## Runs one after the other -/

section

variable (keyPrefix tombstonePrefix : String)

/-- The accepted map after some runs; the first one starts with an empty map. -/
def acceptedAfter (runs : List ReconcileInputs) : AcceptedUploads :=
  runs.foldl (fun accepted inputs =>
    (reconcileStagedUploadsOnce keyPrefix tombstonePrefix inputs accepted).accepted) ∅

def runAfter (earlier : List ReconcileInputs) (inputs : ReconcileInputs) : ReconcileRun :=
  reconcileStagedUploadsOnce keyPrefix tombstonePrefix inputs
    (acceptedAfter keyPrefix tombstonePrefix earlier)

/-- The queue accepted the file in one of the runs. -/
def QueuedIn (runs : List ReconcileInputs) (key : String) (file : StagedPath × StagedFileStamp) :
    Prop :=
  ∃ before inputs after, runs = before ++ inputs :: after ∧
    (key, file) ∈ (runAfter keyPrefix tombstonePrefix before inputs).queuedFiles

/-- No two files of the runs have the same key. -/
def DistinctKeys (runs : List ReconcileInputs) : Prop :=
  ∀ first ∈ runs, ∀ second ∈ runs, ∀ rel ∈ first.staging.files, ∀ other ∈ second.staging.files,
    stagedKey keyPrefix rel = stagedKey keyPrefix other → rel = other

/-- The file, and any other file with its key, still has the stamp. -/
def StampUnchanged (key : String) (file : StagedPath × StagedFileStamp)
    (inputs : ReconcileInputs) : Prop :=
  inputs.staging.stamp file.1 = some file.2 ∧
    ∀ rel ∈ inputs.staging.files, stagedKey keyPrefix rel = key →
      inputs.staging.stamp rel = some file.2

variable {keyPrefix tombstonePrefix}

theorem acceptedAfter_concat (runs : List ReconcileInputs) (inputs : ReconcileInputs) :
    acceptedAfter keyPrefix tombstonePrefix (runs ++ [inputs]) =
      (runAfter keyPrefix tombstonePrefix runs inputs).accepted := by
  rw [acceptedAfter, List.foldl_append]
  rfl

theorem runAfter_of (earlier : List ReconcileInputs) (inputs : ReconcileInputs) :
    RunOf keyPrefix tombstonePrefix inputs (acceptedAfter keyPrefix tombstonePrefix earlier)
      (runAfter keyPrefix tombstonePrefix earlier inputs) :=
  reconcileStagedUploadsOnce_of keyPrefix tombstonePrefix inputs _

theorem queuedIn_of_accepted {runs : List ReconcileInputs} {key : String}
    {file : StagedPath × StagedFileStamp}
    (hkey : (acceptedAfter keyPrefix tombstonePrefix runs).lookup key = some file) :
    QueuedIn keyPrefix tombstonePrefix runs key file := by
  induction runs using List.reverseRecOn with
  | nil => cases hkey
  | append_singleton runs inputs ih =>
      rw [acceptedAfter_concat] at hkey
      rcases (runAfter_of runs inputs).accepted_from key file hkey with hqueued | hbefore
      · exact ⟨runs, inputs, [], rfl, hqueued⟩
      · obtain ⟨before, past, after, rfl, hqueued⟩ := ih hbefore
        exact ⟨before, past, after ++ [inputs], by simp, hqueued⟩

theorem lookup_acceptedAfter {before between : List ReconcileInputs} {past : ReconcileInputs}
    {key : String} {file : StagedPath × StagedFileStamp}
    (hqueued : (key, file) ∈ (runAfter keyPrefix tombstonePrefix before past).queuedFiles)
    (hunchanged : ∀ later ∈ between, StampUnchanged keyPrefix key file later)
    (huncovered : ∀ later ∈ between, ¬Tombstoned tombstonePrefix later key) :
    (acceptedAfter keyPrefix tombstonePrefix (before ++ past :: between)).lookup key =
      some file := by
  induction between using List.reverseRecOn with
  | nil =>
      rw [acceptedAfter_concat]
      exact (runAfter_of before past).queued_kept key file hqueued
  | append_singleton between later ih =>
      rw [List.forall_mem_append] at hunchanged huncovered
      have hlater := hunchanged.2 later List.mem_cons_self
      rw [← List.cons_append, ← List.append_assoc, acceptedAfter_concat]
      exact (runAfter_of _ later).accepted_kept key file (ih hunchanged.1 huncovered.1) hlater.1
        hlater.2 (huncovered.2 later List.mem_cons_self)

theorem not_offered_again {before between : List ReconcileInputs} {past inputs : ReconcileInputs}
    {key : String} {file : StagedPath × StagedFileStamp}
    (hqueued : (key, file) ∈ (runAfter keyPrefix tombstonePrefix before past).queuedFiles)
    (hunchanged : ∀ later ∈ between ++ [inputs], StampUnchanged keyPrefix key file later)
    (huncovered : ∀ later ∈ between, ¬Tombstoned tombstonePrefix later key) :
    key ∉ (runAfter keyPrefix tombstonePrefix (before ++ past :: between) inputs).offered := by
  intro hoffered
  rw [List.forall_mem_append] at hunchanged
  obtain ⟨hstamp, hsame⟩ := hunchanged.2 inputs List.mem_cons_self
  have haccepted := lookup_acceptedAfter hqueued hunchanged.1 huncovered
  obtain ⟨rel, hrel, stamp, hname, hstampRel, hnew⟩ :=
    (runAfter_of (before ++ past :: between) inputs).offered_new key hoffered
  rw [hsame rel hrel hname.symm, Option.some.injEq] at hstampRel
  exact hnew file haccepted hstamp hstampRel

/-- A file of a complete scan is in the store, deleted, or was accepted by the queue. -/
theorem complete_scan_covers {earlier : List ReconcileInputs} {inputs : ReconcileInputs}
    {scan : ReconcileScan}
    (hresult : (runAfter keyPrefix tombstonePrefix earlier inputs).result = .ok scan)
    (hcomplete : scan.complete = true) {rel : StagedPath} (hrel : rel ∈ inputs.staging.files)
    (hcandidate : isUploadCandidate rel = true) :
    stagedKey keyPrefix rel ∈ inputs.remote.keys ∨
      Tombstoned tombstonePrefix inputs (stagedKey keyPrefix rel) ∨
      ∃ file, QueuedIn keyPrefix tombstonePrefix (earlier ++ [inputs]) (stagedKey keyPrefix rel)
          file ∧
        inputs.staging.stamp file.1 = some file.2 ∧
        (DistinctKeys keyPrefix (earlier ++ [inputs]) → file.1 = rel) := by
  refine ((runAfter_of earlier inputs).complete scan hresult hcomplete rel hrel hcandidate).imp_right
    (Or.imp_right fun hfound => ?_)
  obtain ⟨file, hstamp, hwhere⟩ := hfound
  have hqueuedIn : QueuedIn keyPrefix tombstonePrefix (earlier ++ [inputs])
      (stagedKey keyPrefix rel) file := by
    rcases hwhere with hqueued | ⟨haccepted, -⟩
    · exact ⟨earlier, inputs, [], rfl, hqueued⟩
    · obtain ⟨before, past, after, rfl, hqueued⟩ := queuedIn_of_accepted haccepted
      exact ⟨before, past, after ++ [inputs], by simp, hqueued⟩
  refine ⟨file, hqueuedIn, hstamp, fun hdistinct => ?_⟩
  obtain ⟨before, past, after, hruns, hqueued⟩ := hqueuedIn
  obtain ⟨hmem, hname, -⟩ := (runAfter_of before past).queued_from _ file hqueued
  have hpast : past ∈ earlier ++ [inputs] := by
    rw [hruns]
    exact List.mem_append_right _ List.mem_cons_self
  have hinputs : inputs ∈ earlier ++ [inputs] := List.mem_append_right _ List.mem_cons_self
  exact hdistinct past hpast inputs hinputs file.1 hmem rel hrel hname.symm

/-! ### The promises -/

/-- Runs of reconciliation, any number after each other with any answers of the store, the
file system, the queue and the stop flag. -/
theorem reconciliation_complete_and_once (keyPrefix tombstonePrefix : String)
    (earlier : List ReconcileInputs) (inputs : ReconcileInputs) :
    (∀ key ∈ (runAfter keyPrefix tombstonePrefix earlier inputs).offered,
      key ∉ inputs.remote.keys ∧ ¬Tombstoned tombstonePrefix inputs key) ∧
    (runAfter keyPrefix tombstonePrefix earlier inputs).offered.Nodup ∧
    (∀ before past between key file, earlier = before ++ past :: between →
      (key, file) ∈ (runAfter keyPrefix tombstonePrefix before past).queuedFiles →
      (∀ later ∈ between ++ [inputs], StampUnchanged keyPrefix key file later) →
      (∀ later ∈ between, ¬Tombstoned tombstonePrefix later key) →
      key ∉ (runAfter keyPrefix tombstonePrefix earlier inputs).offered) ∧
    (∀ scan, (runAfter keyPrefix tombstonePrefix earlier inputs).result = .ok scan →
      scan.complete = true →
      ∀ rel ∈ inputs.staging.files, isUploadCandidate rel = true →
        stagedKey keyPrefix rel ∈ inputs.remote.keys ∨
        Tombstoned tombstonePrefix inputs (stagedKey keyPrefix rel) ∨
        ∃ file, QueuedIn keyPrefix tombstonePrefix (earlier ++ [inputs])
            (stagedKey keyPrefix rel) file ∧
          inputs.staging.stamp file.1 = some file.2 ∧
          (DistinctKeys keyPrefix (earlier ++ [inputs]) → file.1 = rel)) ∧
    ∀ prefixes key, TombstoneIndex.containsPrefixOf ⟨prefixes⟩ key =
      CancelState.isCancelled { prefixes := prefixes } key := by
  have hrun := @runAfter_of keyPrefix tombstonePrefix earlier inputs
  refine ⟨hrun.offered_missing, hrun.offered_nodup, ?_, ?_,
    TombstoneIndex.containsPrefixOf_eq_isCancelled⟩
  · rintro before past between key file rfl hqueued hunchanged huncovered
    exact not_offered_again hqueued hunchanged huncovered
  · intro scan hresult hcomplete rel hrel hcandidate
    exact complete_scan_covers hresult hcomplete hrel hcandidate

end

/-! ### One recording -/

def waveName : FileName := ⟨"a.wav".toList.map .char, by decide, by decide⟩

def waveMeeting : FileName := ⟨[.char 'm'], by decide, by decide⟩

def waveFile : StagedPath × StagedFileStamp := ([waveMeeting, waveName], ⟨1, none⟩)

/-- A run over the recording `m/a.wav` that is not in the store. -/
def waveRun (tombstones : List String) : ReconcileInputs where
  staging := {
    entries := .dir waveMeeting .ok true (.file waveName .ok .nil) .nil
    stamp := fun _ => some ⟨1, none⟩ }
  remote := ⟨[], none⟩
  tombstones := ⟨tombstones, none⟩
  enqueue _ := .ok ()

theorem waveRun_unchanged (key : String) (tombstones : List String) :
    StampUnchanged "" key waveFile (waveRun tombstones) :=
  ⟨rfl, fun _ _ _ => rfl⟩

/-- A tombstone that is listed once makes the queue see the key again. -/
theorem covered_key_offered_again :
    ("m/a.wav", waveFile) ∈ (runAfter "" "t/" [] (waveRun [])).queuedFiles ∧
      (∀ later ∈ [waveRun ["t/m/"], waveRun []], StampUnchanged "" "m/a.wav" waveFile later) ∧
      "m/a.wav" ∈ (runAfter "" "t/" [waveRun [], waveRun ["t/m/"]] (waveRun [])).offered := by
  refine ⟨by decide +kernel, ?_, by decide +kernel⟩
  simp only [List.forall_mem_cons, waveRun_unchanged, true_and]
  simp

theorem wave_offered_once :
    "m/a.wav" ∉ (runAfter "" "t/" [waveRun []] (waveRun [])).offered ∧
      ∃ file, QueuedIn "" "t/" [waveRun [], waveRun []] "m/a.wav" file := by
  obtain ⟨-, -, honce, hcomplete, -⟩ :=
    reconciliation_complete_and_once "" "t/" [waveRun []] (waveRun [])
  constructor
  · exact honce [] (waveRun []) [] "m/a.wav" waveFile rfl (by decide +kernel)
      (by simp [waveRun_unchanged]) (by simp)
  · rcases hcomplete ⟨1, 0, true, false⟩ (by decide +kernel) rfl waveFile.1 (by decide +kernel)
      (by decide +kernel) with hremote | htombstone | hqueued
    · exact absurd hremote List.not_mem_nil
    · obtain ⟨tombstone, hlisted, -⟩ := htombstone
      exact absurd hlisted List.not_mem_nil
    · obtain ⟨file, hfile, -⟩ := hqueued
      have hkey : stagedKey "" waveFile.1 = "m/a.wav" := by decide +kernel
      exact ⟨file, hkey ▸ hfile⟩

end DiscordTranscript.Infrastructure
