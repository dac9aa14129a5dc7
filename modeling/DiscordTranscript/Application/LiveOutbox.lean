import DiscordTranscript.Application.LiveTranscription

/-! # The live outbox over a run

A chunk is given its base once, when its write completes, and every row and job of the chunk
keeps it. Until final rows exist, a chunk is marked done exactly while its live rows are what
ASR says of it.
-/

namespace DiscordTranscript.Application

open Audio Domain

/-- The segments of one chunk. -/
def segmentsOf (chunk : ProcessedAudioChunk)
    (entries : List (ProcessedAudioChunk × TranscriptSegment)) : List TranscriptSegment :=
  (entries.filter (·.1 = chunk)).map (·.2)

theorem segmentsOf_append (chunk : ProcessedAudioChunk)
    (front back : List (ProcessedAudioChunk × TranscriptSegment)) :
    segmentsOf chunk (front ++ back) = segmentsOf chunk front ++ segmentsOf chunk back := by
  simp [segmentsOf]

theorem segmentsOf_map_self (chunk : ProcessedAudioChunk) (segments : List TranscriptSegment) :
    segmentsOf chunk (segments.map (chunk, ·)) = segments := by
  unfold segmentsOf
  rw [List.filter_eq_self.mpr]
  · rw [List.map_map]
    exact List.map_id segments
  · intro entry hentry
    obtain ⟨segment, -, rfl⟩ := List.mem_map.mp hentry
    simp

theorem segmentsOf_eq_nil_iff {chunk : ProcessedAudioChunk}
    {entries : List (ProcessedAudioChunk × TranscriptSegment)} :
    segmentsOf chunk entries = [] ↔ ∀ entry ∈ entries, entry.1 ≠ chunk := by
  simp [segmentsOf, List.filter_eq_nil_iff]

theorem segmentsOf_map_other {chunk other : ProcessedAudioChunk} (hne : other ≠ chunk)
    (segments : List TranscriptSegment) : segmentsOf chunk (segments.map (other, ·)) = [] := by
  rw [segmentsOf_eq_nil_iff]
  intro entry hentry
  obtain ⟨segment, -, rfl⟩ := List.mem_map.mp hentry
  exact hne

theorem segmentsOf_deleteLiveRows_self (chunk : ProcessedAudioChunk)
    (live : List (ProcessedAudioChunk × TranscriptSegment)) :
    segmentsOf chunk (deleteLiveRows chunk live) = [] := by
  rw [segmentsOf_eq_nil_iff]
  intro entry hentry
  simpa using (List.mem_filter.mp hentry).2

theorem segmentsOf_deleteLiveRows_other {chunk other : ProcessedAudioChunk} (hne : chunk ≠ other)
    (live : List (ProcessedAudioChunk × TranscriptSegment)) :
    segmentsOf chunk (deleteLiveRows other live) = segmentsOf chunk live := by
  unfold segmentsOf deleteLiveRows
  rw [List.filter_filter]
  congr 1
  apply List.filter_congr
  intro entry _
  by_cases heq : entry.1 = chunk
  · simp [heq, hne]
  · simp [heq]

/-! ## The outbox -/

def HasRow (outbox : List OutboxRow) (chunk : ProcessedAudioChunk) : Prop :=
  ∃ row ∈ outbox, row.chunk = chunk

def Completed (outbox : List OutboxRow) (chunk : ProcessedAudioChunk) : Prop :=
  ∃ row ∈ outbox, row.chunk = chunk ∧ row.status = .done

/-- One row for a chunk, with the base the chunk was given. -/
structure OutboxSound (assigned : List (ProcessedAudioChunk × ℕ)) (outbox : List OutboxRow) :
    Prop where
  row_assigned : ∀ row ∈ outbox, (row.chunk, row.timelineBaseMs) ∈ assigned
  nodup : (outbox.map (·.chunk)).Nodup

/-- What an update does to the rows of the outbox. -/
structure RowChange (assigned : List (ProcessedAudioChunk × ℕ)) (change : OutboxRow → OutboxRow) :
    Prop where
  chunk_eq : ∀ row, (change row).chunk = row.chunk
  assigned : ∀ row, (row.chunk, row.timelineBaseMs) ∈ assigned →
    ((change row).chunk, (change row).timelineBaseMs) ∈ assigned

section

variable {assigned : List (ProcessedAudioChunk × ℕ)} {outbox : List OutboxRow}
  {change : OutboxRow → OutboxRow} {chunk : ProcessedAudioChunk}

theorem OutboxSound.map (hsound : OutboxSound assigned outbox)
    (hchange : RowChange assigned change) : OutboxSound assigned (outbox.map change) := by
  constructor
  · intro row hrow
    obtain ⟨old, hold, rfl⟩ := List.mem_map.mp hrow
    exact hchange.assigned old (hsound.row_assigned old hold)
  · have hchunks : (fun row => (change row).chunk) = fun row : OutboxRow => row.chunk := by
      funext row
      exact hchange.chunk_eq row
    rw [List.map_map, Function.comp_def, hchunks]
    exact hsound.nodup

theorem hasRow_map (hchange : RowChange assigned change) :
    HasRow (outbox.map change) chunk ↔ HasRow outbox chunk := by
  simp [HasRow, hchange.chunk_eq]

theorem completed_map (hchange : RowChange assigned change) :
    Completed (outbox.map change) chunk ↔
      ∃ row ∈ outbox, row.chunk = chunk ∧ (change row).status = .done := by
  simp [Completed, hchange.chunk_eq]

theorem completed_map_of_same (hchange : RowChange assigned change)
    (hdone : ∀ row, (change row).status = .done ↔ row.status = .done) :
    Completed (outbox.map change) chunk ↔ Completed outbox chunk := by
  rw [completed_map hchange]
  simp [Completed, hdone]

theorem RowChange.only (hchange : RowChange assigned change) :
    RowChange assigned fun row => if row.chunk = chunk then change row else row := by
  constructor
  · intro row
    split
    · exact hchange.chunk_eq row
    · rfl
  · intro row hrow
    split
    · exact hchange.assigned row hrow
    · exact hrow

end

/-! ## Storing a row -/

section

variable {assigned : List (ProcessedAudioChunk × ℕ)} {outbox : List OutboxRow}
  {row : OutboxRow} {update : OutboxRow → OutboxRow} {chunk : ProcessedAudioChunk}

/-- An upsert changes the row of its chunk or adds one. -/
theorem upsertRow_cases (row : OutboxRow) (update : OutboxRow → OutboxRow)
    (outbox : List OutboxRow) :
    HasRow outbox row.chunk ∧ upsertRow row update outbox = updateRow row.chunk update outbox ∨
      ¬HasRow outbox row.chunk ∧ upsertRow row update outbox = outbox ++ [row] := by
  have hany : outbox.any (·.chunk = row.chunk) = true ↔ HasRow outbox row.chunk := by
    simp [HasRow]
  unfold upsertRow
  split
  next hhas => exact .inl ⟨hany.mp hhas, rfl⟩
  next hhas => exact .inr ⟨fun hrow => hhas (hany.mpr hrow), rfl⟩

variable (hupdate : RowChange assigned fun old =>
  if old.chunk = row.chunk then update old else old)

include hupdate

theorem OutboxSound.upsertRow (hsound : OutboxSound assigned outbox)
    (hrow : (row.chunk, row.timelineBaseMs) ∈ assigned) :
    OutboxSound assigned (upsertRow row update outbox) := by
  obtain ⟨-, hrows⟩ | ⟨hnew, hrows⟩ := upsertRow_cases row update outbox
  · rw [hrows]
    exact hsound.map hupdate
  · rw [hrows]
    constructor
    · intro other hother
      rcases List.mem_append.mp hother with hother | hother
      · exact hsound.row_assigned other hother
      · rw [List.mem_singleton.mp hother]
        exact hrow
    · rw [List.map_append, List.nodup_append]
      refine ⟨hsound.nodup, by simp, ?_⟩
      intro known hknown new hadded heq
      obtain ⟨old, hold, rfl⟩ := List.mem_map.mp hknown
      rw [List.map_singleton, List.mem_singleton] at hadded
      exact hnew ⟨old, hold, heq.trans hadded⟩

theorem HasRow.upsertRow (hrow : HasRow outbox chunk) :
    HasRow (upsertRow row update outbox) chunk := by
  obtain ⟨-, hrows⟩ | ⟨-, hrows⟩ := upsertRow_cases row update outbox
  · rw [hrows]
    exact (hasRow_map hupdate).mpr hrow
  · rw [hrows]
    obtain ⟨old, hold, hchunk⟩ := hrow
    exact ⟨old, List.mem_append_left _ hold, hchunk⟩

/-- A row that is added is not done. -/
theorem completed_upsertRow (hstatus : row.status ≠ .done) :
    Completed (upsertRow row update outbox) chunk ↔
      ∃ old ∈ outbox, old.chunk = chunk ∧
        (if old.chunk = row.chunk then update old else old).status = .done := by
  obtain ⟨-, hrows⟩ | ⟨hnew, hrows⟩ := upsertRow_cases row update outbox
  · rw [hrows]
    exact completed_map hupdate
  · rw [hrows]
    constructor
    · rintro ⟨old, hold, hchunk, hdone⟩
      rcases List.mem_append.mp hold with hold | hold
      · refine ⟨old, hold, hchunk, ?_⟩
        rw [if_neg fun heq => hnew ⟨old, hold, heq⟩]
        exact hdone
      · rw [List.mem_singleton.mp hold] at hdone
        exact absurd hdone hstatus
    · rintro ⟨old, hold, hchunk, hdone⟩
      rw [if_neg fun heq => hnew ⟨old, hold, heq⟩] at hdone
      exact ⟨old, List.mem_append_left _ hold, hchunk, hdone⟩

end

/-! ## The runtime -/

/-- What holds of the tables, the enqueued chunks and the jobs, given the bases of the chunks
completed so far. -/
structure LiveRuntime.Recorded (audio : MeetingAudio) (assigned : List (ProcessedAudioChunk × ℕ))
    (runtime : LiveRuntime) : Prop where
  once : (assigned.map (·.1)).Nodup
  base_le : ∀ entry ∈ assigned, entry.2 ≤ entry.1.startMs
  outbox : OutboxSound assigned runtime.outbox
  enqueued : ∀ entry ∈ runtime.enqueued, entry ∈ assigned
  jobs : ∀ job ∈ runtime.jobs,
    (job.chunk, job.baseStartMs) ∈ assigned ∧ HasRow runtime.outbox job.chunk
  completed : runtime.final = none → ∀ entry ∈ assigned, Completed runtime.outbox entry.1 →
    segmentsOf entry.1 runtime.live = liveSegments audio entry.1 entry.2
  live : ∀ entry ∈ runtime.live, Completed runtime.outbox entry.1
  final : runtime.final ≠ none → runtime.live = []

/-- The chunk whose write a step completes. -/
def LiveStep.completedChunk : LiveStep → Option ProcessedAudioChunk
  | .completeWrite chunk _ => some chunk
  | _ => none

namespace LiveRuntime

variable {audio : MeetingAudio} {assigned : List (ProcessedAudioChunk × ℕ)}
  {runtime next : LiveRuntime}

theorem recorded_initial (audio : MeetingAudio) : Recorded audio [] {} where
  once := by simp
  base_le := by simp
  outbox := ⟨by simp, by simp⟩
  enqueued := by simp
  jobs := by simp
  completed := by simp
  live := by simp
  final := by simp

/-- The outbox is changed so that every chunk keeps its row and its being done. -/
structure KeepsOutbox (assigned : List (ProcessedAudioChunk × ℕ)) (outbox changed : List OutboxRow) :
    Prop where
  sound : OutboxSound assigned changed
  hasRow : ∀ chunk, HasRow outbox chunk → HasRow changed chunk
  completed : ∀ chunk, Completed changed chunk ↔ Completed outbox chunk

theorem KeepsOutbox.refl (hsound : OutboxSound assigned runtime.outbox) :
    KeepsOutbox assigned runtime.outbox runtime.outbox where
  sound := hsound
  hasRow := fun _ hrow => hrow
  completed := fun _ => Iff.rfl

theorem KeepsOutbox.map {outbox : List OutboxRow} {change : OutboxRow → OutboxRow}
    (hsound : OutboxSound assigned outbox) (hchange : RowChange assigned change)
    (hdone : ∀ row, (change row).status = .done ↔ row.status = .done) :
    KeepsOutbox assigned outbox (outbox.map change) where
  sound := hsound.map hchange
  hasRow := fun _ hrow => (hasRow_map hchange).mpr hrow
  completed := fun _ => completed_map_of_same hchange hdone

/-- A step that writes no transcript rows. -/
theorem Recorded.quiet (hrecorded : runtime.Recorded audio assigned)
    (houtbox : KeepsOutbox assigned runtime.outbox next.outbox)
    (hlive : next.live = runtime.live) (hfinal : next.final = runtime.final)
    (henqueued : ∀ entry ∈ next.enqueued, entry ∈ assigned)
    (hjobs : ∀ job ∈ next.jobs,
      (job.chunk, job.baseStartMs) ∈ assigned ∧ HasRow runtime.outbox job.chunk) :
    next.Recorded audio assigned where
  once := hrecorded.once
  base_le := hrecorded.base_le
  outbox := houtbox.sound
  enqueued := henqueued
  jobs := fun job hjob => ⟨(hjobs job hjob).1, houtbox.hasRow _ (hjobs job hjob).2⟩
  completed := by
    intro hnone entry hentry hdone
    rw [hlive]
    exact hrecorded.completed (hfinal ▸ hnone) entry hentry ((houtbox.completed _).mp hdone)
  live := by
    intro entry hentry
    rw [hlive] at hentry
    exact (houtbox.completed _).mpr (hrecorded.live entry hentry)
  final := by
    intro hsome
    rw [hlive]
    exact hrecorded.final (hfinal ▸ hsome)

/-! ## Jobs -/

/-- The jobs were there before, in another phase perhaps. -/
def JobsFrom (jobs before : List LiveJob) : Prop :=
  ∀ job ∈ jobs, ∃ old ∈ before, old.chunk = job.chunk ∧ old.baseStartMs = job.baseStartMs

theorem jobsFrom_setJobPhase (runtime : LiveRuntime) (index : ℕ) (phase : LiveJobPhase) :
    JobsFrom (runtime.setJobPhase index phase).jobs runtime.jobs := by
  intro job hjob
  obtain ⟨place, hplace⟩ := List.mem_iff_getElem?.mp hjob
  rw [LiveRuntime.setJobPhase, List.getElem?_modify] at hplace
  cases hold : runtime.jobs[place]? with
  | none => simp [hold] at hplace
  | some old =>
      rw [hold] at hplace
      cases hplace
      refine ⟨old, List.mem_of_getElem? hold, ?_⟩
      split <;> exact ⟨rfl, rfl⟩

theorem jobsFrom_finishJob (runtime : LiveRuntime) (index : ℕ) :
    JobsFrom (runtime.finishJob index).jobs runtime.jobs :=
  fun job hjob => ⟨job, List.mem_of_mem_eraseIdx hjob, rfl, rfl⟩

theorem Recorded.jobsFrom (hrecorded : runtime.Recorded audio assigned) {jobs : List LiveJob}
    (hfrom : JobsFrom jobs runtime.jobs) : ∀ job ∈ jobs,
      (job.chunk, job.baseStartMs) ∈ assigned ∧ HasRow runtime.outbox job.chunk := by
  intro job hjob
  obtain ⟨old, hold, hchunk, hbase⟩ := hfrom job hjob
  rw [← hchunk, ← hbase]
  exact hrecorded.jobs old hold

theorem Recorded.setJobPhase (hrecorded : runtime.Recorded audio assigned) (index : ℕ)
    (phase : LiveJobPhase) : (runtime.setJobPhase index phase).Recorded audio assigned :=
  hrecorded.quiet (KeepsOutbox.refl hrecorded.outbox) rfl rfl hrecorded.enqueued
    (hrecorded.jobsFrom (jobsFrom_setJobPhase runtime index phase))

theorem Recorded.finishJob (hrecorded : runtime.Recorded audio assigned) (index : ℕ) :
    (runtime.finishJob index).Recorded audio assigned :=
  hrecorded.quiet (KeepsOutbox.refl hrecorded.outbox) rfl rfl hrecorded.enqueued
    (hrecorded.jobsFrom (jobsFrom_finishJob runtime index))

/-- Nothing of this changes in an attempt. -/
theorem Recorded.withAttempt (hrecorded : runtime.Recorded audio assigned)
    (attempt : Option AttemptPhase) : ({ runtime with attempt } : LiveRuntime).Recorded audio assigned :=
  hrecorded.quiet (KeepsOutbox.refl hrecorded.outbox) rfl rfl hrecorded.enqueued hrecorded.jobs

/-! ## Writing rows -/

theorem Recorded.base_unique (hrecorded : runtime.Recorded audio assigned)
    {chunk : ProcessedAudioChunk} {base other : ℕ} (hbase : (chunk, base) ∈ assigned)
    (hother : (chunk, other) ∈ assigned) : base = other := by
  have heq := List.inj_on_of_nodup_map hrecorded.once hbase hother rfl
  exact congrArg Prod.snd heq

theorem rowChange_setStatus (assigned : List (ProcessedAudioChunk × ℕ)) (status : LiveStatus) :
    RowChange assigned (setStatus status) where
  chunk_eq := fun _ => rfl
  assigned := fun _ hrow => hrow

theorem rowChange_setStatusFrom (assigned : List (ProcessedAudioChunk × ℕ))
    (expected status : LiveStatus) : RowChange assigned (setStatusFrom expected status) := by
  constructor
  · intro row
    unfold setStatusFrom
    split <;> rfl
  · intro row hrow
    unfold setStatusFrom
    split <;> exact hrow

/-- The live rows of a chunk are replaced and the chunk is done. -/
theorem Recorded.written (hrecorded : runtime.Recorded audio assigned) {job : LiveJob}
    (hjob : job ∈ runtime.jobs) (hfinal : runtime.final = none) :
    (runtime.persistLiveTranscriptionSuccess job.chunk
      (liveSegments audio job.chunk job.baseStartMs)).Recorded audio assigned := by
  obtain ⟨hassigned, hrow⟩ := hrecorded.jobs job hjob
  have hchange : RowChange assigned fun row =>
      if row.chunk = job.chunk then setStatus .done row else row :=
    (rowChange_setStatus assigned .done).only
  have hself : Completed (updateRow job.chunk (setStatus .done) runtime.outbox) job.chunk := by
    obtain ⟨row, hmem, hchunk⟩ := hrow
    refine (completed_map hchange).mpr ⟨row, hmem, hchunk, ?_⟩
    rw [if_pos hchunk]
    rfl
  have hother : ∀ chunk, chunk ≠ job.chunk →
      (Completed (updateRow job.chunk (setStatus .done) runtime.outbox) chunk ↔
        Completed runtime.outbox chunk) := by
    intro chunk hne
    unfold updateRow
    rw [completed_map hchange]
    constructor
    · rintro ⟨row, hmem, rfl, hdone⟩
      rw [if_neg hne] at hdone
      exact ⟨row, hmem, rfl, hdone⟩
    · rintro ⟨row, hmem, rfl, hdone⟩
      refine ⟨row, hmem, rfl, ?_⟩
      rw [if_neg hne]
      exact hdone
  constructor
  · exact hrecorded.once
  · exact hrecorded.base_le
  · exact hrecorded.outbox.map hchange
  · exact hrecorded.enqueued
  · intro other hmem
    exact ⟨(hrecorded.jobs other hmem).1, (hasRow_map hchange).mpr (hrecorded.jobs other hmem).2⟩
  · rintro - ⟨chunk, base⟩ hentry hdone
    simp only [persistLiveTranscriptionSuccess, segmentsOf_append]
    by_cases heq : chunk = job.chunk
    · subst heq
      rw [hrecorded.base_unique hentry hassigned, segmentsOf_deleteLiveRows_self,
        segmentsOf_map_self, List.nil_append]
    · rw [segmentsOf_deleteLiveRows_other heq, segmentsOf_map_other (Ne.symm heq),
        List.append_nil]
      exact hrecorded.completed hfinal (chunk, base) hentry ((hother chunk heq).mp hdone)
  · intro entry hentry
    rcases List.mem_append.mp hentry with hold | hnew
    · obtain ⟨hmem, hne⟩ := List.mem_filter.mp hold
      exact (hother entry.1 (by simpa using hne)).mpr (hrecorded.live entry hmem)
    · obtain ⟨segment, -, rfl⟩ := List.mem_map.mp hnew
      exact hself
  · intro hsome
    exact absurd hfinal hsome

/-- The live rows of a chunk are deleted and the chunk is not done. -/
theorem Recorded.failed (hrecorded : runtime.Recorded audio assigned) {job : LiveJob}
    (hjob : job ∈ runtime.jobs) :
    (runtime.markLiveTranscriptionChunkFailed job).Recorded audio assigned := by
  obtain ⟨hassigned, hrow⟩ := hrecorded.jobs job hjob
  let update : OutboxRow → OutboxRow := fun row =>
    { row with status := .failed, timelineBaseMs := job.baseStartMs }
  have hchange : RowChange assigned fun old : OutboxRow =>
      if old.chunk = (⟨job.chunk, job.baseStartMs, .failed, false⟩ : OutboxRow).chunk
      then update old else old := by
    constructor
    · intro row
      split <;> rfl
    · intro row hold
      split
      next hchunk =>
        have hbase : (row.chunk, job.baseStartMs) = (job.chunk, job.baseStartMs) :=
          Prod.ext hchunk rfl
        exact hbase ▸ hassigned
      next => exact hold
  have hcompleted : ∀ chunk,
      Completed (runtime.markLiveTranscriptionChunkFailed job).outbox chunk ↔
        chunk ≠ job.chunk ∧ Completed runtime.outbox chunk := by
    intro chunk
    refine (completed_upsertRow hchange (by simp)).trans ?_
    constructor
    · rintro ⟨row, hmem, rfl, hdone⟩
      split at hdone
      next => cases hdone
      next hne => exact ⟨hne, row, hmem, rfl, hdone⟩
    · rintro ⟨hne, row, hmem, rfl, hdone⟩
      refine ⟨row, hmem, rfl, ?_⟩
      rw [if_neg hne]
      exact hdone
  constructor
  · exact hrecorded.once
  · exact hrecorded.base_le
  · exact hrecorded.outbox.upsertRow hchange hassigned
  · exact hrecorded.enqueued
  · intro other hmem
    exact ⟨(hrecorded.jobs other hmem).1, (hrecorded.jobs other hmem).2.upsertRow hchange⟩
  · rintro hfinal ⟨chunk, base⟩ hentry hdone
    obtain ⟨hne, hdone⟩ := (hcompleted chunk).mp hdone
    simp only [markLiveTranscriptionChunkFailed]
    rw [segmentsOf_deleteLiveRows_other hne]
    exact hrecorded.completed hfinal (chunk, base) hentry hdone
  · intro entry hentry
    obtain ⟨hmem, hne⟩ := List.mem_filter.mp hentry
    exact (hcompleted entry.1).mpr ⟨by simpa using hne, hrecorded.live entry hmem⟩
  · intro hsome
    have hlive := hrecorded.final hsome
    simp [markLiveTranscriptionChunkFailed, deleteLiveRows, hlive]

/-- Final rows take the place of the live rows. -/
theorem Recorded.persisted (hrecorded : runtime.Recorded audio assigned) (result : FinalTranscript)
    (commit : Commit) :
    (runtime.persistTranscriptSegments result commit).Recorded audio assigned := by
  unfold persistTranscriptSegments
  split
  · constructor
    · exact hrecorded.once
    · exact hrecorded.base_le
    · exact hrecorded.outbox
    · exact hrecorded.enqueued
    · exact hrecorded.jobs
    · intro hnone
      cases hnone
    · intro entry hentry
      cases hentry
    · intro _
      rfl
  · exact hrecorded

/-! ## Steps -/

theorem keepsOutbox_setStatusFrom {outbox : List OutboxRow}
    (hsound : OutboxSound assigned outbox) (chunk : ProcessedAudioChunk)
    {expected status : LiveStatus} (hexpected : expected ≠ .done) (hstatus : status ≠ .done) :
    KeepsOutbox assigned outbox (updateRow chunk (setStatusFrom expected status) outbox) := by
  apply KeepsOutbox.map hsound (rowChange_setStatusFrom assigned expected status).only
  intro row
  split
  · unfold setStatusFrom
    split
    next heq => simp [heq, hexpected, hstatus]
    next => rfl
  · rfl

/-- Storing an enqueued chunk leaves a row that is running or done as it is. -/
theorem keepsOutbox_persistQueued {outbox : List OutboxRow} (hsound : OutboxSound assigned outbox)
    {chunk : ProcessedAudioChunk} {base : ℕ} (hassigned : (chunk, base) ∈ assigned) :
    KeepsOutbox assigned outbox (persistLiveTranscriptionChunkQueued chunk base outbox) := by
  let row : OutboxRow := ⟨chunk, base, .queued, true⟩
  let update : OutboxRow → OutboxRow := fun row =>
    { row with
      status := if row.status = .done ∨ row.status = .running then row.status else .queued
      timelineBaseMs := base
      hasAudioPath := true }
  have hchange : RowChange assigned fun old =>
      if old.chunk = row.chunk then update old else old := by
    constructor
    · intro old
      split <;> rfl
    · intro old hold
      split
      next hchunk =>
        have hbase : (old.chunk, base) = (chunk, base) := Prod.ext hchunk rfl
        exact hbase ▸ hassigned
      next => exact hold
  constructor
  · exact hsound.upsertRow hchange hassigned
  · intro other hrow
    exact hrow.upsertRow hchange
  · intro other
    refine (completed_upsertRow hchange (by simp [row])).trans ?_
    unfold Completed
    refine exists_congr fun old => and_congr_right fun _ => and_congr_right fun _ => ?_
    split
    · simp only [update]
      split
      next => rfl
      next hnot =>
        have hopen : old.status ≠ .done := fun hdone => hnot (.inl hdone)
        simp [hopen]
    · rfl

theorem keepsOutbox_recover {outbox : List OutboxRow} (hsound : OutboxSound assigned outbox) :
    KeepsOutbox assigned outbox (recoverInterruptedLiveTranscriptionJobs outbox) := by
  apply KeepsOutbox.map hsound
  · constructor
    · intro row
      split <;> rfl
    · intro row hrow
      split <;> exact hrow
  · intro row
    split
    next hrunning => simp [hrunning.1]
    next => rfl

/-- The chunk is given a base not after its start. -/
theorem liveTranscriptionBase_le (runtime : LiveRuntime) (batchBaseStartMs startMs : ℕ) :
    runtime.liveTranscriptionBase (min batchBaseStartMs startMs) ≤ startMs :=
  (min_le_left _ _).trans (min_le_right _ _)

theorem Recorded.completeWrite (hrecorded : runtime.Recorded audio assigned)
    {chunk : ProcessedAudioChunk} (batchBaseStartMs : ℕ) (hfresh : chunk ∉ assigned.map (·.1)) :
    (runtime.completeRecordingChunkWrite chunk batchBaseStartMs).Recorded audio
      (assigned ++
        [(chunk, runtime.liveTranscriptionBase (min batchBaseStartMs chunk.startMs))]) := by
  constructor
  · rw [List.map_append, List.nodup_append]
    refine ⟨hrecorded.once, by simp, ?_⟩
    intro known hknown new hnew heq
    simp only [List.map_singleton, List.mem_singleton] at hnew
    rw [heq, hnew] at hknown
    exact hfresh hknown
  · intro entry hentry
    rcases List.mem_append.mp hentry with hentry | hentry
    · exact hrecorded.base_le entry hentry
    · rw [List.mem_singleton.mp hentry]
      exact liveTranscriptionBase_le runtime batchBaseStartMs chunk.startMs
  · refine ⟨fun row hrow => ?_, hrecorded.outbox.nodup⟩
    exact List.mem_append_left _ (hrecorded.outbox.row_assigned row hrow)
  · intro entry hentry
    rcases List.mem_append.mp hentry with hentry | hentry
    · exact List.mem_append_left _ (hrecorded.enqueued entry hentry)
    · exact List.mem_append_right _ hentry
  · intro job hjob
    obtain ⟨hassigned, hrow⟩ := hrecorded.jobs job hjob
    exact ⟨List.mem_append_left _ hassigned, hrow⟩
  · intro hfinal entry hentry hdone
    rcases List.mem_append.mp hentry with hentry | hentry
    · exact hrecorded.completed hfinal entry hentry hdone
    · -- A chunk without a base has no row yet.
      obtain ⟨row, hrow, hchunk, -⟩ := hdone
      have hknown := List.mem_map_of_mem (f := Prod.fst) (hrecorded.outbox.row_assigned row hrow)
      rw [List.mem_singleton.mp hentry] at hchunk
      simp only [hchunk] at hknown
      exact absurd hknown hfresh
  · exact hrecorded.live
  · exact hrecorded.final

theorem Recorded.claim (hrecorded : runtime.Recorded audio assigned)
    (chunk : ProcessedAudioChunk) (commit : Commit) :
    (runtime.claimLiveTranscriptionJob chunk commit).Recorded audio assigned := by
  unfold claimLiveTranscriptionJob
  split
  next row hfind =>
    have hmem := List.mem_of_find?_eq_some hfind
    have hwanted := List.find?_some hfind
    simp only [Bool.and_eq_true, decide_eq_true_eq] at hwanted
    obtain ⟨⟨rfl, -⟩, -⟩ := hwanted
    refine hrecorded.quiet ?_ rfl rfl hrecorded.enqueued ?_
    · dsimp only
      split
      · exact keepsOutbox_setStatusFrom hrecorded.outbox row.chunk (by simp) (by simp)
      · exact KeepsOutbox.refl hrecorded.outbox
    · intro job hjob
      dsimp only at hjob
      split at hjob
      · rcases List.mem_append.mp hjob with hold | hnew
        · exact hrecorded.jobs job hold
        · rw [List.mem_singleton.mp hnew]
          exact ⟨hrecorded.outbox.row_assigned row hmem, row, hmem, rfl⟩
      · exact hrecorded.jobs job hjob
  next => exact hrecorded

theorem Recorded.write (hrecorded : runtime.Recorded audio assigned) {index : ℕ} {job : LiveJob}
    (hjob : runtime.jobs[index]? = some job) (statusAllows : Option Bool) (commit : Commit) :
    (runtime.writeJob audio index job statusAllows commit).Recorded audio assigned := by
  unfold writeJob
  split
  next => exact hrecorded.setJobPhase index .retrying
  next allows =>
    split
    next hadmitted =>
      have hfinal : runtime.final = none := by
        rw [Bool.and_eq_true, finalTranscriptRowsExist] at hadmitted
        simpa using hadmitted.2
      have hwritten := hrecorded.written (List.mem_of_getElem? hjob) hfinal
      dsimp only
      split
      · split
        · exact hwritten.finishJob index
        · exact hwritten.setJobPhase index .failing
      · exact hrecorded.setJobPhase index .failing
    next => exact hrecorded.setJobPhase index .failing

/-- A step that completes no chunk keeps the record. -/
theorem Recorded.step_of_none (hrecorded : runtime.Recorded audio assigned) {input : LiveStep}
    (hinput : input.completedChunk = none) : (runtime.step audio input).Recorded audio assigned := by
  cases input with
  | completeWrite chunk batchBaseStartMs => cases hinput
  | persistQueued index commit lastAttempt =>
      simp only [step]
      split
      next chunk baseStartMs hentry =>
        have hassigned := hrecorded.enqueued _ (List.mem_of_getElem? hentry)
        refine hrecorded.quiet ?_ rfl rfl ?_ hrecorded.jobs
        · simp only [persistQueuedAttempt]
          split
          · exact keepsOutbox_persistQueued hrecorded.outbox hassigned
          · exact KeepsOutbox.refl hrecorded.outbox
        · intro entry hmem
          simp only [persistQueuedAttempt] at hmem
          split at hmem
          · exact hrecorded.enqueued entry (List.mem_of_mem_eraseIdx hmem)
          · exact hrecorded.enqueued entry hmem
      next => exact hrecorded
  | restart =>
      exact hrecorded.quiet (KeepsOutbox.refl hrecorded.outbox) rfl rfl (by simp [step])
        (by simp [step])
  | recover =>
      exact hrecorded.quiet (keepsOutbox_recover hrecorded.outbox) rfl rfl hrecorded.enqueued
        hrecorded.jobs
  | quarantine chunk =>
      exact hrecorded.quiet
        (keepsOutbox_setStatusFrom hrecorded.outbox chunk (by simp) (by simp)) rfl rfl
        hrecorded.enqueued hrecorded.jobs
  | claim chunk commit => exact hrecorded.claim chunk commit
  | admitJob index statusAllows =>
      simp only [step]
      split
      · unfold admitJob
        split <;> exact hrecorded.setJobPhase index _
      · exact hrecorded
  | infer index outcome =>
      simp only [step]
      split
      · exact hrecorded.setJobPhase index _
      · exact hrecorded
  | write index statusAllows commit =>
      simp only [step]
      split
      next chunk baseStartMs hjob => exact hrecorded.write hjob statusAllows commit
      next => exact hrecorded
  | markFailed index commit =>
      simp only [step]
      split
      next chunk baseStartMs hjob =>
        apply Recorded.finishJob
        split
        · exact hrecorded.failed (List.mem_of_getElem? hjob)
        · exact hrecorded
      next => exact hrecorded
  | requeue index stored =>
      simp only [step]
      split
      next chunk baseStartMs hjob =>
        refine hrecorded.quiet ?_ rfl rfl hrecorded.enqueued
          (hrecorded.jobsFrom (jobsFrom_finishJob runtime index))
        dsimp only
        split
        · exact keepsOutbox_setStatusFrom hrecorded.outbox chunk (by simp) (by simp)
        · exact KeepsOutbox.refl hrecorded.outbox
      next => exact hrecorded
  | beginAttempt loadFailed =>
      simp only [step]
      split <;> exact hrecorded.withAttempt _
  | loadLive liveFailed completedFailed =>
      simp only [step]
      split
      · exact hrecorded.withAttempt _
      · exact hrecorded
  | transcribe vcText => exact hrecorded.withAttempt _
  | persist commit =>
      simp only [step]
      split
      next result _ => exact hrecorded.persisted result commit
      next => exact hrecorded
  | endAttempt => exact hrecorded.withAttempt none

variable (audio) in
/-- After every run in which each chunk completes once, the record is that of the bases the
completed chunks were given. -/
theorem recorded_run {inputs : List LiveStep}
    (honce : (inputs.filterMap LiveStep.completedChunk).Nodup) :
    ∃ assigned, assigned.map (·.1) = inputs.filterMap LiveStep.completedChunk ∧
      (Machine.run (step audio) {} inputs).Recorded audio assigned := by
  induction inputs using List.reverseRecOn with
  | nil => exact ⟨[], rfl, recorded_initial audio⟩
  | append_singleton done input ih =>
      rw [List.filterMap_append, List.nodup_append] at honce
      obtain ⟨assigned, hkeys, hrecorded⟩ := ih honce.1
      rw [Machine.run_append]
      cases hinput : input.completedChunk with
      | none =>
          refine ⟨assigned, ?_, hrecorded.step_of_none hinput⟩
          rw [List.filterMap_append, hkeys]
          simp [hinput]
      | some chunk =>
          cases input with
          | completeWrite written batchBaseStartMs =>
              cases hinput
              have hfresh : chunk ∉ assigned.map (·.1) := by
                rw [hkeys]
                intro hmem
                exact honce.2.2 chunk hmem chunk (by simp [LiveStep.completedChunk]) rfl
              refine ⟨_, ?_, hrecorded.completeWrite batchBaseStartMs hfresh⟩
              rw [List.map_append, hkeys, List.filterMap_append]
              rfl
          | _ => cases hinput

end LiveRuntime

end DiscordTranscript.Application
