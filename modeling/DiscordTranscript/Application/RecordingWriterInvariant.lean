import Mathlib.Algebra.Order.BigOperators.Group.List
import DiscordTranscript.Foundation.KeyedList
import DiscordTranscript.Application.RecordingWriter

/-! # Chunks, permits and counters of the recording writer

The invariant of the writer in four parts: where every accepted chunk is, what
the permits stand for, what the counters count, and what closing has to wait for.
Each step keeps all four.
-/

namespace DiscordTranscript.Application

open MachineInt Audio Infrastructure

/-- The outcome is about this very chunk. -/
def ChunkWriteOutcome.Carries (chunk : PreparedChunk) : ChunkWriteOutcome → Prop
  | .persisted stored => ∃ saved, stored = chunk.complete saved
  | .failed kept _ => kept = chunk

theorem SaveResult.outcome_carries (chunk : PreparedChunk) (result : SaveResult) :
    (result.outcome chunk).Carries chunk := by
  cases result with
  | saved stored => exact ⟨stored, rfl⟩
  | error err => rfl
  | panicked => rfl
  | taskFailed message => rfl

def WriterMessage.ticket? : WriterMessage → Option ℕ
  | .save ticket _ => some ticket
  | .shutdown => none

/-- The chunk that the worker has taken and not answered. -/
def WriterWorker.ticket? : WriterWorker → Option ℕ
  | .saving ticket _ => some ticket
  | .replying ticket _ => some ticket
  | .receiving => none
  | .exited => none

/-- What a call under way has reserved. -/
def EnqueueCall.heldTasks (call : EnqueueCall) : ℕ :=
  match call.phase with
  | .checkClosed | .loadTasks | .reserveTask _ => 0
  | .loadBytes | .reserveBytes _ | .releaseTask | .send => 1

def EnqueueCall.heldBytes (call : EnqueueCall) : ℕ :=
  match call.phase with
  | .send => call.chunk.sizeBytes
  | _ => 0

def PendingWritePermit.heldBytes (permit : PendingWritePermit) : ℕ :=
  match permit.stage with
  | .bytesReleased => 0
  | _ => permit.bytes

namespace RecordingWriter

variable {writer other : RecordingWriter}

def heldTasks (writer : RecordingWriter) : ℕ := (writer.call.map EnqueueCall.heldTasks).getD 0

def heldBytes (writer : RecordingWriter) : ℕ := (writer.call.map EnqueueCall.heldBytes).getD 0

def permitBytes (writer : RecordingWriter) : ℕ :=
  (writer.permits.map PendingWritePermit.heldBytes).sum

/-! ## The invariant -/

/-- Every accepted chunk is answered, in the worker's hands or in the channel, in
the order of acceptance. -/
structure Delivery (writer : RecordingWriter) : Prop where
  tickets : writer.outcomes.map Prod.fst ++
    (writer.worker.ticket?.toList ++ writer.channel.filterMap WriterMessage.ticket?) =
      List.range writer.accepted.length
  queued : ∀ ticket chunk, .save ticket chunk ∈ writer.channel →
    writer.accepted[ticket]? = some chunk
  taken : ∀ ticket chunk, writer.worker = .saving ticket chunk →
    writer.accepted[ticket]? = some chunk
  saved : ∀ ticket outcome, writer.worker = .replying ticket outcome →
    ∃ chunk, writer.accepted[ticket]? = some chunk ∧ outcome.Carries chunk
  carried : ∀ ticket outcome, (ticket, outcome) ∈ writer.outcomes →
    ∃ chunk, writer.accepted[ticket]? = some chunk ∧ outcome.Carries chunk
  handedBack : ∀ answer ∈ writer.returns, ∀ chunk, answer.result = .error chunk →
    chunk = answer.submitted
  admitted : ∀ answer ∈ writer.returns, ∀ ticket, answer.result = .ok ticket →
    writer.accepted[ticket]? = some answer.submitted

/-- A permit stands for one accepted chunk, and a chunk without an outcome has
its permit still in the receipt. -/
structure PermitsSound (writer : RecordingWriter) : Prop where
  nodup : (writer.permits.map PendingWritePermit.ticket).Nodup
  sized : ∀ permit ∈ writer.permits, ∃ chunk,
    writer.accepted[permit.ticket]? = some chunk ∧ permit.bytes = chunk.sizeBytes
  completed : ∀ permit ∈ writer.permits, ∀ outcome, permit.stage = .completion outcome →
    (permit.ticket, outcome) ∈ writer.outcomes
  owed : ∀ ticket < writer.accepted.length, writer.outcomes.length ≤ ticket →
    ∃ permit ∈ writer.permits, permit.ticket = ticket ∧ permit.stage = .receipt

/-- The counters count the permits and what a call has reserved so far. -/
structure Accounted (writer : RecordingWriter) : Prop where
  tasks : writer.pendingTasks = writer.permits.length + writer.heldTasks
  bytes : writer.pendingBytes = writer.permitBytes + writer.heldBytes
  tasks_le : writer.pendingTasks ≤ writer.maxTasks
  bytes_le : writer.pendingBytes ≤ writer.maxBytes

/-- Closing, shutting down and dropping the last clone. -/
structure Admission (writer : RecordingWriter) : Prop where
  admitting : ∀ call, writer.call = some call → call.phase ≠ .checkClosed → writer.closed = false
  closed_iff : writer.closed = false ↔ writer.shutdown = .notCalled
  drained : writer.shutdown = .sending ∨ writer.shutdown = .sent → writer.permits = []
  message : .shutdown ∈ writer.channel → writer.shutdown = .sent
  exited : writer.worker = .exited → (writer.shutdown = .sent ∨ writer.cloned = false) ∧
    writer.outcomes.length = writer.accepted.length
  dropped : writer.cloned = false → writer.call = none

structure Invariant (writer : RecordingWriter) : Prop where
  delivery : writer.Delivery
  permits : writer.PermitsSound
  accounted : writer.Accounted
  admission : writer.Admission

theorem Delivery.frame (hdelivery : writer.Delivery) (houtcomes : other.outcomes = writer.outcomes)
    (hworker : other.worker = writer.worker) (hchannel : other.channel = writer.channel)
    (haccepted : other.accepted = writer.accepted) (hreturns : other.returns = writer.returns) :
    other.Delivery := by
  obtain ⟨htickets, hqueued, htaken, hsaved, hcarried, hback, hadmitted⟩ := hdelivery
  rw [← houtcomes, ← hworker, ← hchannel, ← haccepted] at htickets
  rw [← hchannel, ← haccepted] at hqueued
  rw [← hworker, ← haccepted] at htaken hsaved
  rw [← houtcomes, ← haccepted] at hcarried
  rw [← hreturns] at hback
  rw [← hreturns, ← haccepted] at hadmitted
  exact ⟨htickets, hqueued, htaken, hsaved, hcarried, hback, hadmitted⟩

theorem PermitsSound.frame (hpermits : writer.PermitsSound)
    (hsame : other.permits = writer.permits) (haccepted : other.accepted = writer.accepted)
    (houtcomes : other.outcomes = writer.outcomes) : other.PermitsSound := by
  obtain ⟨hnodup, hsized, hcompleted, howed⟩ := hpermits
  rw [← hsame] at hnodup
  rw [← hsame, ← haccepted] at hsized
  rw [← hsame, ← houtcomes] at hcompleted
  rw [← hsame, ← haccepted, ← houtcomes] at howed
  exact ⟨hnodup, hsized, hcompleted, howed⟩

/-! ## What the invariant says at once -/

/-- The outcomes are those of the first tickets, in order. -/
theorem Delivery.outcomes_tickets (hdelivery : writer.Delivery) :
    writer.outcomes.map Prod.fst = List.range writer.outcomes.length := by
  have hprefix := congrArg (List.take writer.outcomes.length) hdelivery.tickets
  rw [List.take_append_of_le_length (by simp), List.take_of_length_le (by simp),
    List.take_range] at hprefix
  have hle := congrArg List.length hdelivery.tickets
  simp only [List.length_append, List.length_map, List.length_range] at hle
  rwa [min_eq_left (by omega)] at hprefix

theorem Delivery.length_le (hdelivery : writer.Delivery) :
    writer.outcomes.length + (writer.worker.ticket?.toList.length +
      (writer.channel.filterMap WriterMessage.ticket?).length) = writer.accepted.length := by
  have hlength := congrArg List.length hdelivery.tickets
  simpa only [List.length_append, List.length_map, List.length_range] using hlength

theorem Delivery.answered_lt (hdelivery : writer.Delivery) {ticket : ℕ}
    {outcome : ChunkWriteOutcome} (hmem : (ticket, outcome) ∈ writer.outcomes) :
    ticket < writer.outcomes.length := by
  have hticket : ticket ∈ writer.outcomes.map Prod.fst := List.mem_map.mpr ⟨_, hmem, rfl⟩
  rw [hdelivery.outcomes_tickets] at hticket
  exact List.mem_range.mp hticket

/-- Without permits every accepted chunk has its outcome. -/
theorem Invariant.answered_of_no_permits (hinv : writer.Invariant)
    (hpermits : writer.permits = []) : writer.outcomes.length = writer.accepted.length := by
  by_contra hne
  have hlength := hinv.delivery.length_le
  obtain ⟨permit, hmem, -⟩ := hinv.permits.owed writer.outcomes.length (by omega) le_rfl
  rw [hpermits] at hmem
  cases hmem

/-- The chunks in the channel have permits, so they are no more than these. -/
theorem Invariant.queued_le_permits (hinv : writer.Invariant) :
    writer.accepted.length - writer.outcomes.length ≤ writer.permits.length := by
  have hsubset : List.range' writer.outcomes.length
      (writer.accepted.length - writer.outcomes.length) ⊆
        writer.permits.map PendingWritePermit.ticket := by
    intro ticket hticket
    obtain ⟨hle, hlt⟩ := List.mem_range'_1.mp hticket
    obtain ⟨permit, hpermit, heq, -⟩ := hinv.permits.owed ticket (by omega) hle
    exact List.mem_map.mpr ⟨permit, hpermit, heq⟩
  have hle := (List.subperm_of_subset List.nodup_range' hsubset).length_le
  simpa using hle

/-- No shutdown message is in the channel while a call is past the closed check. -/
theorem Invariant.channel_all_saves (hinv : writer.Invariant) (hopen : writer.closed = false) :
    (writer.channel.filterMap WriterMessage.ticket?).length = writer.channel.length := by
  apply List.filterMap_length_eq_length.mpr
  intro message hmem
  cases message with
  | save ticket chunk => rfl
  | shutdown =>
      have hsent := hinv.admission.message hmem
      rw [hinv.admission.closed_iff.mp hopen] at hsent
      cases hsent

/-- `try_send` after both reservations finds room and a worker. -/
theorem Invariant.send_has_room (hinv : writer.Invariant) {chunk : PreparedChunk}
    (hcall : writer.call = some ⟨chunk, .send⟩) :
    writer.channel.length < writer.maxTasks ∧ writer.worker ≠ .exited := by
  have hopen := hinv.admission.admitting _ hcall (by simp)
  constructor
  · have hlength := hinv.delivery.length_le
    rw [hinv.channel_all_saves hopen] at hlength
    have hqueued := hinv.queued_le_permits
    have htasks := hinv.accounted.tasks
    have hle := hinv.accounted.tasks_le
    have hheld : writer.heldTasks = 1 := by simp [heldTasks, hcall, EnqueueCall.heldTasks]
    omega
  · intro hexited
    rcases (hinv.admission.exited hexited).1 with hsent | hdropped
    · rw [hinv.admission.closed_iff.mp hopen] at hsent
      cases hsent
    · rw [hinv.admission.dropped hdropped] at hcall
      cases hcall

/-! ## The steps of a call -/

theorem roomFor_eq_some {observed amount limit next : ℕ}
    (hroom : roomFor observed amount limit = some next) :
    next = observed + amount ∧ next ≤ limit := by
  obtain ⟨hadd, hle⟩ := Option.filter_eq_some_iff.mp hroom
  refine ⟨?_, by simpa using hle⟩
  unfold checkedAdd at hadd
  split at hadd
  next => exact (Option.some.inj hadd).symm
  next => cases hadd

/-- A step that moves the call and the counters alone. -/
theorem Invariant.of_call (hinv : writer.Invariant) {pendingTasks pendingBytes : ℕ}
    {call : EnqueueCall} (hopen : call.phase ≠ .checkClosed → writer.closed = false)
    (hcloned : writer.cloned = true)
    (htasks : pendingTasks = writer.permits.length + call.heldTasks)
    (hbytes : pendingBytes = writer.permitBytes + call.heldBytes)
    (htasks_le : pendingTasks ≤ writer.maxTasks) (hbytes_le : pendingBytes ≤ writer.maxBytes) :
    Invariant { writer with
      pendingTasks := pendingTasks, pendingBytes := pendingBytes, call := some call } := by
  refine ⟨hinv.delivery.frame rfl rfl rfl rfl rfl, hinv.permits.frame rfl rfl rfl,
    ⟨htasks, hbytes, htasks_le, hbytes_le⟩, ?_⟩
  obtain ⟨-, hiff, hdrained, hmessage, hexited, -⟩ := hinv.admission
  refine ⟨fun found hfound hphase => ?_, hiff, hdrained, hmessage, hexited, fun hdropped => ?_⟩
  · obtain rfl := Option.some.inj hfound
    exact hopen hphase
  · rw [show writer.cloned = false from hdropped] at hcloned
    cases hcloned

/-- A call that ends with the chunk handed back and nothing reserved. -/
theorem Invariant.handBack (hinv : writer.Invariant) {pendingTasks : ℕ}
    (htasks : pendingTasks = writer.permits.length) (hbytes : writer.heldBytes = 0)
    (chunk : PreparedChunk) :
    Invariant ({ writer with pendingTasks := pendingTasks }.handBack chunk) := by
  have hle : pendingTasks ≤ writer.maxTasks := by
    have := hinv.accounted.tasks
    have := hinv.accounted.tasks_le
    omega
  refine ⟨?_, hinv.permits.frame rfl rfl rfl, ⟨htasks, ?_, hle, hinv.accounted.bytes_le⟩, ?_⟩
  · obtain ⟨htickets, hqueued, htaken, hsaved, hcarried, hback, hadmitted⟩ := hinv.delivery
    refine ⟨htickets, hqueued, htaken, hsaved, hcarried, ?_, ?_⟩
    · intro answer hanswer kept hresult
      rcases List.mem_cons.mp hanswer with rfl | hanswer
      · exact (Except.error.inj hresult).symm
      · exact hback answer hanswer kept hresult
    · intro answer hanswer ticket hresult
      rcases List.mem_cons.mp hanswer with rfl | hanswer
      · cases hresult
      · exact hadmitted answer hanswer ticket hresult
  · have := hinv.accounted.bytes
    rw [hbytes] at this
    exact this
  · obtain ⟨-, hiff, hdrained, hmessage, hexited, -⟩ := hinv.admission
    refine ⟨fun call hcall => ?_, hiff, hdrained, hmessage, hexited, fun _ => rfl⟩
    cases hcall

/-- `try_send` in the state that both reservations leave. -/
theorem Invariant.trySend (hinv : writer.Invariant) {chunk : PreparedChunk}
    (hcall : writer.call = some ⟨chunk, .send⟩) : (writer.trySend chunk).Invariant := by
  have hroom := hinv.send_has_room hcall
  have hopen := hinv.admission.admitting _ hcall (by simp)
  have hnotCalled := hinv.admission.closed_iff.mp hopen
  unfold RecordingWriter.trySend
  rw [if_pos hroom]
  -- Looking up an old ticket is not changed by the new chunk.
  have hkeep : ∀ {ticket : ℕ} {found : PreparedChunk}, writer.accepted[ticket]? = some found →
      (writer.accepted ++ [chunk])[ticket]? = some found := by
    intro ticket found hfound
    rw [List.getElem?_append_left (List.getElem?_eq_some_iff.mp hfound).1]
    exact hfound
  have hnew : (writer.accepted ++ [chunk])[writer.accepted.length]? = some chunk := by simp
  refine ⟨⟨?_, ?_, ?_, ?_, ?_, ?_, ?_⟩, ⟨?_, ?_, ?_, ?_⟩, ⟨?_, ?_, ?_, ?_⟩, ⟨?_, ?_, ?_, ?_, ?_, ?_⟩⟩
  · have htickets := hinv.delivery.tickets
    simp only [List.filterMap_append, ← List.append_assoc] at htickets ⊢
    rw [htickets, List.length_append, List.length_singleton, List.range_succ]
    rfl
  · intro ticket found hmem
    rcases List.mem_append.mp hmem with hmem | hmem
    · exact hkeep (hinv.delivery.queued ticket found hmem)
    · obtain ⟨rfl, rfl⟩ := WriterMessage.save.inj (List.mem_singleton.mp hmem)
      exact hnew
  · exact fun ticket found hworker => hkeep (hinv.delivery.taken ticket found hworker)
  · intro ticket outcome hworker
    obtain ⟨found, hfound, hcarries⟩ := hinv.delivery.saved ticket outcome hworker
    exact ⟨found, hkeep hfound, hcarries⟩
  · intro ticket outcome hmem
    obtain ⟨found, hfound, hcarries⟩ := hinv.delivery.carried ticket outcome hmem
    exact ⟨found, hkeep hfound, hcarries⟩
  · intro answer hanswer kept hresult
    rcases List.mem_cons.mp hanswer with rfl | hanswer
    · cases hresult
    · exact hinv.delivery.handedBack answer hanswer kept hresult
  · intro answer hanswer ticket hresult
    rcases List.mem_cons.mp hanswer with rfl | hanswer
    · obtain rfl := Except.ok.inj hresult
      exact hnew
    · exact hkeep (hinv.delivery.admitted answer hanswer ticket hresult)
  · rw [List.map_append, List.nodup_append]
    refine ⟨hinv.permits.nodup, List.nodup_singleton _, fun ticket hticket last hlast => ?_⟩
    obtain ⟨permit, hpermit, rfl⟩ := List.mem_map.mp hticket
    obtain ⟨found, hfound, -⟩ := hinv.permits.sized permit hpermit
    rw [List.mem_singleton.mp hlast]
    exact Nat.ne_of_lt (List.getElem?_eq_some_iff.mp hfound).1
  · intro permit hpermit
    rcases List.mem_append.mp hpermit with hpermit | hpermit
    · obtain ⟨found, hfound, hsize⟩ := hinv.permits.sized permit hpermit
      exact ⟨found, hkeep hfound, hsize⟩
    · rw [List.mem_singleton.mp hpermit]
      exact ⟨chunk, hnew, rfl⟩
  · intro permit hpermit outcome hstage
    rcases List.mem_append.mp hpermit with hpermit | hpermit
    · exact hinv.permits.completed permit hpermit outcome hstage
    · rw [List.mem_singleton.mp hpermit] at hstage
      cases hstage
  · intro ticket hticket hanswered
    rw [List.length_append, List.length_singleton] at hticket
    rcases Nat.lt_succ_iff_lt_or_eq.mp hticket with hticket | rfl
    · obtain ⟨permit, hpermit, hstage⟩ := hinv.permits.owed ticket hticket hanswered
      exact ⟨permit, List.mem_append_left _ hpermit, hstage⟩
    · exact ⟨_, List.mem_append_right _ (List.mem_singleton_self _), rfl, rfl⟩
  · have htasks := hinv.accounted.tasks
    simp only [heldTasks, hcall, Option.map_some, EnqueueCall.heldTasks, Option.getD_some] at htasks
    simp [heldTasks, htasks]
  · have hbytes := hinv.accounted.bytes
    simp only [heldBytes, hcall, Option.map_some, EnqueueCall.heldBytes, Option.getD_some] at hbytes
    simp [heldBytes, permitBytes, PendingWritePermit.heldBytes, hbytes]
  · exact hinv.accounted.tasks_le
  · exact hinv.accounted.bytes_le
  · intro call hfound
    cases hfound
  · exact hinv.admission.closed_iff
  · intro hshutdown
    rw [hnotCalled] at hshutdown
    simp at hshutdown
  · intro hmem
    rcases List.mem_append.mp hmem with hmem | hmem
    · exact hinv.admission.message hmem
    · cases List.mem_singleton.mp hmem
  · exact fun hexited => absurd hexited hroom.2
  · exact fun _ => rfl

theorem Invariant.enqueueStep (hinv : writer.Invariant) {call : EnqueueCall}
    (hcall : writer.call = some call) (spurious : Bool) :
    (writer.enqueueStep call spurious).Invariant := by
  obtain ⟨chunk, phase⟩ := call
  obtain ⟨htasks, hbytes, htasks_le, hbytes_le⟩ := hinv.accounted
  have hcloned : writer.cloned = true := by
    by_contra hdropped
    rw [hinv.admission.dropped (by simpa using hdropped)] at hcall
    cases hcall
  simp only [heldTasks, heldBytes, hcall, Option.map_some, Option.getD_some] at htasks hbytes
  have hopen := hinv.admission.admitting _ hcall
  cases phase with
  | checkClosed =>
      simp only [RecordingWriter.enqueueStep]
      split
      next => exact hinv.handBack htasks (by simp [heldBytes, hcall, EnqueueCall.heldBytes]) chunk
      next hclosed =>
        exact hinv.of_call (fun _ => by simpa using hclosed) hcloned htasks hbytes htasks_le hbytes_le
  | loadTasks => exact hinv.of_call (fun _ => hopen (by simp)) hcloned htasks hbytes htasks_le hbytes_le
  | reserveTask observed =>
      simp only [RecordingWriter.enqueueStep]
      split
      next => exact hinv.handBack htasks (by simp [heldBytes, hcall, EnqueueCall.heldBytes]) chunk
      next next hroom =>
        obtain ⟨rfl, hle⟩ := roomFor_eq_some hroom
        split
        next hswap =>
          refine hinv.of_call (fun _ => hopen (by simp)) hcloned ?_ hbytes hle hbytes_le
          rw [← hswap.1, htasks]
          rfl
        next => exact hinv.of_call (fun _ => hopen (by simp)) hcloned htasks hbytes htasks_le hbytes_le
  | loadBytes => exact hinv.of_call (fun _ => hopen (by simp)) hcloned htasks hbytes htasks_le hbytes_le
  | reserveBytes observed =>
      simp only [RecordingWriter.enqueueStep]
      split
      next => exact hinv.of_call (fun _ => hopen (by simp)) hcloned htasks hbytes htasks_le hbytes_le
      next next hroom =>
        obtain ⟨rfl, hle⟩ := roomFor_eq_some hroom
        split
        next hswap =>
          refine hinv.of_call (fun _ => hopen (by simp)) hcloned htasks ?_ htasks_le hle
          rw [← hswap.1, hbytes]
          rfl
        next => exact hinv.of_call (fun _ => hopen (by simp)) hcloned htasks hbytes htasks_le hbytes_le
  | releaseTask =>
      refine hinv.handBack ?_ (by simp [heldBytes, hcall, EnqueueCall.heldBytes]) chunk
      rw [htasks]
      rfl
  | send => exact hinv.trySend hcall

/-! ## The steps of the worker -/

/-- A step of the worker that answers nothing yet. -/
theorem Invariant.of_worker (hinv : writer.Invariant) {channel : List WriterMessage}
    {worker : WriterWorker} (hdelivery : Delivery { writer with channel := channel, worker := worker })
    (hchannel : channel ⊆ writer.channel)
    (hexited : worker = .exited → (writer.shutdown = .sent ∨ writer.cloned = false) ∧
      writer.outcomes.length = writer.accepted.length) :
    Invariant { writer with channel := channel, worker := worker } := by
  refine ⟨hdelivery, hinv.permits.frame rfl rfl rfl, ?_, ?_⟩
  · exact ⟨hinv.accounted.tasks, hinv.accounted.bytes, hinv.accounted.tasks_le,
      hinv.accounted.bytes_le⟩
  · obtain ⟨hopen, hiff, hdrained, hmessage, -, hdropped⟩ := hinv.admission
    exact ⟨hopen, hiff, hdrained, fun hmem => hmessage (hchannel hmem), hexited, hdropped⟩

theorem Invariant.workerStep (hinv : writer.Invariant) (result : SaveResult) :
    (writer.workerStep result).Invariant := by
  obtain ⟨htickets, hqueued, htaken, hsaved, hcarried, hback, hadmitted⟩ := hinv.delivery
  cases hworker : writer.worker with
  | receiving =>
      rw [hworker] at htickets
      cases hchannel : writer.channel with
      | nil =>
          have hlength := hinv.delivery.length_le
          simp only [RecordingWriter.workerStep, hworker, hchannel]
          split
          next => exact hinv
          next hdropped =>
            rw [hchannel] at htickets hqueued
            have hexit : Delivery { writer with channel := [], worker := .exited } := by
              refine ⟨htickets, hqueued, ?_, ?_, hcarried, hback, hadmitted⟩
              · intro ticket chunk hexited
                cases hexited
              · intro ticket outcome hexited
                cases hexited
            refine hinv.of_worker hexit (List.nil_subset _) fun _ => ?_
            rw [hworker, hchannel] at hlength
            exact ⟨.inr (by simpa using hdropped), by simpa [WriterWorker.ticket?] using hlength⟩
      | cons message rest =>
          rw [hchannel] at htickets hqueued
          have hsubset : rest ⊆ writer.channel := by
            rw [hchannel]
            exact List.subset_cons_self _ _
          cases message with
          | save ticket chunk =>
              simp only [RecordingWriter.workerStep, hworker, hchannel]
              refine hinv.of_worker ⟨htickets, ?_, ?_, ?_, hcarried, hback, hadmitted⟩ hsubset ?_
              · exact fun other found hmem => hqueued other found (List.mem_cons_of_mem _ hmem)
              · intro other found hsaving
                obtain ⟨rfl, rfl⟩ := WriterWorker.saving.inj hsaving
                exact hqueued _ _ List.mem_cons_self
              · intro other outcome hreplying
                cases hreplying
              · intro hexited
                cases hexited
          | shutdown =>
              have hsent := hinv.admission.message (by rw [hchannel]; exact List.mem_cons_self)
              simp only [RecordingWriter.workerStep, hworker, hchannel]
              refine hinv.of_worker ⟨htickets, ?_, ?_, ?_, hcarried, hback, hadmitted⟩ hsubset ?_
              · exact fun other found hmem => hqueued other found (List.mem_cons_of_mem _ hmem)
              · intro ticket chunk hexited
                cases hexited
              · intro ticket outcome hexited
                cases hexited
              · exact fun _ => ⟨.inl hsent,
                  hinv.answered_of_no_permits (hinv.admission.drained (.inr hsent))⟩
  | saving ticket chunk =>
      rw [hworker] at htickets
      simp only [RecordingWriter.workerStep, hworker]
      refine hinv.of_worker ⟨htickets, hqueued, ?_, ?_, hcarried, hback, hadmitted⟩
        (List.Subset.refl _) ?_
      · intro other found hsaving
        cases hsaving
      · intro other outcome hreplying
        obtain ⟨rfl, rfl⟩ := WriterWorker.replying.inj hreplying
        exact ⟨chunk, htaken _ _ hworker, result.outcome_carries chunk⟩
      · intro hexited
        cases hexited
  | replying ticket outcome =>
      rw [hworker] at htickets
      simp only [RecordingWriter.workerStep, hworker]
      refine ⟨⟨?_, hqueued, ?_, ?_, ?_, hback, hadmitted⟩, ⟨hinv.permits.nodup, hinv.permits.sized,
        ?_, ?_⟩, ?_, ?_⟩
      · simpa only [List.map_append, List.map_singleton, WriterWorker.ticket?, Option.toList_none,
          Option.toList_some, List.nil_append, List.append_assoc] using htickets
      · intro other found hsaving
        cases hsaving
      · intro other found hreplying
        cases hreplying
      · intro other found hmem
        rcases List.mem_append.mp hmem with hmem | hmem
        · exact hcarried other found hmem
        · obtain ⟨rfl, rfl⟩ := Prod.mk.inj (List.mem_singleton.mp hmem)
          exact hsaved _ _ hworker
      · intro permit hpermit found hstage
        exact List.mem_append_left _ (hinv.permits.completed permit hpermit found hstage)
      · intro other hother hanswered
        rw [List.length_append] at hanswered
        exact hinv.permits.owed other hother (by omega)
      · exact ⟨hinv.accounted.tasks, hinv.accounted.bytes, hinv.accounted.tasks_le,
          hinv.accounted.bytes_le⟩
      · obtain ⟨hopen, hiff, hdrained, hmessage, -, hdropped⟩ := hinv.admission
        refine ⟨hopen, hiff, hdrained, hmessage, fun hexited => ?_, hdropped⟩
        cases hexited
  | exited =>
      simp only [RecordingWriter.workerStep, hworker]
      exact hinv

/-! ## Waiting, acknowledging, shutting down -/

theorem awaitReply_eq (outcomes : List (ℕ × ChunkWriteOutcome)) (permit : PendingWritePermit) :
    permit.awaitReply outcomes = permit ∨ permit.stage = .receipt ∧
      ∃ outcome, (permit.ticket, outcome) ∈ outcomes ∧
        permit.awaitReply outcomes = { permit with stage := .completion outcome } := by
  unfold PendingWritePermit.awaitReply
  split
  next outcome hstage hlookup =>
    obtain ⟨front, back, heq, -⟩ := List.lookup_eq_some_iff.mp hlookup
    refine .inr ⟨hstage, outcome, ?_, rfl⟩
    rw [heq]
    exact List.mem_append_right _ List.mem_cons_self
  next => exact .inl rfl

/-- The permits change one by one, each keeping its ticket and what it holds. -/
theorem Invariant.of_permits (hinv : writer.Invariant) {change : PendingWritePermit → PendingWritePermit}
    (hticket : ∀ permit, (change permit).ticket = permit.ticket)
    (hbytes : ∀ permit, (change permit).bytes = permit.bytes)
    (hheld : ∀ permit, (change permit).heldBytes = permit.heldBytes)
    (hcompleted : ∀ permit ∈ writer.permits, ∀ outcome, (change permit).stage = .completion outcome →
      (permit.ticket, outcome) ∈ writer.outcomes)
    (howed : ∀ permit ∈ writer.permits, permit.stage = .receipt →
      (change permit).stage = .receipt ∨ permit.ticket < writer.outcomes.length) :
    Invariant { writer with permits := writer.permits.map change } := by
  refine ⟨hinv.delivery.frame rfl rfl rfl rfl rfl, ⟨?_, ?_, ?_, ?_⟩, ⟨?_, ?_,
    hinv.accounted.tasks_le, hinv.accounted.bytes_le⟩, ?_⟩
  · rw [List.map_map, show PendingWritePermit.ticket ∘ change = PendingWritePermit.ticket from
      funext hticket]
    exact hinv.permits.nodup
  · intro permit hpermit
    obtain ⟨before, hbefore, rfl⟩ := List.mem_map.mp hpermit
    rw [hticket, hbytes]
    exact hinv.permits.sized before hbefore
  · intro permit hpermit outcome hstage
    obtain ⟨before, hbefore, rfl⟩ := List.mem_map.mp hpermit
    rw [hticket]
    exact hcompleted before hbefore outcome hstage
  · intro ticket hlt hanswered
    obtain ⟨permit, hpermit, rfl, hstage⟩ := hinv.permits.owed ticket hlt hanswered
    refine ⟨change permit, List.mem_map_of_mem hpermit, hticket permit, ?_⟩
    rcases howed permit hpermit hstage with hstage | hlt
    · exact hstage
    · exact absurd hlt (Nat.not_lt.mpr hanswered)
  · rw [List.length_map]
    exact hinv.accounted.tasks
  · rw [permitBytes, List.map_map, show PendingWritePermit.heldBytes ∘ change =
      PendingWritePermit.heldBytes from funext hheld]
    exact hinv.accounted.bytes
  · obtain ⟨hopen, hiff, hdrained, hmessage, hexited, hdropped⟩ := hinv.admission
    refine ⟨hopen, hiff, fun hphase => ?_, hmessage, hexited, hdropped⟩
    rw [hdrained hphase]
    rfl

theorem Invariant.wait (hinv : writer.Invariant) (ticket : ℕ) : (writer.wait ticket).Invariant := by
  have hchange : ∀ permit : PendingWritePermit, ∀ after, after =
      (if permit.ticket = ticket then permit.awaitReply writer.outcomes else permit) →
      after = permit ∨ permit.stage = .receipt ∧ ∃ outcome,
        (permit.ticket, outcome) ∈ writer.outcomes ∧
          after = { permit with stage := .completion outcome } := by
    rintro permit after rfl
    split
    next => exact awaitReply_eq writer.outcomes permit
    next => exact .inl rfl
  refine hinv.of_permits ?_ ?_ ?_ ?_ ?_
  · intro permit
    rcases hchange permit _ rfl with heq | ⟨-, outcome, -, heq⟩ <;> rw [heq]
  · intro permit
    rcases hchange permit _ rfl with heq | ⟨-, outcome, -, heq⟩ <;> rw [heq]
  · intro permit
    rcases hchange permit _ rfl with heq | ⟨hstage, outcome, -, heq⟩ <;> rw [heq]
    simp [PendingWritePermit.heldBytes, hstage]
  · intro permit hpermit outcome hstage
    rcases hchange permit _ rfl with heq | ⟨-, found, hmem, heq⟩
    · rw [heq] at hstage
      exact hinv.permits.completed permit hpermit outcome hstage
    · rw [heq] at hstage
      obtain rfl := PermitStage.completion.inj hstage
      exact hmem
  · intro permit hpermit hstage
    rcases hchange permit _ rfl with heq | ⟨-, found, hmem, heq⟩
    · exact .inl (by rw [heq, hstage])
    · exact .inr (hinv.delivery.answered_lt hmem)

/-- A permit that is no longer in its receipt is replaced or given up, with the
counters adjusted by what it held. -/
theorem Invariant.of_release (hinv : writer.Invariant) {front back kept : List PendingWritePermit}
    {permit : PendingWritePermit} {pendingTasks pendingBytes : ℕ}
    (hpermits : writer.permits = front ++ permit :: back) (hstage : permit.stage ≠ .receipt)
    (hkept : kept = [] ∨ kept = [{ permit with stage := .bytesReleased }])
    (htasks : pendingTasks + 1 = writer.pendingTasks + kept.length)
    (hbytes : pendingBytes + permit.heldBytes = writer.pendingBytes) :
    Invariant { writer with
      pendingTasks := pendingTasks, pendingBytes := pendingBytes, permits := front ++ kept ++ back } := by
  have hmem : ∀ found ∈ front ++ kept ++ back, found ∈ writer.permits ∨
      found.ticket = permit.ticket ∧ found.bytes = permit.bytes ∧ found.stage = .bytesReleased := by
    intro found hfound
    rw [hpermits]
    rcases List.mem_append.mp hfound with hfound | hfound
    · rcases List.mem_append.mp hfound with hfound | hfound
      · exact .inl (List.mem_append_left _ hfound)
      · rcases hkept with rfl | rfl
        · cases hfound
        · rw [List.mem_singleton.mp hfound]
          exact .inr ⟨rfl, rfl, rfl⟩
    · exact .inl (List.mem_append_right _ (List.mem_cons_of_mem _ hfound))
  have hself : permit ∈ writer.permits := by
    rw [hpermits]
    exact List.mem_append_right _ List.mem_cons_self
  obtain ⟨hnodup, hsized, hcompleted, howed⟩ := hinv.permits
  obtain ⟨htasks', hbytes', htasks_le, hbytes_le⟩ := hinv.accounted
  have hkept_length : kept.length ≤ 1 := by
    rcases hkept with rfl | rfl <;> simp
  have hkept_held : (kept.map PendingWritePermit.heldBytes).sum = 0 := by
    rcases hkept with rfl | rfl <;> simp [PendingWritePermit.heldBytes]
  refine ⟨hinv.delivery.frame rfl rfl rfl rfl rfl, ⟨?_, ?_, ?_, ?_⟩, ⟨?_, ?_, ?_, ?_⟩, ?_⟩
  · rw [hpermits] at hnodup
    have hsublist : ((front ++ kept ++ back).map PendingWritePermit.ticket).Sublist
        ((front ++ permit :: back).map PendingWritePermit.ticket) := by
      rcases hkept with rfl | rfl
      · rw [List.append_nil]
        exact ((List.Sublist.refl front).append (List.sublist_cons_self permit back)).map _
      · simp
    exact hnodup.sublist hsublist
  · intro found hfound
    rcases hmem found hfound with hfound | ⟨hticket, hsize, -⟩
    · exact hsized found hfound
    · rw [hticket, hsize]
      exact hsized permit hself
  · intro found hfound outcome hcompletion
    rcases hmem found hfound with hfound | ⟨-, -, hreleased⟩
    · exact hcompleted found hfound outcome hcompletion
    · rw [hreleased] at hcompletion
      cases hcompletion
  · intro ticket hlt hanswered
    obtain ⟨found, hfound, hticket, hreceipt⟩ := howed ticket hlt hanswered
    refine ⟨found, ?_, hticket, hreceipt⟩
    rw [hpermits] at hfound
    rcases List.mem_append.mp hfound with hfound | hfound
    · exact List.mem_append_left _ (List.mem_append_left _ hfound)
    · rcases List.mem_cons.mp hfound with rfl | hfound
      · exact absurd hreceipt hstage
      · exact List.mem_append_right _ hfound
  · rw [hpermits] at htasks'
    simp only [List.length_append, List.length_cons, heldTasks] at htasks' ⊢
    omega
  · rw [permitBytes, hpermits] at hbytes'
    simp only [permitBytes, heldBytes, List.map_append, List.sum_append, List.map_cons,
      List.sum_cons, hkept_held] at hbytes' ⊢
    omega
  · change pendingTasks ≤ writer.maxTasks
    omega
  · change pendingBytes ≤ writer.maxBytes
    omega
  · obtain ⟨hopen, hiff, hdrained, hmessage, hexited, hdropped⟩ := hinv.admission
    refine ⟨hopen, hiff, fun hphase => ?_, hmessage, hexited, hdropped⟩
    rw [hdrained hphase] at hself
    cases hself

/-- A permit's share is part of the byte counter. -/
theorem Invariant.bytes_counted (hinv : writer.Invariant) {permit : PendingWritePermit}
    (hpermit : permit ∈ writer.permits) :
    permit.heldBytes + writer.heldBytes ≤ writer.pendingBytes := by
  have hshare : permit.heldBytes ∈ writer.permits.map PendingWritePermit.heldBytes :=
    List.mem_map_of_mem hpermit
  have hle := List.le_sum_of_mem hshare
  have hbytes := hinv.accounted.bytes
  rw [permitBytes] at hbytes
  omega

theorem Invariant.tasks_counted (hinv : writer.Invariant) {permit : PendingWritePermit}
    (hpermit : permit ∈ writer.permits) : 1 + writer.heldTasks ≤ writer.pendingTasks := by
  have hpos := List.length_pos_of_mem hpermit
  have htasks := hinv.accounted.tasks
  omega

theorem Invariant.releaseBytes (hinv : writer.Invariant) (ticket : ℕ) :
    (writer.releaseBytes ticket).Invariant := by
  unfold RecordingWriter.releaseBytes
  split
  next found bytes outcome hfind =>
    obtain ⟨hkey, front, back, hpermits, hothers⟩ :=
      List.find?_key_split hinv.permits.nodup hfind
    have hheld : bytes ≤ writer.pendingBytes :=
      (Nat.le_add_right _ _).trans (hinv.bytes_counted (List.mem_of_find?_eq_some hfind))
    have hreleased : Invariant { writer with
        pendingTasks := writer.pendingTasks
        pendingBytes := writer.pendingBytes - bytes
        permits := front ++ [⟨found, bytes, .bytesReleased⟩] ++ back } := by
      refine hinv.of_release hpermits (by simp) (.inr rfl) rfl ?_
      exact Nat.sub_add_cancel hheld
    rw [hpermits, List.map_key_split PendingWritePermit.ticket hkey hothers, List.append_cons]
    exact hreleased
  next => exact hinv

theorem Invariant.releaseTask (hinv : writer.Invariant) (ticket : ℕ) :
    (writer.releaseTask ticket).Invariant := by
  unfold RecordingWriter.releaseTask
  split
  next found bytes hfind =>
    obtain ⟨hkey, front, back, hpermits, hothers⟩ :=
      List.find?_key_split hinv.permits.nodup hfind
    have hcounted : 1 ≤ writer.pendingTasks :=
      (Nat.le_add_right _ _).trans (hinv.tasks_counted (List.mem_of_find?_eq_some hfind))
    have hreleased : Invariant { writer with
        pendingTasks := writer.pendingTasks - 1
        pendingBytes := writer.pendingBytes
        permits := front ++ [] ++ back } := by
      refine hinv.of_release hpermits (by simp) (.inl rfl) ?_ rfl
      exact Nat.sub_add_cancel hcounted
    rw [hpermits, List.filter_key_split PendingWritePermit.ticket hkey hothers]
    rwa [List.append_nil] at hreleased
  next => exact hinv

/-- A step that moves the shutdown, the flag and the clones. -/
theorem Invariant.of_admission (hinv : writer.Invariant) (hdelivery : other.Delivery)
    (hadmission : other.Admission) (hpermits : other.permits = writer.permits)
    (haccepted : other.accepted = writer.accepted) (houtcomes : other.outcomes = writer.outcomes)
    (hcall : other.call = writer.call) (htasks : other.pendingTasks = writer.pendingTasks)
    (hbytes : other.pendingBytes = writer.pendingBytes) (hmaxTasks : other.maxTasks = writer.maxTasks)
    (hmaxBytes : other.maxBytes = writer.maxBytes) : other.Invariant := by
  refine ⟨hdelivery, hinv.permits.frame hpermits haccepted houtcomes, ?_, hadmission⟩
  obtain ⟨hcount, hsum, htasks_le, hbytes_le⟩ := hinv.accounted
  refine ⟨?_, ?_, ?_, ?_⟩
  · rw [htasks, hcount, hpermits, heldTasks, heldTasks, hcall]
  · rw [hbytes, hsum, permitBytes, permitBytes, hpermits, heldBytes, heldBytes, hcall]
  · rwa [htasks, hmaxTasks]
  · rwa [hbytes, hmaxBytes]

theorem Invariant.shutdownStep (hinv : writer.Invariant) : writer.shutdownStep.Invariant := by
  obtain ⟨hopen, hiff, hdrained, hmessage, hexited, hdropped⟩ := hinv.admission
  unfold RecordingWriter.shutdownStep
  split
  next hphase =>
    split
    next hnone =>
      refine hinv.of_admission (hinv.delivery.frame rfl rfl rfl rfl rfl) ⟨?_, ?_, ?_, ?_, ?_, hdropped⟩
        rfl rfl rfl rfl rfl rfl rfl rfl
      · intro call hcall
        rw [Option.isNone_iff_eq_none.mp hnone] at hcall
        cases hcall
      · simp
      · simp
      · intro hmem
        have hsent := hmessage hmem
        rw [hphase] at hsent
        cases hsent
      · intro hexit
        obtain ⟨hover | hcloned, hall⟩ := hexited hexit
        · rw [hphase] at hover
          cases hover
        · exact ⟨.inr hcloned, hall⟩
    next => exact hinv
  next hphase =>
    split
    next hzero =>
      have hclosed : writer.closed ≠ false := by
        rw [ne_eq, hiff, hphase]
        simp
      refine hinv.of_admission (hinv.delivery.frame rfl rfl rfl rfl rfl)
        ⟨hopen, ?_, ?_, ?_, ?_, hdropped⟩ rfl rfl rfl rfl rfl rfl rfl rfl
      · simpa using hclosed
      · intro _
        have htasks := hinv.accounted.tasks
        rw [of_decide_eq_true hzero] at htasks
        have hlength : writer.permits.length = 0 := by omega
        exact List.length_eq_zero_iff.mp hlength
      · intro hmem
        have hsent := hmessage hmem
        rw [hphase] at hsent
        cases hsent
      · intro hexit
        obtain ⟨hover | hcloned, hall⟩ := hexited hexit
        · rw [hphase] at hover
          cases hover
        · exact ⟨.inr hcloned, hall⟩
    next => exact hinv
  next hphase =>
    have hclosed : writer.closed ≠ false := by
      rw [ne_eq, hiff, hphase]
      simp
    have hnoPermits := hdrained (.inl hphase)
    split
    next hgone =>
      refine hinv.of_admission (hinv.delivery.frame rfl rfl rfl rfl rfl)
        ⟨hopen, by simpa using hclosed, fun _ => hnoPermits, fun _ => rfl, ?_, hdropped⟩
        rfl rfl rfl rfl rfl rfl rfl rfl
      exact fun hexit => ⟨.inl rfl, (hexited hexit).2⟩
    next hworker =>
      split
      next =>
        refine hinv.of_admission ?_ ⟨hopen, by simpa using hclosed, fun _ => hnoPermits,
          fun _ => rfl, fun hexit => absurd hexit hworker, hdropped⟩ rfl rfl rfl rfl rfl rfl rfl rfl
        obtain ⟨htickets, hqueued, htaken, hsaved, hcarried, hback, hadmitted⟩ := hinv.delivery
        refine ⟨?_, ?_, htaken, hsaved, hcarried, hback, hadmitted⟩
        · rw [List.filterMap_append, show [WriterMessage.shutdown].filterMap WriterMessage.ticket? = []
            from rfl, List.append_nil]
          exact htickets
        · intro ticket chunk hmem
          rcases List.mem_append.mp hmem with hmem | hmem
          · exact hqueued ticket chunk hmem
          · cases List.mem_singleton.mp hmem
      next => exact hinv
  next => exact hinv

theorem Invariant.dropClones (hinv : writer.Invariant) : writer.dropClones.Invariant := by
  obtain ⟨hopen, hiff, hdrained, hmessage, hexited, hdropped⟩ := hinv.admission
  unfold RecordingWriter.dropClones
  split
  next hidle =>
    refine hinv.of_admission (hinv.delivery.frame rfl rfl rfl rfl rfl)
      ⟨hopen, hiff, hdrained, hmessage, fun hexit => ⟨.inr rfl, (hexited hexit).2⟩, fun _ => ?_⟩
      rfl rfl rfl rfl rfl rfl rfl rfl
    exact Option.isNone_iff_eq_none.mp hidle.1
  next => exact hinv

/-! ## Runs -/

theorem invariant_new (maxTasks maxBytes : ℕ) : (new maxTasks maxBytes).Invariant := by
  refine ⟨⟨rfl, ?_, ?_, ?_, ?_, ?_, ?_⟩, ⟨List.nodup_nil, ?_, ?_, ?_⟩,
    ⟨rfl, rfl, Nat.zero_le _, Nat.zero_le _⟩, ⟨?_, ?_, ?_, ?_, ?_, ?_⟩⟩ <;> simp [new]

theorem Invariant.step (hinv : writer.Invariant) (event : WriterEvent) :
    (writer.step event).Invariant := by
  cases event with
  | tryEnqueue chunk =>
      simp only [RecordingWriter.step]
      split
      next hidle =>
        have hnone := Option.isNone_iff_eq_none.mp hidle.1
        obtain ⟨htasks, hbytes, htasks_le, hbytes_le⟩ := hinv.accounted
        simp only [heldTasks, heldBytes, hnone, Option.map_none, Option.getD_none] at htasks hbytes
        exact hinv.of_call (fun hphase => absurd rfl hphase) hidle.2 htasks hbytes htasks_le hbytes_le
      next => exact hinv
  | call spurious =>
      simp only [RecordingWriter.step]
      split
      next call hcall => exact hinv.enqueueStep hcall spurious
      next => exact hinv
  | worker result => exact hinv.workerStep result
  | wait ticket => exact hinv.wait ticket
  | releaseBytes ticket => exact hinv.releaseBytes ticket
  | releaseTask ticket => exact hinv.releaseTask ticket
  | shutdown => exact hinv.shutdownStep
  | dropClones => exact hinv.dropClones

theorem Invariant.run (hinv : writer.Invariant) (events : List WriterEvent) :
    (Machine.run RecordingWriter.step writer events).Invariant :=
  Machine.run_invariant _ Invariant (fun _ event hinv => hinv.step event) hinv events

end RecordingWriter

end DiscordTranscript.Application
