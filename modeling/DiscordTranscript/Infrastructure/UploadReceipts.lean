import DiscordTranscript.Foundation.Fallible
import DiscordTranscript.Infrastructure.UploadOrder

/-! # What a durable receipt stands for

`upload_file_with_receipt` hashes a file and hands out the receipt of an upload, a new
one or a cached one that was hashed to the same content. The receipt turns durable when
the PUT of that upload succeeds. The file is read again for the PUT, and the cache is
not told when another write or a deletion takes the object away; as long as neither gets
in between, the store has held the hashed content since the call began.
-/

namespace DiscordTranscript.Infrastructure

open Slots

/-! ## What a step of a call does to receipts -/

/-- The call has not hashed its file yet. -/
def UploadCall.early (call : UploadCall) : Bool :=
  match call.phase with
  | .checkFile | .statFile | .hashFile _ => true
  | .findReceipt | .checkCancelled | .reserveBytes | .releaseBytes _ | .reserveTask
  | .fetchGeneration | .trackGeneration | .send | .revertPending _ | .revertBytes _
  | .revertGeneration _ | .keepReceipt => false

/-- The cached receipt the next step of the call hands out. -/
def UploadCall.cacheHit (call : UploadCall) (clock : ℕ) (queue : UploadQueue) :
    Option CachedUploadReceipt :=
  if call.phase = .findReceipt ∧ queue.fileReceiptsLocked = false then
    call.snapshot.bind fun snapshot =>
      { queue with fileReceipts := queue.retainReceipts clock }.cachedReceipt call.task.key snapshot
  else none

/-- The entries of the cache after a step are those before it, or one for the call. -/
def CachesAtMost (call : UploadCall) (queue queue' : UploadQueue) : Prop :=
  ∀ entry ∈ queue'.fileReceipts,
    (∃ old ∈ queue.fileReceipts, old.1 = entry.1 ∧ old.2.snapshot = entry.2.snapshot ∧
      old.2.generation = entry.2.generation) ∨
    (call.phase = .keepReceipt ∧ entry.1 = call.task.key ∧
      call.snapshot = some entry.2.snapshot ∧ entry.2.generation = call.task.generation)

/-- What a step of a call does to its answer and to the accepted calls. -/
inductive ReceiptMove (call : UploadCall) (clock : ℕ) (queue queue' : UploadQueue) :
    Option UploadCall → Prop
  | onward (next : UploadCall) (hreturned : queue'.returned = queue.returned)
      (haccepted : queue'.accepted = queue.accepted) (hphase : next.phase ≠ .keepReceipt)
      (hsnapshot : (next.snapshot = call.snapshot ∧ next.early = call.early) ∨
        (call.early = true ∧ next.snapshot.isSome)) :
      ReceiptMove call clock queue queue' (some next)
  | sent (hphase : call.phase = .send) (hreturned : queue'.returned = queue.returned)
      (haccepted : queue'.accepted = queue.accepted ++ [call]) :
      ReceiptMove call clock queue queue' (some { call with phase := .keepReceipt })
  | sentInline (hphase : call.phase = .send) (hsnapshot : call.snapshot = none)
      (hreturned : queue'.returned = queue.returned ++ [⟨call, .ok (some call.task.generation)⟩])
      (haccepted : queue'.accepted = queue.accepted ++ [call]) :
      ReceiptMove call clock queue queue' none
  | answered (result : Except String (Option ℕ))
      (hreturned : queue'.returned = queue.returned ++ [⟨call, result⟩])
      (haccepted : queue'.accepted = queue.accepted)
      (hresult : ∀ generation, result ≠ .ok (some generation)) :
      ReceiptMove call clock queue queue' none
  | hit (cached : CachedUploadReceipt) (hcached : call.cacheHit clock queue = some cached)
      (hreturned : queue'.returned = queue.returned ++ [⟨call, .ok (some cached.generation)⟩])
      (haccepted : queue'.accepted = queue.accepted) : ReceiptMove call clock queue queue' none
  | kept (hphase : call.phase = .keepReceipt)
      (hreturned : queue'.returned = queue.returned ++ [⟨call, .ok (some call.task.generation)⟩])
      (haccepted : queue'.accepted = queue.accepted) : ReceiptMove call clock queue queue' none

theorem UploadCall.advance_receipts (call : UploadCall)
    (files : List String → Option (List UInt8)) (clock : ℕ) (input : CallInput)
    (queue : UploadQueue) :
    ReceiptMove call clock queue (call.advance files clock input queue).1
      (call.advance files clock input queue).2 := by
  obtain ⟨request, task, phase, snapshot, begun⟩ := call
  cases phase with
  | checkFile =>
      simp only [advance]
      split
      next => exact .onward _ rfl rfl (by simp) (.inl ⟨rfl, rfl⟩)
      next => exact .answered _ rfl rfl fun _ hnone => by cases hnone
  | statFile =>
      simp only [advance]
      split
      next => exact .onward _ rfl rfl (by simp) (.inl ⟨rfl, rfl⟩)
      next => exact .answered _ rfl rfl fun _ herror => by cases herror
  | hashFile len =>
      simp only [advance]
      split
      next => exact .onward _ rfl rfl (by simp) (.inr ⟨rfl, rfl⟩)
      next => exact .answered _ rfl rfl fun _ herror => by cases herror
      next => exact .answered _ rfl rfl fun _ herror => by cases herror
  | findReceipt =>
      simp only [advance]
      split
      next hashed =>
        split
        next => exact .onward _ rfl rfl (by simp) (.inl ⟨rfl, rfl⟩)
        next hfree =>
          simp only [findReceipt]
          split
          next cached hcached =>
            refine .hit cached ?_ rfl rfl
            have hopen : queue.fileReceiptsLocked = false := Bool.eq_false_iff.mpr hfree
            simp only [cacheHit, hopen, and_self, if_true, Option.bind_some]
            exact hcached
          next => exact .onward _ rfl rfl (by simp) (.inl ⟨rfl, rfl⟩)
      next => exact .onward _ rfl rfl (by simp) (.inl ⟨rfl, rfl⟩)
  | checkCancelled =>
      simp only [advance]
      split
      next => exact .answered _ rfl rfl fun _ herror => by cases herror
      next => exact .onward _ rfl rfl (by simp) (.inl ⟨rfl, rfl⟩)
  | reserveBytes | reserveTask =>
      simp only [advance]
      split <;> exact .onward _ rfl rfl (by simp) (.inl ⟨rfl, rfl⟩)
  | send =>
      simp only [advance, trySend]
      split
      next => exact .onward _ rfl rfl (by simp) (.inl ⟨rfl, rfl⟩)
      next =>
        split
        next =>
          split
          next => exact .sent rfl rfl rfl
          next hnone =>
            exact .sentInline rfl (Option.not_isSome_iff_eq_none.mp hnone) rfl rfl
        next => exact .onward _ rfl rfl (by simp) (.inl ⟨rfl, rfl⟩)
  | fetchGeneration | trackGeneration | revertPending error | revertBytes error =>
      exact .onward _ rfl rfl (by simp) (.inl ⟨rfl, rfl⟩)
  | releaseBytes error => exact .answered _ rfl rfl fun _ herror => by cases herror
  | revertGeneration error =>
      refine .answered (.error error) ?_ ?_ fun _ herror => by cases herror
      · simp only [advance, UploadQueue.dropTask]
        split <;> rfl
      · simp only [advance, UploadQueue.dropTask]
        split <;> rfl
  | keepReceipt =>
      simp only [advance]
      split
      next => exact .kept rfl rfl rfl
      next hnone => exact .kept rfl rfl rfl

/-- No step of a call makes a receipt durable. -/
theorem UploadCall.advance_durable {call : UploadCall} {files : List String → Option (List UInt8)}
    {clock : ℕ} {input : CallInput} {queue : UploadQueue} {generation : ℕ}
    (hdurable : (call.advance files clock input queue).1.receipts generation = .durable) :
    queue.receipts generation = .durable := by
  have hupdate : ∀ (other : ℕ) (status : UploadReceiptStatus),
      Function.update queue.receipts other status generation = .durable → status ≠ .durable →
      queue.receipts generation = .durable := by
    intro other status hafter hstatus
    by_cases hsame : generation = other
    · rw [hsame, Function.update_self] at hafter
      exact absurd hafter hstatus
    · rwa [Function.update_of_ne hsame] at hafter
  obtain ⟨request, task, phase, snapshot, begun⟩ := call
  cases phase with
  | findReceipt =>
      simp only [advance] at hdurable
      split at hdurable
      next =>
        split at hdurable
        next => exact hdurable
        next =>
          simp only [findReceipt] at hdurable
          split at hdurable <;> exact hdurable
      next => exact hdurable
  | send =>
      simp only [advance, trySend] at hdurable
      split at hdurable
      next => exact hdurable
      next =>
        split at hdurable
        next => split at hdurable <;> exact hdurable
        next => exact hdurable
  | fetchGeneration => exact hupdate _ _ hdurable (by simp)
  | revertGeneration error =>
      simp only [advance, UploadQueue.dropTask] at hdurable
      split at hdurable
      next => exact hdurable
      next => exact hupdate _ _ hdurable (by simp)
  | checkFile | statFile | hashFile len | checkCancelled | reserveTask | keepReceipt =>
      simp only [advance] at hdurable
      split at hdurable <;> exact hdurable
  | reserveBytes | releaseBytes error | trackGeneration | revertPending error
  | revertBytes error => exact hdurable

theorem UploadQueue.mem_of_mem_evictReceipts {queue : UploadQueue}
    {receipts : List (String × CachedUploadReceipt)} {entry : String × CachedUploadReceipt}
    (hentry : entry ∈ queue.evictReceipts receipts) : entry ∈ receipts := by
  have hfold : ∀ step : List (String × CachedUploadReceipt) → String × CachedUploadReceipt →
      List (String × CachedUploadReceipt), (∀ kept first, step kept first ⊆ kept) →
      ∀ oldest kept : List (String × CachedUploadReceipt),
        entry ∈ oldest.foldl step kept → entry ∈ kept := by
    intro step hstep oldest
    induction oldest with
    | nil => exact fun kept hkept => hkept
    | cons first rest ih => exact fun kept hkept => hstep kept first (ih _ hkept)
  unfold evictReceipts at hentry
  split at hentry
  next =>
    refine hfold _ ?_ _ _ hentry
    rintro kept ⟨key, cached⟩
    dsimp only
    split
    next => exact List.Subset.refl _
    next => exact List.filter_subset_self _
  next => exact hentry

theorem UploadCall.advance_caches (call : UploadCall) (files : List String → Option (List UInt8))
    (clock : ℕ) (input : CallInput) (queue : UploadQueue) :
    CachesAtMost call queue (call.advance files clock input queue).1 := by
  have hkeep : ∀ {queue' : UploadQueue}, queue'.fileReceipts ⊆ queue.fileReceipts →
      CachesAtMost call queue queue' :=
    fun hsub entry hentry => .inl ⟨entry, hsub hentry, rfl, rfl, rfl⟩
  obtain ⟨request, task, phase, snapshot, begun⟩ := call
  cases phase with
  | findReceipt =>
      simp only [advance]
      split
      next =>
        split
        next => exact hkeep (List.Subset.refl _)
        next =>
          simp only [findReceipt]
          split
          next =>
            intro entry hentry
            obtain ⟨old, hold, rfl⟩ := List.mem_map.mp hentry
            refine .inl ⟨old, List.mem_of_mem_filter hold, rfl, ?_, ?_⟩
            · simp only
              split <;> rfl
            · simp only
              split <;> rfl
          next => exact hkeep (List.filter_subset_self _)
      next => exact hkeep (List.Subset.refl _)
  | send =>
      simp only [advance, trySend]
      split
      next => exact hkeep (List.Subset.refl _)
      next =>
        split
        next => split <;> exact hkeep (List.Subset.refl _)
        next => exact hkeep (List.Subset.refl _)
  | keepReceipt =>
      simp only [advance]
      split
      next hashed =>
        intro entry hentry
        rcases List.mem_cons.mp (UploadQueue.mem_of_mem_evictReceipts hentry) with rfl | hold
        · exact .inr ⟨rfl, rfl, rfl, rfl⟩
        · exact .inl ⟨entry, List.mem_of_mem_filter hold, rfl, rfl, rfl⟩
      next => exact hkeep (List.Subset.refl _)
  | revertGeneration error =>
      simp only [advance, UploadQueue.dropTask]
      split <;> exact hkeep (List.Subset.refl _)
  | checkFile | statFile | hashFile len | checkCancelled | reserveTask =>
      simp only [advance]
      split <;> exact hkeep (List.Subset.refl _)
  | reserveBytes | releaseBytes error | fetchGeneration | trackGeneration | revertPending error
  | revertBytes error => exact hkeep (List.Subset.refl _)

/-! ## What a step of the worker does to receipts -/

/-- The generation whose PUT has taken effect and has not failed. -/
def WorkerPhase.landed : WorkerPhase → Option ℕ
  | .stored task | .answered task (.ok _) | .resolve task (.ok _) | .settle task .durable _ _ =>
      some task.generation
  | _ => none

/-- A receipt turns durable after its PUT has landed. -/
structure LandingMove (worker : UploadWorker) (input : WorkerInput) (queue : UploadQueue)
    (worker' : UploadWorker) (queue' : UploadQueue) : Prop where
  durable : ∀ generation, queue'.receipts generation = .durable →
    queue.receipts generation = .durable ∨ worker.phase.landed = some generation
  landed : worker'.phase.landed = none ∨ worker'.phase.landed = worker.phase.landed ∨
    ∃ task body, worker.phase = .put task body ∧ input.effect = .stored ∧
      worker'.phase.landed = some task.generation

theorem UploadWorker.step_landing (worker : UploadWorker) (queue : UploadQueue) (world : World)
    (clock : ℕ) (input : WorkerInput) :
    LandingMove worker input queue (worker.step queue world clock input).1
      (worker.step queue world clock input).2.1 := by
  have hquiet : ∀ {worker' : UploadWorker} {queue' : UploadQueue},
      queue'.receipts = queue.receipts →
      (worker'.phase.landed = none ∨ worker'.phase.landed = worker.phase.landed) →
      LandingMove worker input queue worker' queue' :=
    fun hsame hlanded => ⟨fun _ hdurable => .inl (hsame ▸ hdurable),
      hlanded.imp_right .inl⟩
  unfold step
  cases hphase : worker.phase with
  | receive =>
      simp only [receive]
      repeat' split
      all_goals exact hquiet rfl (.inl rfl)
  | scan =>
      simp only [scan]
      repeat' split
      all_goals exact hquiet rfl (.inl (by simp [WorkerPhase.landed, hphase]))
  | put task body =>
      simp only
      split
      next heffect =>
        exact ⟨fun _ => .inl, .inr (.inr ⟨task, body, hphase, heffect, rfl⟩)⟩
      next => exact hquiet rfl (.inl rfl)
  | stored task =>
      simp only
      split
      next hanswer => exact hquiet rfl (.inr (by rw [hphase, hanswer]; rfl))
      next error hanswer => exact hquiet rfl (.inl (by rw [hanswer]; rfl))
  | answered task result =>
      cases result with
      | ok _ => exact hquiet rfl (.inr (by rw [hphase]; rfl))
      | error _ => exact hquiet rfl (.inl rfl)
  | resolve task result =>
      cases result with
      | ok _ => exact hquiet rfl (.inr (by rw [hphase]; rfl))
      | error err =>
          simp only [resolve]
          split
          next => exact hquiet rfl (.inl rfl)
          next =>
            split
            next => exact hquiet rfl (.inl rfl)
            next =>
              refine ⟨fun generation hdurable => .inl ?_, .inl rfl⟩
              simp only [UploadQueue.updateReceipt] at hdurable
              by_cases hsame : generation = task.generation
              · rw [hsame, Function.update_self] at hdurable
                cases hdurable
              · rwa [Function.update_of_ne hsame] at hdurable
  | settle task status delivered stage =>
      cases stage with
      | receipt =>
          refine ⟨fun generation hdurable => ?_, .inl rfl⟩
          simp only [settle, UploadQueue.updateReceipt] at hdurable
          by_cases hsame : generation = task.generation
          · rw [hsame, Function.update_self] at hdurable
            subst hdurable
            exact .inr (by rw [hphase, hsame]; rfl)
          · rw [Function.update_of_ne hsame] at hdurable
            exact .inl hdurable
      | pending | bytes | generations =>
          refine hquiet rfl (.inr ?_)
          rw [hphase]
          cases status <;> rfl
  | finished => exact hquiet rfl (.inr rfl)
  | pushTombstones task keys | cleanUp task => exact hquiet rfl (.inl rfl)
  | listTombstones task | checkSuperseded task | checkSource task | beginUpload task
  | readSource task path =>
      simp only
      repeat' split
      all_goals exact hquiet rfl (.inl rfl)

/-- The body of a PUT is the inline source or what the file held when it was read. -/
theorem UploadWorker.step_put {worker : UploadWorker} {queue : UploadQueue} {world : World}
    {clock : ℕ} {input : WorkerInput} {task : UploadTask} {body : List UInt8}
    (hput : (worker.step queue world clock input).1.phase = .put task body) :
    (worker.phase = .beginUpload task ∧ task.source = .inline body) ∨
      ∃ path, worker.phase = .readSource task path ∧ world.files path = some body := by
  unfold step at hput
  cases hphase : worker.phase with
  | beginUpload other =>
      rw [hphase] at hput
      simp only at hput
      split at hput
      next => cases hput
      next hsource =>
        cases hput
        exact .inl ⟨rfl, hsource⟩
      next => cases hput
  | readSource other path =>
      rw [hphase] at hput
      simp only at hput
      split at hput
      next hfile _ =>
        cases hput
        exact .inr ⟨path, rfl, hfile⟩
      next => cases hput
  | receive =>
      rw [hphase] at hput
      simp only [receive] at hput
      repeat' split at hput
      all_goals cases hput
  | scan =>
      rw [hphase] at hput
      simp only [scan] at hput
      repeat' split at hput
      all_goals simp [hphase] at hput
  | resolve other result =>
      rw [hphase] at hput
      cases result with
      | ok _ => cases hput
      | error err =>
          simp only [resolve] at hput
          repeat' split at hput
          all_goals cases hput
  | settle other status delivered stage =>
      rw [hphase] at hput
      cases stage <;> cases hput
  | finished =>
      rw [hphase] at hput
      simp [hphase] at hput
  | pushTombstones other keys | cleanUp other | answered other result | stored other =>
      rw [hphase] at hput
      cases hput
  | listTombstones other | checkSuperseded other | checkSource other | put other body' =>
      rw [hphase] at hput
      simp only at hput
      repeat' split at hput
      all_goals cases hput

/-! ## Promises -/

/-- The file the worker is about to read. -/
def WorkerPhase.reading : WorkerPhase → Option (UploadTask × List String)
  | .readSource task path => some (task, path)
  | _ => none

/-- A file read for its PUT is as it was hashed. -/
def ReadsAsHashed (site : Site) : Prop :=
  ∀ read ∈ site.process.worker.phase.reading,
    ∀ call ∈ site.process.uploads.accepted, call.task.generation = read.1.generation →
      ∀ snapshot ∈ call.snapshot, ∀ body ∈ site.world.files read.2, body = snapshot.content

/-- A step that does not come in between: files are read as they were hashed, and a
cached receipt whose PUT has already landed is handed out only while the object is still
the one it stored. -/
def Undisturbed (site : Site) : ProcessInput → Prop
  | .work _ => ReadsAsHashed site
  | .call index _ =>
      ∀ call ∈ site.process.calls[index]?,
        ∀ cached ∈ call.cacheHit site.process.clock site.process.uploads,
          site.process.uploads.receipts cached.generation = .durable ∨
            site.process.worker.phase.landed = some cached.generation →
          site.world.storedBy call.task.key = some cached.generation
  | .begin _ | .beginDelete _ | .delete _ _ | .edit _ _ | .tick _ | .close => True

instance (site : Site) : Decidable (ReadsAsHashed site) :=
  inferInstanceAs (Decidable (∀ read ∈ site.process.worker.phase.reading, _))

instance (site : Site) : ∀ input, Decidable (Undisturbed site input)
  | .work _ => inferInstanceAs (Decidable (ReadsAsHashed site))
  | .call index _ => inferInstanceAs (Decidable (∀ call ∈ site.process.calls[index]?, _))
  | .begin _ | .beginDelete _ | .delete _ _ | .edit _ _ | .tick _ | .close =>
      inferInstanceAs (Decidable True)

section

variable (held : ℕ → String → List UInt8 → Prop)

/-- The store has held the content since the call began, or its upload has yet to land. -/
def Promised (process : Process) (begun : ℕ) (key : String) (content : List UInt8)
    (generation : ℕ) : Prop :=
  held begun key content ∨
    (process.uploads.receipts generation ≠ .durable ∧
      process.worker.phase.landed ≠ some generation)

/-- The upload of the generation is one of the content under the key. -/
def UploadQueue.Backs (queue : UploadQueue) (key : String) (content : List UInt8)
    (generation : ℕ) : Prop :=
  ∃ sent ∈ queue.accepted, sent.task.key = key ∧ sent.task.generation = generation ∧
    ∃ snapshot, sent.snapshot = some snapshot ∧ snapshot.content = content

/-- A snapshot is taken of a file, and before a call to upload one can be answered with a
receipt. -/
def UploadCall.Hashed (call : UploadCall) : Prop :=
  (call.snapshot.isSome ∨ call.early = true → ∃ path, call.task.source = .file path) ∧
    ∀ path, call.request = .uploadFile path → call.snapshot.isSome ∨ call.early = true

structure Receipts (site : Site) : Prop where
  calls : ∀ call ∈ site.process.calls, call.begun ≤ site.process.steps ∧ call.Hashed
  keeping : ∀ call ∈ site.process.calls, call.phase = .keepReceipt →
    ∃ sent ∈ site.process.uploads.accepted, sent.begun = call.begun ∧ sent.task = call.task ∧
      sent.snapshot = call.snapshot
  accepted : ∀ call ∈ site.process.uploads.accepted, call.begun ≤ site.process.steps ∧
    (call.snapshot.isSome → ∃ path, call.task.source = .file path) ∧
    ∀ snapshot, call.snapshot = some snapshot →
      Promised held site.process call.begun call.task.key snapshot.content call.task.generation
  cached : ∀ entry ∈ site.process.uploads.fileReceipts,
    site.process.uploads.Backs entry.1 entry.2.snapshot.content entry.2.generation
  returned : ∀ answer ∈ site.process.uploads.returned, ∀ generation,
    answer.result = .ok (some generation) → answer.call.begun ≤ site.process.steps ∧
      (∀ path, answer.call.request = .uploadFile path → answer.call.snapshot.isSome) ∧
      ∀ snapshot, answer.call.snapshot = some snapshot →
        site.process.uploads.Backs answer.call.task.key snapshot.content generation ∧
          Promised held site.process answer.call.begun answer.call.task.key snapshot.content
            generation
  loaded : ∀ task body, site.process.worker.phase = .put task body →
    ∀ call ∈ site.process.uploads.accepted, call.task.generation = task.generation →
      ∀ snapshot, call.snapshot = some snapshot → body = snapshot.content
  stored : ∀ key generation, site.world.storedBy key = some generation →
    ∃ sent ∈ site.process.uploads.accepted, sent.task.key = key ∧
      sent.task.generation = generation ∧
      ∀ snapshot, sent.snapshot = some snapshot → site.world.object key = some snapshot.content

end

section

variable {held held' : ℕ → String → List UInt8 → Prop} {process process' : Process}

theorem Promised.mono {begun : ℕ} {key : String} {content : List UInt8} {generation : ℕ}
    (hpromised : Promised held process begun key content generation)
    (hmore : ∀ begun key content, held begun key content → held' begun key content)
    (hdurable : process'.uploads.receipts generation = .durable →
      process.uploads.receipts generation = .durable)
    (hworker : process'.worker = process.worker) :
    Promised held' process' begun key content generation := by
  rcases hpromised with hheld | ⟨hopen, hnot⟩
  · exact .inl (hmore begun key content hheld)
  · refine .inr ⟨fun hafter => hopen (hdurable hafter), ?_⟩
    rwa [hworker]

theorem UploadQueue.Backs.mono {queue queue' : UploadQueue} {key : String} {content : List UInt8}
    {generation : ℕ} (hbacks : queue.Backs key content generation)
    (hgrows : queue.accepted ⊆ queue'.accepted) : queue'.Backs key content generation := by
  obtain ⟨sent, hsent, hkey, hgeneration, hsnapshot⟩ := hbacks
  exact ⟨sent, hgrows hsent, hkey, hgeneration, hsnapshot⟩

theorem Accounted.accepted_unique (haccounted : Accounted process) {left right : UploadCall}
    (hleft : left ∈ process.uploads.accepted) (hright : right ∈ process.uploads.accepted)
    (hsame : left.task.generation = right.task.generation) : left = right := by
  have hnodup := haccounted.balanced.accepted_nodup
  rw [UploadQueue.acceptedWrites, List.map_map] at hnodup
  exact List.inj_on_of_nodup_map hnodup hleft hright hsame

/-- The generation of a call in progress is not one of an accepted call. -/
theorem Accounted.call_not_accepted (haccounted : Accounted process) {call : UploadCall}
    (hcall : call ∈ process.calls) (hnumbered : call.stake.numbered = true) :
    ∀ sent ∈ process.uploads.accepted, sent.task.generation ≠ call.task.generation := by
  intro sent hsent
  have hmem : call.stake ∈ callStakes process.calls :=
    Multiset.mem_coe.mpr (List.mem_map.mpr ⟨call, hcall, rfl⟩)
  have hwrite : call.stake.write = call.task.toUploadWrite := by
    unfold UploadCall.stake
    split <;> rfl
  have hstakes : call.stake ∈ process.stakes := by
    rw [process.stakes_eq, Multiset.mem_add, Multiset.mem_add]
    exact .inl (.inl hmem)
  obtain ⟨rest, hrest⟩ := Multiset.exists_cons_of_mem hstakes
  have hbalanced := haccounted.balanced
  rw [hrest] at hbalanced
  obtain ⟨hothers, hsettled⟩ := hbalanced.generation_unique hnumbered
  rw [hwrite] at hothers hsettled
  have hin : sent.task.toUploadWrite ∈ (process.uploads.acceptedWrites : Multiset UploadWrite) :=
    Multiset.mem_coe.mpr (List.mem_map.mpr ⟨sent, hsent, rfl⟩)
  rw [hbalanced.history.accepted, Multiset.mem_add] at hin
  rcases hin with hdone | hheld
  · obtain ⟨entry, hentry, hfst⟩ := List.mem_map.mp (Multiset.mem_coe.mp hdone)
    have hne := hsettled entry hentry
    rwa [hfst] at hne
  · obtain ⟨stake, hstake, hstakeWrite⟩ := Multiset.mem_map.mp hheld
    obtain ⟨hstake, haccepted⟩ := Multiset.mem_filter.mp hstake
    have hordered := (hbalanced.ordered stake hstake).numbered_of_accepted haccepted
    rcases Multiset.mem_cons.mp hstake with rfl | hother
    · have hzero := acceptedStakes_callStakes process.calls
      rw [acceptedStakes, Multiset.map_eq_zero, Multiset.filter_eq_nil] at hzero
      exact absurd haccepted (hzero _ hmem)
    · have hne := hothers stake hother hordered
      rwa [hstakeWrite] at hne

theorem WorkerPhase.hand_of_landed {phase : WorkerPhase} {generation : ℕ}
    (hlanded : phase.landed = some generation) :
    ∃ write ∈ acceptedStakes (heldStake phase.stake), write.generation = generation := by
  unfold landed at hlanded
  split at hlanded <;> cases hlanded
  · simp [stake, UploadWrite.stake, acceptedStakes_singleton]
  · simp [stake, UploadWrite.stake, acceptedStakes_singleton]
  · simp [stake, UploadWrite.stake, acceptedStakes_singleton]
  next stage =>
    cases stage <;> simp [stake, SettleStage.stake, UploadWrite.stake, acceptedStakes_singleton]

end

/-! ## Steps keep the promises -/

namespace Receipts

variable {held held' : ℕ → String → List UInt8 → Prop} {site : Site}

/-- Steps that answer nothing and touch neither the worker nor the store. -/
theorem congr {site' : Site} (hreceipts : Receipts held site)
    (hmore : ∀ begun key content, held begun key content → held' begun key content)
    (hsteps : site.process.steps ≤ site'.process.steps)
    (hcalls : ∀ call ∈ site'.process.calls, call ∈ site.process.calls ∨
      (call.begun ≤ site'.process.steps ∧ call.Hashed ∧ call.phase ≠ .keepReceipt))
    (haccepted : site'.process.uploads.accepted = site.process.uploads.accepted)
    (hcached : site'.process.uploads.fileReceipts = site.process.uploads.fileReceipts)
    (hstatus : site'.process.uploads.receipts = site.process.uploads.receipts)
    (hreturned : ∀ answer ∈ site'.process.uploads.returned,
      answer ∈ site.process.uploads.returned ∨
        ∀ generation, answer.result ≠ .ok (some generation))
    (hworker : site'.process.worker = site.process.worker)
    (hstored : ∀ key generation, site'.world.storedBy key = some generation →
      site.world.storedBy key = some generation ∧
        site'.world.object key = site.world.object key) : Receipts held' site' := by
  have hpromised : ∀ {begun key content generation},
      Promised held site.process begun key content generation →
      Promised held' site'.process begun key content generation :=
    fun hpromised => hpromised.mono hmore (fun hdurable => by rwa [← hstatus]) hworker
  have hbacks : ∀ {key content generation}, site.process.uploads.Backs key content generation →
      site'.process.uploads.Backs key content generation :=
    fun hbacks => hbacks.mono (by rw [haccepted]; exact List.Subset.refl _)
  refine ⟨?_, ?_, ?_, ?_, ?_, ?_, ?_⟩
  · intro call hcall
    rcases hcalls call hcall with hold | ⟨hbegun, hhashed, -⟩
    · obtain ⟨hbegun, hhashed⟩ := hreceipts.calls call hold
      exact ⟨le_trans hbegun hsteps, hhashed⟩
    · exact ⟨hbegun, hhashed⟩
  · intro call hcall hphase
    rw [haccepted]
    rcases hcalls call hcall with hold | ⟨-, -, hnot⟩
    · exact hreceipts.keeping call hold hphase
    · exact absurd hphase hnot
  · rw [haccepted]
    intro call hcall
    obtain ⟨hbegun, hsource, hpromise⟩ := hreceipts.accepted call hcall
    exact ⟨le_trans hbegun hsteps, hsource, fun snapshot hsnapshot =>
      hpromised (hpromise snapshot hsnapshot)⟩
  · rw [hcached]
    exact fun entry hentry => hbacks (hreceipts.cached entry hentry)
  · intro answer hanswer generation hresult
    rcases hreturned answer hanswer with hold | hnot
    · obtain ⟨hbegun, hrequest, hpromise⟩ := hreceipts.returned answer hold generation hresult
      refine ⟨le_trans hbegun hsteps, hrequest, fun snapshot hsnapshot => ?_⟩
      obtain ⟨hback, hpromise⟩ := hpromise snapshot hsnapshot
      exact ⟨hbacks hback, hpromised hpromise⟩
    · exact absurd hresult (hnot generation)
  · rw [hworker, haccepted]
    exact hreceipts.loaded
  · intro key generation hby
    obtain ⟨hbefore, hobject⟩ := hstored key generation hby
    rw [haccepted, hobject]
    exact hreceipts.stored key generation hbefore

theorem work (hreceipts : Receipts held site) (haccounted : Accounted site.process)
    (hmore : ∀ begun key content, held begun key content → held' begun key content)
    {input : WorkerInput} (hreads : ReadsAsHashed site)
    (hnow : ∀ begun key content, begun ≤ site.process.steps + 1 →
      (site.step (.work input)).world.object key = some content → held' begun key content) :
    Receipts held' (site.step (.work input)) := by
  have hframe := site.process.worker.step_frame site.process.uploads site.world
    site.process.clock input
  have hlanding := site.process.worker.step_landing site.process.uploads site.world
    site.process.clock input
  have hworld := site.process.worker.step_world site.process.uploads site.world
    site.process.clock input
  have haccepted : (site.step (.work input)).process.uploads.accepted =
      site.process.uploads.accepted := hframe.accepted
  have hhand : ∀ (task : UploadTask) {sent : UploadCall},
      task.toUploadWrite ∈ acceptedStakes (heldStake site.process.worker.phase.stake) →
      sent ∈ site.process.uploads.accepted → sent.task.generation = task.generation →
      sent.task.toUploadWrite = task.toUploadWrite := by
    intro task sent hhand hsent hgeneration
    obtain ⟨call, hcall, hwrite⟩ := haccounted.hand_accepted hhand
    have hsame : sent = call := by
      refine haccounted.accepted_unique hsent hcall (hgeneration.trans ?_)
      exact (congrArg UploadWrite.generation hwrite).symm
    rw [hsame, hwrite]
  have hpromised : ∀ {begun key content generation}, begun ≤ site.process.steps →
      site.process.uploads.Backs key content generation →
      Promised held site.process begun key content generation →
      Promised held' (site.step (.work input)).process begun key content generation := by
    intro begun key content generation hbegun hbacks hpromise
    rcases hpromise with hheld | ⟨hopen, hnot⟩
    · exact .inl (hmore begun key content hheld)
    · rcases hlanding.landed with hnone | hsame | ⟨task, body, hphase, heffect, hlanded⟩
      · refine .inr ⟨fun hdurable => ?_, ?_⟩
        · exact (hlanding.durable generation hdurable).elim hopen hnot
        · change (site.process.worker.step site.process.uploads site.world site.process.clock
            input).1.phase.landed ≠ some generation
          rw [hnone]
          nofun
      · refine .inr ⟨fun hdurable => ?_, ?_⟩
        · exact (hlanding.durable generation hdurable).elim hopen hnot
        · change (site.process.worker.step site.process.uploads site.world site.process.clock
            input).1.phase.landed ≠ some generation
          rwa [hsame]
      · by_cases hgeneration : task.generation = generation
        · -- The PUT of this upload lands: the store holds the content now.
          obtain ⟨sent, hsent, hkey, hsentGeneration, snapshot, hsnapshot, rfl⟩ := hbacks
          have hsame := hhand task (by simp [hphase, WorkerPhase.stake, UploadWrite.stake,
            acceptedStakes_singleton]) hsent (hsentGeneration.trans hgeneration.symm)
          have hbody := hreceipts.loaded task body hphase sent hsent
            (hsentGeneration.trans hgeneration.symm) snapshot hsnapshot
          have htask : task.key = key := (congrArg UploadWrite.key hsame).symm.trans hkey
          refine .inl (hnow begun key _ (Nat.le_succ_of_le hbegun) ?_)
          rcases hworld with hidle | ⟨other, put, hother, -, hput⟩ | ⟨other, hother, -⟩
          · have hstep : (site.step (.work input)).world = site.world.put task.key body
                (some task.generation) := by
              simp [Site.step, Process.step, UploadWorker.step, hphase, heffect]
            rw [hstep, World.object_put, if_pos htask.symm, hbody]
          · rw [hphase] at hother
            cases hother
            have hstep : (site.step (.work input)).world = site.world.put task.key body
                (some task.generation) := hput
            rw [hstep, World.object_put, if_pos htask.symm, hbody]
          · rw [hphase] at hother
            cases hother
        · refine .inr ⟨fun hdurable => ?_, ?_⟩
          · exact (hlanding.durable generation hdurable).elim hopen hnot
          · change (site.process.worker.step site.process.uploads site.world site.process.clock
              input).1.phase.landed ≠ some generation
            rw [hlanded]
            exact fun heq => hgeneration (Option.some.inj heq)
  have hbacks : ∀ {key content generation}, site.process.uploads.Backs key content generation →
      (site.step (.work input)).process.uploads.Backs key content generation :=
    fun hbacks => hbacks.mono (by rw [haccepted]; exact List.Subset.refl _)
  refine ⟨?_, ?_, ?_, ?_, ?_, ?_, ?_⟩
  · intro call hcall
    obtain ⟨hbegun, hhashed⟩ := hreceipts.calls call hcall
    exact ⟨Nat.le_succ_of_le hbegun, hhashed⟩
  · rw [haccepted]
    exact hreceipts.keeping
  · rw [haccepted]
    intro call hcall
    obtain ⟨hbegun, hsource, hpromise⟩ := hreceipts.accepted call hcall
    refine ⟨Nat.le_succ_of_le hbegun, hsource, fun snapshot hsnapshot => ?_⟩
    exact hpromised hbegun ⟨call, hcall, rfl, rfl, snapshot, hsnapshot, rfl⟩
      (hpromise snapshot hsnapshot)
  · have hcached : (site.step (.work input)).process.uploads.fileReceipts =
        site.process.uploads.fileReceipts := hframe.fileReceipts
    rw [hcached]
    exact fun entry hentry => hbacks (hreceipts.cached entry hentry)
  · have hreturned : (site.step (.work input)).process.uploads.returned =
        site.process.uploads.returned := hframe.returned
    rw [hreturned]
    intro answer hanswer generation hresult
    obtain ⟨hbegun, hrequest, hpromise⟩ := hreceipts.returned answer hanswer generation hresult
    refine ⟨Nat.le_succ_of_le hbegun, hrequest, fun snapshot hsnapshot => ?_⟩
    obtain ⟨hback, hpromise⟩ := hpromise snapshot hsnapshot
    exact ⟨hbacks hback, hpromised hbegun hback hpromise⟩
  · rw [haccepted]
    intro task body hput sent hsent hgeneration snapshot hsnapshot
    rcases UploadWorker.step_put hput with ⟨hphase, hsource⟩ | ⟨path, hphase, hfile⟩
    · -- An inline write has no snapshot.
      have hsame := hhand task (by simp [hphase, WorkerPhase.stake, UploadWrite.stake,
        acceptedStakes_singleton]) hsent hgeneration
      obtain ⟨path, hpath⟩ := (hreceipts.accepted sent hsent).2.1 (by rw [hsnapshot]; rfl)
      have hinline : sent.task.source = .inline body :=
        (congrArg UploadWrite.source hsame).trans hsource
      rw [hpath] at hinline
      cases hinline
    · refine hreads (task, path) (by rw [hphase]; rfl) sent hsent hgeneration snapshot
        (by rw [hsnapshot]; rfl) body ?_
      exact hfile
  · rw [haccepted]
    intro key generation hby
    simp only [Site.step, Process.step] at hby ⊢
    rcases hworld with hsame | ⟨task, body, hphase, -, hput⟩ | ⟨task, -, hremoved⟩
    · rw [hsame] at hby ⊢
      exact hreceipts.stored key generation hby
    · rw [hput] at hby ⊢
      simp only [World.object_put]
      by_cases hkey : key = task.key
      · subst hkey
        simp only [World.put, Function.update_self, Option.some.injEq] at hby
        have hin : task.toUploadWrite ∈
            acceptedStakes (heldStake site.process.worker.phase.stake) := by
          simp [hphase, WorkerPhase.stake, UploadWrite.stake, acceptedStakes_singleton]
        obtain ⟨sent, hsent, hwrite⟩ := haccounted.hand_accepted hin
        have hgeneration : sent.task.generation = task.generation :=
          congrArg UploadWrite.generation hwrite
        refine ⟨sent, hsent, congrArg UploadWrite.key hwrite, hgeneration.trans hby, ?_⟩
        intro snapshot hsnapshot
        rw [if_pos rfl, hreceipts.loaded task body hphase sent hsent hgeneration snapshot hsnapshot]
      · simp only [World.put, Function.update_of_ne hkey] at hby
        simp only [if_neg hkey]
        exact hreceipts.stored key generation hby
    · rw [hremoved] at hby ⊢
      simp only [World.object_delete]
      by_cases hkey : key ∈ [task.key]
      · simp only [World.delete, if_pos hkey] at hby
        cases hby
      · simp only [World.delete, if_neg hkey] at hby
        simp only [if_neg hkey]
        exact hreceipts.stored key generation hby

/-- A cached receipt stands for an accepted upload of the same content. -/
theorem backs_of_cacheHit (hreceipts : Receipts held site) {call : UploadCall}
    {cached : CachedUploadReceipt} {snapshot : UploadFileSnapshot}
    (hcached : call.cacheHit site.process.clock site.process.uploads = some cached)
    (hsnapshot : call.snapshot = some snapshot) :
    site.process.uploads.Backs call.task.key snapshot.content cached.generation := by
  unfold UploadCall.cacheHit at hcached
  split at hcached
  next =>
    rw [hsnapshot, Option.bind_some, UploadQueue.cachedReceipt, Option.filter_eq_some_iff,
      Option.map_eq_some_iff] at hcached
    obtain ⟨⟨entry, hentry, rfl⟩, hmatches⟩ := hcached
    have hkey : entry.1 = call.task.key := by simpa using List.find?_some hentry
    have hsame : entry.2.snapshot = snapshot := by
      rw [Bool.and_eq_true, decide_eq_true_eq] at hmatches
      exact hmatches.1
    have hmem := List.mem_of_mem_filter (List.mem_of_find?_eq_some hentry)
    rw [← hkey, ← hsame]
    exact hreceipts.cached entry hmem
  next => cases hcached

theorem call (hreceipts : Receipts held site) (haccounted : Accounted site.process)
    (hmore : ∀ begun key content, held begun key content → held' begun key content)
    {index : ℕ} {input : CallInput} (hundisturbed : Undisturbed site (.call index input))
    (hnow : ∀ begun key content, begun ≤ site.process.steps + 1 →
      site.world.object key = some content → held' begun key content) :
    Receipts held' (site.step (.call index input)) := by
  cases hcall : site.process.calls[index]? with
  | none =>
      have hstep : site.step (.call index input) =
          ⟨{ site.process with steps := site.process.steps + 1 }, site.world⟩ := by
        simp [Site.step, Process.step, hcall]
      rw [hstep]
      exact hreceipts.congr hmore (Nat.le_succ _) (fun _ => .inl) rfl rfl rfl (fun _ => .inl) rfl
        fun _ _ hby => ⟨hby, rfl⟩
  | some call =>
      have hmem : call ∈ site.process.calls := List.mem_of_getElem? hcall
      obtain ⟨hbegun, hhashed⟩ := hreceipts.calls call hmem
      have hmove := call.advance_receipts site.world.files site.process.clock input
        site.process.uploads
      have hcaches := call.advance_caches site.world.files site.process.clock input
        site.process.uploads
      have hdurable := fun generation => @UploadCall.advance_durable call site.world.files
        site.process.clock input site.process.uploads generation
      have hgrows := call.accepted_grows site.world.files site.process.clock input
        site.process.uploads
      have hnext := fun next => @UploadCall.advance_next call next site.world.files
        site.process.clock input site.process.uploads
      simp only [Site.step, Process.step, hcall]
      -- The step is now an arbitrary one with these properties.
      generalize call.advance site.world.files site.process.clock input site.process.uploads =
        after at hmove hcaches hdurable hgrows hnext
      obtain ⟨queue, next⟩ := after
      simp only at hmove hcaches hdurable hgrows hnext ⊢
      have hpromised : ∀ {begun key content generation},
          Promised held site.process begun key content generation →
          Promised held' { site.process with
            uploads := queue
            calls := advanceAt site.process.calls index next
            steps := site.process.steps + 1 } begun key content generation :=
        fun hpromised => hpromised.mono hmore (hdurable _) rfl
      have hbacks : ∀ {key content generation},
          site.process.uploads.Backs key content generation → queue.Backs key content generation :=
        fun hbacks => hbacks.mono hgrows.subset
      -- The call that is accepted in this step has yet to land.
      have hfresh : call.phase = .send → queue.receipts call.task.generation ≠ .durable ∧
          site.process.worker.phase.landed ≠ some call.task.generation := by
        intro hphase
        have hnumbered : call.stake.numbered = true := by simp [UploadCall.stake, hphase]
        have hnew := haccounted.call_not_accepted hmem hnumbered
        refine ⟨fun hafter => ?_, fun hlanded => ?_⟩
        · have hstake : call.stake ∈ site.process.stakes := by
            rw [site.process.stakes_eq, Multiset.mem_add, Multiset.mem_add]
            exact .inl (.inl (Multiset.mem_coe.mpr (List.mem_map.mpr ⟨call, hmem, rfl⟩)))
          have hopen := haccounted.balanced.history.receipt_open call.stake hstake hnumbered
          have hwrite : call.stake.write.generation = call.task.generation := by
            simp [UploadCall.stake, hphase]
          rw [hwrite, hdurable _ hafter] at hopen
          cases hopen
        · obtain ⟨write, hhand, hgeneration⟩ := WorkerPhase.hand_of_landed hlanded
          obtain ⟨sent, hsent, rfl⟩ := haccounted.hand_accepted hhand
          exact hnew sent hsent hgeneration
      have haccepted : queue.accepted = site.process.uploads.accepted ∨
          (call.phase = .send ∧ queue.accepted = site.process.uploads.accepted ++ [call]) := by
        rcases hmove with ⟨_, -, hsame, -, -⟩ | ⟨hphase, -, hsent⟩ | ⟨hphase, -, -, hsent⟩ |
          ⟨_, -, hsame, -⟩ | ⟨_, -, -, hsame⟩ | ⟨-, -, hsame⟩
        · exact .inl hsame
        · exact .inr ⟨hphase, hsent⟩
        · exact .inr ⟨hphase, hsent⟩
        · exact .inl hsame
        · exact .inl hsame
        · exact .inl hsame
      have hmemAccepted : ∀ sent ∈ queue.accepted, sent ∈ site.process.uploads.accepted ∨
          (call.phase = .send ∧ sent = call) := by
        intro sent hsent
        rcases haccepted with hsame | ⟨hphase, hadd⟩
        · exact .inl (hsame ▸ hsent)
        · rw [hadd, List.mem_append, List.mem_singleton] at hsent
          exact hsent.imp_right fun heq => ⟨hphase, heq⟩
      refine ⟨?_, ?_, ?_, ?_, ?_, ?_, ?_⟩
      · refine forall_advanceAt ?_ ?_
        · intro other hother
          obtain ⟨hbefore, hfine⟩ := hreceipts.calls other hother
          exact ⟨Nat.le_succ_of_le hbefore, hfine⟩
        · intro other hother
          obtain ⟨hrequest, -, hsource, hsameBegun⟩ := hnext other hother
          refine ⟨hsameBegun ▸ Nat.le_succ_of_le hbegun, ?_⟩
          unfold UploadCall.Hashed
          rw [hrequest, hsource]
          subst hother
          cases hmove with
          | onward _ _ _ _ hsnapshot =>
              rcases hsnapshot with ⟨hsame, hearly⟩ | ⟨hearly, hsome⟩
              · rw [hsame, hearly]
                exact hhashed
              · exact ⟨fun _ => hhashed.1 (.inr hearly), fun _ _ => .inl hsome⟩
          | sent hphase _ _ =>
              have hlate : call.early = false := by simp [UploadCall.early, hphase]
              have hearly : UploadCall.early { call with phase := .keepReceipt } = call.early := by
                rw [hlate]
                rfl
              rw [hearly]
              exact hhashed
      · refine forall_advanceAt ?_ ?_
        · intro other hother hphase
          obtain ⟨sent, hsent, hsame⟩ := hreceipts.keeping other hother hphase
          exact ⟨sent, hgrows.subset hsent, hsame⟩
        · intro other hother hphase
          subst hother
          cases hmove with
          | onward _ _ _ hnot _ => exact absurd hphase hnot
          | sent _ _ hadd =>
              exact ⟨call, by rw [hadd]; exact List.mem_append_right _ (List.mem_singleton_self _),
                rfl, rfl, rfl⟩
      · intro sent hsent
        rcases hmemAccepted sent hsent with hold | ⟨hphase, rfl⟩
        · obtain ⟨hbefore, hsource, hpromise⟩ := hreceipts.accepted sent hold
          exact ⟨Nat.le_succ_of_le hbefore, hsource, fun snapshot hsnapshot =>
            hpromised (hpromise snapshot hsnapshot)⟩
        · exact ⟨Nat.le_succ_of_le hbegun, fun hsome => hhashed.1 (.inl hsome),
            fun _ _ => .inr (hfresh hphase)⟩
      · intro entry hentry
        rcases hcaches entry hentry with ⟨old, hold, hkey, hsnapshot, hgeneration⟩ |
          ⟨hphase, hkey, hsnapshot, hgeneration⟩
        · have hback := hreceipts.cached old hold
          rw [hkey, hsnapshot, hgeneration] at hback
          exact hbacks hback
        · obtain ⟨sent, hsent, -, htask, hsame⟩ := hreceipts.keeping call hmem hphase
          refine hbacks ⟨sent, hsent, ?_, ?_, entry.2.snapshot, hsame.trans hsnapshot, rfl⟩
          · rw [htask, hkey]
          · rw [htask, hgeneration]
      · intro answer hanswer generation hresult
        have hold : answer ∈ site.process.uploads.returned →
            answer.call.begun ≤ site.process.steps + 1 ∧
              (∀ path, answer.call.request = .uploadFile path → answer.call.snapshot.isSome) ∧
              ∀ snapshot, answer.call.snapshot = some snapshot →
                queue.Backs answer.call.task.key snapshot.content generation ∧
                  Promised held' { site.process with
                    uploads := queue
                    calls := advanceAt site.process.calls index next
                    steps := site.process.steps + 1 } answer.call.begun answer.call.task.key
                    snapshot.content generation := by
          intro hbefore
          obtain ⟨hbegun, hrequest, hpromise⟩ :=
            hreceipts.returned answer hbefore generation hresult
          refine ⟨Nat.le_succ_of_le hbegun, hrequest, fun snapshot hsnapshot => ?_⟩
          obtain ⟨hback, hpromise⟩ := hpromise snapshot hsnapshot
          exact ⟨hbacks hback, hpromised hpromise⟩
        cases hmove with
        | onward _ hsame _ _ _ => exact hold (hsame ▸ hanswer)
        | sent _ hsame _ => exact hold (hsame ▸ hanswer)
        | sentInline hphase hnone hadd _ =>
            rw [hadd, List.mem_append, List.mem_singleton] at hanswer
            rcases hanswer with hbefore | rfl
            · exact hold hbefore
            · refine ⟨Nat.le_succ_of_le hbegun, fun path hrequest => ?_, fun snapshot hsome => ?_⟩
              · rcases hhashed.2 path hrequest with hsome | hearly
                · exact hsome
                · simp [UploadCall.early, hphase] at hearly
              · simp only [hnone, reduceCtorEq] at hsome
        | answered result hadd _ hnot =>
            rw [hadd, List.mem_append, List.mem_singleton] at hanswer
            rcases hanswer with hbefore | rfl
            · exact hold hbefore
            · exact absurd hresult (hnot generation)
        | hit cached hcached hadd _ =>
            rw [hadd, List.mem_append, List.mem_singleton] at hanswer
            rcases hanswer with hbefore | rfl
            · exact hold hbefore
            · cases hresult
              have hsome : call.snapshot.isSome := by
                unfold UploadCall.cacheHit at hcached
                split at hcached
                next =>
                  obtain ⟨snapshot, hsnapshot, -⟩ := Option.bind_eq_some_iff.mp hcached
                  rw [hsnapshot]
                  rfl
                next => cases hcached
              refine ⟨Nat.le_succ_of_le hbegun, fun _ _ => hsome, fun snapshot hsnapshot => ?_⟩
              have hback := hreceipts.backs_of_cacheHit hcached hsnapshot
              refine ⟨hbacks hback, ?_⟩
              by_cases hlanded : site.process.uploads.receipts cached.generation = .durable ∨
                  site.process.worker.phase.landed = some cached.generation
              · -- Undisturbed, the object is still the one that upload stored.
                have hby := hundisturbed call hcall cached hcached hlanded
                obtain ⟨sent, hsent, -, hsentGeneration, hobject⟩ :=
                  hreceipts.stored _ _ hby
                obtain ⟨other, hother, -, hotherGeneration, hashed, hhash, hcontent⟩ := hback
                have hsame : other = sent := haccounted.accepted_unique hother hsent
                  (hotherGeneration.trans hsentGeneration.symm)
                refine .inl (hnow _ _ _ (Nat.le_succ_of_le hbegun) ?_)
                rw [hobject hashed (hsame ▸ hhash), hcontent]
              · rw [not_or] at hlanded
                exact .inr ⟨fun hafter => hlanded.1 (hdurable _ hafter), hlanded.2⟩
        | kept hphase hadd _ =>
            rw [hadd, List.mem_append, List.mem_singleton] at hanswer
            rcases hanswer with hbefore | rfl
            · exact hold hbefore
            · cases hresult
              obtain ⟨sent, hsent, hsameBegun, htask, hsame⟩ := hreceipts.keeping call hmem hphase
              refine ⟨Nat.le_succ_of_le hbegun, fun path hrequest => ?_,
                fun snapshot hsnapshot => ⟨?_, ?_⟩⟩
              · rcases hhashed.2 path hrequest with hsome | hearly
                · exact hsome
                · simp [UploadCall.early, hphase] at hearly
              · exact hbacks ⟨sent, hsent, by rw [htask], by rw [htask], snapshot,
                  hsame.trans hsnapshot, rfl⟩
              · have hpromise := (hreceipts.accepted sent hsent).2.2 snapshot (hsame.trans hsnapshot)
                rw [hsameBegun, htask] at hpromise
                exact hpromised hpromise
      · intro task body hphase sent hsent hgeneration snapshot hsnapshot
        rcases hmemAccepted sent hsent with hold | ⟨hsend, rfl⟩
        · exact hreceipts.loaded task body hphase sent hold hgeneration snapshot hsnapshot
        · have hnumbered : sent.stake.numbered = true := by simp [UploadCall.stake, hsend]
          have hput : site.process.worker.phase = .put task body := hphase
          have hhand : task.toUploadWrite ∈
              acceptedStakes (heldStake site.process.worker.phase.stake) := by
            simp [hput, WorkerPhase.stake, UploadWrite.stake, acceptedStakes_singleton]
          obtain ⟨other, hother, hwrite⟩ := haccounted.hand_accepted hhand
          refine absurd ?_ (haccounted.call_not_accepted hmem hnumbered other hother)
          exact (congrArg UploadWrite.generation hwrite).trans hgeneration.symm
      · intro key generation hby
        obtain ⟨sent, hsent, hrest⟩ := hreceipts.stored key generation hby
        exact ⟨sent, hgrows.subset hsent, hrest⟩

theorem step (hreceipts : Receipts held site) (haccounted : Accounted site.process)
    (hmore : ∀ begun key content, held begun key content → held' begun key content)
    {input : ProcessInput} (hundisturbed : Undisturbed site input)
    (hnow : ∀ begun key content, begun ≤ site.process.steps + 1 →
      (site.step input).world.object key = some content → held' begun key content) :
    Receipts held' (site.step input) := by
  cases input with
  | work input => exact hreceipts.work haccounted hmore hundisturbed hnow
  | call index input =>
      refine hreceipts.call haccounted hmore hundisturbed fun begun key content hbegun hobject => ?_
      refine hnow begun key content hbegun ?_
      have hworld : (site.step (.call index input)).world = site.world := by
        simp only [Site.step, Process.step]
        split <;> rfl
      rw [hworld]
      exact hobject
  | begin request =>
      have hstart : ∀ call : UploadCall, call.begun = site.process.steps → call.Hashed →
          call.phase ≠ .keepReceipt →
          Receipts held' ⟨{ site.process with
            calls := site.process.calls ++ [call]
            steps := site.process.steps + 1 }, site.world⟩ := by
        intro call hbegun hhashed hphase
        refine hreceipts.congr hmore (Nat.le_succ _) ?_ rfl rfl rfl (fun _ => .inl) rfl
          fun _ _ hby => ⟨hby, rfl⟩
        intro other hother
        rcases List.mem_append.mp hother with hold | hnew
        · exact .inl hold
        · rw [List.mem_singleton.mp hnew]
          exact .inr ⟨hbegun ▸ Nat.le_succ _, hhashed, hphase⟩
      have houtside : ∀ (call : UploadCall) (result : Except String (Option ℕ)),
          (∀ generation, result ≠ .ok (some generation)) →
          Receipts held' ⟨{ site.process with
            uploads := (site.process.uploads.finish call result).1
            steps := site.process.steps + 1 }, site.world⟩ := by
        intro call result hresult
        refine hreceipts.congr hmore (Nat.le_succ _) (fun _ => .inl) rfl rfl rfl ?_ rfl
          fun _ _ hby => ⟨hby, rfl⟩
        intro answer hanswer
        rcases List.mem_append.mp hanswer with hold | hnew
        · exact .inl hold
        · rw [List.mem_singleton.mp hnew]
          exact .inr hresult
      have hidle : Receipts held' ⟨{ site.process with steps := site.process.steps + 1 },
          site.world⟩ :=
        hreceipts.congr hmore (Nat.le_succ _) (fun _ => .inl) rfl rfl rfl (fun _ => .inl) rfl
          fun _ _ hby => ⟨hby, rfl⟩
      simp only [Site.step, Process.step]
      split
      next =>
        cases request with
        | putBytes path bytes =>
            simp only [Process.beginCall]
            split
            next =>
              refine hstart _ rfl ⟨?_, fun _ hrequest => by cases hrequest⟩ (by simp)
              rintro (hsome | hearly)
              · cases hsome
              · cases hearly
            next => exact houtside _ _ fun _ herror => by cases herror
        | uploadFile path =>
            simp only [Process.beginCall]
            split
            next => exact hstart _ rfl ⟨fun _ => ⟨path, rfl⟩, fun _ _ => .inr rfl⟩ (by simp)
            next => exact houtside _ _ fun _ hnone => by cases hnone
        | reconcile path =>
            simp only [Process.beginCall]
            split
            next =>
              exact hstart _ rfl ⟨fun _ => ⟨path, rfl⟩, fun _ hrequest => by cases hrequest⟩ (by simp)
            next => exact houtside _ _ fun _ hnone => by cases hnone
      next => exact hidle
  | delete index input =>
      cases hcall : site.process.deletes[index]? with
      | none =>
          refine hreceipts.congr hmore ?_ ?_ ?_ ?_ ?_ ?_ ?_ ?_ <;>
            simp only [Site.step, Process.step, hcall]
          · exact Nat.le_succ _
          · exact fun _ => .inl
          · exact fun _ => .inl
          · exact fun _ _ hby => ⟨hby, trivial⟩
      | some call =>
          refine hreceipts.congr hmore ?_ ?_ ?_ ?_ ?_ ?_ ?_ ?_ <;>
            simp only [Site.step, Process.step, hcall]
          · exact Nat.le_succ _
          · exact fun _ => .inl
          · exact call.advance_field UploadQueue.accepted (fun _ => rfl) _ _ _ _
          · exact call.advance_field UploadQueue.fileReceipts (fun _ => rfl) _ _ _ _
          · exact call.advance_field UploadQueue.receipts (fun _ => rfl) _ _ _ _
          · rw [call.advance_field UploadQueue.returned (fun _ => rfl)]
            exact fun _ => .inl
          · intro key generation hby
            exact (call.advance_world site.process.clock input site.process.uploads
              site.world).storedBy_back hby
  | beginDelete target =>
      simp only [Site.step, Process.step]
      split <;>
      · exact hreceipts.congr hmore (Nat.le_succ _) (fun _ => .inl) rfl rfl rfl (fun _ => .inl) rfl
          fun _ _ hby => ⟨hby, rfl⟩
  | close =>
      simp only [Site.step, Process.step]
      split <;>
      · exact hreceipts.congr hmore (Nat.le_succ _) (fun _ => .inl) rfl rfl rfl (fun _ => .inl) rfl
          fun _ _ hby => ⟨hby, rfl⟩
  | edit path content =>
      exact hreceipts.congr hmore (Nat.le_succ _) (fun _ => .inl) rfl rfl rfl (fun _ => .inl) rfl
        fun _ _ hby => ⟨hby, rfl⟩
  | tick elapsed =>
      exact hreceipts.congr hmore (Nat.le_succ _) (fun _ => .inl) rfl rfl rfl (fun _ => .inl) rfl
        fun _ _ hby => ⟨hby, rfl⟩

end Receipts

/-! ## Whole runs -/

/-- At some moment since the call began, the store held the content under the key. -/
def Held (start : Site) (done : List ProcessInput) (begun : ℕ) (key : String)
    (content : List UInt8) : Prop :=
  ∃ moment, begun ≤ moment ∧ moment ≤ done.length ∧
    (Machine.run Site.step start (done.take moment)).world.object key = some content

theorem Held.more {start : Site} {done : List ProcessInput} {begun : ℕ} {key : String}
    {content : List UInt8} (hheld : Held start done begun key content) (input : ProcessInput) :
    Held start (done ++ [input]) begun key content := by
  obtain ⟨moment, hbegun, hmoment, hobject⟩ := hheld
  refine ⟨moment, hbegun, ?_, ?_⟩
  · rw [List.length_append]
    exact Nat.le_add_right_of_le hmoment
  · rwa [List.take_append_of_le_length hmoment]

theorem Held.now {start : Site} {done : List ProcessInput} {begun : ℕ} {key : String}
    {content : List UInt8} (hbegun : begun ≤ done.length)
    (hobject : (Machine.run Site.step start done).world.object key = some content) :
    Held start done begun key content :=
  ⟨done.length, hbegun, le_rfl, by rwa [List.take_length]⟩

theorem Process.step_steps (process : Process) (world : World) (input : ProcessInput) :
    (process.step world input).1.steps = process.steps := by
  cases input with
  | begin request =>
      simp only [step]
      split
      next => cases request <;> simp only [beginCall] <;> split <;> rfl
      next => rfl
  | call index input | delete index input | beginDelete target | close =>
      simp only [step]
      split <;> rfl
  | work input | edit path content | tick elapsed => rfl

/-- A call to upload a file whose receipt is durable. -/
def DurableReceiptsHeld (start : Site) (done : List ProcessInput) : Prop :=
  let queue := (Machine.run Site.step start done).process.uploads
  ∀ answer ∈ queue.returned, ∀ path generation, answer.call.request = .uploadFile path →
    answer.result = .ok (some generation) → queue.receipts generation = .durable →
    ∃ snapshot, answer.call.snapshot = some snapshot ∧
      Held start done answer.call.begun answer.call.task.key snapshot.content

/-- In every run in which files are read for their PUT as they were hashed and no cached
receipt is handed out for an object that has been replaced or removed, whenever
`upload_file_with_receipt` has returned a receipt that is durable the store has held the
content it hashed since it began. -/
theorem durable_receipts_held (keyPrefix : String) (storageDir : List String)
    (objects : AList (fun _ : String => List UInt8)) (files : List String → Option (List UInt8))
    (inputs : List ProcessInput)
    (hsteps : Machine.EveryStep Site.step Undisturbed (.new keyPrefix storageDir objects files)
      inputs) :
    ∀ done, done <+: inputs →
      DurableReceiptsHeld (.new keyPrefix storageDir objects files) done := by
  intro done hdone
  have hfront : Machine.EveryStep Site.step Undisturbed (.new keyPrefix storageDir objects files)
      done := Machine.EveryStep.front Site.step hsteps hdone
  let start : Site := .new keyPrefix storageDir objects files
  have hinv : (Machine.run Site.step start done).process.steps = done.length ∧
      Accounted (Machine.run Site.step start done).process ∧
      Receipts (Held start done) (Machine.run Site.step start done) := by
    refine Machine.run_of_everyStep Site.step
      (fun done site => site.process.steps = done.length ∧ Accounted site.process ∧
        Receipts (Held start done) site)
      ⟨rfl, Accounted.new keyPrefix storageDir, ?_⟩ ?_ hfront
    · constructor
      case stored =>
        intro key generation hby
        cases hby
      case loaded =>
        intro task body hphase
        cases hphase
      all_goals
        intro _ hmem
        cases hmem
    · rintro before input ⟨hcount, haccounted, hreceipts⟩ hinput
      refine ⟨?_, Site.step_accounted _ input haccounted, ?_⟩
      · rw [List.length_append, ← hcount]
        exact congrArg (· + 1) (Process.step_steps _ _ input)
      · refine hreceipts.step haccounted (fun _ _ _ hheld => hheld.more input) hinput ?_
        intro begun key content hbegun hobject
        refine Held.now ?_ ?_
        · rw [List.length_append, ← hcount]
          exact hbegun
        · rw [Machine.run_append]
          exact hobject
  obtain ⟨-, -, hreceipts⟩ := hinv
  intro answer hanswer path generation hrequest hresult hdurable
  obtain ⟨-, hsome, hpromise⟩ := hreceipts.returned answer hanswer generation hresult
  obtain ⟨snapshot, hsnapshot⟩ := Option.isSome_iff_exists.mp (hsome path hrequest)
  refine ⟨snapshot, hsnapshot, ?_⟩
  rcases (hpromise snapshot hsnapshot).2 with hheld | ⟨hopen, -⟩
  · exact hheld
  · exact absurd hdurable hopen

/-- A staged recording. -/
def stagedAudio (path : List String) : Option (List UInt8) :=
  if path = ["audio.wav"] then some [1, 2] else none

/-- The recording is uploaded and stored. -/
def storedUpload : List ProcessInput :=
  ProcessInput.begin (.uploadFile ["audio.wav"]) :: List.replicate 11 (ProcessInput.call 0 {}) ++
    List.replicate 16 (ProcessInput.work {})

theorem stored_upload_held :
    ∃ moment ≤ storedUpload.length,
      (Machine.run Site.step (.new "recordings/" [] ∅ stagedAudio)
        (storedUpload.take moment)).world.object "recordings/audio.wav" = some [1, 2] := by
  have hundisturbed : Machine.EveryStep Site.step Undisturbed
      (.new "recordings/" [] ∅ stagedAudio) storedUpload := by
    decide +kernel
  have hanswer : (Machine.run Site.step (.new "recordings/" [] ∅ stagedAudio)
      storedUpload).process.uploads.returned[0]?.map (fun answer => (answer.call.request,
        answer.result.toOption, answer.call.task.key, answer.call.snapshot.map (·.content))) =
      some (.uploadFile ["audio.wav"], some (some 0), "recordings/audio.wav", some [1, 2]) := by
    decide +kernel
  obtain ⟨answer, hget, hfields⟩ := Option.map_eq_some_iff.mp hanswer
  simp only [Prod.mk.injEq] at hfields
  obtain ⟨hrequest, hresult, hkey, hcontent⟩ := hfields
  have hdurable : (Machine.run Site.step (.new "recordings/" [] ∅ stagedAudio)
      storedUpload).process.uploads.receipts 0 = .durable := by
    decide +kernel
  obtain ⟨snapshot, hsnapshot, moment, -, hmoment, hobject⟩ :=
    durable_receipts_held "recordings/" [] ∅ stagedAudio storedUpload hundisturbed storedUpload
      List.prefix_rfl answer (List.mem_of_getElem? hget) ["audio.wav"] 0 hrequest
      (Except.eq_ok_of_toOption hresult) hdurable
  rw [hsnapshot, Option.map_some, Option.some.injEq] at hcontent
  rw [hkey, hcontent] at hobject
  exact ⟨moment, hmoment, hobject⟩

/-- After the recording is stored its object is replaced by an inline write, and then the
unchanged recording is uploaded again. -/
def replacedUpload : List ProcessInput :=
  storedUpload ++ ProcessInput.begin (.putBytes ["audio.wav"] [7]) ::
    List.replicate 6 (ProcessInput.call 0 {}) ++ List.replicate 14 (ProcessInput.work {}) ++
    ProcessInput.begin (.uploadFile ["audio.wav"]) :: List.replicate 4 (ProcessInput.call 0 {})

/-- The second upload is answered with the durable receipt of the first, and the store
has held the replacement ever since it began. -/
theorem cached_receipt_outlives_object :
    ¬DurableReceiptsHeld (.new "recordings/" [] ∅ stagedAudio) replacedUpload := by
  intro hheld
  have hanswer : (Machine.run Site.step (.new "recordings/" [] ∅ stagedAudio)
      replacedUpload).process.uploads.returned[2]?.map (fun answer => (answer.call.request,
        answer.result.toOption, answer.call.task.key, answer.call.snapshot.map (·.content))) =
      some (.uploadFile ["audio.wav"], some (some 0), "recordings/audio.wav", some [1, 2]) := by
    decide +kernel
  obtain ⟨answer, hget, hfields⟩ := Option.map_eq_some_iff.mp hanswer
  simp only [Prod.mk.injEq] at hfields
  obtain ⟨hrequest, hresult, hkey, hcontent⟩ := hfields
  have hbegun : answer.call.begun = 49 := by
    have hthird : (Machine.run Site.step (.new "recordings/" [] ∅ stagedAudio)
        replacedUpload).process.uploads.returned[2]?.map (·.call.begun) = some 49 := by
      decide +kernel
    rw [hget, Option.map_some, Option.some.injEq] at hthird
    exact hthird
  have hdurable : (Machine.run Site.step (.new "recordings/" [] ∅ stagedAudio)
      replacedUpload).process.uploads.receipts 0 = .durable := by
    decide +kernel
  obtain ⟨snapshot, hsnapshot, moment, hlater, hmoment, hobject⟩ :=
    hheld answer (List.mem_of_getElem? hget) ["audio.wav"] 0 hrequest
      (Except.eq_ok_of_toOption hresult) hdurable
  rw [hsnapshot, Option.map_some, Option.some.injEq] at hcontent
  rw [hkey, hcontent] at hobject
  rw [hbegun] at hlater
  have hreplaced : ∀ moment ≤ replacedUpload.length, 49 ≤ moment →
      (Machine.run Site.step (.new "recordings/" [] ∅ stagedAudio)
        (replacedUpload.take moment)).world.object "recordings/audio.wav" ≠ some [1, 2] := by
    decide +kernel
  exact hreplaced moment hmoment hlater hobject

end DiscordTranscript.Infrastructure
