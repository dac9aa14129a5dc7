import DiscordTranscript.Infrastructure.UploadCancellation

/-! # What is refused or removed, and why

A call is refused, a write is cancelled and an object is removed only under a prefix
that the process knows as cancelled; and such a prefix comes from a `delete_prefix` of
the process or from an object in the tombstone key space.
-/

namespace DiscordTranscript.Infrastructure

open Slots

/-- The answer to a call whose key is under a cancelled prefix. -/
def cancelledText : String := "recording upload cancelled for deleted prefix"

/-- The error a call carries while it undoes its reservations. -/
def UploadPhase.error : UploadPhase → Option String
  | .releaseBytes error | .revertPending error | .revertBytes error | .revertGeneration error =>
      some error
  | .checkFile | .statFile | .hashFile _ | .findReceipt | .checkCancelled | .reserveBytes
  | .reserveTask | .fetchGeneration | .trackGeneration | .send | .keepReceipt => none

/-- The key the worker is cleaning up or settling as cancelled. -/
def WorkerPhase.cancelling : WorkerPhase → Option String
  | .cleanUp task | .settle task .cancelled _ _ => some task.key
  | _ => none

/-! ## Answers of a call -/

theorem ne_cancelledText {start : String} (hstart : startsWith cancelledText start = false)
    (middle mark last : String) : start ++ middle ++ mark ++ last ≠ cancelledText := by
  intro htext
  rw [← htext, String.append_assoc, String.append_assoc, startsWith_append] at hstart
  cases hstart

/-- A call answers that its key is cancelled only if it is. -/
def RefusesAtMost (call : UploadCall) (queue : UploadQueue)
    (after : UploadQueue × Option UploadCall) : Prop :=
  (after.1.returned = queue.returned ∨
    ∃ result, after.1.returned = queue.returned ++ [⟨call, result⟩] ∧
      (result = .error cancelledText →
        queue.cancel.isCancelled call.task.key = true ∨ call.phase.error = some cancelledText)) ∧
    ∀ next, after.2 = some next → next.phase.error = some cancelledText →
      call.phase.error = some cancelledText

theorem UploadCall.advance_refuses (call : UploadCall)
    (files : List String → Option (List UInt8)) (clock : ℕ) (input : CallInput)
    (queue : UploadQueue) : RefusesAtMost call queue (call.advance files clock input queue) := by
  have hnext : ∀ {queue' : UploadQueue} {next : UploadCall}, queue'.returned = queue.returned →
      next.phase.error ≠ some cancelledText →
      RefusesAtMost call queue (queue', some next) := by
    intro queue' next hreturned herror
    refine ⟨.inl hreturned, ?_⟩
    rintro after ⟨⟩ hafter
    exact absurd hafter herror
  have hend : ∀ {queue' : UploadQueue} {result : Except String (Option ℕ)},
      queue'.returned = queue.returned → result ≠ .error cancelledText →
      RefusesAtMost call queue (queue'.finish call result) := by
    intro queue' result hreturned hresult
    refine ⟨.inr ⟨result, ?_, fun heq => absurd heq hresult⟩, fun _ hnone => by cases hnone⟩
    rw [UploadQueue.finish, hreturned]
  obtain ⟨request, task, phase, snapshot, begun⟩ := call
  cases phase with
  | checkFile =>
      simp only [advance]
      split
      next => exact hnext rfl (Option.some_ne_none _).symm
      next => exact hend rfl (fun hok => by cases hok)
  | statFile =>
      simp only [advance]
      split
      next => exact hnext rfl (Option.some_ne_none _).symm
      next =>
        exact hend rfl fun heq => ne_cancelledText (by decide) _ _ _ (Except.error.inj heq)
  | hashFile len =>
      simp only [advance]
      split
      next => exact hnext rfl (Option.some_ne_none _).symm
      next =>
        exact hend rfl fun heq => ne_cancelledText (by decide) _ _ _ (Except.error.inj heq)
      next =>
        exact hend rfl fun heq => ne_cancelledText (by decide) _ _ _ (Except.error.inj heq)
  | findReceipt =>
      simp only [advance]
      split
      next =>
        split
        next => exact hnext rfl (Option.some_ne_none _).symm
        next =>
          simp only [findReceipt]
          split
          next => exact hend rfl (fun hok => by cases hok)
          next => exact hnext rfl (Option.some_ne_none _).symm
      next => exact hnext rfl (Option.some_ne_none _).symm
  | checkCancelled =>
      simp only [advance]
      split
      next hcancelled =>
        exact ⟨.inr ⟨_, rfl, fun _ => .inl hcancelled⟩, fun _ hnone => by cases hnone⟩
      next => exact hnext rfl (Option.some_ne_none _).symm
  | reserveBytes =>
      simp only [advance]
      split
      next => exact hnext rfl (by simp [UploadPhase.error, cancelledText])
      next => exact hnext rfl (Option.some_ne_none _).symm
  | reserveTask =>
      simp only [advance]
      split
      next => exact hnext rfl (Option.some_ne_none _).symm
      next => exact hnext rfl (by simp [UploadPhase.error, cancelledText])
  | send =>
      simp only [advance, trySend]
      split
      next => exact hnext rfl (by simp [UploadPhase.error, cancelledText])
      next =>
        split
        next =>
          split
          next => exact hnext rfl (Option.some_ne_none _).symm
          next => exact hend rfl (fun hok => by cases hok)
        next => exact hnext rfl (by simp [UploadPhase.error, cancelledText])
  | fetchGeneration | trackGeneration => exact hnext rfl (Option.some_ne_none _).symm
  | releaseBytes error =>
      exact ⟨.inr ⟨_, rfl, fun heq => .inr (congrArg some (Except.error.inj heq))⟩,
        fun _ hnone => by cases hnone⟩
  | revertPending error | revertBytes error =>
      refine ⟨.inl rfl, ?_⟩
      rintro after ⟨⟩ hafter
      exact hafter
  | revertGeneration error =>
      refine ⟨.inr ⟨_, ?_, fun heq => .inr (congrArg some (Except.error.inj heq))⟩,
        fun _ hnone => by cases hnone⟩
      simp only [advance, UploadQueue.dropTask]
      split <;> rfl
  | keepReceipt =>
      simp only [advance]
      split <;> exact hend rfl (fun hok => by cases hok)

/-- The worker cleans up a key that it found cancelled. -/
theorem UploadWorker.step_cancelling (worker : UploadWorker) (queue : UploadQueue) (world : World)
    (clock : ℕ) (input : WorkerInput) :
    let after := worker.step queue world clock input
    after.1.phase.cancelling = none ∨ after.1.phase.cancelling = worker.phase.cancelling ∨
      ∃ key, after.1.phase.cancelling = some key ∧ queue.cancel.isCancelled key = true := by
  unfold step
  cases hphase : worker.phase with
  | receive =>
      simp only [receive]
      repeat' split
      all_goals exact .inl rfl
  | scan =>
      simp only [scan]
      repeat' split
      all_goals exact .inl (by simp [WorkerPhase.cancelling, hphase])
  | beginUpload task =>
      cases hcancelled : queue.cancel.isCancelled task.key with
      | true =>
          simp only [CancelState.beginUpload, hcancelled, if_true]
          exact .inr (.inr ⟨task.key, rfl, hcancelled⟩)
      | false =>
          simp only [CancelState.beginUpload, hcancelled, Bool.false_eq_true, if_false]
          cases task.source <;> exact .inl rfl
  | cleanUp task => exact .inr (.inl rfl)
  | resolve task result =>
      cases result with
      | ok _ => exact .inl rfl
      | error err =>
          simp only [resolve]
          repeat' split
          all_goals exact .inl rfl
  | settle task status delivered stage =>
      cases stage with
      | receipt => exact .inl rfl
      | pending | bytes | generations => cases status <;> first | exact .inl rfl | exact .inr (.inl rfl)
  | finished => exact .inl (by simp [WorkerPhase.cancelling, hphase])
  | pushTombstones task keys | answered task result => exact .inl rfl
  | listTombstones task | checkSuperseded task | checkSource task | readSource task path
  | put task body | stored task =>
      simp only
      repeat' split
      all_goals exact .inl rfl

/-! ## Only what is cancelled -/

/-- Whatever was removed, refused or settled as cancelled is under a cancelled prefix. -/
structure Refusals (process : Process) (world : World) : Prop where
  removed : ∀ key ∈ world.removed, process.uploads.cancel.isCancelled key = true
  hand : ∀ key, process.worker.phase.cancelling = some key →
    process.uploads.cancel.isCancelled key = true
  settled : ∀ entry ∈ process.uploads.settled, entry.2 = .cancelled →
    process.uploads.cancel.isCancelled entry.1.key = true
  returned : ∀ answer ∈ process.uploads.returned, answer.result = .error cancelledText →
    process.uploads.cancel.isCancelled answer.call.task.key = true
  errors : ∀ call ∈ process.calls, call.phase.error ≠ some cancelledText
  listed : ∀ call ∈ process.deletes, ∀ keys, call.phase = .deleteKeys keys →
    ∀ key ∈ keys, startsWith key call.target = true

namespace Refusals

variable {process : Process} {world : World}

/-- The fields it is about, with more prefixes and other calls. -/
theorem congr {process' : Process} (hrefusals : Refusals process world)
    (hprefixes : process.uploads.cancel.prefixes ⊆ process'.uploads.cancel.prefixes)
    (hworker : process'.worker = process.worker)
    (hsettled : process'.uploads.settled = process.uploads.settled)
    (hreturned : process'.uploads.returned = process.uploads.returned)
    (herrors : ∀ call ∈ process'.calls, call.phase.error ≠ some cancelledText)
    (hdeletes : process'.deletes = process.deletes) : Refusals process' world := by
  obtain ⟨h₁, h₂, h₃, h₄, -, h₆⟩ := hrefusals
  have hmono : ∀ {key}, process.uploads.cancel.isCancelled key = true →
      process'.uploads.cancel.isCancelled key = true := CancelState.isCancelled_mono hprefixes
  refine ⟨fun key hkey => hmono (h₁ key hkey), ?_, ?_, ?_, herrors, by rwa [hdeletes]⟩
  · rw [hworker]
    exact fun key hkey => hmono (h₂ key hkey)
  · rw [hsettled]
    exact fun entry hentry hstatus => hmono (h₃ entry hentry hstatus)
  · rw [hreturned]
    exact fun answer hanswer hresult => hmono (h₄ answer hanswer hresult)

theorem beginCall (hrefusals : Refusals process world) (request : UploadRequest) :
    Refusals (process.beginCall request) world := by
  have hstart : ∀ call : UploadCall, call.phase.error = none →
      Refusals { process with calls := process.calls ++ [call] } world := by
    intro call hcall
    refine hrefusals.congr (List.Subset.refl _) rfl rfl rfl ?_ rfl
    intro other hother
    rcases List.mem_append.mp hother with hold | hnew
    · exact hrefusals.errors other hold
    · rw [List.mem_singleton.mp hnew, hcall]
      simp
  have houtside : ∀ (call : UploadCall) (result : Except String (Option ℕ)),
      result ≠ .error cancelledText →
      Refusals { process with uploads := (process.uploads.finish call result).1 } world := by
    intro call result hresult
    refine ⟨hrefusals.removed, hrefusals.hand, hrefusals.settled, ?_, hrefusals.errors,
      hrefusals.listed⟩
    intro answer hanswer htext
    rcases List.mem_append.mp hanswer with hold | hnew
    · exact hrefusals.returned answer hold htext
    · rw [List.mem_singleton.mp hnew] at htext
      exact absurd htext hresult
  cases request with
  | putBytes path bytes =>
      simp only [Process.beginCall]
      split
      next => exact hstart _ rfl
      next =>
        refine houtside _ _ fun heq => ?_
        have hstart : startsWith cancelledText "path " = false := by decide
        have htext := ne_cancelledText hstart (displayPath path)
          " is outside the chunk storage dir" ""
        rw [String.append_empty] at htext
        exact htext (Except.error.inj heq)
  | uploadFile path =>
      simp only [Process.beginCall]
      split
      next => exact hstart _ rfl
      next => exact houtside _ _ (by simp)
  | reconcile path =>
      simp only [Process.beginCall]
      split
      next => exact hstart _ rfl
      next => exact houtside _ _ (by simp)

theorem call (hrefusals : Refusals process world) (index : ℕ) (input : CallInput) :
    Refusals (process.step world (.call index input)).1 world := by
  simp only [Process.step]
  split
  next call hcall =>
    have hmem : call ∈ process.calls := List.mem_of_getElem? hcall
    have hframe := call.advance_frame world.files process.clock input process.uploads
    obtain ⟨hreturned, hnext⟩ := call.advance_refuses world.files process.clock input process.uploads
    refine ⟨?_, ?_, ?_, ?_, ?_, hrefusals.listed⟩
    · rw [hframe.cancel]
      exact hrefusals.removed
    · rw [hframe.cancel]
      exact hrefusals.hand
    · rw [hframe.cancel, hframe.settled]
      exact hrefusals.settled
    · rw [hframe.cancel]
      intro answer hanswer htext
      rcases hreturned with hsame | ⟨result, hadd, hwhy⟩
      · exact hrefusals.returned answer (hsame ▸ hanswer) htext
      · rw [hadd, List.mem_append, List.mem_singleton] at hanswer
        rcases hanswer with hold | rfl
        · exact hrefusals.returned answer hold htext
        · rcases hwhy htext with hcancelled | herror
          · exact hcancelled
          · exact absurd herror (hrefusals.errors call hmem)
    · refine forall_advanceAt hrefusals.errors ?_
      exact fun next hsome herror => hrefusals.errors call hmem (hnext next hsome herror)
  next => exact hrefusals

theorem work (hrefusals : Refusals process world) (input : WorkerInput) :
    Refusals (process.step world (.work input)).1 (process.step world (.work input)).2 := by
  have hframe := process.worker.step_frame process.uploads world process.clock input
  have hgrows := (process.worker.step_cancel process.uploads world process.clock input).1
  have hmono : ∀ {key}, process.uploads.cancel.isCancelled key = true →
      (process.worker.step process.uploads world process.clock input).2.1.cancel.isCancelled key =
        true := CancelState.isCancelled_mono hgrows
  simp only [Process.step]
  refine ⟨?_, ?_, ?_, ?_, hrefusals.errors, hrefusals.listed⟩
  · intro key hkey
    rcases process.worker.step_world process.uploads world process.clock input with
      hsame | ⟨task, body, -, -, hstored⟩ | ⟨task, hphase, hremoved⟩
    · exact hmono (hrefusals.removed key (by rwa [hsame] at hkey))
    · exact hmono (hrefusals.removed key (by rwa [hstored] at hkey))
    · rw [hremoved] at hkey
      rcases List.mem_append.mp hkey with hold | hnew
      · exact hmono (hrefusals.removed key hold)
      · rw [List.mem_singleton.mp hnew]
        exact hmono (hrefusals.hand task.key (by rw [hphase]; rfl))
  · intro key hkey
    rcases process.worker.step_cancelling process.uploads world process.clock input with
      hnone | hsame | ⟨other, hsome, hcancelled⟩
    · simp only [hnone, reduceCtorEq] at hkey
    · exact hmono (hrefusals.hand key (hsame ▸ hkey))
    · simp only [hsome, Option.some.injEq] at hkey
      exact hmono (hkey ▸ hcancelled)
  · intro entry hentry hstatus
    rcases (process.worker.step_spec process.uploads world process.clock input).2.1 with
      hsame | ⟨task, status, delivered, hphase, hreported⟩
    · exact hmono (hrefusals.settled entry (hsame ▸ hentry) hstatus)
    · rw [hreported, List.mem_append, List.mem_singleton] at hentry
      rcases hentry with hold | rfl
      · exact hmono (hrefusals.settled entry hold hstatus)
      · simp only at hstatus
        subst hstatus
        exact hmono (hrefusals.hand task.key (by rw [hphase]; rfl))
  · rw [hframe.returned]
    exact fun answer hanswer htext => hmono (hrefusals.returned answer hanswer htext)

theorem delete (hrefusals : Refusals process world) (hcancelling : Cancelling process) (index : ℕ)
    (input : DeleteInput) :
    Refusals (process.step world (.delete index input)).1
      (process.step world (.delete index input)).2 := by
  simp only [Process.step]
  split
  next call hcall =>
    have hmem : call ∈ process.deletes := List.mem_of_getElem? hcall
    have hmove := call.advance_move process.clock input process.uploads world
    have hlists := (call.advance_listing process.clock input process.uploads world).1
    have hsettled : (call.advance process.clock input process.uploads world).1.settled =
        process.uploads.settled := call.advance_field UploadQueue.settled (fun _ => rfl) _ _ _ _
    have hreturned : (call.advance process.clock input process.uploads world).1.returned =
        process.uploads.returned := call.advance_field UploadQueue.returned (fun _ => rfl) _ _ _ _
    have hmono : ∀ {key}, process.uploads.cancel.isCancelled key = true →
        (call.advance process.clock input process.uploads world).1.cancel.isCancelled key = true :=
      CancelState.isCancelled_mono hmove.prefixes
    refine ⟨?_, fun key hkey => hmono (hrefusals.hand key hkey), ?_, ?_, hrefusals.errors, ?_⟩
    · intro key hkey
      rcases call.advance_world process.clock input process.uploads world with
        hsame | ⟨-, -, hstored⟩ | ⟨keys, removed, hphase, hsub, -, hremoved⟩
      · exact hmono (hrefusals.removed key (by rwa [hsame] at hkey))
      · exact hmono (hrefusals.removed key (by rwa [hstored] at hkey))
      · rw [hremoved] at hkey
        rcases List.mem_append.mp hkey with hold | hnew
        · exact hmono (hrefusals.removed key hold)
        · refine hmono (CancelState.isCancelled_iff.mpr ⟨call.target, ?_, ?_⟩)
          · exact hcancelling.pushed call hmem (by rw [hphase]; simp)
          · exact hrefusals.listed call hmem keys hphase key (hsub hnew)
    · rw [hsettled]
      exact fun entry hentry hstatus => hmono (hrefusals.settled entry hentry hstatus)
    · rw [hreturned]
      exact fun answer hanswer htext => hmono (hrefusals.returned answer hanswer htext)
    · refine forall_advanceAt hrefusals.listed ?_
      intro next hnext keys hphase key hkey
      rw [hlists next keys hnext hphase] at hkey
      rw [hmove.target next hnext]
      exact (World.mem_listKeys.mp hkey).1
  next => exact hrefusals

theorem step (hrefusals : Refusals process world) (hcancelling : Cancelling process)
    (input : ProcessInput) :
    Refusals (process.step world input).1 (process.step world input).2 := by
  cases input with
  | begin request =>
      simp only [Process.step]
      split
      next => exact hrefusals.beginCall request
      next => exact hrefusals
  | call index input =>
      have hworld : (process.step world (.call index input)).2 = world := by
        simp only [Process.step]
        split <;> rfl
      rw [hworld]
      exact hrefusals.call index input
  | work input => exact hrefusals.work input
  | beginDelete target =>
      simp only [Process.step]
      split
      next =>
        refine ⟨hrefusals.removed, hrefusals.hand, hrefusals.settled, hrefusals.returned,
          hrefusals.errors, ?_⟩
        intro call hcall keys hphase
        rcases List.mem_append.mp hcall with hold | hnew
        · exact hrefusals.listed call hold keys hphase
        · rw [List.mem_singleton.mp hnew] at hphase
          cases hphase
      next => exact hrefusals
  | delete index input => exact hrefusals.delete hcancelling index input
  | edit path content => exact ⟨hrefusals.removed, hrefusals.hand, hrefusals.settled,
      hrefusals.returned, hrefusals.errors, hrefusals.listed⟩
  | tick elapsed => exact hrefusals.congr (List.Subset.refl _) rfl rfl rfl hrefusals.errors rfl
  | close =>
      simp only [Process.step]
      split
      next => exact hrefusals.congr (List.Subset.refl _) rfl rfl rfl hrefusals.errors rfl
      next => exact hrefusals

end Refusals

/-! ## Where a cancelled prefix comes from -/

/-- The process has been asked to delete the prefix, or its tombstone is among the
given objects or in an accepted write. -/
def Announced (objects : AList (fun _ : String => List UInt8)) (queue : UploadQueue)
    (target : String) : Prop :=
  target ∈ queue.deleting ∨ (objects.lookup (queue.tombstonePrefix ++ target)).isSome ∨
    ∃ call ∈ queue.accepted, call.task.key = queue.tombstonePrefix ++ target

structure Origins (objects : AList (fun _ : String => List UInt8)) (site : Site) : Prop where
  prefixes : ∀ target ∈ site.process.uploads.cancel.prefixes,
    Announced objects site.process.uploads target
  store : ∀ target,
    (site.world.object (site.process.uploads.tombstonePrefix ++ target)).isSome →
      Announced objects site.process.uploads target
  listing : ∀ task keys, site.process.worker.phase = .pushTombstones task keys →
    ∀ target, site.process.uploads.tombstonePrefix ++ target ∈ keys →
      Announced objects site.process.uploads target

/-- A step of the worker adds only prefixes of a listing it has made of the tombstones. -/
structure TombstoneMove (worker : UploadWorker) (queue : UploadQueue) (world : World)
    (worker' : UploadWorker) (queue' : UploadQueue) : Prop where
  prefixes : ∀ target ∈ queue'.cancel.prefixes, target ∈ queue.cancel.prefixes ∨
    ∃ task keys, worker.phase = .pushTombstones task keys ∧ queue.tombstonePrefix ++ target ∈ keys
  listing : ∀ task keys, worker'.phase = .pushTombstones task keys →
    keys = world.listKeys queue.tombstonePrefix

theorem UploadWorker.step_tombstones (worker : UploadWorker) (queue : UploadQueue) (world : World)
    (clock : ℕ) (input : WorkerInput) :
    TombstoneMove worker queue world (worker.step queue world clock input).1
      (worker.step queue world clock input).2.1 := by
  have hkeep : ∀ {worker' : UploadWorker} {queue' : UploadQueue},
      queue'.cancel.prefixes = queue.cancel.prefixes →
      (∀ task keys, worker'.phase ≠ .pushTombstones task keys) →
      TombstoneMove worker queue world worker' queue' :=
    fun hsame hphase => ⟨fun target htarget => .inl (hsame ▸ htarget),
      fun task keys heq => absurd heq (hphase task keys)⟩
  unfold step
  cases hphase : worker.phase with
  | receive =>
      simp only [receive]
      repeat' split
      all_goals exact hkeep rfl (by rintro _ _ ⟨⟩)
  | scan =>
      simp only [scan]
      repeat' split
      all_goals exact hkeep rfl (by simp [hphase])
  | listTombstones task =>
      simp only
      split
      next =>
        refine ⟨fun target htarget => .inl htarget, ?_⟩
        rintro other keys ⟨⟩
        rfl
      next => exact hkeep rfl (by rintro _ _ ⟨⟩)
  | pushTombstones task keys =>
      refine ⟨fun target htarget => ?_, by rintro _ _ ⟨⟩⟩
      rcases CancelState.mem_pushTombstones.mp htarget with hold | hnew
      · exact .inl hold
      · exact .inr ⟨task, keys, hphase, hnew⟩
  | beginUpload task =>
      cases hcancelled : queue.cancel.isCancelled task.key with
      | true =>
          simp only [CancelState.beginUpload, hcancelled, if_true]
          exact hkeep rfl (by rintro _ _ ⟨⟩)
      | false =>
          simp only [CancelState.beginUpload, hcancelled, Bool.false_eq_true, if_false]
          cases task.source <;> exact hkeep rfl (by rintro _ _ ⟨⟩)
  | resolve task result =>
      cases result with
      | ok _ => exact hkeep rfl (by rintro _ _ ⟨⟩)
      | error err =>
          simp only [resolve]
          repeat' split
          all_goals exact hkeep rfl (by rintro _ _ ⟨⟩)
  | settle task status delivered stage => cases stage <;> exact hkeep rfl (by rintro _ _ ⟨⟩)
  | cleanUp task | answered task result => exact hkeep rfl (by rintro _ _ ⟨⟩)
  | finished => exact hkeep rfl (by simp [hphase])
  | checkSuperseded task | checkSource task | readSource task path | put task body | stored task =>
      simp only
      repeat' split
      all_goals exact hkeep rfl (by rintro _ _ ⟨⟩)

theorem Process.step_deleting (process : Process) (world : World) (input : ProcessInput) :
    (process.step world input).1.uploads.keyPrefix = process.uploads.keyPrefix ∧
      process.uploads.deleting ⊆ (process.step world input).1.uploads.deleting := by
  have hkeep : ∀ {queue : UploadQueue}, queue.keyPrefix = process.uploads.keyPrefix →
      queue.deleting = process.uploads.deleting →
      queue.keyPrefix = process.uploads.keyPrefix ∧ process.uploads.deleting ⊆ queue.deleting :=
    fun hkey hdeleting => ⟨hkey, hdeleting ▸ List.Subset.refl _⟩
  cases input with
  | begin request =>
      simp only [step]
      split
      next => cases request <;> simp only [beginCall] <;> split <;> exact hkeep rfl rfl
      next => exact hkeep rfl rfl
  | call index input =>
      simp only [step]
      split
      next call _ =>
        have hframe := call.advance_frame world.files process.clock input process.uploads
        exact hkeep hframe.keyPrefix hframe.deleting
      next => exact hkeep rfl rfl
  | work input =>
      have hframe := process.worker.step_frame process.uploads world process.clock input
      exact hkeep hframe.keyPrefix hframe.deleting
  | beginDelete target =>
      simp only [step]
      split
      next => exact ⟨rfl, List.subset_append_left _ _⟩
      next => exact hkeep rfl rfl
  | delete index input =>
      simp only [step]
      split
      next call _ =>
        exact hkeep (call.advance_field UploadQueue.keyPrefix (fun _ => rfl) _ _ _ _)
          (call.advance_field UploadQueue.deleting (fun _ => rfl) _ _ _ _)
      next => exact hkeep rfl rfl
  | edit path content => exact hkeep rfl rfl
  | tick elapsed => exact hkeep rfl rfl
  | close =>
      simp only [step]
      split <;> exact hkeep rfl rfl

/-- A PUT that takes effect is one of an accepted write or the tombstone of a deletion. -/
theorem Accounted.storing_origin {process : Process} (haccounted : Accounted process)
    {input : ProcessInput} {key : String} (hstoring : process.storing input = some key) :
    (∃ call ∈ process.uploads.accepted, call.task.key = key) ∨
      ∃ call ∈ process.deletes, process.uploads.tombstonePrefix ++ call.target = key := by
  cases input with
  | work input =>
      simp only [Process.storing] at hstoring
      split at hstoring
      next task body hphase _ =>
        have hhand : task.toUploadWrite ∈ acceptedStakes (heldStake process.worker.phase.stake) := by
          simp [hphase, WorkerPhase.stake, UploadWrite.stake, acceptedStakes_singleton]
        obtain ⟨call, hcall, hwrite⟩ := haccounted.hand_accepted hhand
        refine .inl ⟨call, hcall, ?_⟩
        rw [← Option.some.inj hstoring]
        exact congrArg UploadWrite.key hwrite
      next => cases hstoring
  | delete index input =>
      simp only [Process.storing] at hstoring
      split at hstoring
      next target hcall _ =>
        exact .inr ⟨_, List.mem_of_getElem? hcall, Option.some.inj hstoring⟩
      next => cases hstoring
  | begin _ | call _ _ | beginDelete _ | edit _ _ | tick _ | close => cases hstoring

theorem Announced.step {objects : AList (fun _ : String => List UInt8)} {site : Site}
    {target : String} (hannounced : Announced objects site.process.uploads target)
    (input : ProcessInput) : Announced objects (site.step input).process.uploads target := by
  obtain ⟨hkey, hdeleting⟩ := site.process.step_deleting site.world input
  have hsame : (site.step input).process.uploads.tombstonePrefix =
      site.process.uploads.tombstonePrefix := congrArg (· ++ ".tombstones/") hkey
  rcases hannounced with hasked | hobject | ⟨call, hcall, hcallKey⟩
  · exact .inl (hdeleting hasked)
  · exact .inr (.inl (hsame ▸ hobject))
  · exact .inr (.inr ⟨call, (site.accepted_grows input).subset hcall, hsame ▸ hcallKey⟩)

theorem Origins.step {objects : AList (fun _ : String => List UInt8)} {site : Site}
    (horigins : Origins objects site) (haccounted : Accounted site.process)
    (hcancelling : Cancelling site.process) (input : ProcessInput) :
    Origins objects (site.step input) := by
  have hsame : (site.step input).process.uploads.tombstonePrefix =
      site.process.uploads.tombstonePrefix :=
    congrArg (· ++ ".tombstones/") (site.process.step_deleting site.world input).1
  -- The worker's listing and the prefixes change only in its own steps and a deletion's.
  have hother : (site.step input).process.uploads.cancel.prefixes =
        site.process.uploads.cancel.prefixes →
      (site.step input).process.worker = site.process.worker →
      (∀ target ∈ (site.step input).process.uploads.cancel.prefixes,
        Announced objects site.process.uploads target) ∧
      ∀ task keys, (site.step input).process.worker.phase = .pushTombstones task keys →
        ∀ target, site.process.uploads.tombstonePrefix ++ target ∈ keys →
          Announced objects site.process.uploads target := by
    intro hprefixes hworker
    rw [hprefixes, hworker]
    exact ⟨horigins.prefixes, horigins.listing⟩
  have hsources : (∀ target ∈ (site.step input).process.uploads.cancel.prefixes,
        Announced objects site.process.uploads target) ∧
      ∀ task keys, (site.step input).process.worker.phase = .pushTombstones task keys →
        ∀ target, site.process.uploads.tombstonePrefix ++ target ∈ keys →
          Announced objects site.process.uploads target := by
    cases input with
    | work input =>
        obtain ⟨hprefixes, hlists⟩ := site.process.worker.step_tombstones site.process.uploads
          site.world site.process.clock input
        refine ⟨fun target htarget => ?_, fun task keys hphase target htarget => ?_⟩
        · rcases hprefixes target htarget with hold | ⟨task, keys, hphase, hkey⟩
          · exact horigins.prefixes target hold
          · exact horigins.listing task keys hphase target hkey
        · rw [hlists task keys hphase] at htarget
          exact horigins.store target (World.mem_listKeys.mp htarget).2
    | delete index input =>
        simp only [Site.step, Process.step]
        split
        next call hcall =>
          refine ⟨fun target htarget => ?_, horigins.listing⟩
          have hmove := call.advance_move site.process.clock input site.process.uploads site.world
          rcases hmove.pushes target htarget with hold | rfl
          · exact horigins.prefixes target hold
          · exact .inl (hcancelling.deleting call (List.mem_of_getElem? hcall))
        next => exact ⟨horigins.prefixes, horigins.listing⟩
    | begin request =>
        apply hother <;> simp only [Site.step, Process.step] <;> split <;>
          first | rfl | (cases request <;> simp only [Process.beginCall] <;> split <;> rfl)
    | call index input =>
        refine hother ?_ ?_
        · simp only [Site.step, Process.step]
          split
          next call _ =>
            exact congrArg CancelState.prefixes
              (call.advance_frame site.world.files site.process.clock input _).cancel
          next => rfl
        · simp only [Site.step, Process.step]
          split <;> rfl
    | beginDelete target | close =>
        apply hother <;> simp only [Site.step, Process.step] <;> split <;> rfl
    | edit path content => exact hother rfl rfl
    | tick elapsed => exact hother rfl rfl
  refine ⟨fun target htarget => (hsources.1 target htarget).step input, ?_, ?_⟩
  · intro target hobject
    rw [hsame] at hobject
    refine Announced.step ?_ input
    rcases site.process.object_of_step site.world input hobject with hold | hnew
    · exact horigins.store target hold
    · rcases haccounted.storing_origin hnew with hwrite | ⟨call, hcall, hkey⟩
      · exact .inr (.inr hwrite)
      · -- Tombstone keys differ only in their target.
        have htarget : call.target = target := by
          apply String.toList_injective
          have hlists := congrArg String.toList hkey
          rw [String.toList_append, String.toList_append] at hlists
          exact List.append_cancel_left hlists
        exact .inl (htarget ▸ hcancelling.deleting call hcall)
  · intro task keys hphase target htarget
    rw [hsame] at htarget
    exact (hsources.2 task keys hphase target htarget).step input

/-! ## Whole runs -/

/-- What holds of a site in every reachable state. -/
structure Guarded (objects : AList (fun _ : String => List UInt8)) (keyPrefix : String)
    (site : Site) : Prop where
  accounted : Accounted site.process
  cancelling : Cancelling site.process
  refusals : Refusals site.process site.world
  origins : Origins objects site
  keyPrefix_eq : site.process.uploads.keyPrefix = keyPrefix

theorem Guarded.new (keyPrefix : String) (storageDir : List String)
    (objects : AList (fun _ : String => List UInt8)) (files : List String → Option (List UInt8)) :
    Guarded objects keyPrefix (.new keyPrefix storageDir objects files) := by
  refine ⟨Accounted.new keyPrefix storageDir, Cancelling.new keyPrefix storageDir, ?_, ?_, rfl⟩
  · constructor <;> intro _ hmem <;> cases hmem
  · refine ⟨?_, fun _ hobject => .inr (.inl hobject), ?_⟩
    · intro _ htarget
      cases htarget
    · intro _ _ hphase
      cases hphase

theorem Guarded.step {objects : AList (fun _ : String => List UInt8)} {keyPrefix : String}
    {site : Site} (hguarded : Guarded objects keyPrefix site) (input : ProcessInput) :
    Guarded objects keyPrefix (site.step input) := by
  obtain ⟨haccounted, hcancelling, hrefusals, horigins, hkey⟩ := hguarded
  refine ⟨site.step_accounted input haccounted, ?_, ?_, horigins.step haccounted hcancelling input,
    ?_⟩
  · exact (hcancelling.step site.world input).congr rfl rfl rfl (List.Subset.refl _) rfl rfl
  · have hnext := hrefusals.step hcancelling input
    exact hnext.congr (List.Subset.refl _) rfl rfl rfl hnext.errors rfl
  · rw [← hkey]
    exact (site.process.step_deleting site.world input).1

theorem Site.run_guarded (keyPrefix : String) (storageDir : List String)
    (objects : AList (fun _ : String => List UInt8)) (files : List String → Option (List UInt8))
    (inputs : List ProcessInput) :
    Guarded objects keyPrefix
      (Machine.run Site.step (.new keyPrefix storageDir objects files) inputs) :=
  Machine.run_invariant Site.step (Guarded objects keyPrefix) (fun _ input hsite => hsite.step input)
    (Guarded.new keyPrefix storageDir objects files) inputs

/-- A prefix that no tombstone can fall under. -/
def OutsideTombstones (keyPrefix target : String) : Prop :=
  ∀ other, startsWith (keyPrefix ++ ".tombstones/" ++ other) target = false

theorem Site.step_cleared {objects : AList (fun _ : String => List UInt8)} {keyPrefix target : String}
    {site : Site} (hguarded : Guarded objects keyPrefix site)
    (houtside : OutsideTombstones keyPrefix target)
    (hcleared : Cleared target site.process site.world) (input : ProcessInput) :
    Cleared target (site.step input).process (site.step input).world := by
  refine (hcleared.step ?_).congr rfl rfl
  intro key hstoring hlisted
  cases input with
  | work input => exact hguarded.cancelling.storing_work hstoring hlisted
  | delete index input =>
      simp only [Process.storing] at hstoring
      split at hstoring
      next =>
        rw [← Option.some.inj hstoring, UploadQueue.tombstonePrefix, hguarded.keyPrefix_eq]
        exact houtside _
      next => cases hstoring
  | begin _ | call _ _ | beginDelete _ | edit _ _ | tick _ | close => cases hstoring

theorem Process.step_cancelled (process : Process) (world : World) (input : ProcessInput) :
    process.uploads.cancelled ⊆ (process.step world input).1.uploads.cancelled ∧
      process.uploads.deleted ⊆ (process.step world input).1.uploads.deleted := by
  have hkeep : ∀ {queue : UploadQueue}, queue.cancelled = process.uploads.cancelled →
      queue.deleted = process.uploads.deleted →
      process.uploads.cancelled ⊆ queue.cancelled ∧ process.uploads.deleted ⊆ queue.deleted :=
    fun hcancelled hdeleted => ⟨hcancelled ▸ List.Subset.refl _, hdeleted ▸ List.Subset.refl _⟩
  cases input with
  | begin request =>
      simp only [step]
      split
      next => cases request <;> simp only [beginCall] <;> split <;> exact hkeep rfl rfl
      next => exact hkeep rfl rfl
  | call index input =>
      simp only [step]
      split
      next call _ =>
        have hframe := call.advance_frame world.files process.clock input process.uploads
        exact hkeep hframe.cancelled hframe.deleted
      next => exact hkeep rfl rfl
  | work input =>
      have hframe := process.worker.step_frame process.uploads world process.clock input
      exact hkeep hframe.cancelled hframe.deleted
  | delete index input =>
      simp only [step]
      split
      next call _ =>
        have hmove := call.advance_move process.clock input process.uploads world
        constructor
        · rcases hmove.cancelled with hsame | ⟨hadd, -, -⟩
          · exact hsame ▸ List.Subset.refl _
          · exact hadd ▸ List.subset_append_left _ _
        · rcases hmove.deleted with hsame | ⟨result, hadd, -⟩
          · exact hsame ▸ List.Subset.refl _
          · exact hadd ▸ List.subset_append_left _ _
      next => exact hkeep rfl rfl
  | beginDelete target | close =>
      simp only [step]
      split <;> exact hkeep rfl rfl
  | edit path content => exact hkeep rfl rfl
  | tick elapsed => exact hkeep rfl rfl

/-- No PUT under a cancelled prefix is in flight. -/
theorem Guarded.putsInFlight_clear {objects : AList (fun _ : String => List UInt8)}
    {keyPrefix target : String} {site : Site} (hguarded : Guarded objects keyPrefix site)
    (houtside : OutsideTombstones keyPrefix target)
    (hcancelled : target ∈ site.process.uploads.cancelled) :
    ∀ key ∈ site.process.putsInFlight, startsWith key target = false := by
  intro key hkey
  rcases List.mem_append.mp hkey with hput | htombstone
  · exact hguarded.cancelling.clear target hcancelled key (Option.mem_toList.mp hput)
  · obtain ⟨call, -, huploading⟩ := List.mem_filterMap.mp htombstone
    have hkey : key = site.process.uploads.tombstonePrefix ++ call.target := by
      unfold DeleteCall.uploading at huploading
      cases hphase : call.phase <;> rw [hphase] at huploading <;> cases huploading <;> rfl
    rw [hkey, UploadQueue.tombstonePrefix, hguarded.keyPrefix_eq]
    exact houtside call.target

/-- The key was removed, a call was refused for it, or a write of it was cancelled. -/
def Site.Refused (site : Site) (key : String) : Prop :=
  key ∈ site.world.removed ∨
    (∃ answer ∈ site.process.uploads.returned, answer.call.task.key = key ∧
      answer.result = .error cancelledText) ∨
    ∃ entry ∈ site.process.uploads.settled, entry.1.key = key ∧ entry.2 = .cancelled

theorem Guarded.announced_of_refused {objects : AList (fun _ : String => List UInt8)}
    {keyPrefix key : String} {site : Site} (hguarded : Guarded objects keyPrefix site)
    (hrefused : site.Refused key) :
    ∃ target, Announced objects site.process.uploads target ∧ startsWith key target = true := by
  have hcancelled : site.process.uploads.cancel.isCancelled key = true := by
    rcases hrefused with hremoved | ⟨answer, hanswer, rfl, htext⟩ | ⟨entry, hentry, rfl, hstatus⟩
    · exact hguarded.refusals.removed key hremoved
    · exact hguarded.refusals.returned answer hanswer htext
    · exact hguarded.refusals.settled entry hentry hstatus
  obtain ⟨target, htarget, hstarts⟩ := CancelState.isCancelled_iff.mp hcancelled
  exact ⟨target, hguarded.origins.prefixes target htarget, hstarts⟩

/-- In every interleaving, once `cancel_prefix` of a prefix outside the tombstone key
space has returned no PUT under it is in flight in any later state, and once
`delete_prefix` has returned no object under it exists; a key that was refused, cancelled
or removed is under a prefix that a deletion or a tombstone names. -/
theorem deleted_prefix_stays_deleted (keyPrefix : String) (storageDir : List String)
    (objects : AList (fun _ : String => List UInt8)) (files : List String → Option (List UInt8))
    (inputs more : List ProcessInput) (target : String)
    (houtside : OutsideTombstones keyPrefix target) :
    let site := Machine.run Site.step (.new keyPrefix storageDir objects files) inputs
    let later := Machine.run Site.step site more
    (target ∈ site.process.uploads.cancelled →
        ∀ key ∈ later.process.putsInFlight, startsWith key target = false) ∧
      (∀ count, (target, .ok count) ∈ site.process.uploads.deleted →
        ∀ key, startsWith key target = true → later.world.object key = none) ∧
      ∀ key, later.Refused key → ∃ start, Announced objects later.process.uploads start ∧
        startsWith key start = true := by
  intro site later
  have hrun : later = Machine.run Site.step (.new keyPrefix storageDir objects files)
      (inputs ++ more) := (Machine.run_append Site.step _ inputs more).symm
  have hguarded : Guarded objects keyPrefix later :=
    hrun ▸ Site.run_guarded keyPrefix storageDir objects files (inputs ++ more)
  have hgrows : site.process.uploads.cancelled ⊆ later.process.uploads.cancelled ∧
      site.process.uploads.deleted ⊆ later.process.uploads.deleted := by
    refine Machine.run_invariant Site.step
      (fun later => site.process.uploads.cancelled ⊆ later.process.uploads.cancelled ∧
        site.process.uploads.deleted ⊆ later.process.uploads.deleted) ?_
      ⟨List.Subset.refl _, List.Subset.refl _⟩ more
    intro now input hnow
    obtain ⟨hcancelled, hdeleted⟩ := now.process.step_cancelled now.world input
    exact ⟨List.Subset.trans hnow.1 hcancelled, List.Subset.trans hnow.2 hdeleted⟩
  have hcleared : Cleared target later.process later.world := by
    have hboth : Guarded objects keyPrefix later ∧ Cleared target later.process later.world := by
      rw [hrun]
      refine Machine.run_invariant Site.step
        (fun site => Guarded objects keyPrefix site ∧ Cleared target site.process site.world) ?_
        ⟨Guarded.new keyPrefix storageDir objects files, nofun, nofun⟩ (inputs ++ more)
      exact fun site input hsite =>
        ⟨hsite.1.step input, Site.step_cleared hsite.1 houtside hsite.2 input⟩
    exact hboth.2
  refine ⟨?_, ?_, ?_⟩
  · exact fun hcancelled => hguarded.putsInFlight_clear houtside (hgrows.1 hcancelled)
  · exact fun count hdeleted => hcleared.deleted count (hgrows.2 hdeleted)
  · exact fun key hrefused => hguarded.announced_of_refused hrefused

/-- A write of a chunk is in flight when its recording is deleted: the deletion waits for
it, lists it and removes it. -/
def deleteDuringPut : List ProcessInput :=
  ProcessInput.begin (.putBytes ["guild", "chunk.wav"] [1]) ::
    List.replicate 6 (ProcessInput.call 0 {}) ++ List.replicate 7 (ProcessInput.work {}) ++
    ProcessInput.beginDelete "recordings/guild/" ::
    List.replicate 4 (ProcessInput.delete 0 {}) ++ List.replicate 3 (ProcessInput.work {}) ++
    List.replicate 3 (ProcessInput.delete 0 {})

theorem deleted_during_put :
    let site := Machine.run Site.step (.new "recordings/" [] ∅ fun _ => none) deleteDuringPut
    site.world.removed = ["recordings/guild/chunk.wav"] ∧
      (∀ key, startsWith key "recordings/guild/" = true → site.world.object key = none) := by
  have houtside : OutsideTombstones "recordings/" "recordings/guild/" := by
    intro other
    rw [startsWith, String.toList_append]
    rfl
  have hdeleted := (deleted_prefix_stays_deleted "recordings/" [] ∅ (fun _ => none) deleteDuringPut
    [] "recordings/guild/" houtside).2.1 1 (by decide +kernel)
  exact ⟨by decide +kernel, hdeleted⟩

end DiscordTranscript.Infrastructure
