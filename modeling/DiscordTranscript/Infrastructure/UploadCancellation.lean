import DiscordTranscript.Infrastructure.UploadSupersession

/-! # What a deletion can rely on

A worker registers its PUT and checks the cancelled prefixes under one lock, and
`cancel_prefix` pushes its prefix before it waits for the registered PUTs. Once it has
returned, the worker of the process PUTs nothing under the prefix any more, so a
listing made after it can only shrink.
-/

namespace DiscordTranscript.Infrastructure

open Slots

/-! ## PUTs in flight -/

/-- The key of the PUT the worker has in flight. -/
def WorkerPhase.uploading : WorkerPhase → Option String
  | .readSource task _ | .put task _ | .stored task => some task.key
  | .receive | .scan | .listTombstones _ | .pushTombstones _ _ | .checkSuperseded _
  | .checkSource _ | .beginUpload _ | .cleanUp _ | .answered _ _ | .resolve _ _
  | .settle _ _ _ _ | .finished => none

/-- The key of the tombstone a deletion has in flight. -/
def DeleteCall.uploading (call : DeleteCall) (tombstonePrefix : String) : Option String :=
  match call.phase with
  | .putTombstone | .tombstoneStored => some (tombstonePrefix ++ call.target)
  | .pushPrefix | .awaitInflight _ | .listKeys | .deleteKeys _ => none

def Process.putsInFlight (process : Process) : List String :=
  process.worker.phase.uploading.toList ++
    process.deletes.filterMap (·.uploading process.uploads.tombstonePrefix)

/-- The key on which a PUT takes effect in this step. -/
def Process.storing (process : Process) : ProcessInput → Option String
  | .work input =>
      match process.worker.phase, input.effect with
      | .put task _, .stored => some task.key
      | _, _ => none
  | .delete index input =>
      match process.deletes[index]?, input.effect with
      | some ⟨target, .putTombstone⟩, .stored => some (process.uploads.tombstonePrefix ++ target)
      | _, _ => none
  | .begin _ | .call _ _ | .beginDelete _ | .edit _ _ | .tick _ | .close => none

/-- The deletion has returned from `cancel_prefix`. -/
def DeleteCall.pastCancel (call : DeleteCall) : Bool :=
  match call.phase with
  | .listKeys | .deleteKeys _ => true
  | .pushPrefix | .putTombstone | .tombstoneStored | .awaitInflight _ => false

/-! ## What the steps do to the cancelled prefixes -/

namespace CancelState

variable {cancel cancel' : CancelState}

theorem isCancelled_iff {key : String} :
    cancel.isCancelled key = true ↔ ∃ target ∈ cancel.prefixes, startsWith key target = true :=
  List.any_eq_true

theorem isCancelled_mono (hgrows : cancel.prefixes ⊆ cancel'.prefixes) {key : String}
    (hkey : cancel.isCancelled key = true) : cancel'.isCancelled key = true := by
  obtain ⟨target, htarget, hstarts⟩ := isCancelled_iff.mp hkey
  exact isCancelled_iff.mpr ⟨target, hgrows htarget, hstarts⟩

theorem mem_pushTombstones {tombstonePrefix : String} {keys : List String} {target : String} :
    target ∈ (cancel.pushTombstones tombstonePrefix keys).prefixes ↔
      target ∈ cancel.prefixes ∨ tombstonePrefix ++ target ∈ keys := by
  have hfold : ∀ (targets known : List String), target ∈ targets.foldl
      (fun known target => if target ∈ known then known else known ++ [target]) known ↔
        target ∈ known ∨ target ∈ targets := by
    intro targets
    induction targets with
    | nil => simp
    | cons first rest ih =>
        intro known
        rw [List.foldl_cons, ih, List.mem_cons]
        split
        next hknown =>
          constructor
          · rintro (hmem | hmem)
            · exact .inl hmem
            · exact .inr (.inr hmem)
          · rintro (hmem | rfl | hmem)
            · exact .inl hmem
            · exact .inl hknown
            · exact .inr hmem
        next => simp [or_assoc]
  unfold pushTombstones
  rw [hfold, List.mem_filterMap]
  refine or_congr Iff.rfl ⟨?_, fun hkey => ⟨_, hkey, stripStart_eq_some.mpr rfl⟩⟩
  rintro ⟨key, hkey, hstrip⟩
  rwa [← stripStart_eq_some.mp hstrip]

end CancelState

/-- A step of the worker only adds prefixes, and a PUT that it starts is registered
and was not cancelled. -/
theorem UploadWorker.step_cancel (worker : UploadWorker) (queue : UploadQueue) (world : World)
    (clock : ℕ) (input : WorkerInput) :
    let after := worker.step queue world clock input
    queue.cancel.prefixes ⊆ after.2.1.cancel.prefixes ∧
      (after.1.phase.uploading = none ∨
        (after.1.phase.uploading = worker.phase.uploading ∧
          after.2.1.cancel.inflight = queue.cancel.inflight) ∨
        ∃ key ∈ after.2.1.cancel.inflight, after.1.phase.uploading = some key ∧
          queue.cancel.isCancelled key = false) := by
  unfold step
  cases hphase : worker.phase with
  | receive =>
      simp only [receive]
      repeat' split
      all_goals exact ⟨List.Subset.refl _, .inl rfl⟩
  | scan =>
      simp only [scan]
      repeat' split
      all_goals exact ⟨List.Subset.refl _, .inl (by simp [WorkerPhase.uploading, hphase])⟩
  | pushTombstones task keys =>
      refine ⟨fun target htarget => ?_, .inl rfl⟩
      exact CancelState.mem_pushTombstones.mpr (.inl htarget)
  | beginUpload task =>
      cases hcancelled : queue.cancel.isCancelled task.key with
      | true =>
          simp only [CancelState.beginUpload, hcancelled, if_true]
          exact ⟨List.Subset.refl _, .inl rfl⟩
      | false =>
          have hbegun : ∀ phase : WorkerPhase, phase.uploading = some task.key →
              ∃ key ∈ insert task.key queue.cancel.inflight, phase.uploading = some key ∧
                queue.cancel.isCancelled key = false :=
            fun phase hphase => ⟨task.key, Finset.mem_insert_self _ _, hphase, hcancelled⟩
          simp only [CancelState.beginUpload, hcancelled, Bool.false_eq_true, if_false]
          cases task.source with
          | inline bytes => exact ⟨List.Subset.refl _, .inr (.inr (hbegun _ rfl))⟩
          | file path => exact ⟨List.Subset.refl _, .inr (.inr (hbegun _ rfl))⟩
  | readSource task path | put task body =>
      simp only
      split
      next => exact ⟨List.Subset.refl _, .inr (.inl ⟨rfl, rfl⟩)⟩
      next => exact ⟨List.Subset.refl _, .inl rfl⟩
  | stored task =>
      simp only
      split <;> exact ⟨List.Subset.refl _, .inl rfl⟩
  | resolve task result =>
      cases result with
      | ok _ => exact ⟨List.Subset.refl _, .inl rfl⟩
      | error err =>
          simp only [resolve]
          repeat' split
          all_goals exact ⟨List.Subset.refl _, .inl rfl⟩
  | settle task status delivered stage =>
      cases stage <;> exact ⟨List.Subset.refl _, .inl rfl⟩
  | cleanUp task | answered task result => exact ⟨List.Subset.refl _, .inl rfl⟩
  | finished => exact ⟨List.Subset.refl _, .inl (by simp [WorkerPhase.uploading, hphase])⟩
  | listTombstones task | checkSuperseded task | checkSource task =>
      simp only
      repeat' split
      all_goals exact ⟨List.Subset.refl _, .inl rfl⟩

/-- What a step of a deletion does to the cancelled prefixes and to its own progress. -/
structure DeleteMove (call : DeleteCall) (queue queue' : UploadQueue)
    (next : Option DeleteCall) : Prop where
  prefixes : queue.cancel.prefixes ⊆ queue'.cancel.prefixes
  inflight : queue'.cancel.inflight = queue.cancel.inflight
  target : ∀ after, next = some after → after.target = call.target
  pushed : call.phase = .pushPrefix → call.target ∈ queue'.cancel.prefixes
  pushes : ∀ other ∈ queue'.cancel.prefixes, other ∈ queue.cancel.prefixes ∨ other = call.target
  /-- `cancel_prefix` returns when nothing under its prefix is registered. -/
  cancelled : queue'.cancelled = queue.cancelled ∨
    (queue'.cancelled = queue.cancelled ++ [call.target] ∧ call.phase ≠ .pushPrefix ∧
      ∀ key ∈ queue.cancel.inflight, startsWith key call.target = false)
  pastCancel : ∀ after, next = some after → after.pastCancel = true →
    call.pastCancel = true ∨ call.target ∈ queue'.cancelled
  deleted : queue'.deleted = queue.deleted ∨
    ∃ result, queue'.deleted = queue.deleted ++ [(call.target, result)] ∧
      ∀ count, result = .ok count → ∃ keys, call.phase = .deleteKeys keys

theorem DeleteCall.advance_move (call : DeleteCall) (clock : ℕ) (input : DeleteInput)
    (queue : UploadQueue) (world : World) :
    DeleteMove call queue (call.advance clock input queue world).1
      (call.advance clock input queue world).2.1 := by
  obtain ⟨target, phase⟩ := call
  have hend : ∀ {error : S3Error} {phase : DeletePhase}, phase ≠ .pushPrefix →
      DeleteMove ⟨target, phase⟩ queue (DeleteCall.finish ⟨target, phase⟩ queue (.error error))
        none := by
    intro error phase hphase
    exact ⟨List.Subset.refl _, rfl, (by simp), fun hpush => absurd hpush hphase, fun _ => .inl, .inl rfl,
      (by simp),
      .inr ⟨.error error, rfl, (by simp)⟩⟩
  have hnext : ∀ {phase phase' : DeletePhase}, phase ≠ .pushPrefix →
      (DeleteCall.pastCancel ⟨target, phase'⟩ = true →
        DeleteCall.pastCancel ⟨target, phase⟩ = true) →
      DeleteMove ⟨target, phase⟩ queue queue (some ⟨target, phase'⟩) := by
    intro phase phase' hphase hpast
    refine ⟨List.Subset.refl _, rfl, ?_, fun hpush => absurd hpush hphase, fun _ => .inl, .inl rfl,
      ?_, .inl rfl⟩
    · rintro after ⟨⟩
      rfl
    · rintro after ⟨⟩ hafter
      exact .inl (hpast hafter)
  cases phase with
  | pushPrefix =>
      refine ⟨List.subset_append_left _ _, rfl, ?_, fun _ => ?_, fun other hother => ?_, .inl rfl, ?_,
        .inl rfl⟩
      · rintro after ⟨⟩
        rfl
      · exact List.mem_append_right _ (List.mem_singleton_self _)
      · exact (List.mem_append.mp hother).imp_right List.mem_singleton.mp
      · rintro after ⟨⟩ ⟨⟩
  | putTombstone =>
      simp only [advance]
      split
      next => exact hnext (by simp) fun hpast => by cases hpast
      next => exact hend (by simp)
  | tombstoneStored =>
      simp only [advance]
      split
      next => exact hnext (by simp) fun hpast => by cases hpast
      next => exact hend (by simp)
  | awaitInflight deadline =>
      simp only [advance]
      split
      next =>
        split
        next => exact hnext (by simp) (by simp)
        next hnone =>
          have hfree : ∀ key ∈ queue.cancel.inflight, startsWith key target = false :=
            fun key hkey => Bool.eq_false_iff.mpr fun hstarts => hnone ⟨key, hkey, hstarts⟩
          refine ⟨List.Subset.refl _, rfl, ?_, (by simp), fun _ => .inl, .inr ⟨rfl, (by simp), hfree⟩, ?_,
            .inl rfl⟩
          · rintro after ⟨⟩
            rfl
          · exact fun after _ _ => .inr (List.mem_append_right _ (List.mem_singleton_self _))
      next => exact hend (by simp)
  | listKeys =>
      simp only [advance]
      split
      next => exact hnext (by simp) fun _ => rfl
      next => exact hend (by simp)
  | deleteKeys keys =>
      simp only [advance]
      split
      next =>
        exact ⟨List.Subset.refl _, rfl, (by simp), (by simp), fun _ => .inl, .inl rfl, (by simp),
          .inr ⟨.ok keys.length, rfl, fun _ _ => ⟨keys, rfl⟩⟩⟩
      next => exact hend (by simp)

/-! ## No PUT under a cancelled prefix -/

/-- What holds of the worker and the deletions of one process, whatever the store
does. -/
structure Cancelling (process : Process) : Prop where
  deleting : ∀ call ∈ process.deletes, call.target ∈ process.uploads.deleting
  pushed : ∀ call ∈ process.deletes, call.phase ≠ .pushPrefix →
    call.target ∈ process.uploads.cancel.prefixes
  awaited : ∀ call ∈ process.deletes, call.pastCancel = true →
    call.target ∈ process.uploads.cancelled
  deleted : ∀ target count, (target, .ok count) ∈ process.uploads.deleted →
    target ∈ process.uploads.cancelled
  cancelled : ∀ target ∈ process.uploads.cancelled, target ∈ process.uploads.cancel.prefixes
  inflight : ∀ key, process.worker.phase.uploading = some key →
    key ∈ process.uploads.cancel.inflight
  clear : ∀ target ∈ process.uploads.cancelled, ∀ key,
    process.worker.phase.uploading = some key → startsWith key target = false

namespace Cancelling

variable {process : Process}

theorem new (keyPrefix : String) (storageDir : List String) :
    Cancelling (.new keyPrefix storageDir) := by
  refine ⟨nofun, nofun, nofun, nofun, nofun, nofun, nofun⟩

/-- The fields it is about. -/
theorem congr {process' : Process} (hcancelling : Cancelling process)
    (hdeletes : process'.deletes = process.deletes) (hworker : process'.worker = process.worker)
    (hcancel : process'.uploads.cancel = process.uploads.cancel)
    (hdeleting : process.uploads.deleting ⊆ process'.uploads.deleting)
    (hcancelled : process'.uploads.cancelled = process.uploads.cancelled)
    (hdeleted : process'.uploads.deleted = process.uploads.deleted) : Cancelling process' := by
  obtain ⟨h₁, h₂, h₃, h₄, h₅, h₆, h₇⟩ := hcancelling
  refine ⟨?_, ?_, ?_, ?_, ?_, ?_, ?_⟩
  · intro call hcall
    exact hdeleting (h₁ call (hdeletes ▸ hcall))
  · rwa [hdeletes, hcancel]
  · rwa [hdeletes, hcancelled]
  · rwa [hdeleted, hcancelled]
  · rwa [hcancelled, hcancel]
  · rwa [hworker, hcancel]
  · rwa [hcancelled, hworker]

theorem work (hcancelling : Cancelling process) (world : World) (input : WorkerInput) :
    Cancelling (process.step world (.work input)).1 := by
  have hframe := process.worker.step_frame process.uploads world process.clock input
  obtain ⟨hgrows, hput⟩ := process.worker.step_cancel process.uploads world process.clock input
  obtain ⟨hdeleting, hpushed, hawaited, hdeleted, hcancelled, hinflight, hclear⟩ := hcancelling
  simp only [Process.step]
  refine ⟨?_, fun call hcall hphase => hgrows (hpushed call hcall hphase), ?_, ?_, ?_, ?_, ?_⟩
  · rwa [hframe.deleting]
  · rwa [hframe.cancelled]
  · rwa [hframe.deleted, hframe.cancelled]
  · rw [hframe.cancelled]
    exact fun target htarget => hgrows (hcancelled target htarget)
  · intro key hkey
    rcases hput with hnone | ⟨hsame, hregistered⟩ | ⟨other, hother, hsome, -⟩
    · simp only [hnone, reduceCtorEq] at hkey
    · rw [hregistered]
      exact hinflight key (hsame ▸ hkey)
    · simp only [hsome, Option.some.injEq] at hkey
      exact hkey ▸ hother
  · rw [hframe.cancelled]
    intro target htarget key hkey
    rcases hput with hnone | ⟨hsame, -⟩ | ⟨other, -, hsome, hfree⟩
    · simp only [hnone, reduceCtorEq] at hkey
    · exact hclear target htarget key (hsame ▸ hkey)
    · -- The PUT was started with the prefix already among the cancelled ones.
      simp only [hsome, Option.some.injEq] at hkey
      subst hkey
      by_contra hstarts
      rw [Bool.not_eq_false] at hstarts
      rw [CancelState.isCancelled_iff.mpr ⟨target, hcancelled target htarget, hstarts⟩] at hfree
      cases hfree

theorem advanceDelete (hcancelling : Cancelling process) (world : World) (index : ℕ)
    (input : DeleteInput) : Cancelling (process.step world (.delete index input)).1 := by
  simp only [Process.step]
  split
  next call hcall =>
    have hmem : call ∈ process.deletes := List.mem_of_getElem? hcall
    have hmove := call.advance_move process.clock input process.uploads world
    have hsame : (call.advance process.clock input process.uploads world).1.deleting =
        process.uploads.deleting := call.advance_field UploadQueue.deleting (fun _ => rfl) _ _ _ _
    obtain ⟨hdeleting, hpushed, hawaited, hdeleted, hcancelled, hinflight, hclear⟩ := hcancelling
    have hmore : process.uploads.cancelled ⊆
        (call.advance process.clock input process.uploads world).1.cancelled := by
      rcases hmove.cancelled with hkeep | ⟨hadd, -, -⟩
      · rw [hkeep]
        exact List.Subset.refl _
      · rw [hadd]
        exact List.subset_append_left _ _
    refine ⟨?_, ?_, ?_, ?_, ?_, ?_, ?_⟩
    · refine forall_advanceAt ?_ ?_
      · rwa [hsame]
      · intro next hnext
        rw [hmove.target next hnext, hsame]
        exact hdeleting call hmem
    · refine forall_advanceAt ?_ ?_
      · exact fun other hother hphase => hmove.prefixes (hpushed other hother hphase)
      · intro next hnext _
        rw [hmove.target next hnext]
        by_cases hphase : call.phase = .pushPrefix
        · exact hmove.pushed hphase
        · exact hmove.prefixes (hpushed call hmem hphase)
    · refine forall_advanceAt ?_ ?_
      · exact fun other hother hpast => hmore (hawaited other hother hpast)
      · intro next hnext hpast
        rw [hmove.target next hnext]
        rcases hmove.pastCancel next hnext hpast with hbefore | hnow
        · exact hmore (hawaited call hmem hbefore)
        · exact hnow
    · intro target count hentry
      rcases hmove.deleted with hkeep | ⟨result, hadd, hok⟩
      · exact hmore (hdeleted target count (hkeep ▸ hentry))
      · rw [hadd, List.mem_append, List.mem_singleton, Prod.mk.injEq] at hentry
        rcases hentry with hold | ⟨rfl, hresult⟩
        · exact hmore (hdeleted target count hold)
        · obtain ⟨keys, hphase⟩ := hok count hresult.symm
          exact hmore (hawaited call hmem (by simp [DeleteCall.pastCancel, hphase]))
    · intro target htarget
      rcases hmove.cancelled with hkeep | ⟨hadd, hphase, -⟩
      · exact hmove.prefixes (hcancelled target (hkeep ▸ htarget))
      · rw [hadd, List.mem_append, List.mem_singleton] at htarget
        rcases htarget with hold | rfl
        · exact hmove.prefixes (hcancelled target hold)
        · exact hmove.prefixes (hpushed call hmem hphase)
    · rw [hmove.inflight]
      exact hinflight
    · intro target htarget key hkey
      rcases hmove.cancelled with hkeep | ⟨hadd, -, hfree⟩
      · exact hclear target (hkeep ▸ htarget) key hkey
      · rw [hadd, List.mem_append, List.mem_singleton] at htarget
        rcases htarget with hold | rfl
        · exact hclear target hold key hkey
        · exact hfree key (hinflight key hkey)
  next => exact hcancelling

theorem step (hcancelling : Cancelling process) (world : World) (input : ProcessInput) :
    Cancelling (process.step world input).1 := by
  cases input with
  | begin request =>
      simp only [Process.step]
      split
      next =>
        cases request <;> simp only [Process.beginCall] <;> split <;>
          exact hcancelling.congr rfl rfl rfl (List.Subset.refl _) rfl rfl
      next => exact hcancelling
  | call index input =>
      simp only [Process.step]
      split
      next call hcall =>
        have hframe := call.advance_frame world.files process.clock input process.uploads
        refine hcancelling.congr rfl rfl hframe.cancel ?_ hframe.cancelled hframe.deleted
        rw [← hframe.deleting]
        exact List.Subset.refl _
      next => exact hcancelling
  | work input => exact hcancelling.work world input
  | beginDelete target =>
      simp only [Process.step]
      split
      next =>
        obtain ⟨hdeleting, hpushed, hawaited, hdeleted, hcancelled, hinflight, hclear⟩ := hcancelling
        refine ⟨?_, ?_, ?_, hdeleted, hcancelled, hinflight, hclear⟩
        · intro call hcall
          rcases List.mem_append.mp hcall with hold | hnew
          · exact List.mem_append_left _ (hdeleting call hold)
          · rw [List.mem_singleton.mp hnew]
            exact List.mem_append_right _ (List.mem_singleton_self _)
        · intro call hcall hphase
          rcases List.mem_append.mp hcall with hold | hnew
          · exact hpushed call hold hphase
          · exact absurd (congrArg DeleteCall.phase (List.mem_singleton.mp hnew)) hphase
        · intro call hcall hpast
          rcases List.mem_append.mp hcall with hold | hnew
          · exact hawaited call hold hpast
          · rw [List.mem_singleton.mp hnew] at hpast
            cases hpast
      next => exact hcancelling
  | delete index input => exact hcancelling.advanceDelete world index input
  | edit path content => exact hcancelling
  | tick elapsed => exact hcancelling.congr rfl rfl rfl (List.Subset.refl _) rfl rfl
  | close =>
      simp only [Process.step]
      split
      next => exact hcancelling.congr rfl rfl rfl (List.Subset.refl _) rfl rfl
      next => exact hcancelling

end Cancelling

/-! ## What a deletion has listed -/

/-- A new object under a key comes from the PUT of this step. -/
theorem Process.object_of_step (process : Process) (world : World) (input : ProcessInput)
    {key : String} (hkey : ((process.step world input).2.object key).isSome) :
    (world.object key).isSome ∨ process.storing input = some key := by
  have hput : ∀ {stored : String} {body : List UInt8} {generation : Option ℕ},
      ((world.put stored body generation).object key).isSome →
      (world.object key).isSome ∨ stored = key := by
    intro stored body generation hsome
    rw [World.object_put] at hsome
    by_cases hstored : key = stored
    · exact .inr hstored.symm
    · exact .inl (by rwa [if_neg hstored] at hsome)
  have hdelete : ∀ {removed : List String}, ((world.delete removed).object key).isSome →
      (world.object key).isSome := by
    intro removed hsome
    rw [World.object_delete] at hsome
    split at hsome
    next => cases hsome
    next => exact hsome
  cases input with
  | work input =>
      have hmove := process.worker.step_world process.uploads world process.clock input
      rcases hmove with hsame | ⟨task, body, hphase, heffect, hstored⟩ | ⟨task, -, hremoved⟩
      · exact .inl (by simpa only [step, hsame] using hkey)
      · simp only [step, hstored] at hkey
        refine (hput hkey).imp_right fun hsame => ?_
        simp [storing, hphase, heffect, hsame]
      · exact .inl (hdelete (by simpa only [step, hremoved] using hkey))
  | delete index input =>
      simp only [step] at hkey
      split at hkey
      next call hcall =>
        rcases call.advance_world process.clock input process.uploads world with
          hsame | ⟨hphase, heffect, hstored⟩ | ⟨keys, removed, -, -, -, hremoved⟩
        · exact .inl (by simpa only [hsame] using hkey)
        · obtain ⟨target, phase⟩ := call
          simp only at hphase
          subst hphase
          simp only [hstored] at hkey
          refine (hput hkey).imp_right fun hsame => ?_
          simp [storing, hcall, heffect, hsame]
        · exact .inl (hdelete (by simpa only [hremoved] using hkey))
      next => exact .inl hkey
  | begin request => exact .inl hkey
  | call index input =>
      simp only [step] at hkey
      split at hkey <;> exact .inl hkey
  | beginDelete target =>
      simp only [step] at hkey
      split at hkey <;> exact .inl hkey
  | edit path content => exact .inl hkey
  | tick elapsed => exact .inl hkey
  | close => exact .inl hkey

/-- A deletion lists everything under its prefix, and when it succeeds it has removed
what it listed. -/
theorem DeleteCall.advance_listing (call : DeleteCall) (clock : ℕ) (input : DeleteInput)
    (queue : UploadQueue) (world : World) :
    let after := call.advance clock input queue world
    (∀ next keys, after.2.1 = some next → next.phase = .deleteKeys keys →
        keys = after.2.2.listKeys call.target) ∧
      ∀ target count, (target, .ok count) ∈ after.1.deleted →
        (target, .ok count) ∈ queue.deleted ∨
          (target = call.target ∧ ∃ keys, call.phase = .deleteKeys keys ∧
            after.2.2 = world.delete keys) := by
  obtain ⟨start, phase⟩ := call
  have hend : ∀ {error : S3Error} {phase : DeletePhase} {target : String} {count : ℕ},
      (target, .ok count) ∈ (DeleteCall.finish ⟨start, phase⟩ queue (.error error)).deleted →
      (target, .ok count) ∈ queue.deleted := by
    intro error phase target count hentry
    rcases List.mem_append.mp hentry with hold | hnew
    · exact hold
    · cases List.mem_singleton.mp hnew
  cases phase with
  | pushPrefix =>
      refine ⟨?_, fun target count hentry => .inl hentry⟩
      rintro next keys ⟨⟩ ⟨⟩
  | putTombstone | tombstoneStored =>
      simp only [advance]
      split
      next =>
        refine ⟨?_, fun target count hentry => .inl hentry⟩
        rintro next keys ⟨⟩ ⟨⟩
      next => exact ⟨(by simp), fun target count hentry => .inl (hend hentry)⟩
  | awaitInflight deadline =>
      simp only [advance]
      split
      next =>
        split
        next =>
          refine ⟨?_, fun target count hentry => .inl hentry⟩
          rintro next keys ⟨⟩ ⟨⟩
        next =>
          refine ⟨?_, fun target count hentry => .inl hentry⟩
          rintro next keys ⟨⟩ ⟨⟩
      next => exact ⟨(by simp), fun target count hentry => .inl (hend hentry)⟩
  | listKeys =>
      simp only [advance]
      split
      next =>
        refine ⟨?_, fun target count hentry => .inl hentry⟩
        rintro next keys ⟨⟩ ⟨⟩
        rfl
      next => exact ⟨(by simp), fun target count hentry => .inl (hend hentry)⟩
  | deleteKeys keys =>
      simp only [advance]
      split
      next =>
        refine ⟨(by simp), fun target count hentry => ?_⟩
        rcases List.mem_append.mp hentry with hold | hnew
        · exact .inl hold
        · obtain ⟨rfl, -⟩ := Prod.mk.inj (List.mem_singleton.mp hnew)
          exact .inr ⟨rfl, keys, rfl, rfl⟩
      next => exact ⟨(by simp), fun target count hentry => .inl (hend hentry)⟩

/-- A deletion of the prefix has made its listing. -/
def Process.Listed (process : Process) (target : String) : Prop :=
  (∃ call ∈ process.deletes, call.target = target ∧ ∃ keys, call.phase = .deleteKeys keys) ∨
    ∃ count, (target, .ok count) ∈ process.uploads.deleted

/-- What is under the prefix has been listed for deletion, and after the deletion
nothing is. -/
structure Cleared (target : String) (process : Process) (world : World) : Prop where
  listed : ∀ call ∈ process.deletes, call.target = target → ∀ keys, call.phase = .deleteKeys keys →
    ∀ key, startsWith key target = true → (world.object key).isSome → key ∈ keys
  deleted : ∀ count, (target, .ok count) ∈ process.uploads.deleted →
    ∀ key, startsWith key target = true → world.object key = none

namespace Cleared

variable {target : String} {process : Process} {world world' : World}

/-- The store gains nothing under a listed prefix. -/
theorem world_mono (hcleared : Cleared target process world)
    (hgain : ∀ key, startsWith key target = true → process.Listed target →
      (world'.object key).isSome → (world.object key).isSome) : Cleared target process world' := by
  refine ⟨?_, ?_⟩
  · intro call hcall htarget keys hphase key hkey hsome
    have hlisted : process.Listed target := .inl ⟨call, hcall, htarget, keys, hphase⟩
    exact hcleared.listed call hcall htarget keys hphase key hkey (hgain key hkey hlisted hsome)
  · intro count hentry key hkey
    by_contra hsome
    have hlisted : process.Listed target := .inr ⟨count, hentry⟩
    have hbefore := hgain key hkey hlisted (Option.isSome_iff_ne_none.mpr hsome)
    rw [hcleared.deleted count hentry key hkey] at hbefore
    cases hbefore

theorem congr {process' : Process} (hcleared : Cleared target process world)
    (hdeletes : process'.deletes = process.deletes)
    (hdeleted : process'.uploads.deleted = process.uploads.deleted) :
    Cleared target process' world := by
  obtain ⟨hlisted, hnone⟩ := hcleared
  exact ⟨by rwa [hdeletes], by rwa [hdeleted]⟩

theorem advanceDelete (hcleared : Cleared target process world) {index : ℕ} {input : DeleteInput}
    (hstoring : ∀ key, process.storing (.delete index input) = some key →
      process.Listed target → startsWith key target = false) :
    Cleared target (process.step world (.delete index input)).1
      (process.step world (.delete index input)).2 := by
  have hworld : Cleared target process (process.step world (.delete index input)).2 := by
    refine hcleared.world_mono fun key hkey hlisted hsome => ?_
    rcases process.object_of_step world _ hsome with hold | hnew
    · exact hold
    · rw [hstoring key hnew hlisted] at hkey
      cases hkey
  cases hcall : process.deletes[index]? with
  | none => simpa only [Process.step, hcall] using hworld
  | some call =>
      have hmem : call ∈ process.deletes := List.mem_of_getElem? hcall
      simp only [Process.step, hcall] at hworld ⊢
      obtain ⟨hlists, hdeletes⟩ :=
        call.advance_listing process.clock input process.uploads world
      have hmove := call.advance_move process.clock input process.uploads world
      refine ⟨forall_advanceAt hworld.listed ?_, ?_⟩
      · intro next hnext htarget keys hphase key hkey hsome
        rw [hlists next keys hnext hphase, ← hmove.target next hnext, htarget]
        exact World.mem_listKeys.mpr ⟨hkey, hsome⟩
      · intro count hentry key hkey
        rcases hdeletes target count hentry with hold | ⟨rfl, keys, hphase, hremoved⟩
        · exact hworld.deleted count hold key hkey
        · simp only [hremoved, World.object_delete]
          split
          next => rfl
          next hnot =>
            by_contra hsome
            exact hnot (hcleared.listed call hmem rfl keys hphase key hkey
              (Option.isSome_iff_ne_none.mpr hsome))

/-- A step keeps the prefix cleared unless its PUT takes effect under it. -/
theorem step (hcleared : Cleared target process world) {input : ProcessInput}
    (hstoring : ∀ key, process.storing input = some key → process.Listed target →
      startsWith key target = false) :
    Cleared target (process.step world input).1 (process.step world input).2 := by
  have hworld : Cleared target process (process.step world input).2 := by
    refine hcleared.world_mono fun key hkey hlisted hsome => ?_
    rcases process.object_of_step world input hsome with hold | hnew
    · exact hold
    · rw [hstoring key hnew hlisted] at hkey
      cases hkey
  cases input with
  | begin request =>
      simp only [Process.step] at hworld ⊢
      split
      next =>
        cases request <;> simp only [Process.beginCall] <;> split <;> exact hworld.congr rfl rfl
      next => exact hworld
  | call index input =>
      simp only [Process.step] at hworld ⊢
      split
      next call hcall =>
        exact hcleared.congr rfl
          (call.advance_frame world.files process.clock input process.uploads).deleted
      next => exact hcleared
  | work input =>
      exact hworld.congr rfl
        (process.worker.step_frame process.uploads world process.clock input).deleted
  | beginDelete start =>
      simp only [Process.step] at hworld ⊢
      split
      next =>
        refine ⟨?_, hcleared.deleted⟩
        intro call hcall htarget keys hphase
        rcases List.mem_append.mp hcall with hold | hnew
        · exact hcleared.listed call hold htarget keys hphase
        · rw [List.mem_singleton.mp hnew] at hphase
          cases hphase
      next => exact hcleared
  | delete index input => exact hcleared.advanceDelete hstoring
  | edit path content => exact hworld
  | tick elapsed => exact hworld.congr rfl rfl
  | close =>
      simp only [Process.step] at hworld ⊢
      split
      next => exact hworld.congr rfl rfl
      next => exact hworld

end Cleared

namespace Cancelling

variable {process : Process} {target : String}

theorem cancelled_of_listed (hcancelling : Cancelling process) (hlisted : process.Listed target) :
    target ∈ process.uploads.cancelled := by
  rcases hlisted with ⟨call, hcall, rfl, keys, hphase⟩ | ⟨count, hentry⟩
  · exact hcancelling.awaited call hcall (by simp [DeleteCall.pastCancel, hphase])
  · exact hcancelling.deleted target count hentry

/-- The worker of the process that deletes stores nothing under a listed prefix. -/
theorem storing_work (hcancelling : Cancelling process) {input : WorkerInput} {key : String}
    (hstoring : process.storing (.work input) = some key) (hlisted : process.Listed target) :
    startsWith key target = false := by
  have hphase : process.worker.phase.uploading = some key := by
    simp only [Process.storing] at hstoring
    split at hstoring
    next hphase _ =>
      rw [hphase]
      exact hstoring
    next => cases hstoring
  exact hcancelling.clear target (hcancelling.cancelled_of_listed hlisted) key hphase

end Cancelling

end DiscordTranscript.Infrastructure
