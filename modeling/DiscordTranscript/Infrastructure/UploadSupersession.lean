import DiscordTranscript.Infrastructure.UploadGuarantees

/-! # Which writes supersede an accepted one

A producer publishes its generation before it knows whether the channel takes its
task. The worker may check an older write of the key in between, settle it as
superseded, and the newer write may then be turned away. A write is superseded only
in favour of an accepted one exactly as long as no check rests on such a generation.
-/

namespace DiscordTranscript.Infrastructure

/-- The queue has accepted a newer write of the key. -/
def UploadQueue.AcceptedNewer (queue : UploadQueue) (write : UploadWrite) : Prop :=
  ∃ call ∈ queue.accepted, call.task.key = write.key ∧ write.generation < call.task.generation

instance (queue : UploadQueue) (write : UploadWrite) : Decidable (queue.AcceptedNewer write) :=
  inferInstanceAs (Decidable (∃ call ∈ queue.accepted, _))

/-- The write the worker is settling as superseded. -/
def UploadWorker.superseding (worker : UploadWorker) : Option UploadWrite :=
  match worker.phase with
  | .settle task .superseded _ _ => some task.toUploadWrite
  | _ => none

/-- The writes settled as superseded, the one under way included. -/
def Process.supersededWrites (process : Process) : List UploadWrite :=
  (process.uploads.settled.filter (·.2 = .superseded)).map Prod.fst ++
    process.worker.superseding.toList

/-- A write is settled as superseded only in favour of an accepted one. -/
def SupersededByAccepted (site : Site) : Prop :=
  ∀ write ∈ site.process.supersededWrites, site.process.uploads.AcceptedNewer write

instance (site : Site) : Decidable (SupersededByAccepted site) :=
  inferInstanceAs (Decidable (∀ write ∈ site.process.supersededWrites, _))

/-- A supersede check does not rest on a generation that is only published: a newer
one of the key held by a call between `track` and its end is backed by an accepted
write. -/
def ChecksOnAccepted (site : Site) : ProcessInput → Prop
  | .work _ => ∀ task, site.process.worker.phase = .checkSuperseded task →
      (∃ call ∈ site.process.calls, call.stake.tracked = true ∧ call.task.key = task.key ∧
        task.generation < call.task.generation) →
      site.process.uploads.AcceptedNewer task.toUploadWrite
  | _ => True

/-! ## Markers stand for accepted writes -/

/-- A delivered marker is the generation of an accepted write of its key. -/
def MarkersAccepted (queue : UploadQueue) : Prop :=
  ∀ key generation, queue.generations.delivered key = some generation →
    ∃ call ∈ queue.accepted, call.task.key = key ∧ call.task.generation = generation

theorem MarkersAccepted.mono {queue queue' : UploadQueue} (hmarkers : MarkersAccepted queue)
    (haccepted : queue.accepted <+: queue'.accepted)
    (hdelivered : ∀ key generation, queue'.generations.delivered key = some generation →
      queue.generations.delivered key = some generation) : MarkersAccepted queue' := by
  intro key generation hmarker
  obtain ⟨call, hcall, hkey⟩ := hmarkers key generation (hdelivered key generation hmarker)
  exact ⟨call, haccepted.subset hcall, hkey⟩

theorem GenerationState.delivered_of_untrack {state : GenerationState} {key other : String}
    {generation marker : ℕ}
    (hmarker : (state.untrack key generation).delivered other = some marker) :
    state.delivered other = some marker := by
  rcases delivered_untrack_cases generation other with hsame | ⟨-, hnone, -⟩
  · rwa [hsame] at hmarker
  · rw [hnone] at hmarker
    cases hmarker

theorem GenerationState.delivered_of_settle {state : GenerationState} {key other : String}
    {generation marker : ℕ} {delivered : Bool}
    (hmarker : (state.settle key generation delivered).delivered other = some marker) :
    state.delivered other = some marker ∨ (delivered = true ∧ other = key ∧ marker = generation) := by
  have hbefore := delivered_of_untrack hmarker
  cases delivered with
  | false => exact .inl hbefore
  | true =>
      simp only [if_true, deliver] at hbefore
      by_cases hother : other = key
      · subst hother
        rw [Function.update_self, Option.some.injEq] at hbefore
        cases hold : state.delivered other with
        | none =>
            rw [hold, Option.getD_none, Nat.zero_max] at hbefore
            exact .inr ⟨rfl, rfl, hbefore.symm⟩
        | some old =>
            rw [hold, Option.getD_some] at hbefore
            rcases max_choice old generation with hmax | hmax
            · exact .inl (by rw [← hbefore, hmax])
            · exact .inr ⟨rfl, rfl, by rw [← hbefore, hmax]⟩
      · rw [Function.update_of_ne hother] at hbefore
        exact .inl hbefore

theorem UploadCall.advance_markers (call : UploadCall) (files : List String → Option (List UInt8))
    (clock : ℕ) (input : CallInput) {queue : UploadQueue} (hmarkers : MarkersAccepted queue) :
    MarkersAccepted (call.advance files clock input queue).1 := by
  refine hmarkers.mono (call.accepted_grows files clock input queue) fun key generation hmarker => ?_
  rcases call.advance_maps files clock input queue with hsame | ⟨-, htrack⟩ | ⟨-, -, huntrack⟩
  · rwa [hsame] at hmarker
  · rwa [htrack, GenerationState.delivered_track] at hmarker
  · rw [huntrack] at hmarker
    exact GenerationState.delivered_of_untrack hmarker

/-- The write in the worker's hand is an accepted one. -/
theorem Accounted.hand_accepted {process : Process} (haccounted : Accounted process)
    {write : UploadWrite} (hhand : write ∈ acceptedStakes (heldStake process.worker.phase.stake)) :
    ∃ call ∈ process.uploads.accepted, call.task.toUploadWrite = write := by
  have hmem : write ∈ process.uploads.unsettled := by
    rw [← Multiset.mem_coe, haccounted.unsettled_eq, Multiset.mem_add]
    exact .inr hhand
  exact List.mem_map.mp (List.mem_of_mem_filter hmem)

theorem Accounted.step_markers {process : Process} (haccounted : Accounted process)
    (hmarkers : MarkersAccepted process.uploads) (world : World) (input : WorkerInput) :
    MarkersAccepted (process.worker.step process.uploads world process.clock input).2.1 := by
  have haccepted :=
    (process.worker.step_frame process.uploads world process.clock input).accepted
  rcases (process.worker.step_spec process.uploads world process.clock input).2.2 with
    hsame | ⟨task, status, delivered, hphase, hmaps⟩
  · refine hmarkers.mono (by rw [haccepted]) fun key generation hmarker => ?_
    rwa [hsame] at hmarker
  · intro key generation hmarker
    rw [haccepted]
    rw [hmaps] at hmarker
    rcases GenerationState.delivered_of_settle hmarker with hold | ⟨-, rfl, rfl⟩
    · exact hmarkers key generation hold
    · have hhand : task.toUploadWrite ∈ acceptedStakes (heldStake process.worker.phase.stake) := by
        simp [hphase, WorkerPhase.stake, SettleStage.stake, UploadWrite.stake,
          acceptedStakes_singleton]
      obtain ⟨call, hcall, hwrite⟩ := haccounted.hand_accepted hhand
      exact ⟨call, hcall, congrArg UploadWrite.key hwrite, congrArg UploadWrite.generation hwrite⟩

theorem Site.step_markers (site : Site) (input : ProcessInput) (haccounted : Accounted site.process)
    (hmarkers : MarkersAccepted site.process.uploads) :
    MarkersAccepted (site.step input).process.uploads := by
  cases input with
  | begin request =>
      simp only [Site.step, Process.step]
      split
      next => cases request <;> simp only [Process.beginCall] <;> split <;> exact hmarkers
      next => exact hmarkers
  | call index input =>
      simp only [Site.step, Process.step]
      split
      next call _ => exact call.advance_markers _ _ _ hmarkers
      next => exact hmarkers
  | work input => exact haccounted.step_markers hmarkers site.world input
  | delete index input =>
      simp only [Site.step, Process.step]
      split
      next call _ =>
        have hsame : ∀ queue : UploadQueue,
            MarkersAccepted queue.deleteFixed = MarkersAccepted queue := fun _ => rfl
        rw [call.advance_field MarkersAccepted hsame]
        exact hmarkers
      next => exact hmarkers
  | beginDelete target | close =>
      simp only [Site.step, Process.step]
      split <;> exact hmarkers
  | edit path content => exact hmarkers
  | tick elapsed => exact hmarkers

/-! ## What makes a write superseded -/

/-- Besides the supersede check no step of the worker supersedes a write. -/
theorem UploadWorker.step_superseding (worker : UploadWorker) (queue : UploadQueue) (world : World)
    (clock : ℕ) (input : WorkerInput) :
    (worker.step queue world clock input).1.superseding = none ∨
      (worker.step queue world clock input).1.superseding = worker.superseding ∨
      ∃ task, worker.phase = .checkSuperseded task ∧
        queue.generations.isSuperseded task.key task.generation = true ∧
        (worker.step queue world clock input).1.superseding = some task.toUploadWrite := by
  unfold step
  cases hphase : worker.phase with
  | receive =>
      simp only [receive]
      repeat' split
      all_goals exact .inl rfl
  | scan =>
      simp only [scan]
      repeat' split
      all_goals first | exact .inl rfl | exact .inl (by simp [superseding, hphase])
  | resolve task result =>
      cases result with
      | ok _ => exact .inl rfl
      | error err =>
          simp only [resolve]
          repeat' split
          all_goals exact .inl rfl
  | settle task status delivered stage =>
      cases stage with
      | receipt => exact .inl rfl
      | pending | bytes | generations =>
          refine .inr (.inl ?_)
          simp only [settle, toPhase, superseding, hphase]
          cases status <;> rfl
  | checkSuperseded task =>
      simp only
      split
      next hnewer => exact .inr (.inr ⟨task, rfl, hnewer, rfl⟩)
      next => exact .inl rfl
  | pushTombstones task keys | cleanUp task | answered task result => exact .inl rfl
  | finished => exact .inr (.inl rfl)
  | listTombstones task | checkSource task | beginUpload task | readSource task path | put task body
  | stored task =>
      simp only
      repeat' split
      all_goals exact .inl rfl

/-- A write that a step of the worker supersedes is the one that was checked. -/
theorem mem_supersededWrites_work {site : Site} {input : WorkerInput} {write : UploadWrite}
    (hwrite : write ∈ (site.step (.work input)).process.supersededWrites) :
    write ∈ site.process.supersededWrites ∨
      ∃ task, site.process.worker.phase = .checkSuperseded task ∧
        site.process.uploads.generations.isSuperseded task.key task.generation = true ∧
        task.toUploadWrite = write := by
  have hsettled := (site.process.worker.step_spec site.process.uploads site.world
    site.process.clock input).2.1
  have hhand := site.process.worker.step_superseding site.process.uploads site.world
    site.process.clock input
  simp only [Process.supersededWrites, List.mem_append, List.mem_map, List.mem_filter,
    decide_eq_true_eq, Option.mem_toList] at hwrite ⊢
  rcases hwrite with ⟨entry, ⟨hentry, hstatus⟩, rfl⟩ | hnow
  · rcases hsettled with hsame | ⟨task, status, delivered, hphase, hreported⟩
    · exact .inl (.inl ⟨entry, ⟨hsame ▸ hentry, hstatus⟩, rfl⟩)
    · have hentry' : entry ∈ site.process.uploads.settled ++ [(task.toUploadWrite, status)] :=
        hreported ▸ hentry
      rcases List.mem_append.mp hentry' with hold | hnew
      · exact .inl (.inl ⟨entry, ⟨hold, hstatus⟩, rfl⟩)
      · rw [List.mem_singleton] at hnew
        subst hnew
        simp only at hstatus
        subst hstatus
        exact .inl (.inr (by simp [UploadWorker.superseding, hphase]))
  · have hnow' : (site.process.worker.step site.process.uploads site.world site.process.clock
        input).1.superseding = some write := hnow
    rcases hhand with hnone | hsame | ⟨task, hphase, hnewer, hsome⟩
    · rw [hnone] at hnow'
      cases hnow'
    · exact .inl (.inr (hsame ▸ hnow'))
    · rw [hsome, Option.some.injEq] at hnow'
      exact .inr ⟨task, hphase, hnewer, hnow'⟩

/-- The other parties supersede nothing. -/
theorem supersededWrites_other {site : Site} {input : ProcessInput}
    (hinput : input.isWork = false) :
    (site.step input).process.supersededWrites = site.process.supersededWrites := by
  have hkeep : ∀ {process : Process}, process.uploads.settled = site.process.uploads.settled →
      process.worker = site.process.worker →
      process.supersededWrites = site.process.supersededWrites := by
    intro process hsettled hworker
    rw [Process.supersededWrites, Process.supersededWrites, hsettled, hworker]
  cases input with
  | work input => cases hinput
  | begin request =>
      simp only [Site.step, Process.step]
      split
      next =>
        cases request <;> simp only [Process.beginCall] <;> split <;> exact hkeep rfl rfl
      next => rfl
  | call index input =>
      simp only [Site.step, Process.step]
      split
      next call _ =>
        exact hkeep (call.advance_frame site.world.files site.process.clock input _).settled rfl
      next => rfl
  | delete index input =>
      simp only [Site.step, Process.step]
      split
      next call _ => exact hkeep (call.advance_field UploadQueue.settled (fun _ => rfl) _ _ _ _) rfl
      next => rfl
  | beginDelete target | close =>
      simp only [Site.step, Process.step]
      split <;> rfl
  | edit path content => rfl
  | tick elapsed => rfl

theorem Site.accepted_grows (site : Site) (input : ProcessInput) :
    site.process.uploads.accepted <+: (site.step input).process.uploads.accepted := by
  have hkeep : site.process.uploads.accepted <+: site.process.uploads.accepted := List.prefix_rfl
  cases input with
  | begin request =>
      simp only [Site.step, Process.step]
      split
      next =>
        cases request <;> simp only [Process.beginCall] <;> split <;> exact hkeep
      next => exact hkeep
  | call index input =>
      simp only [Site.step, Process.step]
      split
      next call _ => exact call.accepted_grows _ _ _ _
      next => exact hkeep
  | work input =>
      rw [show (site.step (.work input)).process.uploads.accepted = site.process.uploads.accepted from
        (site.process.worker.step_frame _ site.world _ input).accepted]
  | delete index input =>
      simp only [Site.step, Process.step]
      split
      next call _ => rw [call.advance_field UploadQueue.accepted (fun _ => rfl)]
      next => exact hkeep
  | beginDelete target | close =>
      simp only [Site.step, Process.step]
      split <;> exact hkeep
  | edit path content => exact hkeep
  | tick elapsed => exact hkeep

theorem UploadQueue.AcceptedNewer.mono {queue queue' : UploadQueue} {write : UploadWrite}
    (hnewer : queue.AcceptedNewer write) (hgrows : queue.accepted <+: queue'.accepted) :
    queue'.AcceptedNewer write := by
  obtain ⟨call, hcall, hkey⟩ := hnewer
  exact ⟨call, hgrows.subset hcall, hkey⟩

/-- A check that finds a newer generation finds an accepted write, or a call that has
published one. -/
theorem Accounted.newer_of_superseded {process : Process} (haccounted : Accounted process)
    (hmarkers : MarkersAccepted process.uploads) {key : String} {generation : ℕ}
    (hnewer : process.uploads.generations.isSuperseded key generation = true) :
    (∃ call ∈ process.uploads.accepted, call.task.key = key ∧ generation < call.task.generation) ∨
      ∃ call ∈ process.calls, call.stake.tracked = true ∧ call.task.key = key ∧
        generation < call.task.generation := by
  rcases GenerationState.isSuperseded_iff.mp hnewer with ⟨newer, htracked, hlt⟩ | ⟨marker, hmarker, hlt⟩
  · rcases (haccounted.tracked_iff key newer).mp htracked with
      ⟨write, hwrite, -, hkey, rfl⟩ | ⟨call, hcall, htracks, hkey, rfl⟩
    · obtain ⟨call, hcall, rfl⟩ := List.mem_map.mp (List.mem_of_mem_filter hwrite)
      exact .inl ⟨call, hcall, hkey, hlt⟩
    · exact .inr ⟨call, hcall, htracks, hkey, hlt⟩
  · obtain ⟨call, hcall, hkey, rfl⟩ := hmarkers key marker hmarker
    exact .inl ⟨call, hcall, hkey, hlt⟩

theorem supersededByAccepted_step {site : Site} (haccounted : Accounted site.process)
    (hmarkers : MarkersAccepted site.process.uploads) (hgood : SupersededByAccepted site)
    (input : ProcessInput) :
    SupersededByAccepted (site.step input) ↔ ChecksOnAccepted site input := by
  cases input with
  | work input =>
      have haccepted : (site.step (.work input)).process.uploads.accepted =
          site.process.uploads.accepted :=
        (site.process.worker.step_frame _ site.world _ input).accepted
      constructor
      · intro hnext task hphase hcalls
        obtain ⟨call, hcall, htracked, hkey, hlt⟩ := hcalls
        have hnewer : site.process.uploads.generations.isSuperseded task.key task.generation =
            true := by
          rw [GenerationState.isSuperseded_iff]
          exact .inl ⟨_, (haccounted.tracked_iff _ _).mpr
            (.inr ⟨call, hcall, htracked, hkey, rfl⟩), hlt⟩
        have hmem : task.toUploadWrite ∈ (site.step (.work input)).process.supersededWrites := by
          simp [Site.step, Process.step, UploadWorker.step, hphase, hnewer,
            Process.supersededWrites, UploadWorker.startSettle, UploadWorker.toPhase,
            UploadWorker.superseding]
        obtain ⟨accepted, hmem, hnewer⟩ := hnext _ hmem
        exact ⟨accepted, haccepted ▸ hmem, hnewer⟩
      · intro hchecks write hwrite
        refine UploadQueue.AcceptedNewer.mono ?_ (site.accepted_grows (.work input))
        rcases mem_supersededWrites_work hwrite with hold | ⟨task, hphase, hnewer, rfl⟩
        · exact hgood write hold
        · rcases haccounted.newer_of_superseded hmarkers hnewer with haccepted | hcalls
          · exact haccepted
          · exact hchecks task hphase hcalls
  | begin _ | call _ _ | beginDelete _ | delete _ _ | edit _ _ | tick _ | close =>
      refine ⟨fun _ => trivial, fun _ write hwrite => ?_⟩
      rw [supersededWrites_other rfl] at hwrite
      exact (hgood write hwrite).mono (site.accepted_grows _)

/-- In every interleaving, writes are superseded only by accepted ones in every state
exactly if no supersede check rests on a generation that a call has published but not
sent. -/
theorem superseded_by_accepted_iff (keyPrefix : String) (storageDir : List String)
    (objects : AList (fun _ : String => List UInt8)) (files : List String → Option (List UInt8))
    (inputs : List ProcessInput) :
    Machine.Always Site.step SupersededByAccepted (.new keyPrefix storageDir objects files) inputs ↔
      Machine.EveryStep Site.step ChecksOnAccepted (.new keyPrefix storageDir objects files)
        inputs := by
  have hinv : ∀ (site : Site) input,
      Accounted site.process ∧ MarkersAccepted site.process.uploads →
      Accounted (site.step input).process ∧ MarkersAccepted (site.step input).process.uploads :=
    fun site input hsite =>
      ⟨site.step_accounted input hsite.1, site.step_markers input hsite.1 hsite.2⟩
  have hstart : SupersededByAccepted (.new keyPrefix storageDir objects files) := by
    intro write hwrite
    cases hwrite
  refine Machine.always_iff_everyStep Site.step hinv ?_
    ⟨Accounted.new keyPrefix storageDir, ?_⟩ hstart inputs
  · exact fun site input hsite hgood => supersededByAccepted_step hsite.1 hsite.2 hgood input
  · intro key generation hmarker
    cases hmarker

/-! ## A rejected write that drops an accepted one -/

/-- A `put_bytes` of the path from its beginning to its end, as the `index`-th call. -/
def putSteps (index : ℕ) (name : String) : List ProcessInput :=
  .begin (.putBytes [name] []) :: List.replicate 6 (.call index {})

/-- The worker takes the first write of `ssrc_mapping.json` in hand and stops before
the supersede check. 64 other writes fill the channel, and a second write of the key
gets as far as publishing its generation. The check then supersedes the first write,
and the second is turned away because the channel is full. -/
def rejectedRace : List ProcessInput :=
  putSteps 0 "ssrc_mapping.json" ++ List.replicate 4 (ProcessInput.work {}) ++
    (List.replicate 64 (putSteps 0 "chunk.wav")).flatten ++
    ProcessInput.begin (.putBytes ["ssrc_mapping.json"] []) ::
    List.replicate 5 (ProcessInput.call 0 {}) ++ List.replicate 5 (ProcessInput.work {}) ++
    List.replicate 4 (ProcessInput.call 0 {})

/-- After the race nothing is in progress: the first write has been dropped as
superseded, the only newer write of its key was turned away, and no newer write of it
was ever accepted. -/
theorem rejected_write_supersedes_accepted :
    let site := Machine.run Site.step (.new "recordings/" [] ∅ fun _ => none) rejectedRace
    site.process.calls = [] ∧
      site.process.uploads.settled.map (fun entry => (entry.1.key, entry.1.generation, entry.2)) =
        [("recordings/ssrc_mapping.json", 0, .superseded)] ∧
      (site.process.uploads.returned.getLast?.map fun answer =>
        (answer.call.task.key, answer.call.task.generation, answer.result.toBool)) =
        some ("recordings/ssrc_mapping.json", 65, false) ∧
      ¬SupersededByAccepted site := by
  decide +kernel

end DiscordTranscript.Infrastructure
