import DiscordTranscript.Infrastructure.UploadRefusals

/-! # Two processes and one store

`delete_prefix` waits for the PUTs of its own process only; the other process learns of
the deletion when it next lists the tombstones. A PUT of that process that takes effect
after the deletion has made its listing stays in the store. As long as no PUT comes so
late, nothing is left behind.

The processes share one file system here. It is edited freely, so two separate ones are
no more general.
-/

namespace DiscordTranscript.Infrastructure

inductive Side where
  | left
  | right
  deriving DecidableEq

def Side.other : Side → Side
  | .left => .right
  | .right => .left

structure SharedStore where
  process : Side → Process
  world : World

/-- One step of one of the processes. -/
def SharedStore.step (shared : SharedStore) (input : Side × ProcessInput) : SharedStore :=
  let (process, world) := (shared.process input.1).step shared.world input.2
  { process := Function.update shared.process input.1 { process with steps := process.steps + 1 }
    world := world }

/-- Two processes with the same key prefix that have just started on a store. -/
def SharedStore.new (keyPrefix : String) (storageDir : Side → List String)
    (objects : AList (fun _ : String => List UInt8)) (files : List String → Option (List UInt8)) :
    SharedStore :=
  { process := fun side => .new keyPrefix (storageDir side)
    world := { objects := objects, files := files } }

/-- No call, no deletion and no write is under way. -/
def Process.Idle (process : Process) : Prop :=
  process.calls = [] ∧ process.deletes.length = 0 ∧ process.uploads.unsettled = []

instance (process : Process) : Decidable process.Idle :=
  inferInstanceAs (Decidable (process.calls = [] ∧ _ ∧ _))

/-- Nothing exists under a prefix whose deletion has succeeded. -/
def NothingLeftBehind (shared : SharedStore) : Prop :=
  ∀ side target count, (target, .ok count) ∈ (shared.process side).uploads.deleted →
    ∀ key, startsWith key target = true → shared.world.object key = none

/-! ## Late PUTs -/

/-- The prefixes of which the process has made the listing it deletes. -/
def Process.listed (process : Process) : List String :=
  (process.deletes.filterMap fun call =>
    match call.phase with
    | .deleteKeys _ => some call.target
    | _ => none) ++
  process.uploads.deleted.filterMap fun (target, result) =>
    match result with
    | .ok _ => some target
    | .error _ => none

/-- The listings that a PUT in this step can be too late for. A worker is never too late
for the deletions of its own process. -/
def SharedStore.listings (shared : SharedStore) (side : Side) : ProcessInput → List String
  | .work _ => (shared.process side.other).listed
  | _ => (shared.process side).listed ++ (shared.process side.other).listed

/-- The step's PUT, if it takes effect, is not under a prefix that has been listed. -/
def NoLatePut (shared : SharedStore) (input : Side × ProcessInput) : Prop :=
  ∀ key ∈ ((shared.process input.1).storing input.2).toList,
    ∀ target ∈ shared.listings input.1 input.2, startsWith key target = false

instance (shared : SharedStore) (input : Side × ProcessInput) :
    Decidable (NoLatePut shared input) :=
  inferInstanceAs (Decidable (∀ key ∈ _, _))

theorem Process.mem_listed {process : Process} {target : String} :
    target ∈ process.listed ↔ process.Listed target := by
  unfold listed Listed
  rw [List.mem_append, List.mem_filterMap, List.mem_filterMap]
  refine or_congr ⟨?_, ?_⟩ ⟨?_, ?_⟩
  · rintro ⟨call, hcall, hsome⟩
    split at hsome
    next keys hphase => exact ⟨call, hcall, Option.some.inj hsome, keys, hphase⟩
    next => cases hsome
  · rintro ⟨call, hcall, rfl, keys, hphase⟩
    exact ⟨call, hcall, by rw [hphase]⟩
  · rintro ⟨⟨start, result⟩, hentry, hsome⟩
    cases result with
    | ok count =>
        obtain rfl := Option.some.inj hsome
        exact ⟨count, hentry⟩
    | error error => cases hsome
  · rintro ⟨count, hentry⟩
    exact ⟨(target, .ok count), hentry, rfl⟩

/-! ## Runs without late PUTs -/

/-- Each process keeps the prefixes it deletes cleared. -/
structure SharedClear (shared : SharedStore) : Prop where
  cancelling : ∀ side, Cancelling (shared.process side)
  cleared : ∀ side target, Cleared target (shared.process side) shared.world

theorem SharedClear.new (keyPrefix : String) (storageDir : Side → List String)
    (objects : AList (fun _ : String => List UInt8)) (files : List String → Option (List UInt8)) :
    SharedClear (.new keyPrefix storageDir objects files) :=
  ⟨fun side => Cancelling.new keyPrefix (storageDir side), fun _ _ => ⟨nofun, nofun⟩⟩

theorem NoLatePut.storing_clear {shared : SharedStore} {side : Side} {input : ProcessInput}
    (hclear : SharedClear shared) (hlate : NoLatePut shared (side, input)) {key : String}
    (hstoring : (shared.process side).storing input = some key) {owner : Side} {target : String}
    (hlisted : (shared.process owner).Listed target) : startsWith key target = false := by
  have hkey : key ∈ ((shared.process side).storing input).toList := Option.mem_toList.mpr hstoring
  have hmem := Process.mem_listed.mpr hlisted
  by_cases howner : owner = side
  · subst howner
    cases input with
    | work input => exact (hclear.cancelling owner).storing_work hstoring hlisted
    | delete index input => exact hlate key hkey target (List.mem_append_left _ hmem)
    | begin _ | call _ _ | beginDelete _ | edit _ _ | tick _ | close => cases hstoring
  · have hother : owner = side.other := by
      cases owner <;> cases side <;> first | rfl | exact absurd rfl howner
    subst hother
    cases input with
    | work input => exact hlate key hkey target hmem
    | delete index input => exact hlate key hkey target (List.mem_append_right _ hmem)
    | begin _ | call _ _ | beginDelete _ | edit _ _ | tick _ | close => cases hstoring

theorem SharedClear.step {shared : SharedStore} (hclear : SharedClear shared)
    {input : Side × ProcessInput} (hlate : NoLatePut shared input) :
    SharedClear (shared.step input) := by
  obtain ⟨side, input⟩ := input
  refine ⟨fun owner => ?_, fun owner target => ?_⟩
  · by_cases howner : owner = side
    · subst howner
      simp only [SharedStore.step, Function.update_self]
      exact ((hclear.cancelling owner).step shared.world input).congr rfl rfl rfl
        (List.Subset.refl _) rfl rfl
    · simp only [SharedStore.step, Function.update_of_ne howner]
      exact hclear.cancelling owner
  · by_cases howner : owner = side
    · subst howner
      simp only [SharedStore.step, Function.update_self]
      refine ((hclear.cleared owner target).step ?_).congr rfl rfl
      exact fun key hstoring hlisted => hlate.storing_clear hclear hstoring hlisted
    · simp only [SharedStore.step, Function.update_of_ne howner]
      refine (hclear.cleared owner target).world_mono fun key hkey hlisted hsome => ?_
      rcases (shared.process side).object_of_step shared.world input hsome with hold | hnew
      · exact hold
      · rw [hlate.storing_clear hclear hnew hlisted] at hkey
        cases hkey

/-- In every run of the two processes in which no PUT takes effect under a prefix after
its deletion has made its listing, every state has nothing left under a prefix whose
deletion has succeeded. -/
theorem nothing_left_behind_without_late_put (keyPrefix : String) (storageDir : Side → List String)
    (objects : AList (fun _ : String => List UInt8)) (files : List String → Option (List UInt8))
    (inputs : List (Side × ProcessInput))
    (hsteps : Machine.EveryStep SharedStore.step NoLatePut
      (.new keyPrefix storageDir objects files) inputs) :
    Machine.Always SharedStore.step NothingLeftBehind (.new keyPrefix storageDir objects files)
      inputs := by
  have halways : Machine.Always SharedStore.step SharedClear
      (.new keyPrefix storageDir objects files) inputs :=
    Machine.always_of_everyStep SharedStore.step (fun _ _ hclear hlate => hclear.step hlate)
      (SharedClear.new keyPrefix storageDir objects files) hsteps
  refine Machine.Always.mono SharedStore.step ?_ halways
  exact fun shared hclear side target count hentry =>
    (hclear.cleared side target).deleted count hentry

/-- A chunk is enqueued and the worker takes that many steps. -/
def putChunk (steps : ℕ) : List ProcessInput :=
  ProcessInput.begin (.putBytes ["guild", "chunk.wav"] [1]) ::
    List.replicate 6 (ProcessInput.call 0 {}) ++ List.replicate steps (ProcessInput.work {})

/-- The recording of the chunk is deleted from beginning to end. -/
def deleteRecording : List ProcessInput :=
  .beginDelete "recordings/guild/" :: List.replicate 6 (.delete 0 {})

/-- The worker on the right has stored a chunk when the left deletes its recording. -/
def deleteAfterPut : List (Side × ProcessInput) :=
  (putChunk 15).map (Side.right, ·) ++ deleteRecording.map (Side.left, ·)

theorem nothing_left_after_put :
    let shared := Machine.run SharedStore.step
      (.new "recordings/" (fun _ => []) ∅ fun _ => none) deleteAfterPut
    shared.world.removed = ["recordings/guild/chunk.wav"] ∧ NothingLeftBehind shared := by
  have hsteps : Machine.EveryStep SharedStore.step NoLatePut
      (.new "recordings/" (fun _ => []) ∅ fun _ => none) deleteAfterPut := by
    decide +kernel
  have halways := nothing_left_behind_without_late_put "recordings/" (fun _ => []) ∅ (fun _ => none)
    deleteAfterPut hsteps
  exact ⟨by decide +kernel, halways.run⟩

/-! ## A PUT that comes late -/

/-- The worker on the right has started its PUT when the left deletes the recording. -/
def deleteBeforePut : List (Side × ProcessInput) :=
  (putChunk 7).map (Side.right, ·) ++ deleteRecording.map (Side.left, ·)

/-- The PUT takes effect and the worker goes on until it has nothing to do. -/
def finishPut : List (Side × ProcessInput) := List.replicate 9 (.right, .work {})

/-- The deletion has succeeded, no write has been accepted since, both processes are idle,
the late write is durable, and its object is in the store. -/
theorem late_put_survives_deletion :
    let shared := Machine.run SharedStore.step
      (.new "recordings/" (fun _ => []) ∅ fun _ => none) deleteBeforePut
    let later := Machine.run SharedStore.step shared finishPut
    ("recordings/guild/", .ok 0) ∈ (shared.process .left).uploads.deleted ∧
      (∀ side, (later.process side).Idle ∧
        (later.process side).uploads.accepted = (shared.process side).uploads.accepted) ∧
      (later.process .right).uploads.settled.map Prod.snd = [.durable] ∧
      later.world.object "recordings/guild/chunk.wav" = some [1] ∧
      ¬NothingLeftBehind later := by
  intro shared later
  have hdeleted : ("recordings/guild/", .ok 0) ∈ (shared.process .left).uploads.deleted := by
    decide +kernel
  have hobject : later.world.object "recordings/guild/chunk.wav" = some [1] := by
    decide +kernel
  refine ⟨hdeleted, ?_, by decide +kernel, hobject, ?_⟩
  · intro side
    cases side <;> decide +kernel
  · intro hnothing
    have hstill : ("recordings/guild/", .ok 0) ∈ (later.process .left).uploads.deleted := by
      decide +kernel
    rw [hnothing .left "recordings/guild/" 0 hstill "recordings/guild/chunk.wav" (by decide)]
      at hobject
    cases hobject

end DiscordTranscript.Infrastructure
