import DiscordTranscript.Foundation.Runs
import DiscordTranscript.Foundation.Slots

/-! # Caches with one refresh in flight

The model of the bot token cache and of the guild cache of `interfaces/web.rs`. A
caller that finds neither an unexpired result nor a fresh refresh becomes the leader
of a refresh, calls the resolver outside the lock and comes back to store what it
resolved, unless it was overtaken or the cache was invalidated meanwhile. The two
caches differ in their times and in what a leader does that was invalidated.

Every section under the lock is one step, and any number of callers interleave.
Times are milliseconds; steps are counted so that what came first can be told.
-/

namespace DiscordTranscript.Interfaces

open Slots

abbrev StatusCode := ℕ

def StatusCode.serviceUnavailable : StatusCode := 503
def StatusCode.gatewayTimeout : StatusCode := 504

/-- A result, with the step in which the call of the resolver began that gave it. -/
structure Resolved (α : Type) where
  value : α
  startedAt : ℕ

/-! ## The cache -/

variable {α : Type}

/-- What the caches differ in. A leader that was invalidated answers `staleStatus`, or tries
again where there is none. -/
structure RefreshPolicy (α : Type) where
  ttlSecs : ℕ
  failureTtlSecs : ℕ
  inflightSecs : ℕ
  staleStatus : Option StatusCode
  present : α → α

/-- The cache holds tokens and answers authorization headers. -/
def botTokenPolicy : RefreshPolicy String where
  ttlSecs := 300
  failureTtlSecs := 5
  inflightSecs := 5
  staleStatus := none
  present token := "Bot " ++ token

def guildPolicy : RefreshPolicy α where
  ttlSecs := 15
  failureTtlSecs := 5
  inflightSecs := 5
  staleStatus := some .serviceUnavailable
  present guild := guild

/-- A refresh in flight; `notify` is the identity of its notifier. -/
structure RefreshEntry where
  notify : ℕ
  startedAt : ℕ

structure RefreshCache (α : Type) where
  entry : Option (Resolved α × ℕ) := none
  failure : Option (Resolved StatusCode × ℕ) := none
  refresh : Option RefreshEntry := none
  revision : ℕ := 0

namespace RefreshCache

def cachedResult (cache : RefreshCache α) (policy : RefreshPolicy α) (clock : ℕ) :
    Option (Resolved (Except StatusCode α)) :=
  match cache.entry.filter fun (_, expiresAt) => clock < expiresAt with
  | some (entry, _) => some ⟨.ok (policy.present entry.value), entry.startedAt⟩
  | none =>
      (cache.failure.filter fun (_, expiresAt) => clock < expiresAt).map fun (failure, _) =>
        ⟨.error failure.value, failure.startedAt⟩

/-- The notifier of a refresh that is not stale. Whole seconds are compared. -/
def freshRefreshNotify (cache : RefreshCache α) (policy : RefreshPolicy α) (clock : ℕ) : Option ℕ :=
  (cache.refresh.filter fun refresh =>
    (clock - refresh.startedAt) / 1000 < policy.inflightSecs).map (·.notify)

/-- `invalidate_guild_cache`, and the same section of `invalidate_discord_caches`. -/
def invalidate (cache : RefreshCache α) : RefreshCache α :=
  { revision := cache.revision + 1 }

end RefreshCache

/-! ## A caller -/

/-- Where a caller stands: the section or the wait it comes to next. -/
inductive RefreshCaller (α : Type) where
  | reading
  | waiting (notify deadline : ℕ)
  | writing
  | starting (observedRevision notify : ℕ)
  | resolving (observedRevision notify startedAt : ℕ)
  | completing (observedRevision notify : ℕ) (resolved : Resolved (Except StatusCode α))

/-- What a section ends with: another phase, or an answer and the call of the resolver it
comes from, if it comes from one. -/
inductive RefreshMove (α : Type) where
  | goTo (phase : RefreshCaller α)
  | answer (result : Except StatusCode α) (startedAt : Option ℕ)

namespace RefreshCache

variable (cache : RefreshCache α) (policy : RefreshPolicy α) (clock : ℕ)

/-- What both sections before a refresh look for. -/
def lookUp (otherwise : RefreshCache α × RefreshMove α) : RefreshCache α × RefreshMove α :=
  match cache.cachedResult policy clock with
  | some cached => (cache, .answer cached.value (some cached.startedAt))
  | none =>
      match cache.freshRefreshNotify policy clock with
      | some notify => (cache, .goTo (.waiting notify (clock + policy.inflightSecs * 1000)))
      | none => otherwise

/-- The section in which a caller becomes the leader, in the place of a stale one. -/
def lead (notify : ℕ) : RefreshCache α × RefreshMove α :=
  cache.lookUp policy clock
    ({ cache with refresh := some ⟨notify, clock⟩ }, .goTo (.starting cache.revision notify))

def stale : RefreshMove α :=
  match policy.staleStatus with
  | some status => .answer (.error status) none
  | none => .goTo .reading

def store (resolved : Resolved (Except StatusCode α)) : RefreshCache α × RefreshMove α :=
  match resolved.value with
  | .ok value =>
      ({ cache with
         entry := some (⟨value, resolved.startedAt⟩, clock + policy.ttlSecs * 1000)
         failure := none }, .answer (.ok (policy.present value)) (some resolved.startedAt))
  | .error status =>
      ({ cache with
         failure := some (⟨status, resolved.startedAt⟩, clock + policy.failureTtlSecs * 1000) },
        .answer (.error status) (some resolved.startedAt))

/-- The section after the resolver has returned. -/
def complete (observedRevision notify : ℕ) (resolved : Resolved (Except StatusCode α)) :
    RefreshCache α × RefreshMove α :=
  if cache.refresh.any fun refresh => refresh.notify = notify then
    let cache := { cache with refresh := none }
    match cache.cachedResult policy clock with
    | some cached => (cache, .answer cached.value (some cached.startedAt))
    | none =>
        if cache.revision ≠ observedRevision then (cache, stale policy)
        else cache.store policy clock resolved
  else (cache, if cache.revision ≠ observedRevision then stale policy else .goTo .reading)

end RefreshCache

/-! ## Any number of callers -/

/-- What a caller answered, and when the cache had last been invalidated. -/
structure RefreshReturn (α : Type) where
  result : Except StatusCode α
  startedAt : Option ℕ
  invalidatedAt : ℕ

/-- The cache and its callers. `steps`, `invalidatedAt` (the step of the last invalidation,
zero before the first) and `returned` are history. -/
structure RefreshSystem (α : Type) where
  cache : RefreshCache α := {}
  callers : List (RefreshCaller α) := []
  clock : ℕ := 0
  nextNotify : ℕ := 0
  steps : ℕ := 0
  invalidatedAt : ℕ := 0
  returned : List (RefreshReturn α) := []

/-- `advance` takes a caller through its next section, or ends its wait, be it notified or
timed out. A cancelled caller is dropped where it stands. -/
inductive RefreshInput (α : Type) where
  | arrive
  | advance (index : ℕ)
  | resolve (index : ℕ) (result : Except StatusCode α)
  | cancel (index : ℕ)
  | invalidate
  | tick (elapsed : ℕ)

namespace RefreshSystem

variable (policy : RefreshPolicy α) (system : RefreshSystem α)

/-- The end of a section of the caller at an index. -/
def conclude (index : ℕ) : RefreshCache α × RefreshMove α → RefreshSystem α
  | (cache, .goTo phase) =>
      { system with cache := cache, callers := advanceAt system.callers index (some phase) }
  | (cache, .answer result startedAt) =>
      { system with
        cache := cache
        callers := advanceAt system.callers index none
        returned := system.returned ++ [⟨result, startedAt, system.invalidatedAt⟩] }

def advance (index : ℕ) : RefreshCaller α → RefreshSystem α
  | .reading =>
      system.conclude index
        (system.cache.lookUp policy system.clock (system.cache, .goTo .writing))
  | .waiting _ _ => system.conclude index (system.cache, .goTo .reading)
  | .writing =>
      { system.conclude index (system.cache.lead policy system.clock system.nextNotify) with
        nextNotify := system.nextNotify + 1 }
  | .starting observedRevision notify =>
      system.conclude index
        (system.cache, .goTo (.resolving observedRevision notify (system.steps + 1)))
  | .resolving _ _ _ => system
  | .completing observedRevision notify resolved =>
      system.conclude index
        (system.cache.complete policy system.clock observedRevision notify resolved)

def act : RefreshInput α → RefreshSystem α
  | .arrive => { system with callers := system.callers ++ [.reading] }
  | .advance index =>
      match system.callers[index]? with
      | some caller => system.advance policy index caller
      | none => system
  | .resolve index result =>
      match system.callers[index]? with
      | some (.resolving observedRevision notify startedAt) =>
          system.conclude index
            (system.cache, .goTo (.completing observedRevision notify ⟨result, startedAt⟩))
      | _ => system
  | .cancel index => { system with callers := advanceAt system.callers index none }
  | .invalidate =>
      { system with cache := system.cache.invalidate, invalidatedAt := system.steps + 1 }
  | .tick elapsed => { system with clock := system.clock + elapsed }

/-- One step; every step is counted. -/
def step (input : RefreshInput α) : RefreshSystem α :=
  { system.act policy input with steps := system.steps + 1 }

end RefreshSystem

/-- `bot_auth_header_from_cache_with_resolver`. -/
def botAuthHeaderStep : RefreshSystem String → RefreshInput String → RefreshSystem String :=
  RefreshSystem.step botTokenPolicy

/-- `guild_info_from_cache_with_resolver`, for any guild record. -/
def guildInfoStep : RefreshSystem α → RefreshInput α → RefreshSystem α :=
  RefreshSystem.step guildPolicy

/-! ## Nothing from before an invalidation -/

/-- The call began after the last invalidation. -/
def StartedSince (invalidatedAt : ℕ) (startedAt : Option ℕ) : Prop :=
  ∀ started ∈ startedAt, invalidatedAt < started

/-- As long as the revision is the one the leader observed, its call began after the last
invalidation. -/
def RefreshCaller.Fresh (revision invalidatedAt : ℕ) : RefreshCaller α → Prop
  | .reading | .waiting _ _ | .writing => True
  | .starting observed _ => observed ≤ revision
  | .resolving observed _ startedAt =>
      observed ≤ revision ∧ (revision = observed → invalidatedAt < startedAt)
  | .completing observed _ resolved =>
      observed ≤ revision ∧ (revision = observed → invalidatedAt < resolved.startedAt)

def RefreshMove.Fresh (revision invalidatedAt : ℕ) : RefreshMove α → Prop
  | .goTo phase => phase.Fresh revision invalidatedAt
  | .answer _ startedAt => StartedSince invalidatedAt startedAt

structure RefreshCache.Fresh (cache : RefreshCache α) (invalidatedAt : ℕ) : Prop where
  entry : StartedSince invalidatedAt (cache.entry.map (·.1.startedAt))
  failure : StartedSince invalidatedAt (cache.failure.map (·.1.startedAt))

/-- What a section leaves behind. -/
structure SectionFresh (before : RefreshCache α) (invalidatedAt : ℕ)
    (after : RefreshCache α × RefreshMove α) : Prop where
  cache : after.1.Fresh invalidatedAt
  move : after.2.Fresh before.revision invalidatedAt
  revision : after.1.revision = before.revision

namespace RefreshCache.Fresh

variable {cache : RefreshCache α} {policy : RefreshPolicy α} {clock invalidatedAt : ℕ}

theorem cachedResult (hfresh : cache.Fresh invalidatedAt)
    {cached : Resolved (Except StatusCode α)}
    (hcached : cache.cachedResult policy clock = some cached) :
    invalidatedAt < cached.startedAt := by
  unfold RefreshCache.cachedResult at hcached
  split at hcached
  next entry expiresAt hentry =>
    cases hcached
    have hmem : cache.entry = some (entry, expiresAt) := (Option.filter_eq_some_iff.mp hentry).1
    exact hfresh.entry _ (by rw [hmem]; rfl)
  next =>
    obtain ⟨⟨failure, expiresAt⟩, hfailure, rfl⟩ := Option.map_eq_some_iff.mp hcached
    have hmem : cache.failure = some (failure, expiresAt) :=
      (Option.filter_eq_some_iff.mp hfailure).1
    exact hfresh.failure _ (by rw [hmem]; rfl)

theorem answer (hfresh : cache.Fresh invalidatedAt) {cached : Resolved (Except StatusCode α)}
    (hcached : cache.cachedResult policy clock = some cached) :
    SectionFresh cache invalidatedAt (cache, .answer cached.value (some cached.startedAt)) := by
  refine ⟨hfresh, fun started hstarted => ?_, rfl⟩
  cases hstarted
  exact hfresh.cachedResult hcached

theorem goTo (hfresh : cache.Fresh invalidatedAt) (phase : RefreshCaller α)
    (hphase : phase.Fresh cache.revision invalidatedAt) :
    SectionFresh cache invalidatedAt (cache, .goTo phase) :=
  ⟨hfresh, hphase, rfl⟩

theorem lookUp (hfresh : cache.Fresh invalidatedAt) {otherwise : RefreshCache α × RefreshMove α}
    (hotherwise : SectionFresh cache invalidatedAt otherwise) :
    SectionFresh cache invalidatedAt (cache.lookUp policy clock otherwise) := by
  unfold RefreshCache.lookUp
  split
  next cached hcached => exact hfresh.answer hcached
  next =>
    split
    next => exact hfresh.goTo _ trivial
    next => exact hotherwise

theorem lead (hfresh : cache.Fresh invalidatedAt) (notify : ℕ) :
    SectionFresh cache invalidatedAt (cache.lead policy clock notify) :=
  hfresh.lookUp ⟨⟨hfresh.entry, hfresh.failure⟩, Nat.le_refl _, rfl⟩

theorem stale {revision : ℕ} :
    (RefreshCache.stale policy : RefreshMove α).Fresh revision invalidatedAt := by
  unfold RefreshCache.stale
  split
  next => exact nofun
  next => trivial

theorem store (hfresh : cache.Fresh invalidatedAt) {resolved : Resolved (Except StatusCode α)}
    (hstarted : invalidatedAt < resolved.startedAt) :
    SectionFresh cache invalidatedAt (cache.store policy clock resolved) := by
  have hsince : StartedSince invalidatedAt (some resolved.startedAt) := by
    intro started hsome
    cases hsome
    exact hstarted
  unfold RefreshCache.store
  split
  next => exact ⟨⟨hsince, nofun⟩, hsince, rfl⟩
  next => exact ⟨⟨hfresh.entry, hsince⟩, hsince, rfl⟩

theorem complete (hfresh : cache.Fresh invalidatedAt) {observed notify : ℕ}
    {resolved : Resolved (Except StatusCode α)}
    (hstarted : cache.revision = observed → invalidatedAt < resolved.startedAt) :
    SectionFresh cache invalidatedAt
      (cache.complete policy clock observed notify resolved) := by
  have hcleared : Fresh { cache with refresh := none } invalidatedAt :=
    ⟨hfresh.entry, hfresh.failure⟩
  unfold RefreshCache.complete
  split
  next =>
    simp only
    split
    next cached hcached =>
      obtain ⟨hcache, hmove, hrevision⟩ := hcleared.answer hcached
      exact ⟨hcache, hmove, hrevision⟩
    next =>
      split
      next => exact ⟨hcleared, stale, rfl⟩
      next hsame =>
        obtain ⟨hcache, hmove, hrevision⟩ := hcleared.store (hstarted (not_not.mp hsame))
        exact ⟨hcache, hmove, hrevision⟩
  next =>
    refine ⟨hfresh, ?_, rfl⟩
    simp only
    split
    next => exact stale
    next => trivial

end RefreshCache.Fresh

/-- What holds in every state: the cache holds nothing, and no answer carried anything, from
before the last invalidation. -/
structure RefreshSystem.Fresh (system : RefreshSystem α) : Prop where
  cache : system.cache.Fresh system.invalidatedAt
  callers : ∀ caller ∈ system.callers,
    caller.Fresh system.cache.revision system.invalidatedAt
  returned : ∀ answer ∈ system.returned, StartedSince answer.invalidatedAt answer.startedAt
  past : system.invalidatedAt ≤ system.steps

theorem RefreshSystem.steps_advance (policy : RefreshPolicy α) (system : RefreshSystem α)
    (index : ℕ) (caller : RefreshCaller α) :
    (system.advance policy index caller).steps = system.steps := by
  have hconclude : ∀ after, (system.conclude index after).steps = system.steps := by
    rintro ⟨cache, move⟩
    cases move <;> rfl
  cases caller with
  | resolving observed notify startedAt => rfl
  | reading | waiting _ _ | writing | starting _ _ | completing _ _ _ => exact hconclude _

namespace RefreshSystem.Fresh

variable {system : RefreshSystem α} {policy : RefreshPolicy α}

theorem new : ({} : RefreshSystem α).Fresh := by
  refine ⟨⟨?_, ?_⟩, ?_, ?_, Nat.le_refl _⟩ <;> intro _ hmem <;> cases hmem

theorem conclude (hfresh : system.Fresh) (index : ℕ) {after : RefreshCache α × RefreshMove α}
    (hafter : SectionFresh system.cache system.invalidatedAt after) :
    (system.conclude index after).Fresh := by
  obtain ⟨cache, move⟩ := after
  obtain ⟨hcache, hmove, hrevision⟩ := hafter
  have hcallers : ∀ caller ∈ system.callers, caller.Fresh cache.revision system.invalidatedAt := by
    rw [hrevision]
    exact hfresh.callers
  rw [← hrevision] at hmove
  cases move with
  | goTo phase =>
      refine ⟨hcache, forall_advanceAt hcallers fun other hother => ?_, hfresh.returned,
        hfresh.past⟩
      cases hother
      exact hmove
  | answer result startedAt =>
      refine ⟨hcache, forall_advanceAt hcallers nofun, ?_, hfresh.past⟩
      intro answer hanswer
      rcases List.mem_append.mp hanswer with hold | hnew
      · exact hfresh.returned answer hold
      · rw [List.mem_singleton.mp hnew]
        exact hmove

theorem advance (hfresh : system.Fresh) {index : ℕ} {caller : RefreshCaller α}
    (hcaller : caller ∈ system.callers) : (system.advance policy index caller).Fresh := by
  have hown := hfresh.callers caller hcaller
  cases caller with
  | reading => exact hfresh.conclude index (hfresh.cache.lookUp (hfresh.cache.goTo .writing trivial))
  | waiting notify deadline => exact hfresh.conclude index (hfresh.cache.goTo .reading trivial)
  | writing =>
      have hlead : SectionFresh system.cache system.invalidatedAt
          (system.cache.lead policy system.clock system.nextNotify) := hfresh.cache.lead _
      obtain ⟨hcache, hcallers, hreturned, hpast⟩ := hfresh.conclude index hlead
      exact ⟨hcache, hcallers, hreturned, hpast⟩
  | starting observed notify =>
      exact hfresh.conclude index (hfresh.cache.goTo (.resolving observed notify (system.steps + 1))
        ⟨hown, fun _ => Nat.lt_succ_of_le hfresh.past⟩)
  | resolving observed notify startedAt => exact hfresh
  | completing observed notify resolved =>
      exact hfresh.conclude index (hfresh.cache.complete hown.2)

/-- An invalidation empties the cache, and no leader has observed the new revision. -/
theorem invalidate (hfresh : system.Fresh) (policy : RefreshPolicy α) :
    (system.step policy .invalidate).Fresh := by
  refine ⟨⟨nofun, nofun⟩, ?_, hfresh.returned, Nat.le_refl _⟩
  intro caller hcaller
  have hown := hfresh.callers caller hcaller
  have hrevision : (system.step policy .invalidate).cache.revision = system.cache.revision + 1 :=
    rfl
  rw [hrevision]
  cases caller with
  | reading | waiting _ _ | writing => trivial
  | starting observed notify => exact Nat.le_succ_of_le hown
  | resolving observed notify startedAt =>
      refine ⟨Nat.le_succ_of_le hown.1, fun hsame => ?_⟩
      have hle := hown.1
      omega
  | completing observed notify resolved =>
      refine ⟨Nat.le_succ_of_le hown.1, fun hsame => ?_⟩
      have hle := hown.1
      omega

/-- The steps are counted and nothing else. -/
theorem count (hfresh : system.Fresh) {steps : ℕ} (hsteps : system.steps ≤ steps) :
    RefreshSystem.Fresh { system with steps := steps } :=
  ⟨hfresh.cache, hfresh.callers, hfresh.returned, Nat.le_trans hfresh.past hsteps⟩

theorem step (hfresh : system.Fresh) (input : RefreshInput α) :
    (system.step policy input).Fresh := by
  cases input with
  | invalidate => exact hfresh.invalidate policy
  | arrive =>
      refine ⟨hfresh.cache, ?_, hfresh.returned, Nat.le_succ_of_le hfresh.past⟩
      intro caller hcaller
      rcases List.mem_append.mp hcaller with hold | hnew
      · exact hfresh.callers caller hold
      · rw [List.mem_singleton.mp hnew]
        trivial
  | advance index =>
      cases hcaller : system.callers[index]? with
      | none =>
          simp only [RefreshSystem.step, act, hcaller]
          exact hfresh.count (Nat.le_succ _)
      | some caller =>
          simp only [RefreshSystem.step, act, hcaller]
          refine (hfresh.advance (List.mem_of_getElem? hcaller)).count ?_
          rw [steps_advance]
          exact Nat.le_succ _
  | resolve index result =>
      simp only [RefreshSystem.step, act]
      split
      next observed notify startedAt hcaller =>
        have hown := hfresh.callers _ (List.mem_of_getElem? hcaller)
        exact (hfresh.conclude index (hfresh.cache.goTo
          (.completing observed notify ⟨result, startedAt⟩) hown)).count (Nat.le_succ _)
      next => exact hfresh.count (Nat.le_succ _)
  | cancel index =>
      exact ⟨hfresh.cache, forall_advanceAt hfresh.callers nofun, hfresh.returned,
        Nat.le_succ_of_le hfresh.past⟩
  | tick elapsed => exact ⟨hfresh.cache, hfresh.callers, hfresh.returned, Nat.le_succ_of_le hfresh.past⟩

end RefreshSystem.Fresh

/-- In every run, what the cache holds and what was answered of a resolver comes from a call
that began after the last invalidation. -/
theorem RefreshSystem.run_fresh (policy : RefreshPolicy α) (inputs : List (RefreshInput α)) :
    (Machine.run (RefreshSystem.step policy) {} inputs).Fresh :=
  Machine.run_invariant (RefreshSystem.step policy) RefreshSystem.Fresh
    (fun _ input hfresh => hfresh.step input) RefreshSystem.Fresh.new inputs

end DiscordTranscript.Interfaces
