import Mathlib.Data.List.AList
import DiscordTranscript.Foundation.ExpiringMap
import DiscordTranscript.Interfaces.RefreshCache

/-! # The role snapshots of a guild's members

The model of `resolve_rbac_role_snapshot` in `interfaces/web.rs` and of the
invalidations of its cache. One caller for each guild and user leads and calls the
resolver, the others follow it; a dropped leader leaves a task behind that gives its
place up. As for the other caches, every section under the lock is one step.
-/

namespace DiscordTranscript.Interfaces

open Slots

inductive RbacPermission where
  | recordingStart
  | recordingStop
  | meetingView
  | meetingReprocess
  | meetingDelete
  | settingsManage
  | summaryTemplateManage
  | domainKnowledgeManage
  | usageView
  | adminView
  deriving DecidableEq

structure RbacRoleGrant where
  guildId : String
  discordRoleId : String
  permission : RbacPermission
  deriving DecidableEq

inductive RbacRoleResolution where
  | available (isAdmin : Bool) (memberRoles : List String) (roleGrants : List RbacRoleGrant)
  | memberLookupFailed (status : StatusCode)

def rbacRoleResolutionTtlSecs : ℕ := 5
def rbacRoleResolutionFailureBackoffSecs : ℕ := 1
def permissionCheckMaxStaleRetries : ℕ := 2
def rbacRoleResolutionLimit : ℕ := 10000

/-- A guild and a user. -/
abbrev RbacKey := String × String

abbrev RbacResult := Except StatusCode RbacRoleResolution

/-- A watch channel is known by a number. -/
structure RbacRoleResolutionCache where
  entries : ExpiringMap RbacKey (Resolved RbacResult) := []
  inFlight : AList (fun _ : RbacKey => ℕ) := ∅
  revision : ℕ := 0

def rbacResultTtlSecs : RbacResult → ℕ
  | .ok (.available _ _ _) => rbacRoleResolutionTtlSecs
  | .ok (.memberLookupFailed _) | .error _ => rbacRoleResolutionFailureBackoffSecs

/-! ## A caller -/

/-- Where a caller stands. A leader's guard is armed until it has completed. -/
inductive RbacPhase where
  | starting
  | following (sender : ℕ)
  | leading (sender observedRevision : ℕ)
  | resolving (sender observedRevision startedAt : ℕ)
  | completing (sender observedRevision : ℕ) (resolved : Resolved RbacResult)

/-- A caller in one of its rounds; `roundsLeft` are those after it. -/
structure RbacCaller where
  key : RbacKey
  roundsLeft : ℕ
  phase : RbacPhase

/-- What a section ends with. -/
inductive RbacMove where
  | goTo (caller : RbacCaller)
  | answer (result : RbacResult) (startedAt : Option ℕ)

/-- What is left of the caller. -/
def RbacMove.next : RbacMove → Option RbacCaller
  | .goTo caller => some caller
  | .answer _ _ => none

namespace RbacCaller

variable (caller : RbacCaller)

def toPhase (phase : RbacPhase) : RbacMove := .goTo { caller with phase := phase }

/-- The next round of the loop, or its end. -/
def nextRound : RbacMove :=
  match caller.roundsLeft with
  | 0 => .answer (.error .serviceUnavailable) none
  | left + 1 => .goTo { caller with roundsLeft := left, phase := .starting }

/-- The channel of a leader. -/
def sender : Option ℕ :=
  match caller.phase with
  | .starting | .following _ => none
  | .leading sender _ | .resolving sender _ _ | .completing sender _ _ => some sender

end RbacCaller

namespace RbacRoleResolutionCache

variable (cache : RbacRoleResolutionCache) (clock : ℕ) (caller : RbacCaller)

/-- The section in which a caller finds a result or a leader, or becomes one. -/
def start (nextSender : ℕ) : RbacRoleResolutionCache × RbacMove :=
  match cache.entries.get caller.key clock with
  | some cached => (cache, .answer cached.value (some cached.startedAt))
  | none =>
      let cache := { cache with entries := cache.entries.remove caller.key }
      match cache.inFlight.lookup caller.key with
      | some sender => (cache, caller.toPhase (.following sender))
      | none =>
          ({ cache with inFlight := cache.inFlight.insert caller.key nextSender },
            caller.toPhase (.leading nextSender cache.revision))

/-- The section after the resolver has returned or timed out. -/
def complete (observedRevision : ℕ) (resolved : Resolved RbacResult) :
    RbacRoleResolutionCache × RbacMove :=
  let cache := { cache with inFlight := cache.inFlight.erase caller.key }
  if cache.revision ≠ observedRevision then (cache, caller.nextRound)
  else
    let expiresAt := clock + rbacResultTtlSecs resolved.value * 1000
    ({ cache with
       entries := (cache.entries.insert caller.key resolved expiresAt).evict
         rbacRoleResolutionLimit clock },
      .answer resolved.value (some resolved.startedAt))

/-- The task of a dropped guard. -/
def cleanUp (key : RbacKey) (sender : ℕ) : RbacRoleResolutionCache :=
  if cache.inFlight.lookup key = some sender then
    { cache with inFlight := cache.inFlight.erase key }
  else cache

/-- `invalidate_rbac_role_resolution_cache_for_guild` -/
def invalidateGuild (guildId : String) : RbacRoleResolutionCache :=
  { cache with
    entries := cache.entries.retainKeys fun key => key.1 ≠ guildId
    revision := cache.revision + 1 }

/-- `clear_rbac_role_resolution_cache` -/
def clear : RbacRoleResolutionCache :=
  { cache with entries := [], revision := cache.revision + 1 }

end RbacRoleResolutionCache

/-! ## Any number of callers -/

structure RbacReturn where
  key : RbacKey
  result : RbacResult
  startedAt : Option ℕ
  invalidatedAt : ℕ

/-- The cache, its callers and the tasks of dropped leaders. `steps`, `invalidatedAt` (for
each guild the step of its last invalidation) and `returned` are history. -/
structure RbacSystem where
  cache : RbacRoleResolutionCache := {}
  callers : List RbacCaller := []
  cleanups : List (RbacKey × ℕ) := []
  clock : ℕ := 0
  nextSender : ℕ := 0
  steps : ℕ := 0
  invalidatedAt : String → ℕ := fun _ => 0
  returned : List RbacReturn := []

/-- `advance` also ends the wait of a follower that was notified; `timeout` ends the wait of
a follower or of a resolver. -/
inductive RbacInput where
  | arrive (key : RbacKey)
  | advance (index : ℕ)
  | resolve (index : ℕ) (result : RbacResult)
  | timeout (index : ℕ)
  | cancel (index : ℕ)
  | cleanUp (index : ℕ)
  | invalidateGuild (guildId : String)
  | clear
  | tick (elapsed : ℕ)

namespace RbacSystem

variable (system : RbacSystem)

def conclude (index : ℕ) (caller : RbacCaller) :
    RbacRoleResolutionCache × RbacMove → RbacSystem
  | (cache, .goTo next) =>
      { system with cache := cache, callers := advanceAt system.callers index (some next) }
  | (cache, .answer result startedAt) =>
      { system with
        cache := cache
        callers := advanceAt system.callers index none
        returned := system.returned ++
          [⟨caller.key, result, startedAt, system.invalidatedAt caller.key.1⟩] }

def advance (index : ℕ) (caller : RbacCaller) : RbacSystem :=
  match caller.phase with
  | .starting =>
      { system.conclude index caller
          (system.cache.start system.clock caller system.nextSender) with
        nextSender := system.nextSender + 1 }
  | .following _ => system.conclude index caller (system.cache, caller.nextRound)
  | .leading sender observedRevision =>
      system.conclude index caller
        (system.cache, caller.toPhase (.resolving sender observedRevision (system.steps + 1)))
  | .resolving _ _ _ => system
  | .completing _ observedRevision resolved =>
      system.conclude index caller
        (system.cache.complete system.clock caller observedRevision resolved)

/-- The resolver of a caller ends. -/
def resolve (index : ℕ) (caller : RbacCaller) (result : RbacResult) : RbacSystem :=
  match caller.phase with
  | .resolving sender observedRevision startedAt =>
      system.conclude index caller
        (system.cache, caller.toPhase (.completing sender observedRevision ⟨result, startedAt⟩))
  | _ => system

def timeout (index : ℕ) (caller : RbacCaller) : RbacSystem :=
  match caller.phase with
  | .following _ =>
      system.conclude index caller (system.cache, .answer (.error .gatewayTimeout) none)
  | _ => system.resolve index caller (.error .gatewayTimeout)

/-- A caller is dropped; the guard of a leader spawns its task. -/
def cancel (index : ℕ) (caller : RbacCaller) : RbacSystem :=
  { system with
    callers := advanceAt system.callers index none
    cleanups := system.cleanups ++ caller.sender.toList.map fun sender => (caller.key, sender) }

def act : RbacInput → RbacSystem
  | .arrive key =>
      { system with
        callers := system.callers ++ [⟨key, permissionCheckMaxStaleRetries, .starting⟩] }
  | .advance index => (system.callers[index]?).elim system (system.advance index)
  | .resolve index result =>
      (system.callers[index]?).elim system fun caller => system.resolve index caller result
  | .timeout index => (system.callers[index]?).elim system (system.timeout index)
  | .cancel index => (system.callers[index]?).elim system (system.cancel index)
  | .cleanUp index =>
      (system.cleanups[index]?).elim system fun task =>
        { system with
          cache := system.cache.cleanUp task.1 task.2
          cleanups := advanceAt system.cleanups index none }
  | .invalidateGuild guildId =>
      { system with
        cache := system.cache.invalidateGuild guildId
        invalidatedAt := Function.update system.invalidatedAt guildId (system.steps + 1) }
  | .clear =>
      { system with
        cache := system.cache.clear
        invalidatedAt := fun _ => system.steps + 1 }
  | .tick elapsed => { system with clock := system.clock + elapsed }

/-- One step; every step is counted. -/
def step (input : RbacInput) : RbacSystem :=
  { system.act input with steps := system.steps + 1 }

end RbacSystem

/-! ## Nothing from before an invalidation -/

/-- As long as the revision is the one the leader observed, its call began after the last
invalidation of its guild. -/
def RbacCaller.Fresh (revision : ℕ) (invalidatedAt : String → ℕ) (caller : RbacCaller) : Prop :=
  match caller.phase with
  | .starting | .following _ => True
  | .leading _ observed => observed ≤ revision
  | .resolving _ observed startedAt =>
      observed ≤ revision ∧ (revision = observed → invalidatedAt caller.key.1 < startedAt)
  | .completing _ observed resolved =>
      observed ≤ revision ∧ (revision = observed → invalidatedAt caller.key.1 < resolved.startedAt)

def RbacMove.Fresh (revision : ℕ) (invalidatedAt : String → ℕ) (guildId : String) :
    RbacMove → Prop
  | .goTo caller => caller.Fresh revision invalidatedAt
  | .answer _ startedAt => StartedSince (invalidatedAt guildId) startedAt

def RbacRoleResolutionCache.Fresh (cache : RbacRoleResolutionCache) (invalidatedAt : String → ℕ) :
    Prop :=
  ∀ entry ∈ cache.entries, invalidatedAt entry.1.1 < entry.2.1.startedAt

/-- What a section of a caller leaves behind. -/
structure RbacSectionFresh (before : RbacRoleResolutionCache) (invalidatedAt : String → ℕ)
    (guildId : String) (after : RbacRoleResolutionCache × RbacMove) : Prop where
  cache : after.1.Fresh invalidatedAt
  move : after.2.Fresh before.revision invalidatedAt guildId
  revision : after.1.revision = before.revision

theorem RbacCaller.nextRound_fresh (caller : RbacCaller) (revision : ℕ)
    (invalidatedAt : String → ℕ) :
    caller.nextRound.Fresh revision invalidatedAt caller.key.1 := by
  unfold nextRound
  split
  next => exact nofun
  next => trivial

namespace RbacRoleResolutionCache.Fresh

variable {cache : RbacRoleResolutionCache} {invalidatedAt : String → ℕ} {clock : ℕ}
  {caller : RbacCaller}

theorem start (hfresh : cache.Fresh invalidatedAt) (nextSender : ℕ) :
    RbacSectionFresh cache invalidatedAt caller.key.1 (cache.start clock caller nextSender) := by
  have hremoved : ∀ entry ∈ cache.entries.remove caller.key,
      invalidatedAt entry.1.1 < entry.2.1.startedAt :=
    fun entry hentry => hfresh entry (List.mem_of_mem_filter hentry)
  unfold RbacRoleResolutionCache.start
  split
  next cached hcached =>
    obtain ⟨expiresAt, hmem⟩ := ExpiringMap.mem_of_get hcached
    refine ⟨hfresh, fun started hstarted => ?_, rfl⟩
    cases hstarted
    exact hfresh _ hmem
  next =>
    simp only
    split
    next => exact ⟨hremoved, trivial, rfl⟩
    next => exact ⟨hremoved, Nat.le_refl _, rfl⟩

theorem complete (hfresh : cache.Fresh invalidatedAt) {observed : ℕ}
    {resolved : Resolved RbacResult}
    (hstarted : cache.revision = observed → invalidatedAt caller.key.1 < resolved.startedAt) :
    RbacSectionFresh cache invalidatedAt caller.key.1
      (cache.complete clock caller observed resolved) := by
  unfold RbacRoleResolutionCache.complete
  simp only
  split
  next => exact ⟨hfresh, caller.nextRound_fresh _ _, rfl⟩
  next hsame =>
    have hsince := hstarted (not_not.mp hsame)
    refine ⟨?_, fun started hsome => ?_, rfl⟩
    · exact ExpiringMap.forall_evict_insert
        (P := fun (key : RbacKey) (resolved : Resolved RbacResult) =>
          invalidatedAt key.1 < resolved.startedAt) hfresh hsince
    · cases hsome
      exact hsince

end RbacRoleResolutionCache.Fresh

namespace RbacSystem

variable (system : RbacSystem) (index : ℕ) (caller : RbacCaller)

theorem steps_conclude (after : RbacRoleResolutionCache × RbacMove) :
    (system.conclude index caller after).steps = system.steps := by
  obtain ⟨cache, move⟩ := after
  cases move <;> rfl

theorem steps_advance : (system.advance index caller).steps = system.steps := by
  unfold advance
  split
  next => exact system.steps_conclude index caller _
  next => exact system.steps_conclude index caller _
  next => exact system.steps_conclude index caller _
  next => rfl
  next => exact system.steps_conclude index caller _

theorem steps_resolve (result : RbacResult) :
    (system.resolve index caller result).steps = system.steps := by
  unfold resolve
  split
  next => exact system.steps_conclude index caller _
  next => rfl

theorem steps_timeout : (system.timeout index caller).steps = system.steps := by
  unfold timeout
  split
  next => exact system.steps_conclude index caller _
  next => exact system.steps_resolve index caller _

end RbacSystem

/-- What holds in every state: the cache holds nothing, and no answer carried anything, from
before the last invalidation of its guild. -/
structure RbacSystem.Fresh (system : RbacSystem) : Prop where
  cache : system.cache.Fresh system.invalidatedAt
  callers : ∀ caller ∈ system.callers,
    caller.Fresh system.cache.revision system.invalidatedAt
  returned : ∀ answer ∈ system.returned, StartedSince answer.invalidatedAt answer.startedAt
  past : ∀ guildId, system.invalidatedAt guildId ≤ system.steps

namespace RbacSystem.Fresh

variable {system : RbacSystem} {caller : RbacCaller}

theorem new : ({} : RbacSystem).Fresh := by
  refine ⟨?_, ?_, ?_, fun _ => Nat.le_refl _⟩ <;> intro _ hmem <;> cases hmem

theorem conclude (hfresh : system.Fresh) (index : ℕ)
    {after : RbacRoleResolutionCache × RbacMove}
    (hafter : RbacSectionFresh system.cache system.invalidatedAt caller.key.1 after) :
    (system.conclude index caller after).Fresh := by
  obtain ⟨cache, move⟩ := after
  obtain ⟨hcache, hmove, hrevision⟩ := hafter
  have hcallers : ∀ caller ∈ system.callers,
      caller.Fresh cache.revision system.invalidatedAt := by
    rw [hrevision]
    exact hfresh.callers
  rw [← hrevision] at hmove
  cases move with
  | goTo next =>
      refine ⟨hcache, forall_advanceAt hcallers fun other hother => ?_, hfresh.returned,
        hfresh.past⟩
      cases hother
      exact hmove
  | answer result startedAt =>
      refine ⟨hcache, forall_advanceAt hcallers nofun, ?_, hfresh.past⟩
      intro answer hanswer
      rcases List.mem_append.mp hanswer with hold | hnew
      · exact hfresh.returned answer hold
      · rw [List.mem_singleton.mp hnew]
        exact hmove

/-- A section that leaves the cache as it is. -/
theorem goOn (hfresh : system.Fresh) (index : ℕ) (caller : RbacCaller) (move : RbacMove)
    (hmove : move.Fresh system.cache.revision system.invalidatedAt caller.key.1) :
    (system.conclude index caller (system.cache, move)).Fresh :=
  hfresh.conclude index ⟨hfresh.cache, hmove, rfl⟩

theorem advance (hfresh : system.Fresh) (index : ℕ) (hcaller : caller ∈ system.callers) :
    (system.advance index caller).Fresh := by
  have hown := hfresh.callers caller hcaller
  obtain ⟨key, roundsLeft, phase⟩ := caller
  cases phase with
  | starting =>
      obtain ⟨hcache, hcallers, hreturned, hpast⟩ :=
        hfresh.conclude index (hfresh.cache.start system.nextSender)
      exact ⟨hcache, hcallers, hreturned, hpast⟩
  | following sender => exact hfresh.goOn index _ _ (RbacCaller.nextRound_fresh _ _ _)
  | leading sender observed =>
      exact hfresh.goOn index ⟨key, roundsLeft, .leading sender observed⟩
        (.goTo ⟨key, roundsLeft, .resolving sender observed (system.steps + 1)⟩)
        ⟨hown, fun _ => Nat.lt_succ_of_le (hfresh.past key.1)⟩
  | resolving sender observed startedAt => exact hfresh
  | completing sender observed resolved =>
      exact hfresh.conclude index (hfresh.cache.complete hown.2)

theorem resolve (hfresh : system.Fresh) (index : ℕ) (hcaller : caller ∈ system.callers)
    (result : RbacResult) : (system.resolve index caller result).Fresh := by
  have hown := hfresh.callers caller hcaller
  obtain ⟨key, roundsLeft, phase⟩ := caller
  cases phase with
  | resolving sender observed startedAt =>
      exact hfresh.goOn index ⟨key, roundsLeft, .resolving sender observed startedAt⟩
        (.goTo ⟨key, roundsLeft, .completing sender observed ⟨result, startedAt⟩⟩) hown
  | starting | following _ | leading _ _ | completing _ _ _ => exact hfresh

theorem timeout (hfresh : system.Fresh) (index : ℕ) (hcaller : caller ∈ system.callers) :
    (system.timeout index caller).Fresh := by
  unfold RbacSystem.timeout
  split
  next => exact hfresh.goOn index caller (.answer _ none) nofun
  next => exact hfresh.resolve index hcaller _

/-- After an invalidation no leader has observed the revision. -/
theorem callers_invalidated (hfresh : system.Fresh) (invalidatedAt : String → ℕ) :
    ∀ caller ∈ system.callers, caller.Fresh (system.cache.revision + 1) invalidatedAt := by
  intro caller hcaller
  have hown := hfresh.callers caller hcaller
  obtain ⟨key, roundsLeft, phase⟩ := caller
  cases phase with
  | starting | following _ => trivial
  | leading sender observed => exact Nat.le_succ_of_le hown
  | resolving sender observed startedAt =>
      refine ⟨Nat.le_succ_of_le hown.1, fun hsame => ?_⟩
      have hle := hown.1
      omega
  | completing sender observed resolved =>
      refine ⟨Nat.le_succ_of_le hown.1, fun hsame => ?_⟩
      have hle := hown.1
      omega

theorem count (hfresh : system.Fresh) {steps : ℕ} (hsteps : system.steps ≤ steps) :
    RbacSystem.Fresh { system with steps := steps } :=
  ⟨hfresh.cache, hfresh.callers, hfresh.returned,
    fun guildId => Nat.le_trans (hfresh.past guildId) hsteps⟩

/-- A step of the caller at an index, if there is one. -/
theorem caller_step (hfresh : system.Fresh) {index : ℕ} {act : RbacCaller → RbacSystem}
    (hact : ∀ caller ∈ system.callers, (act caller).Fresh)
    (hsteps : ∀ caller, (act caller).steps = system.steps) :
    RbacSystem.Fresh
      { (system.callers[index]?).elim system act with steps := system.steps + 1 } := by
  cases hcaller : system.callers[index]? with
  | none => exact hfresh.count (Nat.le_succ _)
  | some caller =>
      refine (hact caller (List.mem_of_getElem? hcaller)).count ?_
      rw [hsteps]
      exact Nat.le_succ _

theorem step (hfresh : system.Fresh) (input : RbacInput) : (system.step input).Fresh := by
  cases input with
  | arrive key =>
      refine ⟨hfresh.cache, ?_, hfresh.returned, fun guildId => Nat.le_succ_of_le (hfresh.past guildId)⟩
      intro caller hcaller
      rcases List.mem_append.mp hcaller with hold | hnew
      · exact hfresh.callers caller hold
      · rw [List.mem_singleton.mp hnew]
        trivial
  | advance index =>
      exact hfresh.caller_step (fun caller hcaller => hfresh.advance index hcaller)
        (system.steps_advance index)
  | resolve index result =>
      exact hfresh.caller_step (fun caller hcaller => hfresh.resolve index hcaller result)
        fun caller => system.steps_resolve index caller result
  | timeout index =>
      exact hfresh.caller_step (fun caller hcaller => hfresh.timeout index hcaller)
        (system.steps_timeout index)
  | cancel index =>
      exact hfresh.caller_step (fun caller _ =>
        ⟨hfresh.cache, forall_advanceAt hfresh.callers nofun, hfresh.returned, hfresh.past⟩)
        fun caller => rfl
  | cleanUp index =>
      simp only [RbacSystem.step, act]
      cases system.cleanups[index]? with
      | none => exact hfresh.count (Nat.le_succ _)
      | some task =>
          have hentries : (system.cache.cleanUp task.1 task.2).entries = system.cache.entries ∧
              (system.cache.cleanUp task.1 task.2).revision = system.cache.revision := by
            unfold RbacRoleResolutionCache.cleanUp
            split <;> exact ⟨rfl, rfl⟩
          refine ⟨?_, ?_, hfresh.returned, fun guildId => Nat.le_succ_of_le (hfresh.past guildId)⟩
          · intro entry hentry
            exact hfresh.cache entry (hentries.1 ▸ hentry)
          · intro caller hcaller
            have hown := hfresh.callers caller hcaller
            rwa [← hentries.2] at hown
  | invalidateGuild guildId =>
      refine ⟨?_, hfresh.callers_invalidated _, hfresh.returned, fun other => ?_⟩
      · intro entry hentry
        obtain ⟨hmem, hkept⟩ := List.mem_filter.mp hentry
        have hother : entry.1.1 ≠ guildId := of_decide_eq_true hkept
        have hinvalidated : (system.step (.invalidateGuild guildId)).invalidatedAt entry.1.1 =
            system.invalidatedAt entry.1.1 := Function.update_of_ne hother _ _
        rw [hinvalidated]
        exact hfresh.cache entry hmem
      · by_cases hother : other = guildId
        · subst hother
          exact Nat.le_of_eq (Function.update_self ..)
        · have hinvalidated : (system.step (.invalidateGuild guildId)).invalidatedAt other =
              system.invalidatedAt other := Function.update_of_ne hother _ _
          rw [hinvalidated]
          exact Nat.le_succ_of_le (hfresh.past other)
  | clear =>
      refine ⟨?_, hfresh.callers_invalidated _, hfresh.returned, fun _ => Nat.le_refl _⟩
      intro entry hentry
      cases hentry
  | tick elapsed =>
      exact ⟨hfresh.cache, hfresh.callers, hfresh.returned,
        fun guildId => Nat.le_succ_of_le (hfresh.past guildId)⟩

end RbacSystem.Fresh

/-! ## One call at a time -/

/-- The channels of the leaders and of the tasks that dropped leaders left. -/
def rbacSenders (callers : List RbacCaller) (cleanups : List (RbacKey × ℕ)) : List ℕ :=
  callers.filterMap (·.sender) ++ cleanups.map (·.2)

/-- Every leader has its key, and no channel is anyone else's. -/
structure RbacSystem.SingleFlight (system : RbacSystem) : Prop where
  flights : ∀ caller ∈ system.callers, ∀ sender ∈ caller.sender,
    system.cache.inFlight.lookup caller.key = some sender
  senders : (rbacSenders system.callers system.cleanups).Nodup
  drawn : ∀ sender ∈ rbacSenders system.callers system.cleanups, sender < system.nextSender

theorem rbacSenders_advanceAt (callers : List RbacCaller) (cleanups : List (RbacKey × ℕ))
    (index : ℕ) (next : Option RbacCaller) :
    (rbacSenders (advanceAt callers index next) cleanups).Perm
      ((next.bind (·.sender)).toList ++ rbacSenders (advanceAt callers index none) cleanups) := by
  cases next with
  | none => exact List.Perm.refl _
  | some next =>
      unfold rbacSenders
      rw [← List.append_assoc]
      refine List.Perm.append_right _ ?_
      refine ((advanceAt_some_perm callers index next).filterMap _).trans ?_
      rw [List.filterMap_cons]
      cases hsender : next.sender <;> simp [hsender]

theorem rbacSenders_perm {callers : List RbacCaller} (cleanups : List (RbacKey × ℕ)) {index : ℕ}
    {caller : RbacCaller} (hcaller : callers[index]? = some caller) :
    (rbacSenders callers cleanups).Perm
      (caller.sender.toList ++ rbacSenders (advanceAt callers index none) cleanups) := by
  unfold rbacSenders
  rw [← List.append_assoc]
  refine List.Perm.append_right _ ?_
  refine ((perm_cons_advanceAt hcaller).filterMap _).trans ?_
  rw [List.filterMap_cons]
  cases caller.sender <;> simp

namespace RbacSystem.SingleFlight

variable {system : RbacSystem} {index : ℕ} {caller : RbacCaller}

theorem new : ({} : RbacSystem).SingleFlight := by
  refine ⟨?_, List.nodup_nil, ?_⟩ <;> intro _ hmem <;> cases hmem

/-- A channel of the caller at an index is nobody else's. -/
theorem sender_notMem (hsingle : system.SingleFlight)
    (hcaller : system.callers[index]? = some caller) {sender : ℕ}
    (hsender : caller.sender = some sender) :
    sender ∉ rbacSenders (advanceAt system.callers index none) system.cleanups := by
  have hnodup := (rbacSenders_perm system.cleanups hcaller).nodup_iff.mp hsingle.senders
  rw [hsender, Option.toList_some, List.singleton_append, List.nodup_cons] at hnodup
  exact hnodup.1

/-- Two leaders with one key are one. -/
theorem leader_unique (hsingle : system.SingleFlight) {place : ℕ} {other : RbacCaller}
    (hcaller : system.callers[index]? = some caller) (hother : system.callers[place]? = some other)
    {sender otherSender : ℕ} (hsender : caller.sender = some sender)
    (hotherSender : other.sender = some otherSender) (hkey : other.key = caller.key) :
    place = index := by
  have hown := hsingle.flights caller (List.mem_of_getElem? hcaller) sender hsender
  have htheirs := hsingle.flights other (List.mem_of_getElem? hother) otherSender hotherSender
  rw [hkey, hown] at htheirs
  cases htheirs
  by_contra hne
  refine hsingle.sender_notMem hcaller hsender ?_
  refine List.mem_append_left _ (List.mem_filterMap.mpr ⟨other, ?_, hotherSender⟩)
  exact mem_advanceAt_of_ne hne hother none

/-- The caller at an index gives its channel up or keeps it. -/
theorem keeps (hsingle : system.SingleFlight) (hcaller : system.callers[index]? = some caller)
    (next : Option RbacCaller)
    (hnext : ∀ sender ∈ next.bind (·.sender), caller.sender = some sender) :
    (rbacSenders (advanceAt system.callers index next) system.cleanups).Nodup ∧
      ∀ sender ∈ rbacSenders (advanceAt system.callers index next) system.cleanups,
        sender < system.nextSender := by
  have hperm := rbacSenders_perm system.cleanups hcaller
  have hsublist : ((next.bind (·.sender)).toList ++
      rbacSenders (advanceAt system.callers index none) system.cleanups).Sublist
      (caller.sender.toList ++
        rbacSenders (advanceAt system.callers index none) system.cleanups) := by
    refine List.Sublist.append_right ?_ _
    cases hsender : next.bind (·.sender) with
    | none => exact List.nil_sublist _
    | some sender => rw [hnext sender hsender]
  have hafter := rbacSenders_advanceAt system.callers system.cleanups index next
  constructor
  · exact hafter.nodup_iff.mpr ((hperm.nodup_iff.mp hsingle.senders).sublist hsublist)
  · intro sender hmem
    exact hsingle.drawn sender (hperm.mem_iff.mpr (hsublist.subset (hafter.mem_iff.mp hmem)))

/-- The same of a whole section, after which the leaders have their keys. -/
theorem conclude (hsingle : system.SingleFlight) (hcaller : system.callers[index]? = some caller)
    {after : RbacRoleResolutionCache × RbacMove}
    (hnext : ∀ sender ∈ after.2.next.bind (·.sender), caller.sender = some sender)
    (hflights : ∀ other ∈ advanceAt system.callers index after.2.next, ∀ sender ∈ other.sender,
      after.1.inFlight.lookup other.key = some sender) :
    (system.conclude index caller after).SingleFlight := by
  obtain ⟨hnodup, hdrawn⟩ := hsingle.keeps hcaller after.2.next hnext
  obtain ⟨cache, move⟩ := after
  cases move with
  | goTo next => exact ⟨hflights, hnodup, hdrawn⟩
  | answer result startedAt => exact ⟨hflights, hnodup, hdrawn⟩

/-- A section that leaves the flights as they are. -/
theorem goOn (hsingle : system.SingleFlight) (hcaller : system.callers[index]? = some caller)
    {after : RbacRoleResolutionCache × RbacMove}
    (hmove : ∀ next, after.2.next = some next →
      next.key = caller.key ∧ ∀ sender ∈ next.sender, caller.sender = some sender)
    (hcache : after.1.inFlight = system.cache.inFlight) :
    (system.conclude index caller after).SingleFlight := by
  refine hsingle.conclude hcaller ?_ ?_
  · intro sender hsender
    obtain ⟨next, hnext, hown⟩ := Option.bind_eq_some_iff.mp hsender
    exact (hmove next hnext).2 sender hown
  · rw [hcache]
    refine forall_advanceAt hsingle.flights fun next hnext sender hsender => ?_
    obtain ⟨hkey, hown⟩ := hmove next hnext
    rw [hkey]
    exact hsingle.flights caller (List.mem_of_getElem? hcaller) sender (hown sender hsender)

/-- A caller without a channel that starts its next round, or ends. -/
theorem nextRound_next (caller next : RbacCaller) (hnext : caller.nextRound.next = some next) :
    next.key = caller.key ∧ next.sender = none := by
  unfold RbacCaller.nextRound at hnext
  split at hnext
  next => cases hnext
  next =>
    cases hnext
    exact ⟨rfl, rfl⟩

/-- A leader that completes leaves the key to others. -/
theorem complete (hsingle : system.SingleFlight) (hcaller : system.callers[index]? = some caller)
    {sender : ℕ} (hsender : caller.sender = some sender) (observed : ℕ)
    (resolved : Resolved RbacResult) :
    (system.conclude index caller
      (system.cache.complete system.clock caller observed resolved)).SingleFlight := by
  have hflights : (system.cache.complete system.clock caller observed resolved).1.inFlight =
      system.cache.inFlight.erase caller.key := by
    unfold RbacRoleResolutionCache.complete
    simp only
    split <;> rfl
  have hnone : ∀ next, (system.cache.complete system.clock caller observed resolved).2.next =
      some next → next.sender = none := by
    intro next hnext
    unfold RbacRoleResolutionCache.complete at hnext
    simp only at hnext
    split at hnext
    next => exact (nextRound_next caller next hnext).2
    next => cases hnext
  refine hsingle.conclude hcaller ?_ ?_
  · intro other hother
    obtain ⟨next, hnext, hown⟩ := Option.bind_eq_some_iff.mp hother
    rw [hnone next hnext] at hown
    cases hown
  · intro other hother otherSender hown
    rw [hflights]
    rcases getElem?_of_mem_advanceAt hother with ⟨place, hne, hplace⟩ | hnext
    · have hkey : other.key ≠ caller.key := fun hkey =>
        hne (hsingle.leader_unique hcaller hplace hsender hown hkey)
      rw [AList.lookup_erase_ne hkey]
      exact hsingle.flights other (List.mem_of_getElem? hplace) otherSender hown
    · rw [hnone other hnext] at hown
      cases hown

/-- More channels may have been drawn. -/
theorem drawMore (hsingle : system.SingleFlight) :
    RbacSystem.SingleFlight { system with nextSender := system.nextSender + 1 } :=
  ⟨hsingle.flights, hsingle.senders,
    fun sender hsender => Nat.lt_succ_of_lt (hsingle.drawn sender hsender)⟩

/-- A caller leads under a new channel when its key is free. -/
theorem lead (hsingle : system.SingleFlight) (hcaller : system.callers[index]? = some caller)
    (hfree : system.cache.inFlight.lookup caller.key = none) (next : RbacCaller)
    (hkey : next.key = caller.key) (hsender : next.sender = some system.nextSender)
    (cache : RbacRoleResolutionCache)
    (hcache : cache.inFlight = system.cache.inFlight.insert caller.key system.nextSender) :
    RbacSystem.SingleFlight
      { system.conclude index caller (cache, .goTo next) with
        nextSender := system.nextSender + 1 } := by
  have hperm := rbacSenders_perm system.cleanups hcaller
  have hrest : ∀ sender ∈ rbacSenders (advanceAt system.callers index none) system.cleanups,
      sender < system.nextSender := fun sender hmem =>
    hsingle.drawn sender (hperm.mem_iff.mpr (List.mem_append_right _ hmem))
  have hafter := rbacSenders_advanceAt system.callers system.cleanups index (some next)
  rw [Option.bind_some, hsender, Option.toList_some, List.singleton_append] at hafter
  refine ⟨?_, ?_, ?_⟩
  · show ∀ other ∈ advanceAt system.callers index (some next), ∀ sender ∈ other.sender,
      cache.inFlight.lookup other.key = some sender
    rw [hcache]
    refine forall_advanceAt (fun other hother sender hown => ?_) fun other hother sender hown => ?_
    · have hflight := hsingle.flights other hother sender hown
      have hother : other.key ≠ caller.key := by
        intro hsame
        rw [hsame, hfree] at hflight
        cases hflight
      rw [AList.lookup_insert_ne hother]
      exact hflight
    · cases hother
      cases hsender.symm.trans hown
      rw [hkey]
      exact AList.lookup_insert _
  · refine hafter.nodup_iff.mpr (List.nodup_cons.mpr ⟨fun hmem => ?_, ?_⟩)
    · exact Nat.lt_irrefl _ (hrest _ hmem)
    · exact (List.nodup_append.mp (hperm.nodup_iff.mp hsingle.senders)).2.1
  · intro sender hmem
    rcases List.mem_cons.mp (hafter.mem_iff.mp hmem) with rfl | hold
    · exact Nat.lt_succ_self _
    · exact Nat.lt_succ_of_lt (hrest sender hold)

theorem start (hsingle : system.SingleFlight) (hcaller : system.callers[index]? = some caller) :
    RbacSystem.SingleFlight
      { system.conclude index caller
          (system.cache.start system.clock caller system.nextSender) with
        nextSender := system.nextSender + 1 } := by
  unfold RbacRoleResolutionCache.start
  split
  next cached _ =>
    have hmove : ∀ next, RbacMove.next (.answer cached.value (some cached.startedAt)) = some next →
        next.key = caller.key ∧ ∀ sender ∈ next.sender, caller.sender = some sender := nofun
    exact (hsingle.goOn hcaller hmove rfl).drawMore
  next =>
    simp only
    split
    next =>
      refine (hsingle.goOn hcaller (fun next hnext => ?_) rfl).drawMore
      cases hnext
      exact ⟨rfl, nofun⟩
    next hfree =>
      exact hsingle.lead hcaller hfree
        ⟨caller.key, caller.roundsLeft, .leading system.nextSender system.cache.revision⟩ rfl rfl
        ⟨system.cache.entries.remove caller.key,
          system.cache.inFlight.insert caller.key system.nextSender, system.cache.revision⟩ rfl

theorem advance (hsingle : system.SingleFlight) (hcaller : system.callers[index]? = some caller) :
    (system.advance index caller).SingleFlight := by
  unfold RbacSystem.advance
  split
  next => exact hsingle.start hcaller
  next =>
    refine hsingle.goOn hcaller (fun next hnext => ?_) rfl
    obtain ⟨hkey, hnone⟩ := nextRound_next caller next hnext
    exact ⟨hkey, by rw [hnone]; exact nofun⟩
  next sender observed hphase =>
    refine hsingle.goOn hcaller (fun next hnext => ?_) rfl
    cases hnext
    exact ⟨rfl, fun sender hsender => by rw [RbacCaller.sender, hphase]; exact hsender⟩
  next => exact hsingle
  next sender observed resolved hphase =>
    exact hsingle.complete hcaller (by rw [RbacCaller.sender, hphase]) observed resolved

theorem resolve (hsingle : system.SingleFlight) (hcaller : system.callers[index]? = some caller)
    (result : RbacResult) : (system.resolve index caller result).SingleFlight := by
  unfold RbacSystem.resolve
  split
  next sender observed startedAt hphase =>
    refine hsingle.goOn hcaller (fun next hnext => ?_) rfl
    cases hnext
    exact ⟨rfl, fun sender hsender => by rw [RbacCaller.sender, hphase]; exact hsender⟩
  next => exact hsingle

theorem timeout (hsingle : system.SingleFlight) (hcaller : system.callers[index]? = some caller) :
    (system.timeout index caller).SingleFlight := by
  unfold RbacSystem.timeout
  split
  next => exact hsingle.goOn hcaller (fun next hnext => nomatch hnext) rfl
  next => exact hsingle.resolve hcaller _

/-- The channel of a dropped leader goes to its task. -/
theorem cancel (hsingle : system.SingleFlight) (hcaller : system.callers[index]? = some caller) :
    (system.cancel index caller).SingleFlight := by
  have hperm : (rbacSenders (system.cancel index caller).callers
      (system.cancel index caller).cleanups).Perm
        (rbacSenders system.callers system.cleanups) := by
    refine List.Perm.trans ?_ (rbacSenders_perm system.cleanups hcaller).symm
    simp only [RbacSystem.cancel, rbacSenders, List.map_append, List.map_map]
    rw [← List.append_assoc]
    refine List.perm_append_comm.trans ?_
    cases caller.sender <;> exact List.Perm.refl _
  refine ⟨?_, hperm.nodup_iff.mpr hsingle.senders, ?_⟩
  · exact forall_advanceAt hsingle.flights nofun
  · exact fun sender hsender => hsingle.drawn sender (hperm.mem_iff.mp hsender)

/-- A task gives up only the place of its own leader. -/
theorem cleanUp (hsingle : system.SingleFlight) {task : RbacKey × ℕ}
    (htask : system.cleanups[index]? = some task) :
    RbacSystem.SingleFlight
      { system with
        cache := system.cache.cleanUp task.1 task.2
        cleanups := advanceAt system.cleanups index none } := by
  have hsublist : (rbacSenders system.callers (advanceAt system.cleanups index none)).Sublist
      (rbacSenders system.callers system.cleanups) :=
    List.Sublist.append_left ((advanceAt_none_sublist system.cleanups index).map _) _
  refine ⟨?_, hsingle.senders.sublist hsublist, ?_⟩
  · intro caller hcaller sender hsender
    have hflight := hsingle.flights caller hcaller sender hsender
    show (system.cache.cleanUp task.1 task.2).inFlight.lookup caller.key = some sender
    unfold RbacRoleResolutionCache.cleanUp
    split
    next hheld =>
      have hkey : caller.key ≠ task.1 := by
        intro hsame
        rw [← hsame, hflight] at hheld
        -- The channel would be both a leader's and a task's.
        have hnodup := List.nodup_append.mp hsingle.senders
        refine hnodup.2.2 sender (List.mem_filterMap.mpr ⟨caller, hcaller, hsender⟩) sender ?_ rfl
        exact List.mem_map.mpr ⟨task, List.mem_of_getElem? htask, (Option.some.inj hheld).symm⟩
      rw [AList.lookup_erase_ne hkey]
      exact hflight
    next => exact hflight
  · exact fun sender hsender => hsingle.drawn sender (hsublist.subset hsender)

/-- A step of the caller at an index, if there is one. -/
theorem caller_step (hsingle : system.SingleFlight) {act : RbacCaller → RbacSystem}
    (hact : ∀ caller, system.callers[index]? = some caller → (act caller).SingleFlight) :
    RbacSystem.SingleFlight
      { (system.callers[index]?).elim system act with steps := system.steps + 1 } := by
  cases hcaller : system.callers[index]? with
  | none => exact ⟨hsingle.flights, hsingle.senders, hsingle.drawn⟩
  | some caller =>
      obtain ⟨hflights, hsenders, hdrawn⟩ := hact caller hcaller
      exact ⟨hflights, hsenders, hdrawn⟩

theorem step (hsingle : system.SingleFlight) (input : RbacInput) :
    (system.step input).SingleFlight := by
  cases input with
  | arrive key =>
      have hsenders : rbacSenders
          (system.callers ++ [⟨key, permissionCheckMaxStaleRetries, .starting⟩]) system.cleanups =
          rbacSenders system.callers system.cleanups := by
        unfold rbacSenders
        rw [List.filterMap_append]
        simp [RbacCaller.sender]
      refine ⟨?_, hsenders ▸ hsingle.senders, hsenders ▸ hsingle.drawn⟩
      intro caller hcaller sender hsender
      rcases List.mem_append.mp hcaller with hold | hnew
      · exact hsingle.flights caller hold sender hsender
      · rw [List.mem_singleton.mp hnew] at hsender
        cases hsender
  | advance index => exact hsingle.caller_step fun caller hcaller => hsingle.advance hcaller
  | resolve index result =>
      exact hsingle.caller_step fun caller hcaller => hsingle.resolve hcaller result
  | timeout index => exact hsingle.caller_step fun caller hcaller => hsingle.timeout hcaller
  | cancel index => exact hsingle.caller_step fun caller hcaller => hsingle.cancel hcaller
  | cleanUp index =>
      simp only [RbacSystem.step, act]
      cases htask : system.cleanups[index]? with
      | none => exact ⟨hsingle.flights, hsingle.senders, hsingle.drawn⟩
      | some task =>
          obtain ⟨hflights, hsenders, hdrawn⟩ := hsingle.cleanUp htask
          exact ⟨hflights, hsenders, hdrawn⟩
  | invalidateGuild guildId => exact ⟨hsingle.flights, hsingle.senders, hsingle.drawn⟩
  | clear => exact ⟨hsingle.flights, hsingle.senders, hsingle.drawn⟩
  | tick elapsed => exact ⟨hsingle.flights, hsingle.senders, hsingle.drawn⟩

end RbacSystem.SingleFlight

/-! ## Whole runs -/

/-- A call of the resolver runs for the caller. -/
def RbacCaller.isResolving (caller : RbacCaller) : Bool :=
  match caller.phase with
  | .resolving _ _ _ => true
  | _ => false

/-- At most one call of the resolver runs for each guild and user. -/
def RbacSystem.OneResolver (system : RbacSystem) : Prop :=
  ∀ (first second : ℕ) (firstCaller secondCaller : RbacCaller), system.callers[first]? = some firstCaller →
    system.callers[second]? = some secondCaller → firstCaller.isResolving = true →
    secondCaller.isResolving = true → firstCaller.key = secondCaller.key → first = second

theorem RbacSystem.SingleFlight.oneResolver {system : RbacSystem}
    (hsingle : system.SingleFlight) : system.OneResolver := by
  have hsender : ∀ caller : RbacCaller, caller.isResolving = true →
      ∃ sender, caller.sender = some sender := by
    rintro ⟨key, roundsLeft, phase⟩ hresolving
    cases phase with
    | resolving sender observed startedAt => exact ⟨sender, rfl⟩
    | starting | following _ | leading _ _ | completing _ _ _ => cases hresolving
  intro first second firstCaller secondCaller hfirst hsecond hresolving hresolving' hkey
  obtain ⟨sender, hsender₁⟩ := hsender firstCaller hresolving
  obtain ⟨sender', hsender₂⟩ := hsender secondCaller hresolving'
  exact hsingle.leader_unique hsecond hfirst hsender₂ hsender₁ hkey

/-- In every run of each of the three caches, whatever the callers, the resolvers, the clock
and the invalidations do: what the cache holds, and what was answered of a resolver, comes from
a call that began after the last invalidation (of its guild, for role snapshots), and at most
one call resolves the roles of a guild's user at a time. -/
theorem resolved_since_invalidation :
    (∀ inputs : List (RefreshInput String),
      (Machine.run botAuthHeaderStep {} inputs).Fresh) ∧
    (∀ (Guild : Type) (inputs : List (RefreshInput Guild)),
      (Machine.run guildInfoStep {} inputs).Fresh) ∧
    ∀ inputs : List RbacInput,
      (Machine.run RbacSystem.step {} inputs).Fresh ∧
        (Machine.run RbacSystem.step {} inputs).OneResolver := by
  refine ⟨RefreshSystem.run_fresh botTokenPolicy,
    fun Guild => RefreshSystem.run_fresh guildPolicy, fun inputs => ?_⟩
  constructor
  · exact Machine.run_invariant RbacSystem.step RbacSystem.Fresh
      (fun _ input hfresh => hfresh.step input) RbacSystem.Fresh.new inputs
  · exact (Machine.run_invariant RbacSystem.step RbacSystem.SingleFlight
      (fun _ input hsingle => hsingle.step input) RbacSystem.SingleFlight.new inputs).oneResolver

/-- A leader is invalidated while it resolves; it tries again and answers what its second call,
begun in the ninth step, resolved. -/
example : (Machine.run RbacSystem.step {} [.arrive ("g", "u"), .advance 0, .advance 0,
    .invalidateGuild "g", .resolve 0 (.ok (.available true [] [])), .advance 0, .advance 0,
    .tick 1, .advance 0, .resolve 0 (.ok (.available false [] [])), .advance 0]).returned.map
      (fun answer => (answer.startedAt, answer.invalidatedAt)) = [(some 9, 4)] := by
  decide +kernel

end DiscordTranscript.Interfaces
