import Mathlib.Algebra.Order.Ring.Nat
import DiscordTranscript.Interfaces.RbacResolution

/-! # The permission cache

The model of `verify_meeting_access_after_row` and of the guild administrator check
in `interfaces/web.rs`, which share one cache of permissions, and of the
invalidations of that cache. A check reads the revision of the cache without the
lock, asks Discord, and stores what it found only if the revision is still the same
under the lock; an access check whose result was invalidated is repeated, twice at
most.

A section under the lock, a read of the revision, and the begin and the end of a
check are steps. What an invalidation removes cannot be seen before it gives the lock
back, so it is one step, taken where it raises the revision. Times are milliseconds.
-/

namespace DiscordTranscript.Interfaces

open Slots

def permissionCacheTtlSecs : ℕ := 300
def permissionCacheSensitivePositiveTtlSecs : ℕ := 5
def permissionCacheLimit : ℕ := 5000

/-- The revisions of an `AtomicU64`. -/
def revisionModulus : ℕ := 2 ^ 64

def StatusCode.notFound : StatusCode := 404
def StatusCode.forbidden : StatusCode := 403

structure CachedChannelPermission where
  canView : Bool
  isAdmin : Bool
  deriving DecidableEq

def permissionCacheTtl (permission : CachedChannelPermission) : ℕ :=
  if permission.canView || permission.isAdmin then permissionCacheSensitivePositiveTtlSecs
  else permissionCacheTtlSecs

/-- A user and a channel, or a user and the mark of a guild. -/
abbrev PermissionKey := String × String

def guildAdminPermissionCacheKey (guildId userId : String) : PermissionKey :=
  (userId, "__guild__:" ++ guildId)

/-- The invalidation functions. -/
inductive Invalidation where
  | forUser (userId : String)
  | forChannel (channelId : String)
  | everything
  deriving DecidableEq

def Invalidation.covers : Invalidation → PermissionKey → Bool
  | .forUser userId, key => key.1 = userId
  | .forChannel channelId, key => key.2 = channelId
  | .everything, _ => true

/-- A permission, with how many invalidations had taken place before its check began and
before it ended. -/
structure Checked where
  permission : CachedChannelPermission
  startedAfter : ℕ
  endedAfter : ℕ
  deriving DecidableEq

/-- A permission in the cache, with how many invalidations it was stored after. -/
structure StoredPermission extends Checked where
  storedAfter : ℕ
  deriving DecidableEq

/-- `invalidations` is history. -/
structure PermissionCache where
  entries : ExpiringMap PermissionKey StoredPermission := []
  revision : ℕ := 0
  invalidations : List Invalidation := []

namespace PermissionCache

variable (cache : PermissionCache)

/-- How many invalidations have taken place. -/
def passed : ℕ := cache.invalidations.length

def invalidate (invalidation : Invalidation) : PermissionCache where
  entries := cache.entries.retainKeys fun key => !invalidation.covers key
  revision := (cache.revision + 1) % revisionModulus
  invalidations := cache.invalidations ++ [invalidation]

/-- Stores a permission, and evicts what has expired when there is too much. -/
def insert (clock : ℕ) (key : PermissionKey) (checked : Checked) : PermissionCache :=
  let expiresAt := clock + permissionCacheTtl checked.permission * 1000
  { cache with
    entries := (cache.entries.insert key ⟨checked, cache.passed⟩ expiresAt).evict
      permissionCacheLimit clock }

end PermissionCache

/-! ## Calls -/

/-- The revision that a check read, and the number of invalidations before that. -/
structure Observed where
  revision : ℕ
  after : ℕ

structure MeetingAccess where
  guildId : String
  voiceChannelId : String
  deriving DecidableEq

def meetingAccessFromRow (guildId voiceChannelId authenticatedGuildId : String) :
    Except StatusCode MeetingAccess :=
  if guildId ≠ authenticatedGuildId then .error .notFound else .ok ⟨guildId, voiceChannelId⟩

/-- Where an access check stands. -/
inductive AccessPhase where
  | reading
  | observing (retriesLeft : ℕ)
  | starting (retriesLeft : ℕ) (observed : Observed)
  | checking (retriesLeft : ℕ) (observed : Observed) (startedAfter : ℕ)
  | storing (retriesLeft : ℕ) (observed : Observed) (checked : Checked)

/-- A call of `verify_meeting_access_after_row` whose row is the guild's. -/
structure AccessCall where
  access : MeetingAccess
  userId : String
  phase : AccessPhase
  begunAfter : ℕ

def AccessCall.key (call : AccessCall) : PermissionKey := (call.userId, call.access.voiceChannelId)

/-- What a decision was taken from. -/
inductive AccessSource where
  | stored (entry : StoredPermission)
  | checked (checked : Checked)

def AccessSource.permission : AccessSource → CachedChannelPermission
  | .stored entry => entry.permission
  | .checked check => check.permission

/-- What a call answered. There is no source where nothing was decided. -/
structure AccessReturn where
  key : PermissionKey
  result : Except StatusCode MeetingAccess
  source : Option AccessSource
  begunAfter : ℕ
  returnedAfter : ℕ

def AccessCall.decision (call : AccessCall) (permission : CachedChannelPermission) :
    Except StatusCode MeetingAccess :=
  if permission.canView then .ok call.access else .error .forbidden

inductive GuildAdminCheck where
  | admin
  | notAdmin
  | botAccessDenied
  | rateLimited
  deriving DecidableEq

/-- Where a guild administrator check stands. -/
inductive AdminPhase where
  | observing
  | reading (observed : Observed)
  | starting (observed : Observed)
  | checking (observed : Observed) (startedAfter : ℕ)
  | storing (observed : Observed) (checked : Checked)

/-- A call of `check_guild_admin_permission_with_bot_auth`. -/
structure AdminCall where
  guildId : String
  userId : String
  useCache : Bool
  phase : AdminPhase

def AdminCall.key (call : AdminCall) : PermissionKey :=
  guildAdminPermissionCacheKey call.guildId call.userId

/-! ## Any number of calls -/

/-- The cache and the calls under way; `returned` is history. -/
structure PermissionSystem where
  cache : PermissionCache := {}
  accesses : List AccessCall := []
  admins : List AdminCall := []
  clock : ℕ := 0
  returned : List AccessReturn := []

inductive PermissionInput where
  | beginAccess (guildId channelId authenticatedGuildId userId : String)
  | access (index : ℕ)
  | finishAccess (index : ℕ) (result : Except StatusCode CachedChannelPermission)
  | beginAdmin (guildId userId : String) (useCache : Bool)
  | admin (index : ℕ)
  | finishAdmin (index : ℕ) (result : Except StatusCode GuildAdminCheck)
  | invalidate (invalidation : Invalidation)
  | tick (elapsed : ℕ)

namespace PermissionSystem

variable (system : PermissionSystem)

def observe : Observed := ⟨system.cache.revision, system.cache.passed⟩

def accessTo (index : ℕ) (call : AccessCall) (phase : AccessPhase) : PermissionSystem :=
  { system with accesses := advanceAt system.accesses index (some { call with phase := phase }) }

def returnAccess (index : ℕ) (call : AccessCall) (result : Except StatusCode MeetingAccess)
    (source : Option AccessSource) : PermissionSystem :=
  { system with
    accesses := advanceAt system.accesses index none
    returned := system.returned ++
      [⟨call.key, result, source, call.begunAfter, system.cache.passed⟩] }

/-- `cache_channel_permission_if_unchanged`, and what the loop makes of its answer. -/
def storeAccess (index : ℕ) (call : AccessCall) (retriesLeft : ℕ) (observed : Observed)
    (checked : Checked) : PermissionSystem :=
  if system.cache.revision = observed.revision then
    { system.returnAccess index call (call.decision checked.permission) (some (.checked checked)) with
      cache := system.cache.insert system.clock call.key checked }
  else
    match retriesLeft with
    | 0 =>
        -- The result is served uncached.
        system.returnAccess index call (call.decision checked.permission) (some (.checked checked))
    | left + 1 => system.accessTo index call (.observing left)

/-- The next step of an access check. -/
def access (index : ℕ) (call : AccessCall) : PermissionSystem :=
  match call.phase with
  | .reading =>
      match system.cache.entries.get call.key system.clock with
      | some entry =>
          system.returnAccess index call (call.decision entry.permission) (some (.stored entry))
      | none => system.accessTo index call (.observing permissionCheckMaxStaleRetries)
  | .observing retriesLeft => system.accessTo index call (.starting retriesLeft system.observe)
  | .starting retriesLeft observed =>
      system.accessTo index call (.checking retriesLeft observed system.cache.passed)
  | .checking _ _ _ => system
  | .storing retriesLeft observed checked =>
      system.storeAccess index call retriesLeft observed checked

/-- The check of a call ends; an error of the check is the answer. -/
def finishAccess (index : ℕ) (call : AccessCall)
    (result : Except StatusCode CachedChannelPermission) : PermissionSystem :=
  match call.phase, result with
  | .checking retriesLeft observed startedAfter, .ok permission =>
      system.accessTo index call
        (.storing retriesLeft observed ⟨permission, startedAfter, system.cache.passed⟩)
  | .checking _ _ _, .error status => system.returnAccess index call (.error status) none
  | _, _ => system

def adminTo (index : ℕ) (call : AdminCall) (phase : Option AdminPhase) : PermissionSystem :=
  { system with
    admins := advanceAt system.admins index (phase.map fun phase => { call with phase := phase }) }

/-- The next step of an administrator check. -/
def admin (index : ℕ) (call : AdminCall) : PermissionSystem :=
  match call.phase with
  | .observing =>
      system.adminTo index call
        (some (if call.useCache then .reading system.observe else .starting system.observe))
  | .reading observed =>
      match system.cache.entries.get call.key system.clock with
      | some _ => system.adminTo index call none
      | none => system.adminTo index call (some (.starting observed))
  | .starting observed => system.adminTo index call (some (.checking observed system.cache.passed))
  | .checking _ _ => system
  | .storing observed checked =>
      -- `cache_guild_admin_permission`
      if system.cache.revision = observed.revision then
        { system.adminTo index call none with
          cache := system.cache.insert system.clock call.key checked }
      else system.adminTo index call none

/-- The check of a call ends; only a decision goes on to the cache. -/
def finishAdmin (index : ℕ) (call : AdminCall) (result : Except StatusCode GuildAdminCheck) :
    PermissionSystem :=
  let store (observed : Observed) (startedAfter : ℕ) (isAdmin : Bool) : PermissionSystem :=
    system.adminTo index call (if call.useCache then
      some (.storing observed ⟨⟨isAdmin, isAdmin⟩, startedAfter, system.cache.passed⟩) else none)
  match call.phase, result with
  | .checking observed startedAfter, .ok .admin => store observed startedAfter true
  | .checking observed startedAfter, .ok .notAdmin => store observed startedAfter false
  | .checking _ _, _ => system.adminTo index call none
  | _, _ => system

def step : PermissionInput → PermissionSystem
  | .beginAccess guildId channelId authenticatedGuildId userId =>
      match meetingAccessFromRow guildId channelId authenticatedGuildId with
      | .ok access =>
          { system with
            accesses := system.accesses ++ [⟨access, userId, .reading, system.cache.passed⟩] }
      | .error status =>
          { system with
            returned := system.returned ++ [⟨(userId, channelId), .error status, none,
              system.cache.passed, system.cache.passed⟩] }
  | .access index => (system.accesses[index]?).elim system (system.access index)
  | .finishAccess index result =>
      (system.accesses[index]?).elim system fun call => system.finishAccess index call result
  | .beginAdmin guildId userId useCache =>
      { system with admins := system.admins ++ [⟨guildId, userId, useCache, .observing⟩] }
  | .admin index => (system.admins[index]?).elim system (system.admin index)
  | .finishAdmin index result =>
      (system.admins[index]?).elim system fun call => system.finishAdmin index call result
  | .invalidate invalidation => { system with cache := system.cache.invalidate invalidation }
  | .tick elapsed => { system with clock := system.clock + elapsed }

end PermissionSystem

/-! ## What is stored and served -/

/-- No invalidation took place during the check of a stored permission, and none since it was
stored covers its key. -/
structure StoredPermission.Sound (invalidations : List Invalidation) (key : PermissionKey)
    (entry : StoredPermission) : Prop where
  undisturbed : entry.startedAfter = entry.storedAfter
  current : ∀ invalidation ∈ invalidations.drop entry.storedAfter, invalidation.covers key = false

/-- The check began after every invalidation before its end; or, in a call that met more
invalidations than it has retries, after all of them but the last. -/
def Checked.Served (begunAfter returnedAfter : ℕ) (check : Checked) : Prop :=
  check.startedAfter = check.endedAfter ∨
    begunAfter + permissionCheckMaxStaleRetries + 1 ≤ returnedAfter ∧
      check.endedAfter ≤ check.startedAfter + 1

def AccessSource.Sound (invalidations : List Invalidation) (answer : AccessReturn) :
    AccessSource → Prop
  | .stored entry => entry.Sound (invalidations.take answer.returnedAfter) answer.key
  | .checked check => check.Served answer.begunAfter answer.returnedAfter

/-- Access is granted only on a decision, and as the permission behind it says. -/
structure AccessReturn.Sound (invalidations : List Invalidation) (answer : AccessReturn) : Prop where
  undecided : answer.source = none → answer.result.toBool = false
  decided : ∀ source ∈ answer.source, answer.result.toBool = source.permission.canView
  source : ∀ source ∈ answer.source, source.Sound invalidations answer

structure PermissionSystem.Sound (system : PermissionSystem) : Prop where
  entries : ∀ entry ∈ system.cache.entries, entry.2.1.Sound system.cache.invalidations entry.1
  returned : ∀ answer ∈ system.returned, answer.Sound system.cache.invalidations

/-! ## Calm runs -/

def AccessCall.observed (call : AccessCall) : Option Observed :=
  match call.phase with
  | .reading | .observing _ => none
  | .starting _ observed | .checking _ observed _ | .storing _ observed _ => some observed

def AdminCall.observed (call : AdminCall) : Option Observed :=
  match call.phase with
  | .observing => none
  | .reading observed | .starting observed | .checking observed _ | .storing observed _ =>
      some observed

/-- The call is in a check that it cannot repeat, and an invalidation took place since the
check began. -/
def AccessCall.overtaken (passed : ℕ) (call : AccessCall) : Bool :=
  match call.phase with
  | .checking 0 _ startedAfter => startedAfter ≠ passed
  | _ => false

/-- No second invalidation overtakes a check that is not repeated, and the revision does not
come round to one that a check has read. -/
def PermissionSystem.Calm (system : PermissionSystem) : PermissionInput → Prop
  | .invalidate _ =>
      (∀ call ∈ system.accesses, call.overtaken system.cache.passed = false) ∧
        ∀ observed ∈ system.accesses.filterMap (·.observed) ++ system.admins.filterMap (·.observed),
          system.cache.passed + 1 < observed.after + revisionModulus
  | _ => True

instance (system : PermissionSystem) (input : PermissionInput) : Decidable (system.Calm input) :=
  match input with
  | .invalidate _ => inferInstanceAs (Decidable (_ ∧ _))
  | .beginAccess _ _ _ _ | .access _ | .finishAccess _ _ | .beginAdmin _ _ _ | .admin _
  | .finishAdmin _ _ | .tick _ => inferInstanceAs (Decidable True)

/-! ## The invariant -/

/-- What a check knows of the revision it read. -/
structure Observed.Kept (passed : ℕ) (observed : Observed) : Prop where
  revision : observed.revision = observed.after % revisionModulus
  past : observed.after ≤ passed
  recent : passed < observed.after + revisionModulus

/-- Every round of a call but the first was caused by an invalidation. -/
def AccessPhase.Kept (passed begunAfter : ℕ) : AccessPhase → Prop
  | .reading => begunAfter ≤ passed
  | .observing retriesLeft =>
      begunAfter + permissionCheckMaxStaleRetries ≤ passed + retriesLeft
  | .starting retriesLeft observed =>
      observed.Kept passed ∧ begunAfter + permissionCheckMaxStaleRetries ≤ observed.after + retriesLeft
  | .checking retriesLeft observed startedAfter =>
      observed.Kept passed ∧
        begunAfter + permissionCheckMaxStaleRetries ≤ observed.after + retriesLeft ∧
        observed.after ≤ startedAfter ∧ startedAfter ≤ passed ∧
        (retriesLeft = 0 → passed ≤ startedAfter + 1)
  | .storing retriesLeft observed check =>
      observed.Kept passed ∧
        begunAfter + permissionCheckMaxStaleRetries ≤ observed.after + retriesLeft ∧
        observed.after ≤ check.startedAfter ∧ check.startedAfter ≤ check.endedAfter ∧
        check.endedAfter ≤ passed ∧
        (retriesLeft = 0 → check.endedAfter ≤ check.startedAfter + 1)

def AdminPhase.Kept (passed : ℕ) : AdminPhase → Prop
  | .observing => True
  | .reading observed | .starting observed => observed.Kept passed
  | .checking observed startedAfter =>
      observed.Kept passed ∧ observed.after ≤ startedAfter ∧ startedAfter ≤ passed
  | .storing observed check =>
      observed.Kept passed ∧ observed.after ≤ check.startedAfter ∧
        check.startedAfter ≤ passed

structure PermissionSystem.Kept (system : PermissionSystem) : Prop extends system.Sound where
  revision : system.cache.revision = system.cache.passed % revisionModulus
  stored : ∀ entry ∈ system.cache.entries, entry.2.1.storedAfter ≤ system.cache.passed
  answered : ∀ answer ∈ system.returned, answer.returnedAfter ≤ system.cache.passed
  accesses : ∀ call ∈ system.accesses, call.phase.Kept system.cache.passed call.begunAfter
  admins : ∀ call ∈ system.admins, call.phase.Kept system.cache.passed

/-- The revision is still the one that was read only if no invalidation took place. -/
theorem Observed.Kept.revision_eq_iff {cache : PermissionCache} {observed : Observed}
    (hkept : observed.Kept cache.passed) (hrevision : cache.revision = cache.passed % revisionModulus) :
    cache.revision = observed.revision ↔ observed.after = cache.passed := by
  obtain ⟨hread, hpast, hrecent⟩ := hkept
  rw [hrevision, hread]
  simp only [revisionModulus] at hrecent ⊢
  omega

theorem Observed.Kept.succ {passed : ℕ} {observed : Observed} (hkept : observed.Kept passed)
    (hrecent : passed + 1 < observed.after + revisionModulus) : observed.Kept (passed + 1) :=
  ⟨hkept.revision, Nat.le_succ_of_le hkept.past, hrecent⟩

/-- A call when an invalidation takes place that does not overtake its last check again. -/
theorem AccessCall.kept_succ {passed : ℕ} {call : AccessCall}
    (hphase : call.phase.Kept passed call.begunAfter) (hcalm : call.overtaken passed = false)
    (hrecent : ∀ observed ∈ call.observed, passed + 1 < observed.after + revisionModulus) :
    call.phase.Kept (passed + 1) call.begunAfter := by
  obtain ⟨access, userId, phase, begunAfter⟩ := call
  cases phase with
  | reading => exact Nat.le_succ_of_le hphase
  | observing retriesLeft =>
      have hrounds : begunAfter + permissionCheckMaxStaleRetries ≤ passed + retriesLeft := hphase
      show begunAfter + permissionCheckMaxStaleRetries ≤ passed + 1 + retriesLeft
      omega
  | starting retriesLeft observed => exact ⟨hphase.1.succ (hrecent observed rfl), hphase.2⟩
  | checking retriesLeft observed startedAfter =>
      obtain ⟨hobserved, hrounds, hstarted, hpast, -⟩ := hphase
      refine ⟨hobserved.succ (hrecent observed rfl), hrounds, hstarted, Nat.le_succ_of_le hpast, ?_⟩
      rintro rfl
      have hsame : startedAfter = passed := by simpa [overtaken] using hcalm
      omega
  | storing retriesLeft observed check =>
      obtain ⟨hobserved, hrounds, hstarted, hended, hpast, hlast⟩ := hphase
      exact ⟨hobserved.succ (hrecent observed rfl), hrounds, hstarted, hended,
        Nat.le_succ_of_le hpast, hlast⟩

theorem AdminCall.kept_succ {passed : ℕ} {call : AdminCall} (hphase : call.phase.Kept passed)
    (hrecent : ∀ observed ∈ call.observed, passed + 1 < observed.after + revisionModulus) :
    call.phase.Kept (passed + 1) := by
  obtain ⟨guildId, userId, useCache, phase⟩ := call
  cases phase with
  | observing => trivial
  | reading observed | starting observed => exact Observed.Kept.succ hphase (hrecent observed rfl)
  | checking observed startedAfter =>
      exact ⟨hphase.1.succ (hrecent observed rfl), hphase.2.1, Nat.le_succ_of_le hphase.2.2⟩
  | storing observed check =>
      exact ⟨hphase.1.succ (hrecent observed rfl), hphase.2.1, Nat.le_succ_of_le hphase.2.2⟩

namespace PermissionSystem.Kept

variable {system : PermissionSystem} {index : ℕ}

theorem new : ({} : PermissionSystem).Kept := by
  refine ⟨⟨?_, ?_⟩, rfl, ?_, ?_, ?_, ?_⟩ <;> intro _ hmem <;> cases hmem

theorem observe (hkept : system.Kept) : system.observe.Kept system.cache.passed := by
  refine ⟨hkept.revision, Nat.le_refl _, ?_⟩
  show system.cache.passed < system.cache.passed + revisionModulus
  simp [revisionModulus]

theorem accessTo (hkept : system.Kept) (call : AccessCall) {phase : AccessPhase}
    (hphase : phase.Kept system.cache.passed call.begunAfter) : (system.accessTo index call phase).Kept := by
  obtain ⟨hsound, hrevision, hstored, hanswered, haccesses, hadmins⟩ := hkept
  refine ⟨⟨hsound.entries, hsound.returned⟩, hrevision, hstored, hanswered, ?_, hadmins⟩
  refine forall_advanceAt haccesses fun other hother => ?_
  cases hother
  exact hphase

theorem adminTo (hkept : system.Kept) (call : AdminCall) {phase : Option AdminPhase}
    (hphase : ∀ next ∈ phase, next.Kept system.cache.passed) : (system.adminTo index call phase).Kept := by
  obtain ⟨hsound, hrevision, hstored, hanswered, haccesses, hadmins⟩ := hkept
  refine ⟨⟨hsound.entries, hsound.returned⟩, hrevision, hstored, hanswered, haccesses, ?_⟩
  refine forall_advanceAt hadmins fun other hother => ?_
  obtain ⟨next, hnext, rfl⟩ := Option.map_eq_some_iff.mp hother
  exact hphase next hnext

theorem answer (hkept : system.Kept) {answer : AccessReturn}
    (hanswer : answer.Sound system.cache.invalidations)
    (hreturned : answer.returnedAfter ≤ system.cache.passed) {accesses : List AccessCall}
    (haccesses : ∀ call ∈ accesses, call ∈ system.accesses) :
    PermissionSystem.Kept
      { system with accesses := accesses, returned := system.returned ++ [answer] } := by
  obtain ⟨⟨hentries, hsound⟩, hrevision, hstored, hanswered, hcalls, hadmins⟩ := hkept
  refine ⟨⟨hentries, fun other hother => ?_⟩, hrevision, hstored, fun other hother => ?_,
    fun call hcall => hcalls call (haccesses call hcall), hadmins⟩
  · rcases List.mem_append.mp hother with hold | hnew
    · exact hsound other hold
    · exact List.mem_singleton.mp hnew ▸ hanswer
  · rcases List.mem_append.mp hother with hold | hnew
    · exact hanswered other hold
    · exact List.mem_singleton.mp hnew ▸ hreturned

theorem returnAccess (hkept : system.Kept) (call : AccessCall)
    {result : Except StatusCode MeetingAccess} {source : Option AccessSource}
    (hanswer : AccessReturn.Sound system.cache.invalidations
      ⟨call.key, result, source, call.begunAfter, system.cache.passed⟩) :
    (system.returnAccess index call result source).Kept := by
  refine hkept.answer hanswer (Nat.le_refl _) fun other hother => ?_
  exact (mem_advanceAt hother).resolve_right nofun

/-- The answer that a permission decides. -/
theorem decision_sound {invalidations : List Invalidation} (call : AccessCall)
    (source : AccessSource) {returnedAfter : ℕ}
    (hsource : source.Sound invalidations ⟨call.key, call.decision source.permission, some source,
      call.begunAfter, returnedAfter⟩) :
    AccessReturn.Sound invalidations ⟨call.key, call.decision source.permission, some source,
      call.begunAfter, returnedAfter⟩ := by
  refine ⟨nofun, fun other hother => ?_, fun other hother => ?_⟩
  · cases hother
    show (call.decision source.permission).toBool = source.permission.canView
    unfold AccessCall.decision
    cases source.permission.canView <;> rfl
  · cases hother
    exact hsource

/-- What a check found is stored when no invalidation took place since it read the revision. -/
theorem insert (hkept : system.Kept) (key : PermissionKey) {check : Checked}
    (hstarted : check.startedAfter = system.cache.passed) :
    PermissionSystem.Kept
      { system with cache := system.cache.insert system.clock key check } := by
  obtain ⟨⟨hentries, hsound⟩, hrevision, hstored, hanswered, haccesses, hadmins⟩ := hkept
  have hnew : StoredPermission.Sound system.cache.invalidations key ⟨check, system.cache.passed⟩ := by
    refine ⟨hstarted, fun invalidation hmem => ?_⟩
    rw [PermissionCache.passed, List.drop_length] at hmem
    cases hmem
  refine ⟨⟨?_, hsound⟩, hrevision, ?_, hanswered, haccesses, hadmins⟩
  · exact ExpiringMap.forall_evict_insert
      (P := fun (key : PermissionKey) (entry : StoredPermission) =>
        entry.Sound system.cache.invalidations key) hentries hnew
  · exact ExpiringMap.forall_evict_insert
      (P := fun (_ : PermissionKey) (entry : StoredPermission) =>
        entry.storedAfter ≤ system.cache.passed) hstored (Nat.le_refl _)

theorem storeAccess (hkept : system.Kept) (call : AccessCall) {retriesLeft : ℕ}
    {observed : Observed} {check : Checked}
    (hphase : (AccessPhase.storing retriesLeft observed check).Kept system.cache.passed
      call.begunAfter) :
    (system.storeAccess index call retriesLeft observed check).Kept := by
  obtain ⟨hobserved, hrounds, hstarted, hended, hpast, hlast⟩ := hphase
  have hunchanged := hobserved.revision_eq_iff hkept.revision
  unfold PermissionSystem.storeAccess
  split
  next hsame =>
    have hafter := hunchanged.mp hsame
    have hreturn : (system.returnAccess index call (call.decision check.permission)
        (some (.checked check))).Kept := by
      refine hkept.returnAccess call (decision_sound call (.checked check) (.inl ?_))
      omega
    have hfresh : check.startedAfter = system.cache.passed := by omega
    exact hreturn.insert call.key hfresh
  next hchanged =>
    have hlater : observed.after ≠ system.cache.passed := fun hafter =>
      hchanged (hunchanged.mpr hafter)
    have hobservedPast := hobserved.past
    cases retriesLeft with
    | zero =>
        refine hkept.returnAccess call (decision_sound call (.checked check) (.inr ⟨?_, hlast rfl⟩))
        show call.begunAfter + permissionCheckMaxStaleRetries + 1 ≤ system.cache.passed
        omega
    | succ left =>
        refine hkept.accessTo call ?_
        show call.begunAfter + permissionCheckMaxStaleRetries ≤ system.cache.passed + left
        omega

theorem access (hkept : system.Kept) {call : AccessCall} (hcall : call ∈ system.accesses) :
    (system.access index call).Kept := by
  have hphase := hkept.accesses call hcall
  unfold PermissionSystem.access
  split
  next hreading =>
    rw [hreading] at hphase
    split
    next entry hentry =>
      obtain ⟨expiresAt, hmem⟩ := ExpiringMap.mem_of_get hentry
      refine hkept.returnAccess call (decision_sound call (.stored entry) ?_)
      obtain ⟨hundisturbed, hcurrent⟩ := hkept.entries _ hmem
      refine ⟨hundisturbed, fun invalidation hinvalidation => hcurrent invalidation ?_⟩
      rwa [PermissionCache.passed, List.take_length] at hinvalidation
    next =>
      refine hkept.accessTo call ?_
      show call.begunAfter + permissionCheckMaxStaleRetries ≤
        system.cache.passed + permissionCheckMaxStaleRetries
      exact Nat.add_le_add_right hphase _
  next retriesLeft hobserving =>
    rw [hobserving] at hphase
    exact hkept.accessTo call ⟨hkept.observe, hphase⟩
  next retriesLeft observed hstarting =>
    rw [hstarting] at hphase
    exact hkept.accessTo call ⟨hphase.1, hphase.2, hphase.1.past, Nat.le_refl _,
      fun _ => Nat.le_succ _⟩
  next => exact hkept
  next retriesLeft observed check hstoring =>
    rw [hstoring] at hphase
    exact hkept.storeAccess call hphase

theorem finishAccess (hkept : system.Kept) {call : AccessCall} (hcall : call ∈ system.accesses)
    (result : Except StatusCode CachedChannelPermission) :
    (system.finishAccess index call result).Kept := by
  have hphase := hkept.accesses call hcall
  unfold PermissionSystem.finishAccess
  split
  next retriesLeft observed startedAfter permission hchecking =>
    rw [hchecking] at hphase
    obtain ⟨hobserved, hrounds, hstarted, hpast, hlast⟩ := hphase
    exact hkept.accessTo call ⟨hobserved, hrounds, hstarted, hpast, Nat.le_refl _, hlast⟩
  next status _ =>
    refine hkept.returnAccess call ⟨fun _ => rfl, ?_, ?_⟩ <;> intro source hsource <;> cases hsource
  next => exact hkept

theorem admin (hkept : system.Kept) {call : AdminCall} (hcall : call ∈ system.admins) :
    (system.admin index call).Kept := by
  have hphase := hkept.admins call hcall
  have hdone : (system.adminTo index call none).Kept := hkept.adminTo call nofun
  unfold PermissionSystem.admin
  split
  next =>
    refine hkept.adminTo call fun next hnext => ?_
    cases hnext
    split
    next => exact hkept.observe
    next => exact hkept.observe
  next observed hreading =>
    rw [hreading] at hphase
    split
    next => exact hdone
    next =>
      refine hkept.adminTo call fun next hnext => ?_
      cases hnext
      exact hphase
  next observed hstarting =>
    rw [hstarting] at hphase
    refine hkept.adminTo call fun next hnext => ?_
    cases hnext
    exact ⟨hphase, hphase.past, Nat.le_refl _⟩
  next => exact hkept
  next observed check hstoring =>
    rw [hstoring] at hphase
    obtain ⟨hobserved, hstarted, hpast⟩ := hphase
    split
    next hsame =>
      have hafter := (hobserved.revision_eq_iff hkept.revision).mp hsame
      have hfresh : check.startedAfter = system.cache.passed := by omega
      exact hdone.insert call.key hfresh
    next => exact hdone

theorem finishAdmin (hkept : system.Kept) {call : AdminCall} (hcall : call ∈ system.admins)
    (result : Except StatusCode GuildAdminCheck) : (system.finishAdmin index call result).Kept := by
  have hphase := hkept.admins call hcall
  have hdone : (system.adminTo index call none).Kept := hkept.adminTo call nofun
  have hstore : ∀ {observed : Observed} {startedAfter : ℕ} (isAdmin : Bool),
      (AdminPhase.checking observed startedAfter).Kept system.cache.passed →
      (system.adminTo index call (if call.useCache then
        some (.storing observed ⟨⟨isAdmin, isAdmin⟩, startedAfter, system.cache.passed⟩)
          else none)).Kept := by
    intro observed startedAfter isAdmin hchecking
    split
    next =>
      refine hkept.adminTo call fun next hnext => ?_
      cases hnext
      exact hchecking
    next => exact hdone
  unfold PermissionSystem.finishAdmin
  simp only
  split
  next hchecking => exact hstore true (hchecking ▸ hphase)
  next hchecking => exact hstore false (hchecking ▸ hphase)
  next => exact hdone
  next => exact hkept

theorem invalidate (hkept : system.Kept) {invalidation : Invalidation}
    (hcalm : system.Calm (.invalidate invalidation)) :
    (system.step (.invalidate invalidation)).Kept := by
  obtain ⟨⟨hentries, hsound⟩, hrevision, hstored, hanswered, haccesses, hadmins⟩ := hkept
  obtain ⟨hovertaken, hrecent⟩ := hcalm
  have hpassed : (system.cache.invalidate invalidation).passed = system.cache.passed + 1 := by
    simp [PermissionCache.invalidate, PermissionCache.passed]
  refine ⟨⟨?_, ?_⟩, ?_, ?_, ?_, ?_, ?_⟩
  · intro entry hentry
    obtain ⟨hmem, hkeeps⟩ := List.mem_filter.mp hentry
    obtain ⟨hundisturbed, hcurrent⟩ := hentries entry hmem
    refine ⟨hundisturbed, fun other hother => ?_⟩
    have hold := hstored entry hmem
    have hdrop : (system.cache.invalidations ++ [invalidation]).drop entry.2.1.storedAfter =
        system.cache.invalidations.drop entry.2.1.storedAfter ++ [invalidation] :=
      List.drop_append_of_le_length hold
    have hother : other ∈ (system.cache.invalidations ++ [invalidation]).drop
      entry.2.1.storedAfter := hother
    rw [hdrop] at hother
    rcases List.mem_append.mp hother with hmem | hnew
    · exact hcurrent other hmem
    · rw [List.mem_singleton.mp hnew]
      exact (Bool.not_eq_true' _).mp hkeeps
  · intro answer hanswer
    obtain ⟨hundecided, hdecided, hsource⟩ := hsound answer hanswer
    refine ⟨hundecided, hdecided, fun source hmem => ?_⟩
    have hown := hsource source hmem
    cases source with
    | checked check => exact hown
    | stored entry =>
        have htake : (system.cache.invalidations ++ [invalidation]).take answer.returnedAfter =
            system.cache.invalidations.take answer.returnedAfter :=
          List.take_append_of_le_length (hanswered answer hanswer)
        show entry.Sound ((system.cache.invalidations ++ [invalidation]).take answer.returnedAfter)
          answer.key
        rw [htake]
        exact hown
  · show (system.cache.revision + 1) % revisionModulus =
      (system.cache.invalidate invalidation).passed % revisionModulus
    rw [hpassed, hrevision, Nat.mod_add_mod]
  · intro entry hentry
    show entry.2.1.storedAfter ≤ (system.cache.invalidate invalidation).passed
    rw [hpassed]
    exact Nat.le_succ_of_le (hstored entry (List.mem_of_mem_filter hentry))
  · intro answer hanswer
    show answer.returnedAfter ≤ (system.cache.invalidate invalidation).passed
    rw [hpassed]
    exact Nat.le_succ_of_le (hanswered answer hanswer)
  · intro call hcall
    show call.phase.Kept (system.cache.invalidate invalidation).passed call.begunAfter
    rw [hpassed]
    refine AccessCall.kept_succ (haccesses call hcall) (hovertaken call hcall) ?_
    exact fun observed hobserved => hrecent observed (List.mem_append_left _
      (List.mem_filterMap.mpr ⟨call, hcall, hobserved⟩))
  · intro call hcall
    show call.phase.Kept (system.cache.invalidate invalidation).passed
    rw [hpassed]
    refine AdminCall.kept_succ (hadmins call hcall) fun observed hobserved => ?_
    exact hrecent observed (List.mem_append_right _
      (List.mem_filterMap.mpr ⟨call, hcall, hobserved⟩))

/-- A step of the call at an index, if there is one. -/
theorem elim {α : Type} (hkept : system.Kept) {calls : List α} {act : α → PermissionSystem}
    (hact : ∀ call ∈ calls, (act call).Kept) : ((calls[index]?).elim system act).Kept := by
  cases hcall : calls[index]? with
  | none => exact hkept
  | some call => exact hact call (List.mem_of_getElem? hcall)

theorem step (hkept : system.Kept) {input : PermissionInput} (hcalm : system.Calm input) :
    (system.step input).Kept := by
  cases input with
  | beginAccess guildId channelId authenticatedGuildId userId =>
      simp only [PermissionSystem.step]
      split
      next access _ =>
        obtain ⟨hsound, hrevision, hstored, hanswered, haccesses, hadmins⟩ := hkept
        refine ⟨⟨hsound.entries, hsound.returned⟩, hrevision, hstored, hanswered, ?_, hadmins⟩
        intro call hcall
        rcases List.mem_append.mp hcall with hold | hnew
        · exact haccesses call hold
        · rw [List.mem_singleton.mp hnew]
          exact Nat.le_refl _
      next status _ =>
        refine hkept.answer ⟨fun _ => rfl, ?_, ?_⟩ (Nat.le_refl _) (fun _ hcall => hcall) <;>
          intro source hsource <;> cases hsource
  | access index => exact hkept.elim fun call hcall => hkept.access hcall
  | finishAccess index result =>
      exact hkept.elim fun call hcall => hkept.finishAccess hcall result
  | beginAdmin guildId userId useCache =>
      obtain ⟨hsound, hrevision, hstored, hanswered, haccesses, hadmins⟩ := hkept
      refine ⟨⟨hsound.entries, hsound.returned⟩, hrevision, hstored, hanswered, haccesses, ?_⟩
      intro call hcall
      rcases List.mem_append.mp hcall with hold | hnew
      · exact hadmins call hold
      · rw [List.mem_singleton.mp hnew]
        trivial
  | admin index => exact hkept.elim fun call hcall => hkept.admin hcall
  | finishAdmin index result => exact hkept.elim fun call hcall => hkept.finishAdmin hcall result
  | invalidate invalidation => exact hkept.invalidate hcalm
  | tick elapsed =>
      obtain ⟨hsound, hrevision, hstored, hanswered, haccesses, hadmins⟩ := hkept
      exact ⟨⟨hsound.entries, hsound.returned⟩, hrevision, hstored, hanswered, haccesses, hadmins⟩

end PermissionSystem.Kept

/-- In every run in which no second invalidation overtakes a check that is not repeated, and
fewer invalidations than there are revisions fall into one check: in every state the cache holds
only permissions whose check no invalidation disturbed and whose keys none has covered since,
and every decision served comes from such an entry, or from a check that began after every
invalidation before its end, or, in a call that met more invalidations than it has retries, after
all of them but the last. -/
theorem permissions_current_in_calm_runs {inputs : List PermissionInput}
    (hcalm : Machine.EveryStep PermissionSystem.step PermissionSystem.Calm {} inputs) :
    Machine.Always PermissionSystem.step PermissionSystem.Sound {} inputs := by
  have hkept : Machine.Always PermissionSystem.step PermissionSystem.Kept {} inputs :=
    Machine.always_of_everyStep PermissionSystem.step (fun _ _ hkept hcalm => hkept.step hcalm)
      PermissionSystem.Kept.new hcalm
  exact hkept.mono PermissionSystem.step fun _ hkept => hkept.toSound

/-- One round of a call: it reads the revision, checks, and comes back to store an allow, after
some invalidations. -/
def checkOvertaken (count : ℕ) : List PermissionInput :=
  [PermissionInput.access 0, .access 0] ++
    List.replicate count (PermissionInput.invalidate .everything) ++
    [PermissionInput.finishAccess 0 (.ok ⟨true, false⟩), .access 0]

/-- A call that meets one invalidation in each of its first two checks, and some in its last. -/
def accessOvertaken (count : ℕ) : List PermissionInput :=
  [PermissionInput.beginAccess "g" "c" "g" "u", .access 0] ++ checkOvertaken 1 ++
    checkOvertaken 1 ++ checkOvertaken count

/-- The decisions that were served on a check: whether it is an allow, and after how many
invalidations the check began and ended. -/
def PermissionSystem.servedChecks (system : PermissionSystem) : List (Bool × ℕ × ℕ) :=
  system.returned.filterMap fun answer =>
    match answer.source with
    | some (.checked check) =>
        some (answer.result.toBool, check.startedAfter, check.endedAfter)
    | _ => none

theorem served_after_all_but_last :
    (Machine.run PermissionSystem.step {} (accessOvertaken 1)).servedChecks = [(true, 2, 3)] ∧
      Machine.Always PermissionSystem.step PermissionSystem.Sound {} (accessOvertaken 1) :=
  ⟨by decide +kernel, permissions_current_in_calm_runs (by decide +kernel)⟩

/-- Two invalidations in the last check: the allow that is served was checked before both. -/
theorem served_before_last_two :
    (Machine.run PermissionSystem.step {} (accessOvertaken 2)).servedChecks = [(true, 2, 4)] ∧
      ¬(Machine.run PermissionSystem.step {} (accessOvertaken 2)).Sound := by
  have hserved : (Machine.run PermissionSystem.step {} (accessOvertaken 2)).servedChecks =
      [(true, 2, 4)] := by
    decide +kernel
  refine ⟨hserved, fun hsound => ?_⟩
  have hmem : (true, 2, 4) ∈
      (Machine.run PermissionSystem.step {} (accessOvertaken 2)).servedChecks := by
    rw [hserved]
    exact List.mem_cons_self
  obtain ⟨answer, hanswer, hcheck⟩ := List.mem_filterMap.mp hmem
  split at hcheck
  next check hsource =>
    obtain ⟨-, htimes⟩ := Prod.mk.inj (Option.some.inj hcheck)
    obtain ⟨hstarted, hended⟩ := Prod.mk.inj htimes
    have hserves := (hsound.returned answer hanswer).source _ hsource
    rcases hserves with hsame | ⟨-, hlast⟩
    · omega
    · omega
  next => cases hcheck

end DiscordTranscript.Interfaces
