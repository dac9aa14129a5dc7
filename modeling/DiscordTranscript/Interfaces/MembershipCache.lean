import DiscordTranscript.Foundation.ExpiringMap
import DiscordTranscript.Interfaces.RefreshCache

/-! # The membership cache

The model of `verify_guild_membership_reverify_with` in `interfaces/web.rs`. A caller that finds no
unexpired membership becomes the leader of a verification or waits for the one in flight. The leader
leaves the map of verifications in one section and fills the cache in another; an invalidation
clears the cache between two such sections as well as before or after them, and has no revision that
a leader could compare.

Every section under a lock is one step, and any number of callers and invalidations interleave.
Times are milliseconds; steps are counted so that what came first can be told.
-/

namespace DiscordTranscript.Interfaces

open Slots

def membershipCacheTtlSecs : ℕ := 5
def membershipReverifyInflightSecs : ℕ := 5
def membershipCacheLimit : ℕ := 5000

abbrev Membership := Except StatusCode Bool

/-! ## The stores -/

structure MembershipInflightEntry where
  notify : ℕ
  startedAt : ℕ

structure MembershipStores (κ : Type) where
  cache : ExpiringMap κ (Resolved Membership) := []
  inflight : List (κ × MembershipInflightEntry) := []

inductive MembershipReverifyStart where
  | leader (notify : ℕ)
  | follower (notify : ℕ)

variable {κ : Type} [DecidableEq κ]

namespace MembershipStores

variable (stores : MembershipStores κ) (user : κ)

/-- The second section of `cached_guild_membership`. -/
def forgetExpired (now : ℕ) : MembershipStores κ :=
  if (stores.cache.find? (·.1 = user)).any fun entry => entry.2.2 ≤ now then
    { stores with cache := stores.cache.remove user }
  else stores

def cacheGuildMembership (membership : Resolved Membership) (clock : ℕ) : MembershipStores κ :=
  { stores with
    cache := (stores.cache.insert user membership (clock + membershipCacheTtlSecs * 1000)).evict
      membershipCacheLimit clock }

/-- Stale entries of all users go first. Whole seconds are compared. -/
def beginMembershipReverify (clock notify : ℕ) : MembershipStores κ × MembershipReverifyStart :=
  let inflight := stores.inflight.filter fun (_, entry) =>
    (clock - entry.startedAt) / 1000 < membershipReverifyInflightSecs
  match inflight.find? (·.1 = user) with
  | some (_, entry) => ({ stores with inflight }, .follower entry.notify)
  | none => ({ stores with inflight := (user, ⟨notify, clock⟩) :: inflight }, .leader notify)

/-- The first section of `publish_membership_reverify_result`, if the leader is not replaced. -/
def endMembershipReverify (notify : ℕ) : Option (MembershipStores κ) :=
  match stores.inflight.find? (·.1 = user) with
  | some (_, entry) =>
      if entry.notify = notify then
        some { stores with inflight := stores.inflight.filter fun (other, _) => other ≠ user }
      else none
  | none => none

end MembershipStores

/-! ## A caller -/

/-- Where the cache is read: before the loop, at the start of a round, after a wait. -/
inductive MembershipRead where
  | entry
  | round
  | follower

/-- The section or the wait that a caller comes to next. -/
inductive MembershipPhase where
  | reading (place : MembershipRead) (now : ℕ)
  | forgetting (place : MembershipRead) (now : ℕ)
  | beginning
  | waiting (notify : ℕ)
  | starting (notify : ℕ)
  | verifying (notify startedAt : ℕ)
  | publishing (notify : ℕ) (membership : Resolved Membership)
  | filling (membership : Resolved Membership)

/-- A caller; `invalidatedBefore` is history, the steps in which those invalidations began that had
returned when the call started. -/
structure MembershipCaller (κ : Type) where
  user : κ
  useCachedResult : Bool
  invalidatedBefore : List ℕ
  phase : MembershipPhase

inductive MembershipMove where
  | goTo (phase : MembershipPhase)
  | answer (membership : Resolved Membership)

/-- The start of a round of the loop. -/
def MembershipCaller.nextRound (caller : MembershipCaller κ) (clock : ℕ) : MembershipMove :=
  .goTo (if caller.useCachedResult then .reading .round clock else .beginning)

/-- What follows a read that found nothing. -/
def MembershipCaller.afterMiss (caller : MembershipCaller κ) (clock : ℕ) :
    MembershipRead → MembershipMove
  | .entry => caller.nextRound clock
  | .round => .goTo .beginning
  | .follower => caller.nextRound clock

/-- The next section of a caller. The answer of the verification comes from outside. -/
def MembershipCaller.proceed (caller : MembershipCaller κ) (stores : MembershipStores κ)
    (clock nextNotify steps : ℕ) : MembershipStores κ × MembershipMove :=
  match caller.phase with
  | .reading place now =>
      match stores.cache.get caller.user now with
      | some membership => (stores, .answer membership)
      | none => (stores, .goTo (.forgetting place now))
  | .forgetting place now =>
      (stores.forgetExpired caller.user now, caller.afterMiss clock place)
  | .beginning =>
      match stores.beginMembershipReverify caller.user clock nextNotify with
      | (stores, .follower notify) => (stores, .goTo (.waiting notify))
      | (stores, .leader notify) => (stores, .goTo (.starting notify))
  | .waiting _ => (stores, .goTo (.reading .follower clock))
  | .starting notify => (stores, .goTo (.verifying notify (steps + 1)))
  | .verifying notify startedAt => (stores, .goTo (.verifying notify startedAt))
  | .publishing notify membership =>
      match stores.endMembershipReverify caller.user notify with
      | some stores => (stores, .goTo (.filling membership))
      | none => (stores, caller.nextRound clock)
  | .filling membership =>
      (stores.cacheGuildMembership caller.user membership clock, .answer membership)

/-! ## Callers and invalidations -/

/-- A run of `invalidate_discord_caches` before and after it has cleared the membership cache. -/
inductive InvalidationPhase where
  | clearing (startedAt : ℕ)
  | finishing (startedAt : ℕ)

structure MembershipReturn (κ : Type) where
  user : κ
  useCachedResult : Bool
  invalidatedBefore : List ℕ
  membership : Resolved Membership

/-- `steps`, `cleared` and `finished` (the steps in which the invalidations began that have cleared
the cache, and that have returned) and `returned` are history. -/
structure MembershipSystem (κ : Type) where
  stores : MembershipStores κ := {}
  callers : List (MembershipCaller κ) := []
  invalidations : List InvalidationPhase := []
  clock : ℕ := 0
  nextNotify : ℕ := 0
  steps : ℕ := 0
  cleared : List ℕ := []
  finished : List ℕ := []
  returned : List (MembershipReturn κ) := []

/-- `advance` takes a caller through its next section, or ends its wait, be it notified or timed
out. Callers and invalidations may be dropped where they stand. -/
inductive MembershipInput (κ : Type) where
  | arrive (user : κ) (useCachedResult : Bool)
  | advance (index : ℕ)
  | resolve (index : ℕ) (membership : Membership)
  | cancel (index : ℕ)
  | invalidate
  | continueInvalidation (index : ℕ)
  | cancelInvalidation (index : ℕ)
  | tick (elapsed : ℕ)

namespace MembershipSystem

variable (system : MembershipSystem κ)

def conclude (index : ℕ) (caller : MembershipCaller κ) :
    MembershipStores κ × MembershipMove → MembershipSystem κ
  | (stores, .goTo phase) =>
      { system with
        stores := stores
        callers := advanceAt system.callers index (some { caller with phase := phase }) }
  | (stores, .answer membership) =>
      { system with
        stores := stores
        callers := advanceAt system.callers index none
        returned := system.returned ++
          [⟨caller.user, caller.useCachedResult, caller.invalidatedBefore, membership⟩] }

def advance (index : ℕ) (caller : MembershipCaller κ) : MembershipSystem κ :=
  { system.conclude index caller
      (caller.proceed system.stores system.clock system.nextNotify system.steps) with
    nextNotify := system.nextNotify + 1 }

def continueInvalidation (index : ℕ) : InvalidationPhase → MembershipSystem κ
  | .clearing startedAt =>
      { system with
        stores := { system.stores with cache := [] }
        invalidations := advanceAt system.invalidations index (some (.finishing startedAt))
        cleared := startedAt :: system.cleared }
  | .finishing startedAt =>
      { system with
        invalidations := advanceAt system.invalidations index none
        finished := startedAt :: system.finished }

def act : MembershipInput κ → MembershipSystem κ
  | .arrive user useCachedResult =>
      { system with
        callers := system.callers ++ [
          { user, useCachedResult, invalidatedBefore := system.finished,
            phase := if useCachedResult then .reading .entry system.clock else .beginning }] }
  | .advance index =>
      match system.callers[index]? with
      | some caller => system.advance index caller
      | none => system
  | .resolve index membership =>
      match system.callers[index]? with
      | some caller =>
          match caller.phase with
          | .verifying notify startedAt =>
              system.conclude index caller
                (system.stores, .goTo (.publishing notify ⟨membership, startedAt⟩))
          | _ => system
      | none => system
  | .cancel index => { system with callers := advanceAt system.callers index none }
  | .invalidate =>
      { system with
        invalidations := system.invalidations ++ [.clearing (system.steps + 1)] }
  | .continueInvalidation index =>
      match system.invalidations[index]? with
      | some phase => system.continueInvalidation index phase
      | none => system
  | .cancelInvalidation index =>
      { system with invalidations := advanceAt system.invalidations index none }
  | .tick elapsed => { system with clock := system.clock + elapsed }

/-- One step; every step is counted. -/
def step (input : MembershipInput κ) : MembershipSystem κ :=
  { system.act input with steps := system.steps + 1 }

end MembershipSystem

/-! ## What the cache holds -/

/-- The cache holds no verdict whose verification began before an invalidation that cleared it. -/
def MembershipSystem.CacheFresh (system : MembershipSystem κ) : Prop :=
  ∀ entry ∈ system.stores.cache, ∀ start ∈ system.cleared, start < entry.2.1.startedAt

/-- No caller answered with a verdict whose verification began before an invalidation that had
returned when the call started. -/
def MembershipSystem.AnswersFresh (system : MembershipSystem κ) : Prop :=
  ∀ answer ∈ system.returned, ∀ start ∈ answer.invalidatedBefore,
    start < answer.membership.startedAt

/-- The verdict that a step puts into the cache. -/
def MembershipSystem.filledBy (system : MembershipSystem κ) :
    MembershipInput κ → Option (Resolved Membership)
  | .advance index => (system.callers[index]?).bind fun caller =>
      match caller.phase with
      | .filling membership => some membership
      | _ => none
  | _ => none

/-- A leader that fills the cache began its verification after every invalidation that has cleared
it. -/
def MembershipSystem.FillsFresh (system : MembershipSystem κ) (input : MembershipInput κ) : Prop :=
  ∀ membership ∈ system.filledBy input, ∀ start ∈ system.cleared, start < membership.startedAt

instance (system : MembershipSystem κ) (input : MembershipInput κ) :
    Decidable (system.FillsFresh input) :=
  inferInstanceAs (Decidable (∀ membership ∈ system.filledBy input,
    ∀ start ∈ system.cleared, start < membership.startedAt))

/-- A verdict in the hands of a leader is from after a step. -/
def MembershipPhase.Since (phase : MembershipPhase) (start : ℕ) : Prop :=
  match phase with
  | .verifying _ startedAt => start < startedAt
  | .publishing _ membership => start < membership.startedAt
  | .filling membership => start < membership.startedAt
  | _ => True

def MembershipMove.Since (move : MembershipMove) (start : ℕ) : Prop :=
  match move with
  | .goTo phase => phase.Since start
  | .answer membership => start < membership.startedAt

theorem mem_cache_forgetExpired {stores : MembershipStores κ} {user : κ} {now : ℕ}
    {entry : κ × Resolved Membership × ℕ}
    (hentry : entry ∈ (stores.forgetExpired user now).cache) : entry ∈ stores.cache := by
  unfold MembershipStores.forgetExpired at hentry
  split at hentry
  next => exact List.mem_of_mem_filter hentry
  next => exact hentry

theorem cache_beginMembershipReverify (stores : MembershipStores κ) (user : κ)
    (clock notify : ℕ) :
    (stores.beginMembershipReverify user clock notify).1.cache = stores.cache := by
  unfold MembershipStores.beginMembershipReverify
  dsimp only
  split
  next => rfl
  next => rfl

theorem cache_endMembershipReverify {stores after : MembershipStores κ} {user : κ} {notify : ℕ}
    (hend : stores.endMembershipReverify user notify = some after) :
    after.cache = stores.cache := by
  unfold MembershipStores.endMembershipReverify at hend
  split at hend
  next =>
    split at hend
    next =>
      cases hend
      rfl
    next => cases hend
  next => cases hend

/-- What a section puts into the cache is the verdict that its caller fills it with. -/
theorem mem_cache_proceed {caller : MembershipCaller κ} {stores : MembershipStores κ}
    {clock nextNotify steps : ℕ} {entry : κ × Resolved Membership × ℕ}
    (hentry : entry ∈ (caller.proceed stores clock nextNotify steps).1.cache) :
    entry ∈ stores.cache ∨ caller.phase = .filling entry.2.1 := by
  unfold MembershipCaller.proceed at hentry
  split at hentry
  next =>
    split at hentry
    next => exact .inl hentry
    next => exact .inl hentry
  next => exact .inl (mem_cache_forgetExpired hentry)
  next =>
    have hsame := cache_beginMembershipReverify stores caller.user clock nextNotify
    split at hentry
    next hbegin =>
      rw [hbegin] at hsame
      exact .inl (hsame ▸ hentry)
    next hbegin =>
      rw [hbegin] at hsame
      exact .inl (hsame ▸ hentry)
  next => exact .inl hentry
  next => exact .inl hentry
  next => exact .inl hentry
  next =>
    split at hentry
    next hend => exact .inl (cache_endMembershipReverify hend ▸ hentry)
    next => exact .inl hentry
  next membership hphase =>
    rcases ExpiringMap.mem_insert (ExpiringMap.mem_of_mem_evict hentry) with rfl | hold
    · exact .inr hphase
    · exact .inl hold

/-- The verdict that fills the cache is in it afterwards. -/
theorem mem_cacheGuildMembership (stores : MembershipStores κ) (user : κ)
    (membership : Resolved Membership) (clock : ℕ) :
    (user, membership, clock + membershipCacheTtlSecs * 1000) ∈
      (stores.cacheGuildMembership user membership clock).cache := by
  unfold MembershipStores.cacheGuildMembership ExpiringMap.evict
  dsimp only
  split
  next =>
    apply List.mem_filter.mpr
    exact ⟨List.mem_cons_self, by simp [membershipCacheTtlSecs]⟩
  next => exact List.mem_cons_self

/-- A section hands on what is from after a step when the cache and the caller have nothing else. -/
theorem since_proceed {caller : MembershipCaller κ} {stores : MembershipStores κ}
    {clock nextNotify steps start : ℕ}
    (hcache : ∀ entry ∈ stores.cache, start < entry.2.1.startedAt)
    (hcaller : caller.phase.Since start) (hpast : start ≤ steps) :
    (caller.proceed stores clock nextNotify steps).2.Since start := by
  have hround : ∀ clock, (caller.nextRound clock).Since start := by
    intro clock
    unfold MembershipCaller.nextRound MembershipMove.Since MembershipPhase.Since
    cases caller.useCachedResult
    · trivial
    · trivial
  unfold MembershipCaller.proceed
  split
  next =>
    split
    next membership hget =>
      obtain ⟨expiresAt, hmem⟩ := ExpiringMap.mem_of_get hget
      exact hcache _ hmem
    next => trivial
  next place now hphase =>
    cases place with
    | entry => exact hround clock
    | round => trivial
    | follower => exact hround clock
  next =>
    split
    next => trivial
    next => trivial
  next => trivial
  next => exact Nat.lt_succ_of_le hpast
  next hphase =>
    rw [hphase] at hcaller
    exact hcaller
  next hphase =>
    rw [hphase] at hcaller
    split
    next => exact hcaller
    next => exact hround clock
  next hphase =>
    rw [hphase] at hcaller
    exact hcaller

namespace MembershipSystem

variable {system : MembershipSystem κ}

omit [DecidableEq κ] in
theorem stores_conclude (index : ℕ) (caller : MembershipCaller κ)
    (after : MembershipStores κ × MembershipMove) :
    (system.conclude index caller after).stores = after.1 := by
  obtain ⟨stores, move⟩ := after
  cases move with
  | goTo phase => rfl
  | answer membership => rfl

omit [DecidableEq κ] in
theorem cleared_conclude (index : ℕ) (caller : MembershipCaller κ)
    (after : MembershipStores κ × MembershipMove) :
    (system.conclude index caller after).cleared = system.cleared := by
  obtain ⟨stores, move⟩ := after
  cases move with
  | goTo phase => rfl
  | answer membership => rfl

omit [DecidableEq κ] in
theorem mem_filledBy {index : ℕ} {caller : MembershipCaller κ} {membership : Resolved Membership}
    (hcaller : system.callers[index]? = some caller)
    (hfilling : caller.phase = .filling membership) :
    membership ∈ system.filledBy (.advance index) := by
  rw [filledBy, hcaller, Option.bind_some, hfilling]
  rfl

omit [DecidableEq κ] in
theorem filling_of_mem_filledBy {index : ℕ} {caller : MembershipCaller κ}
    {membership : Resolved Membership} (hcaller : system.callers[index]? = some caller)
    (hmembership : membership ∈ system.filledBy (.advance index)) :
    caller.phase = .filling membership := by
  rw [filledBy, hcaller, Option.bind_some] at hmembership
  split at hmembership
  next hphase =>
    cases hmembership
    exact hphase
  next => cases hmembership

/-- A step leaves the cache fresh if and only if it does not fill it with an older verdict. -/
theorem cacheFresh_step_iff (hfresh : system.CacheFresh) (input : MembershipInput κ) :
    (system.step input).CacheFresh ↔ system.FillsFresh input := by
  have hnone : system.filledBy input = none → system.FillsFresh input := by
    intro hempty membership hmembership
    rw [hempty] at hmembership
    cases hmembership
  cases input with
  | advance index =>
      cases hcaller : system.callers[index]? with
      | none =>
          have hact : system.act (.advance index) = system := by
            rw [act, hcaller]
          unfold step CacheFresh
          rw [hact]
          refine iff_of_true hfresh (hnone ?_)
          rw [filledBy, hcaller]
          rfl
      | some caller =>
          have hact : system.act (.advance index) = system.advance index caller := by
            rw [act, hcaller]
          have hstores : (system.advance index caller).stores =
              (caller.proceed system.stores system.clock system.nextNotify system.steps).1 :=
            stores_conclude index caller _
          have hcleared : (system.advance index caller).cleared = system.cleared :=
            cleared_conclude index caller _
          unfold step CacheFresh
          dsimp only
          rw [hact, hstores, hcleared]
          constructor
          · intro hnext membership hmembership
            have hfilling := filling_of_mem_filledBy hcaller hmembership
            have hmem := mem_cacheGuildMembership system.stores caller.user membership system.clock
            apply hnext (caller.user, membership, _)
            unfold MembershipCaller.proceed
            rw [hfilling]
            exact hmem
          · intro hfills entry hentry
            rcases mem_cache_proceed hentry with hold | hfilling
            · exact hfresh entry hold
            · exact hfills entry.2.1 (mem_filledBy hcaller hfilling)
  | resolve index membership =>
      refine iff_of_true ?_ (hnone rfl)
      unfold step act
      dsimp only
      split
      next caller _ =>
        split
        next =>
          unfold CacheFresh
          dsimp only
          rw [stores_conclude, cleared_conclude]
          exact hfresh
        next => exact hfresh
      next => exact hfresh
  | continueInvalidation index =>
      refine iff_of_true ?_ (hnone rfl)
      unfold step act
      dsimp only
      split
      next phase _ =>
        cases phase with
        | clearing startedAt =>
            intro entry hentry
            cases hentry
        | finishing startedAt => exact hfresh
      next => exact hfresh
  | arrive _ _ | cancel _ | invalidate | cancelInvalidation _ | tick _ =>
      exact iff_of_true hfresh (hnone rfl)

/-- What holds in every state, beside the cache: what is cleared and finished began before, and no
caller has anything from before the invalidations it knows. -/
structure Sound (system : MembershipSystem κ) : Prop where
  cache : system.CacheFresh
  answers : system.AnswersFresh
  finished : system.finished ⊆ system.cleared
  past : ∀ start ∈ system.cleared, start ≤ system.steps
  clearing : ∀ start, .clearing start ∈ system.invalidations → start ≤ system.steps
  finishing : ∀ start, .finishing start ∈ system.invalidations → start ∈ system.cleared
  callers : ∀ caller ∈ system.callers, caller.invalidatedBefore ⊆ system.cleared ∧
    ∀ start ∈ caller.invalidatedBefore, caller.phase.Since start

omit [DecidableEq κ] in
theorem sound_new : ({} : MembershipSystem κ).Sound := by
  constructor
  all_goals simp [CacheFresh, AnswersFresh]

omit [DecidableEq κ] in
theorem Sound.conclude (hsound : system.Sound) {index : ℕ} {caller : MembershipCaller κ}
    (hcaller : caller ∈ system.callers) {after : MembershipStores κ × MembershipMove}
    (hcache : ∀ entry ∈ after.1.cache, ∀ start ∈ system.cleared, start < entry.2.1.startedAt)
    (hmove : ∀ start ∈ caller.invalidatedBefore, after.2.Since start) :
    (system.conclude index caller after).Sound := by
  obtain ⟨stores, move⟩ := after
  cases move with
  | goTo phase =>
      refine { hsound with cache := hcache, callers := forall_advanceAt hsound.callers ?_ }
      intro other hother
      cases hother
      exact ⟨(hsound.callers caller hcaller).1, hmove⟩
  | answer membership =>
      refine { hsound with cache := hcache, answers := ?_, callers := ?_ }
      · intro answer hanswer
        rcases List.mem_append.mp hanswer with hold | hnew
        · exact hsound.answers answer hold
        · rw [List.mem_singleton.mp hnew]
          exact hmove
      · apply forall_advanceAt hsound.callers
        intro other hother
        cases hother

theorem Sound.advance (hsound : system.Sound) {index : ℕ} {caller : MembershipCaller κ}
    (hcaller : system.callers[index]? = some caller)
    (hfills : system.FillsFresh (.advance index)) : (system.advance index caller).Sound := by
  have hmem := List.mem_of_getElem? hcaller
  obtain ⟨hknown, hsince⟩ := hsound.callers caller hmem
  have hconcluded : (system.conclude index caller
      (caller.proceed system.stores system.clock system.nextNotify system.steps)).Sound := by
    apply hsound.conclude hmem
    · intro entry hentry
      rcases mem_cache_proceed hentry with hold | hfilling
      · exact hsound.cache entry hold
      · exact hfills entry.2.1 (mem_filledBy hcaller hfilling)
    · intro start hstart
      exact since_proceed (fun entry hentry => hsound.cache entry hentry start (hknown hstart))
        (hsince start hstart) (hsound.past start (hknown hstart))
  exact { hconcluded with }

omit [DecidableEq κ] in
theorem Sound.continueInvalidation (hsound : system.Sound) {index : ℕ} {phase : InvalidationPhase}
    (hphase : system.invalidations[index]? = some phase) :
    (system.continueInvalidation index phase).Sound := by
  have hmem := List.mem_of_getElem? hphase
  cases phase with
  | clearing startedAt =>
      refine { hsound with cache := ?_, finished := ?_, past := ?_, clearing := ?_,
                           finishing := ?_, callers := ?_ }
      · intro entry hentry
        cases hentry
      · intro start hstart
        exact List.mem_cons_of_mem _ (hsound.finished hstart)
      · intro start hstart
        rcases List.mem_cons.mp hstart with rfl | hstart
        · exact hsound.clearing start hmem
        · exact hsound.past start hstart
      · intro start hstart
        rcases mem_advanceAt hstart with hold | hnew
        · exact hsound.clearing start hold
        · cases hnew
      · intro start hstart
        rcases mem_advanceAt hstart with hold | hnew
        · exact List.mem_cons_of_mem _ (hsound.finishing start hold)
        · cases hnew
          exact List.mem_cons_self
      · intro caller hcaller
        obtain ⟨hknown, hsince⟩ := hsound.callers caller hcaller
        exact ⟨fun start hstart => List.mem_cons_of_mem _ (hknown hstart), hsince⟩
  | finishing startedAt =>
      refine { hsound with finished := ?_, clearing := ?_, finishing := ?_ }
      · intro start hstart
        rcases List.mem_cons.mp hstart with rfl | hstart
        · exact hsound.finishing start hmem
        · exact hsound.finished hstart
      · intro start hstart
        exact hsound.clearing start ((advanceAt_none_sublist _ index).subset hstart)
      · intro start hstart
        exact hsound.finishing start ((advanceAt_none_sublist _ index).subset hstart)

theorem Sound.step (hsound : system.Sound) {input : MembershipInput κ}
    (hfills : system.FillsFresh input) : (system.step input).Sound := by
  -- Counting the step leaves everything else as it is.
  have hcounted : ∀ after : MembershipSystem κ, after.Sound → after.steps = system.steps →
      ({ after with steps := system.steps + 1 } : MembershipSystem κ).Sound := by
    intro after hafter hsteps
    refine { hafter with past := ?_, clearing := ?_ }
    · intro start hstart
      have hpast := hafter.past start hstart
      dsimp only
      omega
    · intro start hstart
      have hpast := hafter.clearing start hstart
      dsimp only
      omega
  have hconclude : ∀ index caller after,
      (system.conclude index caller after).steps = system.steps := by
    intro index caller after
    obtain ⟨stores, move⟩ := after
    cases move with
    | goTo phase => rfl
    | answer membership => rfl
  unfold MembershipSystem.step
  cases input with
  | arrive user useCachedResult =>
      refine hcounted (system.act (.arrive user useCachedResult)) { hsound with callers := ?_ } rfl
      intro caller hcaller
      rcases List.mem_append.mp hcaller with hold | hnew
      · exact hsound.callers caller hold
      · obtain rfl := List.mem_singleton.mp hnew
        refine ⟨hsound.finished, ?_⟩
        intro start _
        cases useCachedResult with
        | true => trivial
        | false => trivial
  | advance index =>
      apply hcounted (system.act (.advance index))
      · unfold act
        dsimp only
        cases hcaller : system.callers[index]? with
        | none => exact hsound
        | some caller => exact hsound.advance hcaller hfills
      · unfold act
        dsimp only
        split
        next => exact hconclude index _ _
        next => rfl
  | resolve index membership =>
      apply hcounted (system.act (.resolve index membership))
      · unfold act
        dsimp only
        split
        next caller hcaller =>
          split
          next notify startedAt hphase =>
            have hmem := List.mem_of_getElem? hcaller
            refine hsound.conclude hmem hsound.cache ?_
            intro start hstart
            have hsince := (hsound.callers caller hmem).2 start hstart
            rw [hphase] at hsince
            exact hsince
          next => exact hsound
        next => exact hsound
      · unfold act
        dsimp only
        split
        next =>
          split
          next => exact hconclude index _ _
          next => rfl
        next => rfl
  | cancel index =>
      refine hcounted (system.act (.cancel index)) { hsound with callers := ?_ } rfl
      intro caller hcaller
      exact hsound.callers caller ((advanceAt_none_sublist _ index).subset hcaller)
  | invalidate =>
      refine { hsound with past := ?_, clearing := ?_, finishing := ?_ }
      · intro start hstart
        exact (hsound.past start hstart).trans (Nat.le_succ _)
      · intro start hstart
        rcases List.mem_append.mp hstart with hold | hnew
        · exact (hsound.clearing start hold).trans (Nat.le_succ _)
        · cases List.mem_singleton.mp hnew
          exact le_rfl
      · intro start hstart
        rcases List.mem_append.mp hstart with hold | hnew
        · exact hsound.finishing start hold
        · cases List.mem_singleton.mp hnew
  | continueInvalidation index =>
      apply hcounted (system.act (.continueInvalidation index))
      · unfold act
        dsimp only
        split
        next phase hphase => exact hsound.continueInvalidation hphase
        next => exact hsound
      · unfold act
        dsimp only
        split
        next phase _ =>
          cases phase with
          | clearing startedAt => rfl
          | finishing startedAt => rfl
        next => rfl
  | cancelInvalidation index =>
      refine hcounted (system.act (.cancelInvalidation index))
        { hsound with clearing := ?_, finishing := ?_ } rfl
      · intro start hstart
        exact hsound.clearing start ((advanceAt_none_sublist _ index).subset hstart)
      · intro start hstart
        exact hsound.finishing start ((advanceAt_none_sublist _ index).subset hstart)
  | tick elapsed => exact hcounted (system.act (.tick elapsed)) { hsound with } rfl

end MembershipSystem

/-- The cache holds nothing from before an invalidation that cleared it as long as every leader that
fills it began its verification later; and then no call that starts after an invalidation has
returned answers with a verdict from before it. -/
theorem membership_follows_invalidations (inputs : List (MembershipInput κ)) :
    (Machine.Always MembershipSystem.step MembershipSystem.CacheFresh {} inputs ↔
      Machine.EveryStep MembershipSystem.step MembershipSystem.FillsFresh {} inputs) ∧
    (Machine.EveryStep MembershipSystem.step MembershipSystem.FillsFresh {} inputs →
      Machine.Always MembershipSystem.step MembershipSystem.AnswersFresh {} inputs) := by
  constructor
  · apply @Machine.always_iff_everyStep _ _ MembershipSystem.step fun _ => True
    · exact fun _ _ _ => trivial
    · exact fun system input _ hfresh => MembershipSystem.cacheFresh_step_iff hfresh input
    · trivial
    · exact MembershipSystem.sound_new.cache
  · intro hsteps
    have hsound : Machine.Always MembershipSystem.step MembershipSystem.Sound
        ({} : MembershipSystem κ) inputs := by
      apply Machine.always_of_everyStep MembershipSystem.step _ MembershipSystem.sound_new hsteps
      exact fun system input hsound hfills => hsound.step hfills
    exact hsound.mono _ fun system hsystem => hsystem.answers

/-- A leader begins its verification, the caches are invalidated, and a call that starts then waits
for the leader. -/
def lateLeaderRun : List (MembershipInput String) :=
  [MembershipInput.arrive "user" true] ++ List.replicate 6 (MembershipInput.advance 0) ++
    [MembershipInput.invalidate, .continueInvalidation 0, .continueInvalidation 0,
      .arrive "user" true] ++
    List.replicate 5 (MembershipInput.advance 1) ++ [MembershipInput.resolve 0 (.ok true)] ++
    List.replicate 4 (MembershipInput.advance 0)

/-- The cleared cache is filled with the old verdict, and the later call answers with it. -/
theorem late_leader_answers_later_call :
    ¬∀ inputs : List (MembershipInput String),
      Machine.Always MembershipSystem.step
        (fun system => ∀ answer ∈ system.returned, answer.useCachedResult = true →
          ∀ start ∈ answer.invalidatedBefore, start < answer.membership.startedAt) {} inputs := by
  intro hclaim
  have hfinal := (hclaim lateLeaderRun).run
  revert hfinal
  decide +kernel

/-- The leader's verification begins after the invalidation. -/
def promptLeaderRun : List (MembershipInput String) :=
  [MembershipInput.invalidate, .continueInvalidation 0, .continueInvalidation 0,
    .arrive "user" true] ++
    List.replicate 6 (MembershipInput.advance 0) ++ [MembershipInput.resolve 0 (.ok true)] ++
    List.replicate 2 (MembershipInput.advance 0)

theorem prompt_leader_answers_fresh :
    Machine.EveryStep MembershipSystem.step MembershipSystem.FillsFresh {} promptLeaderRun ∧
      Machine.Always MembershipSystem.step MembershipSystem.AnswersFresh {} promptLeaderRun := by
  have hsteps : Machine.EveryStep MembershipSystem.step MembershipSystem.FillsFresh {}
      promptLeaderRun := by
    decide +kernel
  exact ⟨hsteps, (membership_follows_invalidations promptLeaderRun).2 hsteps⟩

end DiscordTranscript.Interfaces
