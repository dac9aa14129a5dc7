import Mathlib.Algebra.Order.BigOperators.Group.Multiset
import Mathlib.Algebra.Order.Group.Nat
import Mathlib.Data.Multiset.UnionInter
import DiscordTranscript.Infrastructure.UploadQueue

/-! # The ledger behind the upload queue

What a producer or the worker has taken from the queue and not given back is a
stake. The ledger is balanced when the counters, the generation maps, the history
of accepted and settled writes and the receipts are exactly what the stakes say.
Each operation of the code is one move of the ledger, from one stake to the next,
and every move keeps the balance.
-/

namespace DiscordTranscript.Infrastructure

/-- What one task, queued or about to be, has taken from the queue. -/
structure Stake where
  write : UploadWrite
  /-- It is counted in `pending`. -/
  task : Bool := false
  /-- Its bytes are counted in `pending_bytes`. -/
  bytes : Bool := false
  /-- Its bytes have passed the limit. -/
  checked : Bool := false
  /-- Its generation has been drawn. -/
  numbered : Bool := false
  /-- Its generation is in the map of outstanding ones. -/
  tracked : Bool := false
  /-- The queue has accepted it. -/
  accepted : Bool := false
  deriving DecidableEq

namespace Stake

def taskShare (stake : Stake) : ℕ := if stake.task then 1 else 0

def byteShare (stake : Stake) : ℕ := if stake.bytes then stake.write.countedBytes else 0

def checkedShare (stake : Stake) : ℕ := if stake.checked then stake.write.countedBytes else 0

/-- Nothing is tracked or accepted before it has a number, and no byte passes the
limit before it is counted. -/
@[mk_iff] structure Ordered (stake : Stake) : Prop where
  bytes_of_checked : stake.checked = true → stake.bytes = true
  numbered_of_tracked : stake.tracked = true → stake.numbered = true
  numbered_of_accepted : stake.accepted = true → stake.numbered = true

theorem Ordered.checkedShare_le {stake : Stake} (hstake : stake.Ordered) :
    stake.checkedShare ≤ stake.byteShare := by
  unfold checkedShare byteShare
  split
  next hchecked => rw [if_pos (hstake.bytes_of_checked hchecked)]
  next => exact Nat.zero_le _

end Stake

/-- The generations drawn and still in use, or settled. -/
def drawnGenerations (queue : UploadQueue) (stakes : Multiset Stake) : Multiset ℕ :=
  (stakes.filter (·.numbered)).map (·.write.generation) +
    ↑(queue.settled.map (·.1.generation))

def acceptedStakes (stakes : Multiset Stake) : Multiset UploadWrite :=
  (stakes.filter (·.accepted)).map (·.write)

def UploadQueue.acceptedWrites (queue : UploadQueue) : List UploadWrite :=
  queue.accepted.map (·.task.toUploadWrite)

/-- The counters are the sums of what the stakes have taken. -/
@[mk_iff] structure CountersBalanced (queue : UploadQueue) (stakes : Multiset Stake) : Prop where
  pending : queue.pending = (stakes.map Stake.taskShare).sum
  pendingBytes : queue.pendingBytes = (stakes.map Stake.byteShare).sum
  pending_le : queue.pending ≤ uploadMaxPendingTasks
  checked_le : (stakes.map Stake.checkedShare).sum ≤ uploadMaxPendingBytes

/-- The maps hold the tracked generations, and no generation is drawn twice. -/
@[mk_iff] structure GenerationsBalanced (queue : UploadQueue) (stakes : Multiset Stake) :
    Prop where
  tracked : ∀ key generation, generation ∈ queue.generations.tracked key ↔
    ∃ stake ∈ stakes, stake.tracked = true ∧ stake.write.key = key ∧
      stake.write.generation = generation
  collected : queue.generations.Collected
  drawn_nodup : (drawnGenerations queue stakes).Nodup
  drawn_lt : ∀ generation ∈ drawnGenerations queue stakes, generation < queue.nextGeneration

/-- An accepted write is settled or still held; a settled one has its receipt at the
status that was reported, any other generation in use has an open receipt. -/
@[mk_iff] structure HistoryBalanced (queue : UploadQueue) (stakes : Multiset Stake) : Prop where
  accepted : (queue.acceptedWrites : Multiset UploadWrite) =
    ↑(queue.settled.map Prod.fst) + acceptedStakes stakes
  receipt_open : ∀ stake ∈ stakes, stake.numbered = true →
    (queue.receipts stake.write.generation).isTerminal = false
  receipt_closed : ∀ entry ∈ queue.settled,
    queue.receipts entry.1.generation = entry.2 ∧ entry.2.isTerminal = true

@[mk_iff] structure Balanced (queue : UploadQueue) (stakes : Multiset Stake) : Prop where
  ordered : ∀ stake ∈ stakes, stake.Ordered
  counters : CountersBalanced queue stakes
  generations : GenerationsBalanced queue stakes
  history : HistoryBalanced queue stakes

namespace Balanced

variable {queue : UploadQueue} {stake : Stake} {rest : Multiset Stake}

theorem new (keyPrefix : String) (storageDir : List String) :
    Balanced { keyPrefix := keyPrefix, storageDir := storageDir } 0 := by
  refine ⟨by simp, ⟨rfl, rfl, Nat.zero_le _, Nat.zero_le _⟩, ⟨?_, ?_, ?_, ?_⟩, ⟨rfl, ?_, ?_⟩⟩
  · simp [GenerationState.tracked]
  · exact ⟨fun key => by simp, fun key hkey => absurd rfl hkey⟩
  · simp [drawnGenerations]
  · simp [drawnGenerations]
  · simp
  · simp

/-- A stake that has taken nothing may be left out. -/
theorem idle_iff (write : UploadWrite) :
    Balanced queue ({ write := write } ::ₘ rest) ↔ Balanced queue rest := by
  simp [balanced_iff, countersBalanced_iff, generationsBalanced_iff, historyBalanced_iff,
    Stake.ordered_iff, Stake.taskShare, Stake.byteShare, Stake.checkedShare, drawnGenerations,
    acceptedStakes]

/-! ## The parts that a move leaves alone -/

/-- The fields of the queue that the ledger is about. -/
def books (queue : UploadQueue) :=
  (queue.pending, queue.pendingBytes, queue.generations, queue.nextGeneration, queue.accepted,
    queue.settled, queue.receipts)

theorem congr {queue' : UploadQueue} {stakes : Multiset Stake} (hbalanced : Balanced queue stakes)
    (hbooks : books queue' = books queue) : Balanced queue' stakes := by
  simp only [books, Prod.mk.injEq] at hbooks
  obtain ⟨hpending, hbytes, hmaps, hnext, haccepted, hsettled, hreceipts⟩ := hbooks
  simpa only [balanced_iff, countersBalanced_iff, generationsBalanced_iff, historyBalanced_iff,
    drawnGenerations, UploadQueue.acceptedWrites, hpending, hbytes, hmaps, hnext, haccepted,
    hsettled, hreceipts] using hbalanced

variable {queue' : UploadQueue} {stake' : Stake}

/-- The counters follow the stake, and no more of its bytes have passed the limit. -/
theorem counters_move (hcounters : CountersBalanced queue (stake ::ₘ rest))
    (hpending : queue'.pending + stake.taskShare = queue.pending + stake'.taskShare)
    (hbytes : queue'.pendingBytes + stake.byteShare = queue.pendingBytes + stake'.byteShare)
    (hle : queue'.pending ≤ uploadMaxPendingTasks)
    (hchecked : stake'.checkedShare ≤ stake.checkedShare) :
    CountersBalanced queue' (stake' ::ₘ rest) := by
  rw [countersBalanced_iff] at hcounters ⊢
  simp only [Multiset.map_cons, Multiset.sum_cons] at hcounters ⊢
  obtain ⟨hpending', hbytes', -, hchecked'⟩ := hcounters
  refine ⟨?_, ?_, hle, le_trans (Nat.add_le_add_right hchecked _) hchecked'⟩
  · omega
  · omega

theorem drawn_congr (hsettled : queue'.settled = queue.settled) (hwrite : stake'.write = stake.write)
    (hnumbered : stake'.numbered = stake.numbered) :
    drawnGenerations queue' (stake' ::ₘ rest) = drawnGenerations queue (stake ::ₘ rest) := by
  simp only [drawnGenerations, Multiset.filter_cons, hnumbered, hsettled, Multiset.map_add]
  split <;> simp [hwrite]

theorem generations_congr (hgenerations : GenerationsBalanced queue (stake ::ₘ rest))
    (hmaps : queue'.generations = queue.generations)
    (hnext : queue'.nextGeneration = queue.nextGeneration)
    (hsettled : queue'.settled = queue.settled) (hwrite : stake'.write = stake.write)
    (hnumbered : stake'.numbered = stake.numbered) (htracked : stake'.tracked = stake.tracked) :
    GenerationsBalanced queue' (stake' ::ₘ rest) := by
  have hdrawn : drawnGenerations queue' (stake' ::ₘ rest) =
      drawnGenerations queue (stake ::ₘ rest) := drawn_congr hsettled hwrite hnumbered
  rw [generationsBalanced_iff] at hgenerations ⊢
  simpa only [hdrawn, hmaps, hnext, Multiset.mem_cons, exists_eq_or_imp, htracked, hwrite]
    using hgenerations

theorem history_congr (hhistory : HistoryBalanced queue (stake ::ₘ rest))
    (haccepted : queue'.accepted = queue.accepted) (hsettled : queue'.settled = queue.settled)
    (hreceipts : queue'.receipts = queue.receipts) (hwrite : stake'.write = stake.write)
    (hnumbered : stake'.numbered = stake.numbered) (hheld : stake'.accepted = stake.accepted) :
    HistoryBalanced queue' (stake' ::ₘ rest) := by
  have hstakes : acceptedStakes (stake' ::ₘ rest) = acceptedStakes (stake ::ₘ rest) := by
    simp only [acceptedStakes, Multiset.filter_cons, hheld, Multiset.map_add]
    split <;> simp [hwrite]
  rw [historyBalanced_iff] at hhistory ⊢
  simpa only [hstakes, UploadQueue.acceptedWrites, haccepted, hsettled, hreceipts,
    Multiset.mem_cons, forall_eq_or_imp, hnumbered, hwrite] using hhistory

theorem ordered_cons (hordered : ∀ other ∈ stake ::ₘ rest, other.Ordered)
    (hstake : stake'.Ordered) : ∀ other ∈ stake' ::ₘ rest, other.Ordered := by
  intro other hother
  rcases Multiset.mem_cons.mp hother with rfl | hrest
  · exact hstake
  · exact hordered other (Multiset.mem_cons_of_mem hrest)

theorem head (hbalanced : Balanced queue (stake ::ₘ rest)) : stake.Ordered :=
  hbalanced.ordered stake (Multiset.mem_cons_self _ _)

theorem taskShare_le (hbalanced : Balanced queue (stake ::ₘ rest)) :
    stake.taskShare ≤ queue.pending := by
  rw [hbalanced.counters.pending, Multiset.map_cons, Multiset.sum_cons]
  exact Nat.le_add_right _ _

theorem byteShare_le (hbalanced : Balanced queue (stake ::ₘ rest)) :
    stake.byteShare ≤ queue.pendingBytes := by
  rw [hbalanced.counters.pendingBytes, Multiset.map_cons, Multiset.sum_cons]
  exact Nat.le_add_right _ _

/-! ## Reserving and releasing -/

theorem reserveBytes {write : UploadWrite}
    (hbalanced : Balanced queue ({ write := write } ::ₘ rest)) :
    Balanced { queue with pendingBytes := queue.pendingBytes + write.countedBytes }
      ({ write := write, bytes := true } ::ₘ rest) := by
  refine ⟨ordered_cons hbalanced.ordered ⟨by simp, by simp, by simp⟩, ?_,
    generations_congr hbalanced.generations rfl rfl rfl rfl rfl rfl,
    history_congr hbalanced.history rfl rfl rfl rfl rfl rfl⟩
  exact counters_move hbalanced.counters rfl rfl hbalanced.counters.pending_le le_rfl

/-- Bytes that fit together with everything counted have passed the limit. -/
theorem check {write : UploadWrite}
    (hbalanced : Balanced queue ({ write := write, bytes := true } ::ₘ rest))
    (hfits : queue.pendingBytes ≤ uploadMaxPendingBytes) :
    Balanced queue ({ write := write, bytes := true, checked := true } ::ₘ rest) := by
  have hcounters := hbalanced.counters
  refine ⟨ordered_cons hbalanced.ordered ⟨by simp, by simp, by simp⟩, ?_,
    generations_congr hbalanced.generations rfl rfl rfl rfl rfl rfl,
    history_congr hbalanced.history rfl rfl rfl rfl rfl rfl⟩
  have hrest : (rest.map Stake.checkedShare).sum ≤ (rest.map Stake.byteShare).sum := by
    apply Multiset.sum_map_le_sum_map
    intro other hother
    exact (hbalanced.ordered other (Multiset.mem_cons_of_mem hother)).checkedShare_le
  have hbytes := hcounters.pendingBytes
  refine ⟨?_, ?_, hcounters.pending_le, ?_⟩
  · simpa [Stake.taskShare] using hcounters.pending
  · simpa [Stake.byteShare] using hbytes
  · simp only [Multiset.map_cons, Multiset.sum_cons, Stake.byteShare, Stake.checkedShare,
      if_true] at hbytes ⊢
    omega

/-- The limit on tasks turns away a call whose bytes had passed theirs. -/
theorem uncheck {write : UploadWrite}
    (hbalanced : Balanced queue ({ write := write, bytes := true, checked := true } ::ₘ rest)) :
    Balanced queue ({ write := write, bytes := true } ::ₘ rest) := by
  refine ⟨ordered_cons hbalanced.ordered ⟨by simp, by simp, by simp⟩, ?_,
    generations_congr hbalanced.generations rfl rfl rfl rfl rfl rfl,
    history_congr hbalanced.history rfl rfl rfl rfl rfl rfl⟩
  exact counters_move hbalanced.counters rfl rfl hbalanced.counters.pending_le (Nat.zero_le _)

theorem reserveTask (hbalanced : Balanced queue (stake ::ₘ rest)) (htask : stake.task = false)
    (hroom : queue.pending < uploadMaxPendingTasks) :
    Balanced { queue with pending := queue.pending + 1 } ({ stake with task := true } ::ₘ rest) := by
  have hhead := hbalanced.head
  refine ⟨ordered_cons hbalanced.ordered ⟨hhead.1, hhead.2, hhead.3⟩, ?_,
    generations_congr hbalanced.generations rfl rfl rfl rfl rfl rfl,
    history_congr hbalanced.history rfl rfl rfl rfl rfl rfl⟩
  refine counters_move hbalanced.counters ?_ rfl hroom le_rfl
  simp [Stake.taskShare, htask]

theorem releaseTask (hbalanced : Balanced queue (stake ::ₘ rest)) (htask : stake.task = true) :
    Balanced { queue with pending := queue.pending - 1 } ({ stake with task := false } ::ₘ rest) := by
  have hhead := hbalanced.head
  have hshare := hbalanced.taskShare_le
  refine ⟨ordered_cons hbalanced.ordered ⟨hhead.1, hhead.2, hhead.3⟩, ?_,
    generations_congr hbalanced.generations rfl rfl rfl rfl rfl rfl,
    history_congr hbalanced.history rfl rfl rfl rfl rfl rfl⟩
  refine counters_move hbalanced.counters ?_ rfl
    (le_trans (Nat.sub_le _ _) hbalanced.counters.pending_le) le_rfl
  simp only [Stake.taskShare, htask, if_true] at hshare ⊢
  exact Nat.sub_add_cancel hshare

theorem releaseBytes (hbalanced : Balanced queue (stake ::ₘ rest)) (hbytes : stake.bytes = true) :
    Balanced { queue with pendingBytes := queue.pendingBytes - stake.write.countedBytes }
      ({ stake with bytes := false, checked := false } ::ₘ rest) := by
  have hhead := hbalanced.head
  have hshare := hbalanced.byteShare_le
  refine ⟨ordered_cons hbalanced.ordered ⟨by simp, hhead.2, hhead.3⟩, ?_,
    generations_congr hbalanced.generations rfl rfl rfl rfl rfl rfl,
    history_congr hbalanced.history rfl rfl rfl rfl rfl rfl⟩
  refine counters_move hbalanced.counters rfl ?_ hbalanced.counters.pending_le (Nat.zero_le _)
  simp only [Stake.byteShare, hbytes, if_true] at hshare ⊢
  exact Nat.sub_add_cancel hshare

/-! ## Generations -/

theorem drawn_eq (hnumbered : stake.numbered = true) :
    drawnGenerations queue (stake ::ₘ rest) =
      stake.write.generation ::ₘ drawnGenerations queue rest := by
  simp [drawnGenerations, hnumbered]

/-- No other stake and no settled write has the generation of this one. -/
theorem generation_unique (hbalanced : Balanced queue (stake ::ₘ rest))
    (hnumbered : stake.numbered = true) :
    (∀ other ∈ rest, other.numbered = true → other.write.generation ≠ stake.write.generation) ∧
      ∀ entry ∈ queue.settled, entry.1.generation ≠ stake.write.generation := by
  have hnodup := hbalanced.generations.drawn_nodup
  rw [drawn_eq hnumbered, Multiset.nodup_cons, drawnGenerations, Multiset.mem_add, not_or] at hnodup
  obtain ⟨⟨hstakes, hsettled⟩, -⟩ := hnodup
  constructor
  · intro other hother hnumber heq
    exact hstakes (Multiset.mem_map.mpr ⟨other, Multiset.mem_filter.mpr ⟨hother, hnumber⟩, heq⟩)
  · intro entry hentry heq
    exact hsettled (List.mem_map.mpr ⟨entry, hentry, heq⟩)

/-- Drawing the next generation opens its receipt. -/
theorem draw (hbalanced : Balanced queue (stake ::ₘ rest)) (hnumbered : stake.numbered = false) :
    Balanced ({ queue with nextGeneration := queue.nextGeneration + 1 }.updateReceipt
        queue.nextGeneration .queued)
      ({ stake with
         write := { stake.write with generation := queue.nextGeneration }
         numbered := true } ::ₘ rest) := by
  have hhead := hbalanced.head
  have htracked : stake.tracked = false := by
    by_contra htracked
    simp [hhead.numbered_of_tracked (by simpa using htracked)] at hnumbered
  have haccepted : stake.accepted = false := by
    by_contra haccepted
    simp [hhead.numbered_of_accepted (by simpa using haccepted)] at hnumbered
  have hdrawn : drawnGenerations queue (stake ::ₘ rest) = drawnGenerations queue rest := by
    simp [drawnGenerations, hnumbered]
  obtain ⟨htracks, hcollected, hnodup, hlt⟩ := hbalanced.generations
  rw [hdrawn] at hnodup hlt
  have hfresh : ∀ generation ∈ drawnGenerations queue rest, generation ≠ queue.nextGeneration :=
    fun generation hgeneration => Nat.ne_of_lt (hlt generation hgeneration)
  refine ⟨ordered_cons hbalanced.ordered ⟨hhead.1, by simp, by simp⟩,
    counters_move hbalanced.counters rfl rfl hbalanced.counters.pending_le le_rfl,
    ⟨?_, hcollected, ?_, ?_⟩, ⟨?_, ?_, ?_⟩⟩
  · simpa [UploadQueue.updateReceipt, htracked] using htracks
  · rw [drawn_eq rfl, Multiset.nodup_cons]
    exact ⟨fun hmem => hfresh _ hmem rfl, hnodup⟩
  · intro generation hgeneration
    rw [drawn_eq rfl, Multiset.mem_cons] at hgeneration
    rcases hgeneration with rfl | hgeneration
    · exact Nat.lt_succ_self _
    · exact Nat.lt_succ_of_lt (hlt generation hgeneration)
  · simpa [UploadQueue.updateReceipt, UploadQueue.acceptedWrites, acceptedStakes, haccepted]
      using hbalanced.history.accepted
  · intro other hother hnumber
    rcases Multiset.mem_cons.mp hother with rfl | hother
    · simp [UploadQueue.updateReceipt, UploadReceiptStatus.isTerminal]
    · have hne : other.write.generation ≠ queue.nextGeneration := by
        apply hfresh
        rw [drawnGenerations, Multiset.mem_add]
        exact .inl (Multiset.mem_map_of_mem _ (Multiset.mem_filter.mpr ⟨hother, hnumber⟩))
      simpa [UploadQueue.updateReceipt, hne] using
        hbalanced.history.receipt_open other (Multiset.mem_cons_of_mem hother) hnumber
  · intro entry hentry
    have hne : entry.1.generation ≠ queue.nextGeneration := by
      apply hfresh
      rw [drawnGenerations, Multiset.mem_add]
      exact .inr (List.mem_map.mpr ⟨entry, hentry, rfl⟩)
    simpa [UploadQueue.updateReceipt, hne] using hbalanced.history.receipt_closed entry hentry

theorem track (hbalanced : Balanced queue (stake ::ₘ rest)) (hnumbered : stake.numbered = true)
    (htracked : stake.tracked = false) :
    Balanced { queue with
        generations := queue.generations.track stake.write.key stake.write.generation }
      ({ stake with tracked := true } ::ₘ rest) := by
  have hhead := hbalanced.head
  obtain ⟨htracks, hcollected, hnodup, hlt⟩ := hbalanced.generations
  have hdrawn : drawnGenerations queue ({ stake with tracked := true } ::ₘ rest) =
      drawnGenerations queue (stake ::ₘ rest) := drawn_congr rfl rfl rfl
  refine ⟨ordered_cons hbalanced.ordered ⟨hhead.1, fun _ => hnumbered, hhead.3⟩,
    counters_move hbalanced.counters rfl rfl hbalanced.counters.pending_le le_rfl,
    ⟨?_, hcollected.track _ _, hdrawn ▸ hnodup, hdrawn ▸ hlt⟩,
    history_congr hbalanced.history rfl rfl rfl rfl rfl rfl⟩
  intro key generation
  rw [GenerationState.mem_tracked_track, htracks]
  simp only [Multiset.mem_cons, exists_eq_or_imp, htracked, Bool.false_eq_true, false_and,
    false_or, true_and]
  rw [eq_comm, eq_comm (a := generation)]

/-- Dropping the generation from the maps, by `untrack` or by `settle`. -/
theorem untrack (hbalanced : Balanced queue (stake ::ₘ rest)) (htracked : stake.tracked = true)
    {generations : GenerationState} (hcollected : generations.Collected)
    (hmaps : ∀ key generation, generation ∈ generations.tracked key ↔
      generation ∈ queue.generations.tracked key ∧
        ¬(key = stake.write.key ∧ generation = stake.write.generation)) :
    Balanced { queue with generations := generations } ({ stake with tracked := false } ::ₘ rest) := by
  have hhead := hbalanced.head
  have hnumbered := hhead.numbered_of_tracked htracked
  obtain ⟨htracks, -, hnodup, hlt⟩ := hbalanced.generations
  have hdrawn : drawnGenerations queue ({ stake with tracked := false } ::ₘ rest) =
      drawnGenerations queue (stake ::ₘ rest) := drawn_congr rfl rfl rfl
  refine ⟨ordered_cons hbalanced.ordered ⟨hhead.1, by simp, hhead.3⟩,
    counters_move hbalanced.counters rfl rfl hbalanced.counters.pending_le le_rfl,
    ⟨?_, hcollected, hdrawn ▸ hnodup, hdrawn ▸ hlt⟩,
    history_congr hbalanced.history rfl rfl rfl rfl rfl rfl⟩
  intro key generation
  rw [hmaps, htracks]
  constructor
  · rintro ⟨⟨other, hother, htracks', hkey, hgeneration⟩, hne⟩
    rcases Multiset.mem_cons.mp hother with rfl | hother
    · exact absurd ⟨hkey.symm, hgeneration.symm⟩ hne
    · exact ⟨other, Multiset.mem_cons_of_mem hother, htracks', hkey, hgeneration⟩
  · rintro ⟨other, hother, htracks', hkey, hgeneration⟩
    rcases Multiset.mem_cons.mp hother with rfl | hother
    · simp at htracks'
    · refine ⟨⟨other, Multiset.mem_cons_of_mem hother, htracks', hkey, hgeneration⟩, ?_⟩
      rintro ⟨-, rfl⟩
      have hordered := hbalanced.ordered other (Multiset.mem_cons_of_mem hother)
      exact (hbalanced.generation_unique hnumbered).1 other hother
        (hordered.numbered_of_tracked htracks') hgeneration

/-! ## Receipts -/

/-- The receipt of a generation in use changes, but stays open. -/
theorem updateReceipt (hbalanced : Balanced queue (stake ::ₘ rest))
    (hnumbered : stake.numbered = true) {status : UploadReceiptStatus}
    (hstatus : status.isTerminal = false) :
    Balanced (queue.updateReceipt stake.write.generation status) (stake ::ₘ rest) := by
  obtain ⟨hother, hsettled⟩ := hbalanced.generation_unique hnumbered
  refine ⟨hbalanced.ordered,
    counters_move hbalanced.counters rfl rfl hbalanced.counters.pending_le le_rfl,
    generations_congr hbalanced.generations rfl rfl rfl rfl rfl rfl,
    ⟨hbalanced.history.accepted, ?_, ?_⟩⟩
  · intro other hmem hnumber
    rcases Multiset.mem_cons.mp hmem with rfl | hrest
    · simpa [UploadQueue.updateReceipt] using hstatus
    · simpa [UploadQueue.updateReceipt, hother other hrest hnumber] using
        hbalanced.history.receipt_open other hmem hnumber
  · intro entry hentry
    simpa [UploadQueue.updateReceipt, hsettled entry hentry] using
      hbalanced.history.receipt_closed entry hentry

/-- A rejected call forgets its generation; what its receipt says is nobody's business. -/
theorem forget {write : UploadWrite}
    (hbalanced : Balanced queue ({ write := write, numbered := true } ::ₘ rest))
    (status : UploadReceiptStatus) : Balanced (queue.updateReceipt write.generation status) rest := by
  obtain ⟨hother, hsettled⟩ := hbalanced.generation_unique rfl
  obtain ⟨htracks, hcollected, hnodup, hlt⟩ := hbalanced.generations
  rw [drawn_eq rfl] at hnodup hlt
  rw [← idle_iff write]
  refine ⟨ordered_cons hbalanced.ordered ⟨by simp, by simp, by simp⟩,
    counters_move hbalanced.counters rfl rfl hbalanced.counters.pending_le le_rfl,
    ⟨?_, hcollected, ?_, ?_⟩, ⟨?_, ?_, ?_⟩⟩
  · simpa [UploadQueue.updateReceipt] using htracks
  · simpa [drawnGenerations, UploadQueue.updateReceipt] using (Multiset.nodup_cons.mp hnodup).2
  · intro generation hgeneration
    apply hlt generation (Multiset.mem_cons_of_mem _)
    simpa [drawnGenerations, UploadQueue.updateReceipt] using hgeneration
  · simpa [acceptedStakes, UploadQueue.acceptedWrites, UploadQueue.updateReceipt] using
      hbalanced.history.accepted
  · intro other hmem hnumber
    rcases Multiset.mem_cons.mp hmem with rfl | hrest
    · simp at hnumber
    · simpa [UploadQueue.updateReceipt, hother other hrest hnumber] using
        hbalanced.history.receipt_open other (Multiset.mem_cons_of_mem hrest) hnumber
  · intro entry hentry
    simpa [UploadQueue.updateReceipt, hsettled entry hentry] using
      hbalanced.history.receipt_closed entry hentry

/-! ## Accepting and reporting -/

theorem accept (hbalanced : Balanced queue (stake ::ₘ rest)) (hnumbered : stake.numbered = true)
    (haccepted : stake.accepted = false) {call : UploadCall}
    (hcall : call.task.toUploadWrite = stake.write) (channel : List UploadTask) :
    Balanced { queue with channel := channel, accepted := queue.accepted ++ [call] }
      ({ stake with accepted := true } ::ₘ rest) := by
  have hhead := hbalanced.head
  refine ⟨ordered_cons hbalanced.ordered ⟨hhead.1, hhead.2, fun _ => hnumbered⟩,
    counters_move hbalanced.counters rfl rfl hbalanced.counters.pending_le le_rfl,
    generations_congr hbalanced.generations rfl rfl rfl rfl rfl rfl, ⟨?_, ?_, ?_⟩⟩
  · have hwrites := hbalanced.history.accepted
    simp only [acceptedStakes, haccepted, Bool.false_eq_true, not_false_eq_true,
      Multiset.filter_cons_of_neg] at hwrites
    simp only [acceptedStakes, Multiset.filter_cons_of_pos, Multiset.map_cons,
      UploadQueue.acceptedWrites, List.map_append, List.map_cons, List.map_nil, hcall] at hwrites ⊢
    rw [← Multiset.coe_add, hwrites, Multiset.coe_singleton, add_comm, Multiset.singleton_add,
      Multiset.add_cons]
  · intro other hmem hnumber
    rcases Multiset.mem_cons.mp hmem with rfl | hrest
    · exact hbalanced.history.receipt_open stake (Multiset.mem_cons_self _ _) hnumbered
    · exact hbalanced.history.receipt_open other (Multiset.mem_cons_of_mem hrest) hnumber
  · exact hbalanced.history.receipt_closed

/-- The last operation of `settle`. -/
theorem report {write : UploadWrite}
    (hbalanced : Balanced queue ({ write := write, numbered := true, accepted := true } ::ₘ rest))
    {status : UploadReceiptStatus} (hstatus : status.isTerminal = true) :
    Balanced { queue.updateReceipt write.generation status with
        settled := queue.settled ++ [(write, status)] } rest := by
  obtain ⟨hother, hsettled⟩ := hbalanced.generation_unique rfl
  obtain ⟨htracks, hcollected, hnodup, hlt⟩ := hbalanced.generations
  have hdrawn : drawnGenerations { queue.updateReceipt write.generation status with
        settled := queue.settled ++ [(write, status)] } ({ write := write } ::ₘ rest) =
      drawnGenerations queue ({ write := write, numbered := true, accepted := true } ::ₘ rest) := by
    simp only [drawnGenerations, Multiset.filter_cons_of_pos, Multiset.map_cons, List.map_append,
      List.map_cons, List.map_nil, ← Multiset.coe_add]
    simp only [Bool.false_eq_true, not_false_eq_true, Multiset.filter_cons_of_neg]
    rw [Multiset.cons_add, ← add_assoc, Multiset.coe_singleton, add_comm, Multiset.singleton_add]
  rw [← idle_iff write]
  refine ⟨ordered_cons hbalanced.ordered ⟨by simp, by simp, by simp⟩,
    counters_move hbalanced.counters rfl rfl hbalanced.counters.pending_le le_rfl,
    ⟨?_, hcollected, hdrawn ▸ hnodup, hdrawn ▸ hlt⟩, ⟨?_, ?_, ?_⟩⟩
  · simpa [UploadQueue.updateReceipt] using htracks
  · have hwrites := hbalanced.history.accepted
    simp only [acceptedStakes, Multiset.filter_cons_of_pos, Multiset.map_cons] at hwrites
    simp only [acceptedStakes, Bool.false_eq_true, not_false_eq_true, Multiset.filter_cons_of_neg,
      List.map_append, List.map_cons, List.map_nil, ← Multiset.coe_add, Multiset.coe_singleton]
    rw [add_comm (_ : Multiset UploadWrite) {write}, Multiset.singleton_add, Multiset.cons_add,
      ← Multiset.add_cons]
    exact hwrites
  · intro other hmem hnumber
    rcases Multiset.mem_cons.mp hmem with rfl | hrest
    · simp at hnumber
    · simpa [UploadQueue.updateReceipt, hother other hrest hnumber] using
        hbalanced.history.receipt_open other (Multiset.mem_cons_of_mem hrest) hnumber
  · intro entry hentry
    rcases List.mem_append.mp hentry with hentry | hentry
    · simpa [UploadQueue.updateReceipt, hsettled entry hentry] using
        hbalanced.history.receipt_closed entry hentry
    · rw [List.mem_singleton] at hentry
      subst hentry
      simpa [UploadQueue.updateReceipt] using hstatus

end Balanced

end DiscordTranscript.Infrastructure
