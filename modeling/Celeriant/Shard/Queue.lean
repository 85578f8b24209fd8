import Celeriant.Shard.SegmentSteps

/-!
# Waiting batches

Which deferred batches are still going to be committed. While a cull is between its rewind and its
queue drop, the queues do not count: they hold batches the cull is about to drop. `CullSafe` is the
condition under which no batch is committed or put back after the chain has lost one of its entries.
Under it the waiting batches only shrink, except that a successful fsync appends one.

## Main results

* `Shard.shrinks_step`, `Shard.live_step`: only an fsync makes a batch wait
-/

namespace Celeriant

open Transition LogSegmentsCache List

namespace Shard

/-! ## The condition -/

section Condition

variable (s : Shard)

/-- No replication cycle holds a batch that a rewind to `n` in segment `g` takes entries from. -/
def NoneInFlight (g n : ℕ) : Prop := ∀ p ∈ s.repl.snapshot, ¬ p.RemovedBy g n

/-- The same for the queues as well. -/
def NoneWaiting (g n : ℕ) : Prop :=
  ∀ p ∈ s.repl.snapshot ++ s.cache.pendingReplicationBatches ++ s.cache.parkedCommits,
    ¬ p.RemovedBy g n

/-- No parked batch is waiting to be dropped by a cull. -/
def ParkedIntact : Prop := ¬ s.InCullWindow ∨ s.cache.parkedCommits = []

/-- No batch awaiting replication is waiting to be dropped by a cull. -/
def PendingIntact : Prop := ¬ s.InCullWindow ∨ s.cache.pendingReplicationBatches = []

/-- Rewinding the active segment to `n` is safe: no cycle holds what it removes, and the read
cursor has not moved past `n` since `n` was read from it. -/
def RewindSafe (target : CullTarget) : Prop :=
  s.NoneInFlight s.segments.activeLogId target.walSeq ∧
    (target.isBarrier = false → s.segments.active.readWalSeq ≤ target.walSeq)

/-- The action commits parked batches. -/
def commitsParked : ShardAction → Bool
  | .drainParkedCommits _ => true
  | .commitParkedBeforeCatchup => true
  | .truncateGate _ => true
  | .reconcileDurableTail .commitForPromotion => true
  | .tailProvenance i true =>
    match s.culls[i]? with
    | some (.provenance .commitForPromotion _ _ _) => true
    | _ => false
  | _ => false

/-- What is left to ask of the other actions: a capture takes no batch that a cull is about to
drop, a cull that fails after its rewind leaves nothing queued, and a truncation removes nothing
that a cycle holds or has put back. -/
def queueSafe : ShardAction → Prop
  | .replicationCapture trigger =>
    trigger = .commitNotify ∨ s.cache.replicationRollbackOccurred = true ∨ s.PendingIntact
  | .reconcileFailed i =>
    (s.culls[i]?.any (·.isRewound)) = true →
      s.cache.pendingReplicationBatches = [] ∧ s.cache.parkedCommits = []
  | .truncateGate i =>
    ∀ divergent ∈ s.truncations[i]?, divergent.1 = s.segments.activeLogId →
      s.NoneInFlight divergent.1 (divergent.2 - 1)
  | .unwindOpened =>
    ∀ divergent ∈ s.gate.unwindTarget, s.NoneWaiting divergent.1 (divergent.2 - 1)
  | .unwindClosed =>
    ∀ divergent ∈ s.gate.rewindTarget, s.NoneWaiting s.segments.activeLogId (divergent - 1)
  | _ => True

/-- **The condition on a step.** The culls it begins are safe, it commits no parked batch that a
cull is about to drop, and it hands no removed batch on. -/
def CullSafe (s : Shard) (a : ShardAction) : Prop :=
  (∀ target ∈ s.cullOf a, s.RewindSafe target) ∧
    (s.commitsParked a = true → s.ParkedIntact) ∧ s.queueSafe a

instance : DecidableRel CullSafe := fun s a => by
  induction a using ShardAction.casesOn <;>
    dsimp only [CullSafe, queueSafe, RewindSafe, NoneInFlight, NoneWaiting, ParkedIntact,
      PendingIntact] <;>
    infer_instance

end Condition

/-- The batch may still be committed or requeued: a cycle holds it, or it is queued and no cull
is about to drop the queues. -/
def Live (s : Shard) (p : PendingCommitData) : Prop :=
  p ∈ s.repl.snapshot ∨
    ¬ s.InCullWindow ∧ (p ∈ s.cache.pendingReplicationBatches ∨ p ∈ s.cache.parkedCommits)

/-- The batches that are going to be replicated; while a cull is about to drop the queue, only
those a cycle holds. -/
def liveQueue (s : Shard) : List PendingCommitData :=
  if s.InCullWindow then s.repl.snapshot
  else s.repl.snapshot ++ s.cache.pendingReplicationBatches

/-- The parked batches that are not about to be dropped. -/
def liveParked (s : Shard) : List PendingCommitData :=
  if s.InCullWindow then [] else s.cache.parkedCommits

/-- No batch waits for its replication. -/
def NothingReplicating (s : Shard) : Prop :=
  s.repl.snapshot = [] ∧ s.cache.pendingReplicationBatches = []
  deriving Decidable

/-- No batch waits for its commit. -/
def NothingDeferred (s : Shard) : Prop := s.NothingReplicating ∧ s.cache.parkedCommits = []
  deriving Decidable

variable {s t : Shard}

theorem liveQueue_of_window (h : s.InCullWindow) : s.liveQueue = s.repl.snapshot := if_pos h

theorem liveQueue_of_not_window (h : ¬ s.InCullWindow) :
    s.liveQueue = s.repl.snapshot ++ s.cache.pendingReplicationBatches := if_neg h

theorem liveParked_of_window (h : s.InCullWindow) : s.liveParked = [] := if_pos h

theorem liveParked_of_not_window (h : ¬ s.InCullWindow) : s.liveParked = s.cache.parkedCommits :=
  if_neg h

theorem liveParked_sublist : s.liveParked.Sublist s.cache.parkedCommits := by
  unfold liveParked
  split
  · exact nil_sublist _
  · exact .refl _

theorem snapshot_sublist_liveQueue : s.repl.snapshot.Sublist s.liveQueue := by
  unfold liveQueue
  split
  · exact .refl _
  · exact sublist_append_left _ _

theorem liveQueue_sublist :
    s.liveQueue.Sublist (s.repl.snapshot ++ s.cache.pendingReplicationBatches) := by
  unfold liveQueue
  split
  · exact sublist_append_left _ _
  · exact .refl _

theorem liveQueue_eq_nil (h : s.NothingReplicating) : s.liveQueue = [] := by
  have sub := liveQueue_sublist (s := s)
  rw [h.1, h.2] at sub
  exact eq_nil_of_sublist_nil sub

theorem liveParked_eq_nil (h : s.cache.parkedCommits = []) : s.liveParked = [] := by
  have sub := liveParked_sublist (s := s)
  rw [h] at sub
  exact eq_nil_of_sublist_nil sub

variable {p : PendingCommitData} {a : ShardAction} {entries : List EntryId} {g n i : ℕ}
  {target : CullTarget} {clone : LogSegmentFileMetadata}

theorem commitsParked_tail {tail k m}
    (task : s.culls[i]? = some (.provenance .commitForPromotion tail k m)) :
    s.commitsParked (.tailProvenance i true) = true := by
  simp only [commitsParked, task]

theorem live_of_mem_liveQueue (h : p ∈ s.liveQueue) : s.Live p := by
  by_cases hw : s.InCullWindow
  · rw [liveQueue_of_window hw] at h
    exact .inl h
  · rw [liveQueue_of_not_window hw] at h
    rcases mem_append.mp h with h | h
    · exact .inl h
    · exact .inr ⟨hw, .inl h⟩

theorem live_of_mem_liveParked (h : p ∈ s.liveParked) : s.Live p := by
  by_cases hw : s.InCullWindow
  · rw [liveParked_of_window hw] at h
    cases h
  · rw [liveParked_of_not_window hw] at h
    exact .inr ⟨hw, .inr h⟩

theorem mem_of_live (h : s.Live p) : p ∈ s.liveQueue ∨ p ∈ s.liveParked := by
  rcases h with hp | ⟨out, hp | hp⟩
  · exact .inl (snapshot_sublist_liveQueue.subset hp)
  · exact .inl (liveQueue_of_not_window out ▸ mem_append_right _ hp)
  · exact .inr (liveParked_of_not_window out ▸ hp)

/-! ## How the waiting batches evolve -/

theorem le_of_not_removedBy (h : ¬ p.RemovedBy g n) :
    p.logId ≤ g ∧ p.tip ≤ n :=
  ⟨Nat.le_of_not_lt fun hg => h (.inl hg), Nat.le_of_not_lt fun hn => h (.inr hn)⟩

theorem snapshot_removeAbove (none : s.NoneInFlight g n) :
    (s.removeAbove g n).repl.snapshot = s.repl.snapshot := by
  simp only [removeAbove, ReplTask.snapshot_mapSnapshot]
  exact PendingCommitData.map_markRemoved none

theorem activeLogId_clearForTruncate (d : ℕ) :
    (s.clearForTruncate d).segments.activeLogId = s.segments.activeLogId :=
  (commitPcds_sameTips _).activeLogId

theorem noneWaiting_clearForTruncate {d} (none : s.NoneInFlight g n) :
    (s.clearForTruncate d).NoneWaiting g n := by
  intro p hp
  simp only [clearForTruncate, ShardMemCache.clearAllCaches, ShardMemCache.clearParkedCommits,
    ShardMemCache.executeReplicationRollback, append_nil] at hp
  exact none p hp

theorem inCullWindow_of_dropCull (h : (s.dropCull i).InCullWindow) : s.InCullWindow := by
  obtain ⟨task, mem, rewound⟩ := h
  exact ⟨task, mem_of_mem_eraseIdx mem, rewound⟩

/-- Only the end of a rewound cull closes the window. -/
theorem inCullWindow_dropCull {task} (found : s.culls[i]? = some task)
    (notRewound : task.isRewound = false) (h : s.InCullWindow) : (s.dropCull i).InCullWindow := by
  obtain ⟨other, mem, rewound⟩ := h
  refine ⟨other, ?_, rewound⟩
  obtain ⟨j, hj⟩ := mem_iff_getElem?.mp mem
  refine mem_eraseIdx_iff_getElem?.mpr ⟨j, ?_, hj⟩
  rintro rfl
  rw [found] at hj
  cases hj
  rw [notRewound] at rewound
  cases rewound

theorem RewindSafe.dropCull (h : s.RewindSafe target) (i : ℕ) :
    (s.dropCull i).RewindSafe target := h

/-- No batch starts to wait. -/
structure Shrinks (s t : Shard) : Prop where
  queue : t.liveQueue.Sublist s.liveQueue
  parked : t.liveParked.Sublist s.liveParked

/-- The waiting batches are determined by the cycle, the queues and the culls. -/
theorem Shrinks.of_eq (snapshot : t.repl.snapshot = s.repl.snapshot)
    (window : t.InCullWindow ↔ s.InCullWindow)
    (pending : t.cache.pendingReplicationBatches = s.cache.pendingReplicationBatches)
    (parked : t.cache.parkedCommits = s.cache.parkedCommits) : Shrinks s t := by
  constructor
  · simp only [liveQueue, window, snapshot, pending, List.Sublist.refl]
  · simp only [liveParked, window, parked, List.Sublist.refl]

/-- The parked queue loses some batches. -/
theorem Shrinks.of_parked (snapshot : t.repl.snapshot = s.repl.snapshot)
    (window : t.InCullWindow ↔ s.InCullWindow)
    (pending : t.cache.pendingReplicationBatches = s.cache.pendingReplicationBatches)
    (parked : t.cache.parkedCommits.Sublist s.cache.parkedCommits) : Shrinks s t := by
  constructor
  · simp only [liveQueue, window, snapshot, pending, List.Sublist.refl]
  · by_cases hw : s.InCullWindow
    · rw [liveParked_of_window (window.mpr hw)]
      exact nil_sublist _
    · rw [liveParked_of_not_window (fun k => hw (window.mp k)), liveParked_of_not_window hw]
      exact parked

/-- The queues are dropped; a cycle keeps its snapshot. -/
theorem Shrinks.of_dropped (snapshot : t.repl.snapshot = s.repl.snapshot)
    (pending : t.cache.pendingReplicationBatches = []) (parked : t.cache.parkedCommits = []) :
    Shrinks s t := by
  constructor
  · have sub := liveQueue_sublist (s := t)
    rw [pending, append_nil, snapshot] at sub
    exact sub.trans snapshot_sublist_liveQueue
  · rw [liveParked_eq_nil parked]
    exact nil_sublist _

theorem Shrinks.trans {u} (h : Shrinks s t) (k : Shrinks t u) : Shrinks s u :=
  ⟨k.queue.trans h.queue, k.parked.trans h.parked⟩

theorem Shrinks.comp {u} (k : Shrinks t u) (h : Shrinks s t) : Shrinks s u := h.trans k

theorem snapshot_beginCull {target} (safe : s.RewindSafe target) :
    (s.beginCull target).repl.snapshot = s.repl.snapshot :=
  snapshot_removeAbove (s := { s with segments := s.segments.updateActive target.rewind }) safe.1

theorem shrinks_beginCull {target} (safe : s.RewindSafe target) :
    Shrinks s (s.beginCull target) := by
  have window := inCullWindow_beginCull (s := s) target
  constructor
  · rw [liveQueue_of_window window, snapshot_beginCull safe]
    exact snapshot_sublist_liveQueue
  · rw [liveParked_of_window window]
    exact nil_sublist _

theorem shrinks_dropCull {i task} (found : s.culls[i]? = some task)
    (notRewound : task.isRewound = false) : Shrinks s (s.dropCull i) :=
  .of_eq rfl ⟨inCullWindow_of_dropCull, inCullWindow_dropCull found notRewound⟩ rfl rfl

/-- A rewind that takes nothing from the waiting batches leaves them alone. -/
theorem shrinks_removeAbove {g n} (none : s.NoneWaiting g n) :
    Shrinks s (s.removeAbove g n) := by
  have each : ∀ ps : List PendingCommitData, (∀ p ∈ ps, p ∈ s.repl.snapshot ++
      s.cache.pendingReplicationBatches ++ s.cache.parkedCommits) →
      ps.map (·.markRemoved g n) = ps :=
    fun ps hps => PendingCommitData.map_markRemoved fun p hp => none p (hps p hp)
  refine .of_eq ?_ Iff.rfl (each _ fun p hp => ?_) (each _ fun p hp => ?_)
  · refine snapshot_removeAbove fun p hp => none p ?_
    exact mem_append_left _ (mem_append_left _ hp)
  · exact mem_append_left _ (mem_append_right _ hp)
  · exact mem_append_right _ hp

theorem shrinks_rewindActive {n} (none : s.NoneWaiting s.segments.activeLogId n) :
    Shrinks s (s.rewindActive n) :=
  (shrinks_removeAbove (s := { s with
    segments := s.segments.updateActive (·.truncatedTo n), gate := .rewound }) none).comp
    (.of_eq rfl Iff.rfl rfl rfl)

theorem shrinks_captured (intact : s.PendingIntact) :
    Shrinks s { s with
      cache := { s.cache with pendingReplicationBatches := [] }
      repl := .sending s.cache.pendingReplicationBatches } := by
  refine ⟨liveQueue_sublist.trans ?_, (Shrinks.of_eq (t := { s with
    cache := { s.cache with pendingReplicationBatches := [] } }) rfl Iff.rfl rfl rfl).parked⟩
  rw [append_nil]
  rcases intact with out | empty
  · rw [liveQueue_of_not_window out]
    exact sublist_append_right _ _
  · rw [empty]
    exact nil_sublist _

theorem shrinks_publish (ps : List PendingCommitData) : Shrinks s (s.publish ps) := by
  have window : (s.publish ps).InCullWindow ↔ s.InCullWindow := Iff.rfl
  constructor
  · by_cases hw : s.InCullWindow
    · rw [liveQueue_of_window (window.mpr hw)]
      exact nil_sublist _
    · rw [liveQueue_of_not_window (fun k => hw (window.mp k)), liveQueue_of_not_window hw]
      exact sublist_append_right _ _
  · exact .refl _

theorem shrinks_returnSnapshot {ps} (repl : s.repl = .sending ps) :
    Shrinks s (s.returnSnapshot ps) := by
  have window : (s.returnSnapshot ps).InCullWindow ↔ s.InCullWindow := Iff.rfl
  constructor
  · by_cases hw : s.InCullWindow
    · rw [liveQueue_of_window (window.mpr hw)]
      exact nil_sublist _
    · rw [liveQueue_of_not_window (fun k => hw (window.mp k)), liveQueue_of_not_window hw, repl]
      exact .refl _
  · exact .refl _

/-- The pending queue is intact when a capture takes it. -/
theorem PendingIntact.of_captured {trigger} (flag : s.cache.replicationRollbackOccurred = false)
    (notify : trigger = .commitNotify → s.cache.pendingReplicationBatches = [])
    (queue : s.queueSafe (.replicationCapture trigger)) : s.PendingIntact := by
  rcases queue with rfl | raised | intact
  · exact .inr (notify rfl)
  · rw [flag] at raised
    cases raised
  · exact intact

/-- **Only a successful fsync makes a batch wait.** -/
theorem shrinks_step (safe : s.CullSafe a) (hstep : s.step a = some t)
    (noFsync : a ≠ .syncSucceeded) : Shrinks s t := by
  obtain ⟨cull, -, queue⟩ := safe
  have same : Shrinks s s := .of_eq rfl Iff.rfl rfl rfl
  cases Step.of_step hstep with
  | syncSucceeded => exact absurd rfl noFsync
  | fsyncEmpty | replicationYield | drainNothing => exact same
  | syncFailed landed | headerSyncDone landed => cases landed <;> exact .of_eq rfl Iff.rfl rfl rfl
  | replicationCaptured trigger idle flag notify write =>
    exact shrinks_captured (.of_captured flag notify queue)
  | replicationPublished ps => exact shrinks_publish ps
  | replicationFailed ps repl => exact shrinks_returnSnapshot repl
  | barrierRaised ps repl | barrierKept ps repl | leaseLost ps repl | barrierPersisted ps repl =>
    refine .of_eq ?_ Iff.rfl rfl rfl
    rw [repl]
    rfl
  | drained => exact .of_parked rfl Iff.rfl rfl (dropWhile_sublist _)
  | commitParked | reconcileCommit => exact .of_parked rfl Iff.rfl rfl (nil_sublist _)
  | reconcileRewind read isRead behind =>
    have target := cullOf_rewind isRead behind
    have disarmed : Shrinks s { s with ackBarrierRewindArmed := false } :=
      .of_eq rfl Iff.rfl rfl rfl
    exact disarmed.trans (shrinks_beginCull (cull _ target))
  | reconcileSuspend mode armed task notRewound =>
    refine .of_eq rfl ⟨?_, ?_⟩ rfl rfl
    · rintro ⟨other, mem, rewound⟩
      rcases mem_append.mp mem with mem | mem
      · exact ⟨other, mem, rewound⟩
      · obtain rfl := mem_singleton.mp mem
        rw [notRewound] at rewound
        cases rewound
    · rintro ⟨other, mem, rewound⟩
      exact ⟨other, mem_append_left _ mem, rewound⟩
  | tailCommit i mode read task =>
    exact (shrinks_dropCull task rfl).trans (.of_parked rfl Iff.rfl rfl (nil_sublist _))
  | tailKept i isPeer mode read task => exact shrinks_dropCull task rfl
  | tailCulled i mode read task =>
    have target := cullOf_tail task
    exact (shrinks_dropCull task rfl).trans (shrinks_beginCull ((cull _ target).dropCull i))
  | ackBarrierCursor i barrier task =>
    have target := cullOf_barrier task
    exact (shrinks_dropCull task rfl).trans (shrinks_beginCull ((cull _ target).dropCull i))
  | cullFinished | demotionFinished => exact .of_dropped rfl rfl rfl
  | reconcileFailed i task found =>
    cases rewound : task.isRewound with
    | true =>
      obtain ⟨pending, parked⟩ := queue (by rw [found]; exact rewound)
      exact .of_dropped rfl pending parked
    | false => exact shrinks_dropCull found rewound
  | truncateInPlace i d idle task =>
    have none : (clearForTruncate { s with truncations := s.truncations.eraseIdx i } d).NoneWaiting
        s.segments.activeLogId (d - 1) := noneWaiting_clearForTruncate (queue _ task rfl)
    rw [← activeLogId_clearForTruncate (s := { s with truncations := s.truncations.eraseIdx i }) d]
      at none
    exact (shrinks_rewindActive none).comp (.of_dropped rfl rfl rfl)
  | truncateUnwind i g d | truncateRefused i g d => exact .of_dropped rfl rfl rfl
  | unwindOpened g d gate =>
    have none : s.NoneWaiting g (d - 1) := queue (g, d) (by rw [gate]; rfl)
    exact (shrinks_removeAbove (s := { s with
      segments := (s.segments.load g).unwindActiveToSealed g, gate := .unwound d }) none).comp
      (.of_eq rfl Iff.rfl rfl rfl)
  | unwindClosed d gate => exact shrinks_rewindActive (queue d (by rw [gate]; rfl))
  | restart => exact ⟨nil_sublist _, nil_sublist _⟩
  | _ => exact .of_eq rfl Iff.rfl rfl rfl

/-- After a successful fsync the waiting batches are the old ones and perhaps the new one. -/
theorem live_commitSync (target : CommitTarget) (entries : List EntryId) (g : ℕ)
    (clone : LogSegmentFileMetadata) :
    ((s.commitSync target entries g clone).liveQueue = s.liveQueue ∨
      (s.commitSync target entries g clone).liveQueue =
        s.liveQueue ++ [⟨g, clone.synced target entries.length, entries, false⟩]) ∧
    ((s.commitSync target entries g clone).liveParked = s.liveParked ∨
      (s.commitSync target entries g clone).liveParked =
        s.liveParked ++ [⟨g, clone.synced target entries.length, entries, false⟩]) := by
  have window : (s.commitSync target entries g clone).InCullWindow ↔ s.InCullWindow := Iff.rfl
  by_cases hw : s.InCullWindow
  · rw [liveQueue_of_window (window.mpr hw), liveQueue_of_window hw,
      liveParked_of_window (window.mpr hw), liveParked_of_window hw]
    exact ⟨.inl rfl, .inl rfl⟩
  · have out := fun k => hw (window.mp k)
    rw [liveQueue_of_not_window out, liveQueue_of_not_window hw, liveParked_of_not_window out,
      liveParked_of_not_window hw]
    cases target with
    | fullCommit => exact ⟨.inl rfl, .inl rfl⟩
    | deferToReplicationAck => exact ⟨.inr (append_assoc _ _ _).symm, .inl rfl⟩
    | deferToLeaderConfirmed => exact ⟨.inl rfl, .inr rfl⟩

theorem waiting_commitSync {target entries g}
    {clone} (waits : p ∈ (s.commitSync target entries g clone).liveQueue ∨
      p ∈ (s.commitSync target entries g clone).liveParked) :
    (p ∈ s.liveQueue ∨ p ∈ s.liveParked) ∨
      p = ⟨g, clone.synced target entries.length, entries, false⟩ := by
  rcases waits with hp | hp
  · rcases (live_commitSync (s := s) target entries g clone).1 with eq | eq <;>
      simp only [eq, mem_append, mem_singleton] at hp <;> tauto
  · rcases (live_commitSync (s := s) target entries g clone).2 with eq | eq <;>
      simp only [eq, mem_append, mem_singleton] at hp <;> tauto

/-- A waiting batch waited before, or an fsync has just written it. -/
theorem live_step (safe : s.CullSafe a) (hstep : s.step a = some t) (live : t.Live p) :
    s.Live p ∨ ∃ target entries g clone, a = .syncSucceeded ∧
      s.gate = .writing target entries g clone ∧
      p = ⟨g, clone.synced target entries.length, entries, false⟩ := by
  by_cases fsync : a = .syncSucceeded
  · subst fsync
    cases Step.of_step hstep with
    | syncSucceeded target entries g clone gate =>
      rcases waiting_commitSync (mem_of_live live) with (hp | hp) | new
      · exact .inl (live_of_mem_liveQueue hp)
      · exact .inl (live_of_mem_liveParked hp)
      · exact .inr ⟨target, entries, g, clone, rfl, gate, new⟩
  · have shrinks := shrinks_step safe hstep fsync
    rcases mem_of_live live with hp | hp
    · exact .inl (live_of_mem_liveQueue (shrinks.queue.subset hp))
    · exact .inl (live_of_mem_liveParked (shrinks.parked.subset hp))

end Shard

end Celeriant
