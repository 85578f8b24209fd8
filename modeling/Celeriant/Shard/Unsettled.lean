import Celeriant.Shard.SegmentSteps
import Mathlib.Data.List.Flatten
import Mathlib.Data.List.Nodup
import Mathlib.Data.List.Perm.Subperm

/-!
# Entries that are not committed yet

From the moment it is queued until its batch is committed or dropped, an entry is in the append
queue, in the batch of the gate holder, or in a batch that waits for its commit. No step copies an
entry, and a committed batch leaves these places for good. This needs no condition on the run,
unlike what `Shard.Entries` says of entries that were acknowledged.

## Main results

* `Shard.deferred_step`: waiting batches are old ones or the one a sync has just deferred, and
  committed batches do not wait
* `Shard.count_unsettled_step`: no entry is copied, and what a step releases is gone
-/

namespace Celeriant

open List

/-- The data fsync that holds the gate: its commit target and its batch. -/
def GateTask.fsync : GateTask → Option (CommitTarget × List EntryId)
  | sealing entries => some (.fullCommit, entries)
  | rotating target entries _ => some (target, entries)
  | writing target entries _ _ => some (target, entries)
  | _ => none

/-- The entries a data fsync is writing. -/
def GateTask.batch (task : GateTask) : List EntryId := (task.fsync.map (·.2)).getD []

@[simp] theorem entriesOf_nil : entriesOf [] = [] := rfl

@[simp] theorem entriesOf_append (ps qs : List PendingCommitData) :
    entriesOf (ps ++ qs) = entriesOf ps ++ entriesOf qs := flatMap_append

theorem entriesOf_cons (p : PendingCommitData) (ps : List PendingCommitData) :
    entriesOf (p :: ps) = p.pendingQueue ++ entriesOf ps := rfl

variable {ps : List PendingCommitData}

theorem mem_entriesOf {e} :
    e ∈ entriesOf ps ↔ ∃ p ∈ ps, e ∈ p.pendingQueue := mem_flatMap

/-- The segment, the tip and the entries of a batch. -/
def PendingCommitData.core (p : PendingCommitData) : ℕ × ℕ × List EntryId :=
  (p.logId, p.tip, p.pendingQueue)

open PendingCommitData

theorem map_core_markRemoved (g n : ℕ) (ps : List PendingCommitData) :
    (ps.map (markRemoved g n)).map core = ps.map core := by
  rw [map_map]
  refine map_congr_left fun p _ => ?_
  simp [core]

theorem entriesOf_eq_core (ps : List PendingCommitData) :
    entriesOf ps = (ps.map core).flatMap (·.2.2) := by
  rw [entriesOf, flatMap_map]
  rfl

/-- Batches that are there as often have entries that are there as often. -/
theorem count_entriesOf_of_subperm {ps qs} (h : (ps.map core).Subperm (qs.map core)) (e : EntryId) :
    (entriesOf ps).count e ≤ (entriesOf qs).count e := by
  obtain ⟨l, perm, sub⟩ := h
  rw [entriesOf_eq_core, entriesOf_eq_core, ← (perm.flatMap_right (·.2.2)).count_eq]
  exact (sub.flatMap (·.2.2)).count_le e

namespace Shard

/-- The batches that wait for replication: those a cycle holds, then those in the queue. -/
def waiting (s : Shard) : List PendingCommitData :=
  s.repl.snapshot ++ s.cache.pendingReplicationBatches

/-- The batches that wait for any commit. -/
def deferred (s : Shard) : List PendingCommitData := s.waiting ++ s.cache.parkedCommits

/-- The batch that a sync is about to defer. -/
def newBatch (s : Shard) : ShardAction → List PendingCommitData
  | .syncSucceeded =>
    match s.gate with
    | .writing .fullCommit _ _ _ => []
    | .writing target entries g clone => [⟨g, clone.synced target entries.length, entries, false⟩]
    | _ => []
  | _ => []

/-- The entries that are queued, being written, or waiting for a commit. -/
def unsettled (s : Shard) : List EntryId :=
  s.cache.pendingAppendQueue ++ s.gate.batch ++ entriesOf s.deferred

variable {s t : Shard} {a : ShardAction}

/-! ## Waiting batches -/

/-- Where the waiting batches of `t` come from. -/
def DeferredFrom (s t : Shard) (new : List PendingCommitData) : Prop :=
  ((t.deferred ++ s.newlyCommitted t).map core).Subperm ((s.deferred ++ new).map core)

variable {new : List PendingCommitData}

/-- What becomes of the waiting batches from `s` to `t`: those without a mark are unchanged. -/
structure Defers (s t : Shard) (new : List PendingCommitData) : Prop where
  cores : DeferredFrom s t new
  unmarked : ∀ q ∈ t.deferred, q.culled = false → q ∈ s.deferred ++ new

/-- Some batches are committed, others may be dropped. -/
theorem Defers.of_subperm (ps : List PendingCommitData)
    (committed : t.history.committed = s.history.committed ++ ps)
    (deferred : (t.deferred ++ ps).Subperm (s.deferred ++ new)) : Defers s t new where
  cores := by
    obtain ⟨l, perm, sub⟩ := deferred
    rw [DeferredFrom, newlyCommitted_eq ps committed]
    exact ⟨l.map core, perm.map core, sub.map core⟩
  unmarked q hq _ := deferred.subset (mem_append_left _ hq)

theorem Defers.of_sublist (committed : t.history.committed = s.history.committed)
    (deferred : t.deferred.Sublist s.deferred) : Defers s t new := by
  refine .of_subperm [] (by rw [committed, append_nil]) ?_
  rw [append_nil]
  exact (deferred.trans (sublist_append_left _ _)).subperm

theorem Defers.of_eq (committed : t.history.committed = s.history.committed)
    (deferred : t.deferred = s.deferred) : Defers s t new :=
  .of_sublist committed (by rw [deferred])

theorem Defers.of_committed (ps : List PendingCommitData)
    (committed : t.history.committed = s.history.committed ++ ps)
    (deferred : (t.deferred ++ ps).Subperm s.deferred) : Defers s t new :=
  .of_subperm ps committed (deferred.trans (sublist_append_left _ _).subperm)

theorem deferred_removeAbove (g n : ℕ) :
    (s.removeAbove g n).deferred = s.deferred.map (·.markRemoved g n) := by
  simp only [deferred, waiting, removeAbove, ReplTask.snapshot_mapSnapshot, map_append]

/-- Marking adds no batch without a mark. -/
theorem Defers.removeAbove {u} (h : Defers s u new) {g n}
    (committed : t.history.committed = u.history.committed)
    (deferred : t.deferred = (u.removeAbove g n).deferred) : Defers s t new where
  cores := by
    rw [DeferredFrom, newlyCommitted, committed, deferred, deferred_removeAbove, map_append,
      map_core_markRemoved, ← map_append]
    exact h.cores
  unmarked q hq unmarked := by
    rw [deferred, deferred_removeAbove] at hq
    obtain ⟨p, hp, rfl⟩ := mem_map.mp hq
    unfold markRemoved at unmarked ⊢
    split at unmarked
    · cases unmarked
    next kept =>
      rw [if_neg kept]
      exact h.unmarked p hp unmarked

/-- A prefix of the parked batches is committed. -/
theorem subperm_commitParkedUpTo (n : ℕ) :
    ((s.commitParkedUpTo n).deferred ++ s.cache.parkedUpTo n).Subperm s.deferred := by
  have whole : s.cache.parkedUpTo n ++ (s.cache.drainParkedCommitsUpTo n).parkedCommits =
      s.cache.parkedCommits := takeWhile_append_dropWhile
  refine List.Perm.subperm ?_
  simp only [deferred]
  rw [← whole, append_assoc]
  exact List.Perm.append_left _ perm_append_comm

theorem subperm_commitParked :
    (s.commitParked.deferred ++ s.cache.parkedCommits).Subperm s.deferred := by
  refine List.Perm.subperm ?_
  show ((s.waiting ++ []) ++ s.cache.parkedCommits).Perm (s.waiting ++ s.cache.parkedCommits)
  rw [append_nil]

theorem snapshot_sublist_deferred : s.repl.snapshot.Sublist s.deferred :=
  (sublist_append_left _ _).trans (sublist_append_left _ _)

theorem Defers.clearForTruncate (i d : ℕ) :
    Defers s (Shard.clearForTruncate { s with truncations := s.truncations.eraseIdx i } d) new := by
  refine .of_committed (s.cache.parkedUpTo (d - 1)) rfl ?_
  refine List.Subperm.trans (List.Sublist.subperm ?_) (subperm_commitParkedUpTo (s := s) (d - 1))
  show ((s.repl.snapshot ++ [] ++ []) ++ _).Sublist _
  rw [append_nil, append_nil]
  exact (snapshot_sublist_deferred (s := s.commitParkedUpTo (d - 1))).append (.refl _)

theorem deferred_step (hstep : s.step a = some t) : Defers s t (s.newBatch a) := by
  cases Step.of_step hstep with
  | syncSucceeded target entries g clone gate =>
    refine .of_subperm [] (append_nil _).symm (List.Perm.subperm ?_)
    rw [append_nil]
    cases target with
    | fullCommit =>
      simp only [newBatch, gate, append_nil]
      exact List.Perm.refl _
    | deferToReplicationAck =>
      simp only [newBatch, gate, deferred, waiting, append_assoc]
      refine List.Perm.append_left _ ?_
      show ((s.cache.pendingReplicationBatches ++ [_]) ++ s.cache.parkedCommits).Perm _
      rw [append_assoc]
      exact List.Perm.append_left _ perm_append_comm
    | deferToLeaderConfirmed =>
      simp only [newBatch, gate, deferred, append_assoc]
      exact List.Perm.refl _
  | replicationCaptured trigger idle =>
    refine .of_eq rfl ?_
    simp [deferred, waiting, idle, ReplTask.snapshot]
  | replicationPublished ps repl =>
    refine .of_committed ps rfl (List.Perm.subperm ?_)
    simp only [deferred, waiting, repl, ReplTask.snapshot, publish, commitAll, nil_append,
      append_assoc]
    rw [← append_assoc]
    exact perm_append_comm
  | replicationFailed ps repl =>
    refine .of_eq rfl ?_
    simp [deferred, waiting, repl, ReplTask.snapshot, returnSnapshot,
      ShardMemCache.returnToPendingReplication]
  | barrierRaised ps repl | barrierKept ps repl | leaseLost ps repl | barrierPersisted ps repl =>
    refine .of_eq rfl ?_
    simp [deferred, waiting, repl, ReplTask.snapshot, acknowledge]
  | drained => exact .of_committed _ rfl (subperm_commitParkedUpTo _)
  | commitParked | reconcileCommit => exact .of_committed _ rfl subperm_commitParked
  | tailCommit i => exact .of_committed _ rfl (subperm_commitParked (s := s.dropCull i))
  | reconcileRewind | tailCulled | ackBarrierCursor | unwindOpened | unwindClosed =>
    exact Defers.removeAbove (u := s) (.of_eq rfl rfl) rfl rfl
  | cullFinished | demotionFinished =>
    have dropped : (s.repl.snapshot ++ [] ++ []).Sublist s.deferred := by
      rw [append_nil, append_nil]
      exact snapshot_sublist_deferred
    exact .of_sublist rfl dropped
  | truncateInPlace i d => exact (Defers.clearForTruncate i d).removeAbove rfl rfl
  | truncateUnwind i g d | truncateRefused i g d =>
    have cleared : Defers s _ [] := .clearForTruncate i d
    exact ⟨cleared.cores, cleared.unmarked⟩
  | restart => exact .of_sublist rfl (nil_sublist _)
  | _ => exact .of_eq rfl rfl

/-! ## Counting -/

/-- Entries that a step adds to the append queue. -/
def enqueued : ShardAction → List EntryId
  | .enqueue entries => entries
  | _ => []

theorem enqueued_eq_nil (other : ∀ entries, a ≠ .enqueue entries) : enqueued a = [] := by
  cases a with
  | enqueue entries => exact absurd rfl (other entries)
  | _ => rfl

/-- Entries that are new, or were there once before, are there once. -/
theorem once_of_fresh {before after : List ℕ} {next n} (once : ∀ e, before.count e ≤ 1)
    (known : ∀ e ∈ before, e < next)
    (moved : ∀ e, after.count e ≤ before.count e + (List.range' next n).count e) :
    (∀ e, after.count e ≤ 1) ∧ ∀ e ∈ after, e < next + n := by
  refine ⟨fun e => ?_, fun e he => ?_⟩
  · have := moved e
    have := once e
    by_cases old : e < next
    · have none : (List.range' next n).count e = 0 :=
        count_eq_zero.mpr fun he => absurd (mem_range'_1.mp he).1 (by omega)
      omega
    · have absent := count_eq_zero.mpr fun he => old (known e he)
      have := nodup_iff_count_le_one.mp (nodup_range' (s := next) (n := n)) e
      omega
  · have moved := moved e
    have here := count_pos_iff.mpr he
    by_cases old : e ∈ before
    · exact Nat.lt_add_right n (known e old)
    · rw [count_eq_zero.mpr old, Nat.zero_add] at moved
      exact (mem_range'_1.mp (count_pos_iff.mp (lt_of_lt_of_le here moved))).2

/-- The batch whose write ends with the step. -/
def written (s : Shard) : ShardAction → List EntryId
  | .syncSucceeded => s.gate.batch
  | .syncFailed _ => s.gate.batch
  | _ => []

/-- How the queue and the batch being written move from `s` to `t`. -/
def QueueFrom (s t : Shard) (new gone : List EntryId) : Prop :=
  ∀ e, t.cache.pendingAppendQueue.count e + t.gate.batch.count e + gone.count e ≤
    s.cache.pendingAppendQueue.count e + s.gate.batch.count e + new.count e

theorem QueueFrom.of_sublist {new}
    (append : t.cache.pendingAppendQueue.Sublist s.cache.pendingAppendQueue)
    (batch : t.gate.batch.Sublist s.gate.batch) : QueueFrom s t new [] := by
  intro e
  have := append.count_le e
  have := batch.count_le e
  rw [count_nil]
  omega

theorem QueueFrom.of_eq {new} (append : t.cache.pendingAppendQueue = s.cache.pendingAppendQueue)
    (gate : t.gate = s.gate) : QueueFrom s t new [] :=
  .of_sublist (by rw [append]) (by rw [gate])

/-- The gate holder ends without a batch. -/
theorem QueueFrom.of_free {new}
    (append : t.cache.pendingAppendQueue.Sublist s.cache.pendingAppendQueue)
    (batch : t.gate.batch = []) : QueueFrom s t new s.gate.batch := by
  intro e
  have := append.count_le e
  rw [batch, count_nil]
  omega

/-- A captured queue becomes the new batch, or is dropped. -/
theorem QueueFrom.of_captured {new} (append : t.cache.pendingAppendQueue = [])
    (batch : t.gate.batch.Sublist s.cache.pendingAppendQueue) : QueueFrom s t new [] := by
  intro e
  have := batch.count_le e
  rw [append, count_nil]
  omega

/-- What is queued or being written was queued before, or is new, and what was written is neither
queued nor being written again. -/
theorem queue_step (hstep : s.step a = some t) : QueueFrom s t (enqueued a) (s.written a) := by
  cases Step.of_step hstep with
  | headerSync | truncateHeader | unwindOpened | unwindClosed | truncateFailed | headerSyncDone
  | sidecarFailed | rotateFailed =>
    exact .of_sublist (.refl _) (nil_sublist _)
  | enqueue entries =>
    intro e
    simp only [written, enqueued, ShardMemCache.addToPendingQueue, count_append, count_nil]
    omega
  | fsyncWrites | fsyncSeals | fsyncRotates => exact .of_captured rfl (.refl _)
  | fsyncTooLarge _ ready => exact .of_captured rfl (by rw [ready.1]; exact nil_sublist _)
  | sidecarWritten entries gate | rotated target entries source gate =>
    refine .of_sublist (.refl _) ?_
    rw [gate]
    exact .refl _
  | syncSucceeded target entries g clone =>
    refine .of_free ?_ rfl
    cases target <;> exact .refl _
  | syncFailed => exact .of_free (nil_sublist _) rfl
  | truncateInPlace | truncateUnwind =>
    exact .of_sublist (nil_sublist _) (nil_sublist _)
  | demotionFinished | truncateRefused => exact .of_sublist (nil_sublist _) (.refl _)
  | restart => exact .of_sublist (nil_sublist _) (nil_sublist _)
  | _ => exact .of_eq rfl rfl

theorem count_enqueued_of_lt {next n e} (fresh : enqueued a = List.range' next n)
    (known : e < next) :
    (enqueued a).count e = 0 := by
  rw [count_eq_zero, fresh, mem_range'_1]
  omega

theorem entriesOf_newBatch_sublist (s : Shard) (a : ShardAction) :
    (entriesOf (s.newBatch a)).Sublist (s.written a) := by
  cases a with
  | syncSucceeded =>
    simp only [newBatch, written]
    cases s.gate with
    | writing target entries g clone =>
      cases target with
      | fullCommit => exact nil_sublist _
      | deferToReplicationAck | deferToLeaderConfirmed =>
        show (entries ++ []).Sublist entries
        rw [append_nil]
    | _ => exact nil_sublist _
  | _ => exact nil_sublist _

theorem count_unsettled (s : Shard) (e : EntryId) :
    s.unsettled.count e = s.cache.pendingAppendQueue.count e + s.gate.batch.count e +
      (entriesOf s.deferred).count e := by
  rw [unsettled, count_append, count_append]

/-- No step copies an entry. A batch that has been written is unsettled only if it is deferred, and
committed batches are not unsettled. -/
theorem count_unsettled_step (hstep : s.step a = some t) (e : EntryId) :
    t.unsettled.count e + (entriesOf (s.newlyCommitted t)).count e + (s.written a).count e ≤
      s.unsettled.count e + (enqueued a).count e + (entriesOf (s.newBatch a)).count e := by
  have queue := queue_step hstep e
  have deferred := count_entriesOf_of_subperm (deferred_step hstep).cores e
  rw [entriesOf_append, entriesOf_append, count_append, count_append] at deferred
  rw [count_unsettled, count_unsettled]
  omega

end Shard

end Celeriant
