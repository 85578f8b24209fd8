import Celeriant.Shard.CullSafety
import Celeriant.Shard.Unsettled

/-!
# Where an entry is, and what the read cursor confirms

An entry is enqueued once and then moves: from the append queue into the batch of an fsync, from
there into the queue of batches awaiting replication or into the parked queue, into the snapshot of
a replication cycle and out of it as accepted. It is never in two places, and what a rollback, a
cull, a truncation or a failed cycle has discarded is in none of them, except in batches that a cull
has marked and is about to drop.

`replicate_durable` returns once the read cursor has reached the write cursor it started from. That
is a proof of replication only if nothing else moves the read cursor over a batch that still waits.
`ConfirmSafe` asks for that; under it every waiting batch stays above the read cursors, in memory,
on disk and in the copy an fsync may be about to store. A batch stops waiting in one of two ways:
its entries are accepted, or it is dropped and the rollback generation moves.

## Main results

* `Shard.EntryInv.step`: the invariant is kept by every step under `CullSafe`
* `Shard.ConfirmInv.step`: waiting batches stay above the read cursors
* `Shard.carried_step`: a batch waits until it is accepted or the generation moves
-/

namespace Celeriant

open Transition LogSegmentFileMetadata LogSegmentsCache List

variable {ps : List PendingCommitData}

/-- An entry that occurs once is in one batch. -/
theorem eq_of_mem_pendingQueue {e}
    (once : (entriesOf ps).count e ≤ 1) {p q} (hp : p ∈ ps) (hq : q ∈ ps)
    (ep : e ∈ p.pendingQueue) (eq : e ∈ q.pendingQueue) : p = q := by
  induction ps with
  | nil => cases hp
  | cons r ps ih =>
    rw [entriesOf_cons, count_append] at once
    have here : e ∈ r.pendingQueue → 1 ≤ r.pendingQueue.count e := count_pos_iff.mpr
    have later : ∀ q ∈ ps, e ∈ q.pendingQueue → 1 ≤ (entriesOf ps).count e := fun q hq he =>
      count_pos_iff.mpr (mem_entriesOf.mpr ⟨q, hq, he⟩)
    rcases mem_cons.mp hp with rfl | hp <;> rcases mem_cons.mp hq with rfl | hq
    · rfl
    · have := here ep
      have := later q hq eq
      omega
    · have := here eq
      have := later p ‹p ∈ ps› ep
      omega
    · exact ih (by omega) hp hq

namespace Shard

/-! ## Places -/

section Places

variable (s : Shard)

/-- The entries in all places. -/
def located : List EntryId :=
  s.cache.pendingAppendQueue ++ s.gate.batch ++ entriesOf s.deferred ++ s.history.accepted

theorem count_located (e : EntryId) :
    s.located.count e = s.cache.pendingAppendQueue.count e + s.gate.batch.count e +
      (entriesOf s.repl.snapshot).count e +
      (entriesOf s.cache.pendingReplicationBatches).count e +
      (entriesOf s.cache.parkedCommits).count e + s.history.accepted.count e := by
  simp only [located, deferred, waiting, entriesOf_append, count_append]
  omega

/-- The entry is in no place but possibly in a batch that is marked as removed. -/
structure Gone (e : EntryId) : Prop where
  append : e ∉ s.cache.pendingAppendQueue
  batch : e ∉ s.gate.batch
  accepted : e ∉ s.history.accepted
  deferred : ∀ p ∈ s.deferred, e ∈ p.pendingQueue → p.culled = true

end Places

/-- Every entry is in at most one place, discarded entries are gone, what waits for a commit or
was accepted has been fsynced, and entries from `next` on are unknown. -/
structure EntryInv (next : ℕ) (s : Shard) : Prop where
  once : ∀ e, s.located.count e ≤ 1
  gone : ∀ e ∈ s.history.discarded, s.Gone e
  fsynced : ∀ p ∈ s.deferred, ∀ e ∈ p.pendingQueue, e ∈ s.history.fsynced
  accepted : ∀ e ∈ s.history.accepted, e ∈ s.history.fsynced
  known : ∀ e : ℕ, e ∈ s.located ∨ e ∈ s.history.discarded → e < next

theorem entryInv_initial : EntryInv 0 initial where
  once := fun _ => Nat.zero_le 1
  gone := nofun
  fsynced := nofun
  accepted := nofun
  known := by
    rintro e (he | he) <;> cases he

variable {next : ℕ} {s t : Shard}

theorem gone_of_not_mem {e} (h : e ∉ s.located) : s.Gone e where
  append := fun k => h (by simp [located, k])
  batch := fun k => h (by simp [located, k])
  accepted := fun k => h (by simp [located, k])
  deferred := fun p hp k => absurd (mem_entriesOf.mpr ⟨p, hp, k⟩) fun k => h (by simp [located, k])

/-! ## What is recorded -/

/-- What a step records: it accepts the snapshot of the cycle, it has fsynced the batches it defers,
and what it discards has left a place or is in a batch with a mark. -/
structure HistoryFrom (s t : Shard) (new : List PendingCommitData) : Prop where
  accepted : t.history.accepted = s.history.accepted ∨
    t.history.accepted = s.history.accepted ++ entriesOf s.repl.snapshot ∧
      s.newlyCommitted t = s.repl.snapshot
  fsynced : s.history.fsynced ++ entriesOf new ⊆ t.history.fsynced
  discarded : ∀ e ∈ t.history.discarded, e ∈ s.history.discarded ∨
    t.located.count e < s.located.count e ∨ ∃ q ∈ t.deferred, q.culled = true ∧ e ∈ q.pendingQueue

theorem HistoryFrom.of_dropped (dropped : List EntryId)
    (accepted : t.history.accepted = s.history.accepted)
    (fsynced : t.history.fsynced = s.history.fsynced)
    (discarded : t.history.discarded = s.history.discarded ++ dropped)
    (count : ∀ e ∈ dropped, t.located.count e + dropped.count e ≤ s.located.count e) :
    HistoryFrom s t [] where
  accepted := .inl accepted
  fsynced := by
    rw [fsynced, entriesOf_nil, append_nil]
    exact List.Subset.refl _
  discarded e he := by
    rw [discarded] at he
    refine (mem_append.mp he).imp_right fun he => .inl ?_
    have := count e he
    have := count_pos_iff.mpr he
    omega

theorem HistoryFrom.of_same (accepted : t.history.accepted = s.history.accepted)
    (fsynced : t.history.fsynced = s.history.fsynced)
    (discarded : t.history.discarded = s.history.discarded) : HistoryFrom s t [] :=
  .of_dropped [] accepted fsynced (by rw [discarded, append_nil]) nofun

theorem count_located_removeAbove (g n : ℕ) (e : EntryId) :
    (s.removeAbove g n).located.count e = s.located.count e := by
  rw [located, located, entriesOf_eq_core, deferred_removeAbove, map_core_markRemoved,
    ← entriesOf_eq_core]
  rfl

/-- Batches that lose entries are marked, and their entries discarded. -/
theorem HistoryFrom.removeAbove {u} (h : HistoryFrom s u []) (g n : ℕ) :
    HistoryFrom s (u.removeAbove g n) [] where
  accepted := h.accepted
  fsynced := h.fsynced
  discarded e he := by
    rw [count_located_removeAbove, deferred_removeAbove]
    rcases mem_append.mp he with he | he
    · refine (h.discarded e he).imp_right (Or.imp_right ?_)
      rintro ⟨q, hq, marked, inBatch⟩
      refine ⟨_, mem_map_of_mem hq, ?_, by rwa [PendingCommitData.markRemoved_pendingQueue]⟩
      unfold PendingCommitData.markRemoved
      split
      · rfl
      · exact marked
    · obtain ⟨p, hp, inBatch⟩ := mem_entriesOf.mp he
      obtain ⟨hp, removed⟩ := mem_filter.mp hp
      refine .inr (.inr ⟨_, mem_map_of_mem hp, ?_,
        by rwa [PendingCommitData.markRemoved_pendingQueue]⟩)
      rw [PendingCommitData.markRemoved, if_pos (of_decide_eq_true removed)]

theorem HistoryFrom.finishCull (i : ℕ) (demotion : Bool) :
    HistoryFrom s ((s.dropCull i).finishCull demotion) [] := by
  cases demotion with
  | true =>
    refine .of_dropped (s.cache.pendingAppendQueue ++
      entriesOf (s.cache.pendingReplicationBatches ++ s.cache.parkedCommits)) rfl rfl
      (append_assoc ..) fun e _ => ?_
    rw [count_located, count_located, entriesOf_append, count_append, count_append]
    change 0 + s.gate.batch.count e + (entriesOf s.repl.snapshot).count e + 0 + 0 +
      s.history.accepted.count e + _ ≤ _
    omega
  | false =>
    refine .of_dropped _ rfl rfl rfl fun e _ => ?_
    rw [count_located, count_located, entriesOf_append, count_append]
    change s.cache.pendingAppendQueue.count e + s.gate.batch.count e +
      (entriesOf s.repl.snapshot).count e + 0 + 0 + s.history.accepted.count e +
      ((entriesOf s.cache.pendingReplicationBatches).count e +
        (entriesOf s.cache.parkedCommits).count e) ≤ _
    omega

/-- What is queued is dropped, except for parked batches below the divergence. -/
theorem HistoryFrom.clearForTruncate (i d : ℕ) (gate : GateTask)
    (free : gate.batch.Sublist s.gate.batch) (segments : LogSegmentsCache) :
    HistoryFrom s { Shard.clearForTruncate { s with truncations := s.truncations.eraseIdx i } d with
      gate, segments } [] := by
  refine .of_dropped (s.cache.pendingAppendQueue ++
    entriesOf (s.cache.pendingReplicationBatches ++
      (s.cache.drainParkedCommitsUpTo (d - 1)).parkedCommits)) rfl rfl (append_assoc ..) ?_
  intro e _
  have kept : (entriesOf (s.cache.drainParkedCommitsUpTo (d - 1)).parkedCommits).count e ≤
      (entriesOf s.cache.parkedCommits).count e :=
    ((dropWhile_sublist _).flatMap _).count_le e
  have := free.count_le e
  rw [count_located, count_located, entriesOf_append, count_append, count_append]
  change 0 + gate.batch.count e + (entriesOf s.repl.snapshot).count e + 0 + 0 +
    s.history.accepted.count e + _ ≤ _
  omega

theorem HistoryFrom.abandonFsync {entries} (batch : s.gate.batch = entries) :
    HistoryFrom s (s.abandonFsync entries) [] := by
  refine .of_dropped entries rfl rfl rfl fun e _ => ?_
  have free : (GateTask.idle).batch = [] := rfl
  simp only [count_located, Shard.abandonFsync, free, batch, count_nil]
  omega

variable {a : ShardAction} {n : ℕ}

theorem history_step (hstep : s.step a = some t) : HistoryFrom s t (s.newBatch a) := by
  have cut (gate : GateTask) (g n : ℕ) : HistoryFrom s (removeAbove { s with gate } g n) [] :=
    HistoryFrom.removeAbove (s := s) (u := { s with gate }) (.of_same rfl rfl rfl) g n
  cases Step.of_step hstep with
  | fsyncTooLarge =>
    refine .of_dropped s.cache.pendingAppendQueue rfl rfl rfl fun e _ => ?_
    simp only [count_located, count_nil]
    omega
  | sidecarFailed _ gate | rotateFailed _ _ _ gate => exact .abandonFsync (by rw [gate]; rfl)
  | syncSucceeded target entries g clone gate =>
    refine ⟨.inl rfl, fun e he => ?_, fun e he => .inl he⟩
    have written : s.written .syncSucceeded = entries := by
      simp only [written, gate]
      rfl
    rcases mem_append.mp he with old | new
    · exact mem_append_left _ old
    · exact mem_append_right _ (written ▸ (entriesOf_newBatch_sublist s _).subset new)
  | syncFailed landed target entries g clone gate =>
    refine .of_dropped (entries ++ s.cache.pendingAppendQueue) rfl rfl (append_assoc ..)
      fun e _ => ?_
    have batch : s.gate.batch = entries := by
      rw [gate]
      rfl
    have free : (GateTask.idle).batch = [] := rfl
    simp only [count_located, rollbackSync, ShardMemCache.executeFsyncRollback, free, batch,
      count_nil, count_append]
    omega
  | replicationPublished ps repl =>
    refine ⟨.inr ⟨by rw [repl]; rfl, by rw [repl]; exact newlyCommitted_eq _ rfl⟩, ?_,
      fun e he => .inl he⟩
    simp [newBatch, publish]
  | reconcileRewind | tailCulled | ackBarrierCursor =>
    exact ⟨(cut s.gate _ _).accepted, (cut s.gate _ _).fsynced, (cut s.gate _ _).discarded⟩
  | unwindOpened g d =>
    exact ⟨(cut (.unwound d) _ _).accepted, (cut (.unwound d) _ _).fsynced,
      (cut (.unwound d) _ _).discarded⟩
  | unwindClosed d =>
    exact ⟨(cut .rewound _ _).accepted, (cut .rewound _ _).fsynced, (cut .rewound _ _).discarded⟩
  | cullFinished i => exact .finishCull i false
  | demotionFinished i => exact .finishCull i true
  | truncateInPlace i d =>
    exact (HistoryFrom.clearForTruncate i d .rewound (nil_sublist _) _).removeAbove _ _
  | truncateUnwind i g d => exact .clearForTruncate i d (.unwinding g d) (nil_sublist _) _
  | truncateRefused i g d => exact .clearForTruncate i d s.gate (.refl _) _
  | _ => exact .of_same rfl rfl rfl

/-! ## Steps -/

theorem count_located_step (hstep : s.step a = some t) (e : EntryId) :
    t.located.count e ≤ s.located.count e + (enqueued a).count e := by
  have moved := count_unsettled_step hstep e
  have new := (entriesOf_newBatch_sublist s a).count_le e
  have accepted : t.history.accepted.count e ≤
      s.history.accepted.count e + (entriesOf (s.newlyCommitted t)).count e := by
    rcases (history_step hstep).accepted with same | ⟨more, committed⟩
    · rw [same]
      exact Nat.le_add_right _ _
    · rw [more, committed, count_append]
  have split (u : Shard) :
      u.located.count e = u.unsettled.count e + u.history.accepted.count e := count_append
  rw [split, split]
  omega

/-- What waits for a commit has been fsynced. -/
theorem EntryInv.fsynced_step (h : s.EntryInv next) (hstep : s.step a = some t) :
    ∀ e ∈ entriesOf t.deferred, e ∈ t.history.fsynced := by
  intro e he
  have waits := count_entriesOf_of_subperm (deferred_step hstep).cores e
  have here := count_pos_iff.mpr he
  rw [entriesOf_append, count_append] at waits
  have before : e ∈ entriesOf (s.deferred ++ s.newBatch a) := count_pos_iff.mp (by omega)
  refine (history_step hstep).fsynced ?_
  rw [entriesOf_append] at before
  rcases mem_append.mp before with old | new
  · obtain ⟨p, hp, he⟩ := mem_entriesOf.mp old
    exact mem_append_left _ (h.fsynced p hp e he)
  · exact mem_append_right _ new

/-- What was discarded before stays away. -/
theorem EntryInv.gone_step (h : s.EntryInv next) (cull : s.CullInv)
    (fresh : enqueued a = List.range' next n) (hstep : s.step a = some t) {e}
    (old : e ∈ s.history.discarded) : t.Gone e := by
  have gone := h.gone e old
  have queue := queue_step hstep e
  rw [count_enqueued_of_lt fresh (h.known e (.inr old)), count_eq_zero.mpr gone.append,
    count_eq_zero.mpr gone.batch] at queue
  refine ⟨count_eq_zero.mp (by omega), count_eq_zero.mp (by omega), fun k => ?_,
    fun q hq k => ?_⟩
  · rcases (history_step hstep).accepted with same | ⟨more, -⟩
    · exact gone.accepted (same ▸ k)
    · rw [more] at k
      rcases mem_append.mp k with k | k
      · exact gone.accepted k
      · -- the snapshot of a cycle has no marked batch
        obtain ⟨p, hp, k⟩ := mem_entriesOf.mp k
        have marked := gone.deferred p (snapshot_sublist_deferred.subset hp) k
        rw [(cull.live p (.inl hp)).unmarked] at marked
        cases marked
  · by_contra unmarked
    rcases mem_append.mp ((deferred_step hstep).unmarked q hq (by simpa using unmarked)) with
      hq | hq
    · exact unmarked (gone.deferred q hq k)
    · have := count_pos_iff.mpr
        ((entriesOf_newBatch_sublist s a).subset (mem_entriesOf.mpr ⟨q, hq, k⟩))
      omega

theorem EntryInv.step (h : s.EntryInv next) (cull : s.CullInv)
    (fresh : enqueued a = List.range' next n) (hstep : s.step a = some t) :
    t.EntryInv (next + n) := by
  have recorded := history_step hstep
  obtain ⟨once, known⟩ := once_of_fresh h.once (fun e he => h.known e (.inl he))
    fun e => fresh ▸ count_located_step hstep e
  refine ⟨once, fun e he => ?_, fun p hp e he => ?_, fun e he => ?_, ?_⟩
  · rcases recorded.discarded e he with old | fewer | ⟨q, hq, marked, inBatch⟩
    · exact h.gone_step cull fresh hstep old
    · have := h.once e
      exact gone_of_not_mem (count_eq_zero.mp (by omega))
    · -- the entry is in a marked batch, so it is nowhere else
      have here := count_pos_iff.mpr (mem_entriesOf.mpr ⟨q, hq, inBatch⟩)
      have single := once e
      simp only [located, count_append] at single
      refine ⟨count_eq_zero.mp (by omega), count_eq_zero.mp (by omega),
        count_eq_zero.mp (by omega), fun r hr k => ?_⟩
      rw [← eq_of_mem_pendingQueue (by omega) hq hr inBatch k]
      exact marked
  · exact h.fsynced_step hstep e (mem_entriesOf.mpr ⟨p, hp, he⟩)
  · rcases recorded.accepted with same | ⟨more, -⟩
    · exact recorded.fsynced (mem_append_left _ (h.accepted e (same ▸ he)))
    · rw [more] at he
      refine recorded.fsynced (mem_append_left _ ?_)
      rcases mem_append.mp he with he | he
      · exact h.accepted e he
      · obtain ⟨p, hp, he⟩ := mem_entriesOf.mp he
        exact h.fsynced p (snapshot_sublist_deferred.subset hp) e he
  · rintro e (he | he)
    · exact known e he
    · rcases recorded.discarded e he with old | fewer | ⟨q, hq, -, inBatch⟩
      · exact Nat.lt_add_right n (h.known e (.inr old))
      · exact Nat.lt_add_right n (h.known e (.inl (count_pos_iff.mp (by omega))))
      · refine known e (mem_append_left _ (mem_append_right _ ?_))
        exact mem_entriesOf.mpr ⟨q, hq, inBatch⟩

end Shard

namespace Shard

/-! ## The condition -/

section Condition

variable (s : Shard)

/-- What is asked beyond `CullSafe`: no commit but a replication commit moves a read cursor while
a batch waits for replication, and no rewind moves it up to such a batch. -/
def confirmSafe : ShardAction → Prop
  | .syncSucceeded => s.gate.isFullCommit = true → s.NothingReplicating
  | .syncFailed headerLanded =>
    headerLanded = true → s.gate.isFullCommit = true → s.NothingReplicating
  | .drainParkedCommits n =>
    min n s.segments.active.write ≤ s.segments.active.readWalSeq ∨ s.NothingReplicating
  | .commitParkedBeforeCatchup => s.cache.parkedCommits = [] ∨ s.NothingReplicating
  | .reconcileDurableTail mode =>
    mode = .commitForPromotion → s.cache.parkedCommits = [] ∨
      s.segments.active.write ≤ s.segments.active.readWalSeq ∨ s.NothingReplicating
  | .tailProvenance i isPeer =>
    s.commitsParked (.tailProvenance i isPeer) = true → s.NothingReplicating
  | .ackBarrierCursor i =>
    ∀ target ∈ s.cullOf (.ackBarrierCursor i), ∀ p ∈ s.cache.pendingReplicationBatches,
      target.walSeq < p.tip
  | .truncateGate _ => s.repl.snapshot = []
  | .unwindClosed => s.NothingReplicating
  | _ => True

/-- **The condition on a shard step.** A cull begins only while no cycle holds a snapshot. -/
def ConfirmSafe (s : Shard) (a : ShardAction) : Prop :=
  s.CullSafe a ∧ s.confirmSafe a ∧ ∀ _target ∈ s.cullOf a, s.repl.snapshot = []

instance : DecidableRel ConfirmSafe := fun s a => by
  induction a using ShardAction.casesOn <;> dsimp only [ConfirmSafe, confirmSafe] <;> infer_instance

end Condition

/-! ## The invariant -/

/-- From the batch's segment on, every read cursor in memory, on disk and in the copy the gate
holder may be about to write is below the batch. -/
structure ReadBehind (s : Shard) (p : PendingCommitData) : Prop where
  logId : p.logId ≤ s.segments.activeLogId
  record : ∀ g m, s.Record g m → p.logId ≤ g → g ≤ s.segments.activeLogId → m.readWalSeq < p.tip

/-- The invariant of runs under `ConfirmSafe`. -/
structure ConfirmInv (s : Shard) : Prop where
  queue : s.QueueInv
  window : s.InCullWindow → s.repl.snapshot = []
  behind : ∀ p ∈ s.waiting, s.ReadBehind p

theorem confirmInv_initial : ConfirmInv initial where
  queue := queueInv_initial
  window := fun _ => rfl
  behind := nofun

variable {s t : Shard}
  {p : PendingCommitData} {g : ℕ} {clone : LogSegmentFileMetadata} {target : CommitTarget}
  {a : ShardAction}

theorem ReadBehind.active (h : s.ReadBehind p) :
    s.segments.active.readWalSeq < p.tip :=
  h.record _ _ .memory h.logId le_rfl

theorem waiting_eq_nil (h : s.NothingReplicating) : s.waiting = [] := by
  rw [waiting, h.1, h.2]
  rfl

theorem readWalSeq_synced {n} (deferred : target ≠ .fullCommit) :
    (clone.synced target n).readWalSeq = clone.readWalSeq := by
  rw [readWalSeq, synced_read, if_neg deferred]
  rfl

theorem waiting_removeAbove (g n : ℕ) :
    (s.removeAbove g n).waiting = s.waiting.map (·.markRemoved g n) := by
  simp only [waiting, removeAbove, ReplTask.snapshot_mapSnapshot, map_append]

/-! ## Waiting batches -/

/-- The batch waited before, marked or not. -/
def Waited (s : Shard) (q : PendingCommitData) : Prop :=
  ∃ p ∈ s.waiting, q.logId = p.logId ∧ q.tip = p.tip

theorem Waited.of_mem (h : p ∈ s.waiting) : s.Waited p := ⟨p, h, rfl, rfl⟩

theorem Waited.of_removeAbove {n} (h : p ∈ s.waiting.map (·.markRemoved g n)) :
    s.Waited p := by
  obtain ⟨q, hq, rfl⟩ := mem_map.mp h
  exact ⟨q, hq, PendingCommitData.markRemoved_logId g n q, PendingCommitData.markRemoved_tip g n q⟩

/-- A waiting batch waited before, or an fsync has just written it. -/
theorem waiting_step (hstep : s.step a = some t) {q} (hq : q ∈ t.waiting) :
    s.Waited q ∨ ∃ target entries g clone, a = .syncSucceeded ∧ target ≠ .fullCommit ∧
      s.gate = .writing target entries g clone ∧
      q = ⟨g, clone.synced target entries.length, entries, false⟩ := by
  cases Step.of_step hstep with
  | syncSucceeded target entries g clone gate =>
    cases target with
    | fullCommit | deferToLeaderConfirmed => exact .inl (.of_mem hq)
    | deferToReplicationAck =>
      rcases mem_append.mp hq with hq | hq
      · exact .inl (.of_mem (mem_append_left _ hq))
      · rcases mem_append.mp hq with hq | hq
        · exact .inl (.of_mem (mem_append_right _ hq))
        · exact .inr ⟨.deferToReplicationAck, entries, g, clone, rfl, by simp, gate,
            mem_singleton.mp hq⟩
  | replicationCaptured =>
    refine .inl (.of_mem (mem_append_right _ ?_))
    rcases mem_append.mp hq with hq | hq
    · exact hq
    · cases hq
  | replicationPublished => exact .inl (.of_mem (mem_append_right _ hq))
  | replicationFailed ps repl | barrierRaised ps repl | barrierKept ps repl | leaseLost ps repl
  | barrierPersisted ps repl =>
    refine .inl (.of_mem ?_)
    rw [waiting, repl]
    exact hq
  | reconcileRewind | tailCulled | ackBarrierCursor | unwindOpened | unwindClosed =>
    have marked := waiting_removeAbove (s := s) _ _ ▸ hq
    exact .inl (.of_removeAbove marked)
  | cullFinished | demotionFinished | truncateUnwind | truncateRefused =>
    refine .inl (.of_mem (mem_append_left _ ?_))
    rcases mem_append.mp hq with hq | hq
    · exact hq
    · cases hq
  | truncateInPlace i d =>
    rw [rewindActive, waiting_removeAbove] at hq
    obtain ⟨p, hp, logId, tip⟩ := Waited.of_removeAbove hq
    rcases mem_append.mp hp with hp | hp
    · exact .inl ⟨p, mem_append_left _ hp, logId, tip⟩
    · cases hp
  | restart => cases hq
  | _ => exact .inl (.of_mem hq)

/-! ## Steps -/

/-- Only a replication cycle commits something while batches go on waiting, and no active read
cursor is moved past them. -/
theorem commits_step (safe : s.ConfirmSafe a) (hstep : s.step a = some t) :
    t.waiting = [] ∨ a = .replicationPublished ∨ s.newlyCommitted t = [] ∧
      (a.advancesRead = true ∨ a.rewindsLog = true →
        t.segments.active = s.segments.active) := by
  obtain ⟨-, confirm, -⟩ := safe
  have cleared : s.repl.snapshot = [] → s.repl.snapshot ++ [] = [] := by
    intro none
    rw [none]
    rfl
  cases Step.of_step hstep with
  | replicationPublished => exact .inr (.inl rfl)
  | drained n segments ahead =>
    exact .inl (waiting_eq_nil (confirm.resolve_left (Nat.not_le_of_lt ahead)))
  | commitParked =>
    rcases confirm with empty | nothing
    · refine .inr (.inr ⟨newlyCommitted_eq [] ?_, ?_⟩)
      · show s.history.committed ++ s.cache.parkedCommits = _
        rw [empty]
      · rintro (h | h) <;> cases h
    · exact .inl (waiting_eq_nil nothing)
  | reconcileCommit nonempty ahead =>
    rcases confirm rfl with empty | reached | nothing
    · exact absurd empty nonempty
    · exact absurd reached (Nat.not_le_of_lt ahead)
    · exact .inl (waiting_eq_nil nothing)
  | tailCommit i mode read task promotion =>
    subst promotion
    exact .inl (waiting_eq_nil (confirm (commitsParked_tail task)))
  | truncateInPlace i d =>
    refine .inl ?_
    rw [rewindActive, waiting_removeAbove]
    exact congrArg _ (cleared confirm)
  | truncateUnwind | truncateRefused => exact .inl (cleared confirm)
  | unwindClosed d =>
    refine .inl ?_
    rw [rewindActive, waiting_removeAbove]
    exact congrArg _ (waiting_eq_nil confirm)
  | _ =>
    exact .inr (.inr ⟨newlyCommitted_eq_nil rfl,
      fun moves => by first | rfl | (rcases moves with h | h <;> cases h)⟩)

section Step

variable (h : s.ConfirmInv) (safe : s.ConfirmSafe a) (hstep : s.step a = some t)
include h safe hstep

/-- What a step commits lies below what goes on waiting. In a cull window the cycle holds nothing,
otherwise what it holds lies below what is queued. -/
theorem ConfirmInv.committed_below (hp : p ∈ s.newlyCommitted t) {q}
    (hq : q ∈ t.waiting) : p.tip < q.tip := by
  rcases commits_step safe hstep with none | rfl | ⟨none, -⟩
  · rw [none] at hq
    cases hq
  · cases Step.of_step hstep with
    | replicationPublished ps repl =>
      have snapshot : s.repl.snapshot = ps := by
        rw [repl]
        rfl
      rw [newlyCommitted_eq ps rfl] at hp
      by_cases hw : s.InCullWindow
      · rw [← snapshot, h.window hw] at hp
        cases hp
      · have ascending := h.queue.queue
        rw [liveQueue_of_not_window hw, snapshot] at ascending
        exact (pairwise_append.mp ascending).2.2 p hp q hq
  · rw [none] at hp
    cases hp

/-- A batch that waited before stays above the read cursors. -/
theorem ConfirmInv.behind_step {q} (hq : q ∈ t.waiting)
    (behind : s.ReadBehind p) (waits : p ∈ s.waiting) (logId : q.logId = p.logId)
    (tip : q.tip = p.tip) : t.ReadBehind q := by
  obtain ⟨cullSafe, confirm, noCycle⟩ := safe
  have below : q.logId ≤ t.segments.activeLogId := by
    rw [logId]
    rcases activeLogId_step hstep with eq | ⟨-, eq⟩ | ⟨k, d, gate, rfl, eq⟩
    · exact eq ▸ behind.logId
    · exact eq ▸ Nat.le_succ_of_le behind.logId
    · have none : s.NoneWaiting k (d - 1) := cullSafe.2.2 (k, d) (by rw [gate]; rfl)
      rw [eq]
      exact (le_of_not_removedBy (none p (mem_append_left _ waits))).1
  -- a read cursor that an action moves by itself passes nothing that waits
  have moved : a.advancesRead = true ∨ a.rewindsLog = true →
      t.segments.active.readWalSeq < p.tip := by
    intro moves
    rcases commits_step ⟨cullSafe, confirm, noCycle⟩ hstep with none | rfl | ⟨-, same⟩
    · rw [none] at hq
      cases hq
    · rcases moves with moves | moves <;> cases moves
    · rw [same moves]
      exact behind.active
  refine ⟨below, fun g m record lower upper => ?_⟩
  rw [logId] at lower
  rw [tip]
  cases record_step hstep record with
  | old record le => exact behind.record g m record lower (le h.queue.cull.unwindsBack upper)
  | rotated target entries source gate rotates eq =>
    rw [eq]
    exact lt_of_le_of_lt (Nat.zero_le _) behind.active
  | synced target entries clone gate sync eq =>
    obtain ⟨record, active⟩ := h.queue.cull.writing gate
    have old := behind.record g clone record lower (le_of_eq active)
    by_cases full : target = .fullCommit
    · subst full
      have nothing : s.NothingReplicating := by
        rcases sync with rfl | rfl
        · exact confirm (by rw [gate]; rfl)
        · exact confirm rfl (by rw [gate]; rfl)
      rw [waiting_eq_nil nothing] at waits
      cases waits
    · rwa [eq, readWalSeq_synced full]
  | touched active write read =>
    rw [readWalSeq, read]
    exact behind.active
  | committed p' commits _ _ eq =>
    rw [eq, ← tip]
    exact h.committed_below ⟨cullSafe, confirm, noCycle⟩ hstep commits hq
  | advanced active advances => exact active.now ▸ moved (.inl advances)
  | culled active target cull window snapshot eq =>
    cases target with
    | writeToRead read =>
      rw [eq]
      exact behind.active
    | bothToAckBarrier cursor =>
      obtain ⟨i, rfl⟩ := exists_of_barrier cull
      rw [waiting, noCycle _ cull] at waits
      rw [eq]
      exact confirm _ cull p waits
  | truncated active rewinds => exact active.now ▸ moved (.inr rewinds)

/-- The batch of an fsync lies above the read cursors. -/
theorem ConfirmInv.step_behind : ∀ q ∈ t.waiting, t.ReadBehind q := by
  intro q hq
  rcases waiting_step hstep hq with
    ⟨p, hp, logId, tip⟩ | ⟨target, entries, g, clone, rfl, deferred, gate, rfl⟩
  · exact h.behind_step safe hstep hq (h.behind p hp) hp logId tip
  · have fits := h.queue.cull.gate
    rw [gate] at fits
    obtain ⟨nonempty, -, bounded⟩ := fits
    have positive := length_pos_of_ne_nil nonempty
    have bounded : clone.readWalSeq ≤ clone.write := bounded
    have active := (h.queue.cull.active_synced hstep gate).1
    refine ⟨le_of_eq active, fun k m record lower upper => ?_⟩
    obtain rfl : g = k := le_antisymm lower (active ▸ upper)
    rw [record_synced hstep gate record, readWalSeq_synced deferred]
    show _ < (clone.synced target entries.length).write
    rw [synced_write]
    omega

end Step

theorem snapshot_removeAbove_nil {n} (none : s.repl.snapshot = []) :
    (s.removeAbove g n).repl.snapshot = [] := by
  rw [removeAbove, ReplTask.snapshot_mapSnapshot, none]
  rfl

theorem ConfirmInv.step_window (h : s.ConfirmInv) (safe : s.ConfirmSafe a)
    (hstep : s.step a = some t) (hw : t.InCullWindow) : t.repl.snapshot = [] := by
  obtain ⟨⟨-, -, queue⟩, -, noCycle⟩ := safe
  -- no cull begins, and a cycle without a snapshot gets none
  have kept : ∀ {u : Shard}, (u.InCullWindow → s.InCullWindow) →
      (s.repl.snapshot = [] → u.repl.snapshot = []) → u.InCullWindow → u.repl.snapshot = [] :=
    fun window snapshot hw => snapshot (h.window (window hw))
  cases Step.of_step hstep with
  | replicationCaptured trigger idle flag notify write =>
    exact (PendingIntact.of_captured flag notify queue).resolve_left fun out => out hw
  | replicationPublished | replicationFailed | barrierRaised | barrierKept | leaseLost
  | barrierPersisted => rfl
  | reconcileRewind read isRead ahead =>
    have target := cullOf_rewind isRead ahead
    exact snapshot_removeAbove_nil (noCycle _ target)
  | reconcileSuspend mode armed task notRewound =>
    refine kept ?_ id hw
    rintro ⟨other, mem, rewound⟩
    rcases mem_append.mp mem with mem | mem
    · exact ⟨other, mem, rewound⟩
    · obtain rfl := mem_singleton.mp mem
      rw [notRewound] at rewound
      cases rewound
  | tailCommit i | cullFinished i | demotionFinished i =>
    exact kept (inCullWindow_of_dropCull (i := i)) id hw
  | tailKept | reconcileFailed => exact kept inCullWindow_of_dropCull id hw
  | tailCulled i mode read task =>
    have target := cullOf_tail task
    exact snapshot_removeAbove_nil (noCycle _ target)
  | ackBarrierCursor i barrier task =>
    have target := cullOf_barrier task
    exact snapshot_removeAbove_nil (noCycle _ target)
  | truncateInPlace | unwindOpened | unwindClosed =>
    exact snapshot_removeAbove_nil (h.window hw)
  | restart => rfl
  | _ => exact kept id id hw

theorem ConfirmInv.step (h : s.ConfirmInv) (safe : s.ConfirmSafe a)
    (hstep : s.step a = some t) : t.ConfirmInv where
  queue := h.queue.step safe.1 hstep
  window := h.step_window safe hstep
  behind := h.step_behind safe hstep

/-! ## How long a batch waits -/

/-- A batch that waits in `s` waits in `t`, or its entries were accepted, or the generation
moved. -/
def Carried (s t : Shard) : Prop :=
  ∀ p ∈ s.waiting, (∃ q ∈ t.waiting, q.pendingQueue = p.pendingQueue ∧ q.tip = p.tip) ∨
    (∀ e ∈ p.pendingQueue, e ∈ t.history.accepted) ∨
    s.cache.rollbackGeneration < t.cache.rollbackGeneration

theorem Carried.of_subset (h : ∀ p ∈ s.waiting, p ∈ t.waiting) : Carried s t :=
  fun p hp => .inl ⟨p, h p hp, rfl, rfl⟩

theorem Carried.of_eq (snapshot : t.repl.snapshot = s.repl.snapshot)
    (pending : t.cache.pendingReplicationBatches = s.cache.pendingReplicationBatches) :
    Carried s t := by
  refine .of_subset fun p hp => ?_
  rwa [waiting, snapshot, pending]

theorem Carried.of_generation
    (h : s.cache.rollbackGeneration < t.cache.rollbackGeneration) : Carried s t :=
  fun _ _ => .inr (.inr h)

theorem carried_removeAbove (g n : ℕ) : Carried s (s.removeAbove g n) := by
  intro p hp
  refine .inl ⟨p.markRemoved g n, ?_, PendingCommitData.markRemoved_pendingQueue g n p,
    PendingCommitData.markRemoved_tip g n p⟩
  rw [waiting_removeAbove]
  exact mem_map.mpr ⟨p, hp, rfl⟩

theorem carried_finishCull : Carried s (s.finishCull false) := by
  by_cases empty : s.cache.pendingReplicationBatches = []
  · exact .of_eq rfl empty.symm
  · refine .of_generation ?_
    change _ < if s.cache.pendingReplicationBatches.isEmpty = true then _ else _
    rw [if_neg (by simpa using empty)]
    exact Nat.lt_succ_self _

/-- **A batch waits until its entries are accepted or the generation moves.** -/
theorem carried_step (hstep : s.step a = some t) (running : a ≠ .restart) :
    Carried s t := by
  cases Step.of_step hstep with
  | syncSucceeded target entries g clone =>
    cases target with
    | fullCommit | deferToLeaderConfirmed => exact .of_eq rfl rfl
    | deferToReplicationAck =>
      refine .of_subset fun p hp => ?_
      rcases mem_append.mp hp with hp | hp
      · exact mem_append_left _ hp
      · exact mem_append_right _ (mem_append_left _ hp)
  | replicationCaptured trigger idle =>
    refine .of_subset fun p hp => ?_
    rw [waiting, idle] at hp
    exact mem_append_left _ hp
  | replicationPublished ps repl =>
    intro p hp
    rw [waiting, repl] at hp
    rcases mem_append.mp hp with hp | hp
    · exact .inr (.inl fun e he =>
        mem_append_right _ (mem_entriesOf.mpr ⟨p, hp, he⟩))
    · exact .inl ⟨p, hp, rfl, rfl⟩
  | replicationFailed ps repl =>
    refine .of_subset fun p hp => ?_
    rw [waiting, repl] at hp
    exact hp
  | barrierRaised ps repl | barrierKept ps repl | leaseLost ps repl | barrierPersisted ps repl =>
    refine .of_eq ?_ rfl
    rw [repl]
    rfl
  | reconcileRewind read =>
    exact carried_removeAbove (s := { s with
      ackBarrierRewindArmed := false
      segments := s.segments.updateActive (CullTarget.writeToRead read).rewind }) _ _
  | tailCulled i mode read =>
    exact carried_removeAbove (s := { s.dropCull i with
      segments := s.segments.updateActive (CullTarget.writeToRead read).rewind }) _ _
  | ackBarrierCursor i barrier =>
    exact carried_removeAbove (s := { s.dropCull i with
      segments := s.segments.updateActive (CullTarget.bothToAckBarrier barrier).rewind }) _ _
  | cullFinished i => exact carried_finishCull (s := s.dropCull i)
  | demotionFinished | truncateInPlace | truncateUnwind | truncateRefused =>
    exact .of_generation (Nat.lt_succ_self _)
  | unwindOpened g d =>
    exact carried_removeAbove (s := { s with
      segments := (s.segments.load g).unwindActiveToSealed g, gate := .unwound d }) _ _
  | unwindClosed d =>
    exact carried_removeAbove (s := { s with
      segments := s.segments.updateActive (·.truncatedTo (d - 1)), gate := .rewound }) _ _
  | restart => exact absurd rfl running
  | _ => exact .of_eq rfl rfl

end Shard

end Celeriant
