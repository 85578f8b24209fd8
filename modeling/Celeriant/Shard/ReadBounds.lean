import Celeriant.Shard.LogRecords
import Celeriant.Shard.Unsettled

/-!
# Read cursors and waiting batches

A scan for a reader stops at the read cursor of the segment it is in. What it finds is committed as
long as no read cursor, in memory, in a header or in the copy a gate holder is about to write, has
passed the start of a batch that still waits for its commit. Nothing in the code compares the two:
a full commit, a commit out of order, or a cursor that goes to the write cursor moves a read cursor
past whatever waits. Where none of these happens, the metablocks of waiting batches stay above.

## Main results

* `LoggedShard.BoundInv.step`: the invariant is kept
* `LoggedShard.BoundInv.settled_of_read`: what lies at or below a read cursor is settled
-/

namespace Celeriant

open PendingCommitData LogSegmentFileMetadata LogSegmentsCache List

/-- The batch lies above position `n` of its segment. -/
def PendingCommitData.StartsAbove (n : ℕ) (p : PendingCommitData) : Prop :=
  n + p.pendingQueue.length ≤ p.tip
  deriving Decidable

theorem PendingCommitData.StartsAbove.mono {m n} {p : PendingCommitData} (h : p.StartsAbove n)
    (le : m ≤ n) : p.StartsAbove m :=
  le_trans (Nat.add_le_add_right le _) h

theorem PendingCommitData.StartsAbove.of_core {n} {p q : PendingCommitData}
    (h : p.StartsAbove n) (core : p.core = q.core) : q.StartsAbove n := by
  simp only [PendingCommitData.core, Prod.mk.injEq] at core
  obtain ⟨-, tip, queue⟩ := core
  unfold StartsAbove at h ⊢
  rwa [← tip, ← queue]

theorem PendingCommitData.logId_of_core {p q : PendingCommitData} (core : p.core = q.core) :
    p.logId = q.logId := congrArg Prod.fst core

/-- The action may move the active read cursor by itself, without committing a batch there. -/
def ShardAction.movesRead (a : ShardAction) : Bool :=
  a.advancesRead || a.rewindsLog ||
    match a with
    | .ackBarrierCursor _ => true
    | _ => false

namespace Shard

/-! ## The condition -/

section Condition

variable (s : Shard) (a : ShardAction)

/-- What the step commits ends before every batch of the segment that goes on waiting. -/
def commitsInOrder : Prop :=
  ∀ t ∈ s.step a, ∀ p ∈ s.newlyCommitted t, ∀ q ∈ t.deferred, q.logId = p.logId →
    q.StartsAbove p.tip
  deriving Decidable

/-- Where the step puts the active read cursor, no waiting batch starts below it. -/
def stopsBelowWaiting : Prop :=
  ∀ t ∈ s.step a, ∀ q ∈ t.deferred, q.logId = t.segments.activeLogId →
    q.StartsAbove t.segments.active.readWalSeq
  deriving Decidable

/-- No batch of the segment waits below what the gate holder is about to commit in full. -/
def fullCommitAlone : Prop :=
  match s.gate with
  | .writing .fullCommit entries g clone =>
    ∀ p ∈ s.deferred, p.logId = g → p.StartsAbove (clone.write + entries.length)
  | _ => True

/-- A batch whose commit is deferred is written from a copy whose read cursor is not past its write
cursor. -/
def copyReadBounded : Prop :=
  match s.gate with
  | .writing target _ _ clone => target ≠ .fullCommit → clone.ReadBounded
  | _ => True

/-- What is asked of a sync; a failed one may have written the header. -/
def syncReadSafe : ShardAction → Prop
  | .syncSucceeded => s.fullCommitAlone ∧ s.copyReadBounded
  | .syncFailed _ => s.fullCommitAlone
  | _ => True

instance : Decidable s.fullCommitAlone := by
  unfold fullCommitAlone
  split <;> infer_instance

instance : Decidable s.copyReadBounded := by
  unfold copyReadBounded
  split <;> infer_instance

instance : Decidable (s.syncReadSafe a) := by
  induction a using ShardAction.casesOn <;> dsimp only [syncReadSafe] <;> infer_instance

/-- No read cursor passes a batch that waits. -/
def readSafe : Prop :=
  s.commitsInOrder a ∧ (a.movesRead = true → s.stopsBelowWaiting a) ∧ s.syncReadSafe a
  deriving Decidable

end Condition

/-! ## Read cursors stay below waiting batches -/

/-- The batch lies above every read cursor of its segment. -/
def Bounds (s : Shard) (q : PendingCommitData) : Prop :=
  ∀ m, s.Record q.logId m → q.StartsAbove m.readWalSeq

variable {s t : Shard} {a : ShardAction} {p q : PendingCommitData}

theorem Bounds.of_core (h : s.Bounds p) (core : p.core = q.core) : s.Bounds q :=
  fun m record => (h m (logId_of_core core ▸ record)).of_core core

theorem Bounds.step (h : s.Bounds q) (before : q ∈ s.deferred) {q' : PendingCommitData}
    (core : q.core = q'.core) (after : q' ∈ t.deferred) (safe : s.readSafe a)
    (hstep : s.step a = some t) : t.Bounds q := by
  obtain ⟨ordered, stops, sync⟩ := safe
  intro m record
  have moved : a.movesRead = true → ActiveRecord s t q.logId m → q.StartsAbove m.readWalSeq := by
    intro moves active
    have here : q'.logId = t.segments.activeLogId := by
      rw [← logId_of_core core, active.here, active.same]
    rw [active.now]
    exact (stops moves t hstep q' after here).of_core core.symm
  cases record_step hstep record with
  | old record => exact h m record
  | rotated target entries source gate rotates eq =>
    -- the new file starts without a read cursor
    rw [eq]
    exact (h _ .memory).mono (Nat.zero_le _)
  | synced target entries clone gate action eq =>
    have alone : s.fullCommitAlone := by
      rcases action with rfl | rfl
      · exact sync.1
      · exact sync
    rw [eq]
    cases target with
    | fullCommit =>
      simp only [fullCommitAlone, gate] at alone
      exact alone q before rfl
    | deferToReplicationAck | deferToLeaderConfirmed =>
      exact h clone (.clone clone (by rw [gate]; rfl))
  | touched active write read =>
    rw [readWalSeq, read, LogSegmentsCache.active, ← active.here]
    exact h _ .memory
  | committed p commits logId same eq =>
    rw [eq]
    exact (ordered t hstep p commits q' after
      ((logId_of_core core).symm.trans logId.symm)).of_core core.symm
  | advanced active advances => exact moved (by simp [ShardAction.movesRead, advances]) active
  | culled active target cull window snapshot eq =>
    cases target with
    | writeToRead cursor =>
      rw [eq]
      show q.StartsAbove s.segments.active.readWalSeq
      rw [LogSegmentsCache.active, ← active.here]
      exact h _ .memory
    | bothToAckBarrier cursor =>
      obtain ⟨i, rfl⟩ := exists_of_barrier cull
      exact moved rfl active
  | truncated active rewinds => exact moved (by simp [ShardAction.movesRead, rewinds]) active

/-! ## Settled entries -/

/-- The entry is known and is neither queued nor being written nor waiting for a commit. -/
def Settled (next : ℕ) (s : Shard) (e : ℕ) : Prop := e < next ∧ e ∉ s.unsettled

/-- Every unsettled entry is known and in one place. -/
structure Distinct (next : ℕ) (s : Shard) : Prop where
  once : ∀ e, s.unsettled.count e ≤ 1
  known : ∀ e : ℕ, e ∈ s.unsettled → e < next

section Distinct

variable {next n e : ℕ}

/-- What is written is deferred or not unsettled any more. -/
theorem count_step (hstep : s.step a = some t) (e : ℕ) :
    t.unsettled.count e ≤ s.unsettled.count e + (enqueued a).count e := by
  have moved := count_unsettled_step hstep e
  have batch := (entriesOf_newBatch_sublist s a).count_le e
  omega

theorem Distinct.step (h : s.Distinct next) (fresh : enqueued a = List.range' next n)
    (hstep : s.step a = some t) : t.Distinct (next + n) := by
  obtain ⟨once, known⟩ := once_of_fresh h.once h.known fun e => fresh ▸ count_step hstep e
  exact ⟨once, known⟩

/-- A settled entry stays settled. -/
theorem Settled.step (h : Settled next s e) (fresh : enqueued a = List.range' next n)
    (hstep : s.step a = some t) : Settled (next + n) t e := by
  refine ⟨lt_of_lt_of_le h.1 (Nat.le_add_right _ _), ?_⟩
  have moved := count_step hstep e
  rw [count_enqueued_of_lt fresh h.1, count_eq_zero.mpr h.2] at moved
  exact count_eq_zero.mp (Nat.le_zero.mp moved)

theorem mem_unsettled_of_batch (he : e ∈ s.gate.batch) : e ∈ s.unsettled :=
  mem_append_left _ (mem_append_right _ he)

theorem written_sublist (s : Shard) (a : ShardAction) : (s.written a).Sublist s.gate.batch := by
  cases a with
  | syncSucceeded | syncFailed => exact .refl _
  | _ => exact nil_sublist _

/-- A step settles what leaves the unsettled entries. -/
theorem Distinct.settled (h : s.Distinct next) (fresh : enqueued a = List.range' next n)
    (hstep : s.step a = some t) (before : e ∈ s.unsettled)
    (leaves : (entriesOf (s.newBatch a)).count e <
      (entriesOf (s.newlyCommitted t)).count e + (s.written a).count e) :
    Settled (next + n) t e := by
  have known := h.known e before
  have moved := count_unsettled_step hstep e
  have once := h.once e
  rw [count_enqueued_of_lt fresh known] at moved
  exact ⟨lt_of_lt_of_le known (Nat.le_add_right _ _), count_eq_zero.mp (by omega)⟩

/-- Committed entries are settled. -/
theorem Distinct.settled_of_committed (h : s.Distinct next)
    (fresh : enqueued a = List.range' next n) (hstep : s.step a = some t)
    (he : e ∈ entriesOf (s.newlyCommitted t)) : Settled (next + n) t e := by
  have batch := (entriesOf_newBatch_sublist s a).count_le e
  have committed : 0 < (entriesOf (s.newlyCommitted t)).count e := count_pos_iff.mpr he
  refine h.settled fresh hstep ?_ (by omega)
  have deferred := count_entriesOf_of_subperm (deferred_step hstep).cores e
  rw [entriesOf_append, entriesOf_append, count_append, count_append] at deferred
  by_cases waits : e ∈ entriesOf s.deferred
  · exact mem_append_right _ waits
  · rw [count_eq_zero.mpr waits] at deferred
    have new : e ∈ entriesOf (s.newBatch a) := count_pos_iff.mp (by omega)
    exact mem_unsettled_of_batch
      ((written_sublist s a).subset ((entriesOf_newBatch_sublist s a).subset new))

/-- A batch that is written without being deferred is settled. -/
theorem Distinct.settled_of_written (h : s.Distinct next)
    (fresh : enqueued a = List.range' next n) (hstep : s.step a = some t)
    (none : s.newBatch a = []) (he : e ∈ s.written a) : Settled (next + n) t e := by
  have present : 0 < (s.written a).count e := count_pos_iff.mpr he
  refine h.settled fresh hstep (mem_unsettled_of_batch ((written_sublist s a).subset he)) ?_
  rw [none, entriesOf_nil, count_nil]
  omega

theorem unsettled_truncateGate {i} (hstep : s.step (.truncateGate i) = some t) :
    t.unsettled = entriesOf s.repl.snapshot := by
  cases Step.of_step hstep with
  | truncateInPlace _ d =>
    show entriesOf ((s.repl.mapSnapshot _).snapshot ++ [] ++ []) = _
    rw [append_nil, append_nil, ReplTask.snapshot_mapSnapshot, entriesOf_eq_core,
      map_core_markRemoved, ← entriesOf_eq_core]
  | truncateUnwind _ g d =>
    show [] ++ [] ++ entriesOf (s.repl.snapshot ++ [] ++ []) = _
    simp
  | truncateRefused _ g d idle =>
    show [] ++ s.gate.batch ++ entriesOf (s.repl.snapshot ++ [] ++ []) = _
    rw [idle]
    simp [GateTask.batch, GateTask.fsync]

/-- A truncation settles every parked entry, by committing it or by dropping it. -/
theorem Distinct.settled_of_truncated (h : s.Distinct next) {i}
    (hstep : s.step (.truncateGate i) = some t) (he : e ∈ entriesOf s.cache.parkedCommits) :
    Settled next t e := by
  have parked : 0 < (entriesOf s.cache.parkedCommits).count e := count_pos_iff.mpr he
  have once := h.once e
  simp only [count_unsettled, deferred, waiting, entriesOf_append, count_append] at once
  have waits : e ∈ s.unsettled :=
    mem_append_right _ (by simp only [deferred, entriesOf_append]; exact mem_append_right _ he)
  refine ⟨h.known e waits, ?_⟩
  rw [unsettled_truncateGate hstep]
  exact count_eq_zero.mp (by omega)

end Distinct

end Shard

/-! ## Where the metablocks of waiting batches lie -/

namespace LoggedShard

open Shard

/-- The metablocks of a waiting batch lie in its segment, above every read cursor. -/
structure BoundInv (next : ℕ) (w : LoggedShard) : Prop where
  distinct : w.shard.Distinct next
  known : ∀ r ∈ w.log, r.entry < next
  queue : ∀ r ∈ w.log, r.entry ∉ w.shard.cache.pendingAppendQueue ∧ r.entry ∉ w.shard.gate.batch
  placed : ∀ p ∈ w.shard.deferred, ∀ r ∈ w.log, r.entry ∈ p.pendingQueue →
    r.logId = p.logId ∧ p.tip < r.walSeq + p.pendingQueue.length
  bounds : ∀ p ∈ w.shard.deferred, w.shard.Bounds p

theorem boundInv_initial : BoundInv 0 initial where
  distinct := ⟨fun _ => Nat.zero_le 1, nofun⟩
  known := nofun
  queue := nofun
  placed := nofun
  bounds := nofun

variable {next n : ℕ} {w w' : LoggedShard} {own : EntryId → Bool} {a : LoggedAction}

/-- What lies at or below the read cursor of its segment is settled. -/
theorem BoundInv.settled_of_read (h : w.BoundInv next) {r} (hr : r ∈ w.log)
    (below : r.walSeq ≤ (w.shard.segments.metadata r.logId).readWalSeq) :
    Settled next w.shard r.entry := by
  refine ⟨h.known r hr, fun mem => ?_⟩
  simp only [unsettled, mem_append] at mem
  rcases mem with (queued | batch) | waits
  · exact (h.queue r hr).1 queued
  · exact (h.queue r hr).2 batch
  · obtain ⟨p, hp, he⟩ := mem_entriesOf.mp waits
    obtain ⟨logId, above⟩ := h.placed p hp r hr he
    have bound := h.bounds p hp _ .memory
    rw [← logId, StartsAbove] at bound
    omega

/-- A waiting batch waited before or is the one a sync has deferred. -/
theorem exists_core_of_deferred {s t : Shard} {a} (hstep : s.step a = some t)
    {q} (hq : q ∈ t.deferred) :
    ∃ p, (p ∈ s.deferred ∨ p ∈ s.newBatch a) ∧ p.core = q.core := by
  have mem : q.core ∈ (t.deferred ++ s.newlyCommitted t).map core :=
    mem_map_of_mem (mem_append_left _ hq)
  obtain ⟨p, hp, eq⟩ := mem_map.mp ((deferred_step hstep).cores.subset mem)
  exact ⟨p, mem_append.mp hp, eq⟩

/-- The batch that a sync defers, and where its metablocks go. -/
theorem newBatch_eq {s : Shard} {a p} (hp : p ∈ s.newBatch a) :
    ∃ target entries g clone, a = .syncSucceeded ∧ target ≠ .fullCommit ∧
      s.gate = .writing target entries g clone ∧
      p = ⟨g, clone.synced target entries.length, entries, false⟩ := by
  cases a with
  | syncSucceeded =>
    simp only [newBatch] at hp
    split at hp
    · cases hp
    next target entries g clone notFull gate =>
      refine ⟨target, entries, g, clone, rfl, fun full => ?_, gate, mem_singleton.mp hp⟩
      subst full
      exact notFull rfl
    · cases hp
  | _ => cases hp

theorem mem_batch_of_batchRecords {r} (hr : r ∈ w.batchRecords) :
    r.entry ∈ w.shard.gate.batch := by
  unfold batchRecords at hr
  split at hr
  next target entries g clone gate =>
    rw [gate]
    exact (mem_stamped hr).2.2.2
  next => cases hr

/-- A new metablock is of the batch whose write ends with the step. -/
theorem mem_written_of_new {r} (hr : r ∈ w.batchRecords)
    (sync : a.action = .syncSucceeded ∨ ∃ landed, a.action = .syncFailed landed) :
    r.entry ∈ w.shard.written a.action := by
  have batch := mem_batch_of_batchRecords hr
  rcases sync with eq | ⟨landed, eq⟩
  · rw [eq]
    exact batch
  · rw [eq]
    exact batch

section Step

variable (h : w.BoundInv next) (hstep : w.step own a = some w')
include h hstep

theorem BoundInv.known_step : ∀ r ∈ w'.log, r.entry < next := by
  intro r hr
  rcases mem_log_of_step hstep hr with old | ⟨new, -⟩
  · exact h.known r old
  · exact h.distinct.known _ (mem_unsettled_of_batch (mem_batch_of_batchRecords new))

theorem BoundInv.queue_step (fresh : enqueued a.action = List.range' next n) : ∀ r ∈ w'.log,
    r.entry ∉ w'.shard.cache.pendingAppendQueue ∧ r.entry ∉ w'.shard.gate.batch := by
  intro r hr
  have known := h.known_step hstep r hr
  have moved := Shard.queue_step (step_shard hstep).1 r.entry
  rw [count_enqueued_of_lt fresh known] at moved
  have none : w'.shard.cache.pendingAppendQueue.count r.entry = 0 ∧
      w'.shard.gate.batch.count r.entry = 0 := by
    rcases mem_log_of_step hstep hr with old | ⟨new, sync⟩
    · have append := count_eq_zero.mpr (h.queue r old).1
      have batch := count_eq_zero.mpr (h.queue r old).2
      omega
    · -- the batch has left the gate, and its entries are nowhere else
      have written : 0 < (w.shard.written a.action).count r.entry :=
        count_pos_iff.mpr (mem_written_of_new new sync)
      have once := h.distinct.once r.entry
      rw [count_unsettled] at once
      omega
  exact ⟨count_eq_zero.mp none.1, count_eq_zero.mp none.2⟩

theorem BoundInv.placed_step : ∀ q ∈ w'.shard.deferred, ∀ r ∈ w'.log, r.entry ∈ q.pendingQueue →
    r.logId = q.logId ∧ q.tip < r.walSeq + q.pendingQueue.length := by
  intro q hq r hr he
  obtain ⟨shardStep, -⟩ := step_shard hstep
  obtain ⟨p, from_p, core⟩ := exists_core_of_deferred shardStep hq
  obtain ⟨logId, tip, queue⟩ : p.logId = q.logId ∧ p.tip = q.tip ∧
      p.pendingQueue = q.pendingQueue := by
    simpa only [PendingCommitData.core, Prod.mk.injEq] using core
  rw [← queue] at he
  rw [← logId, ← tip, ← queue]
  rcases mem_log_of_step hstep hr with old | ⟨new, sync⟩
  · rcases from_p with before | deferred
    · exact h.placed p before r old he
    · obtain ⟨target, entries, g, clone, -, -, gate, rfl⟩ := newBatch_eq deferred
      refine absurd ?_ (h.queue r old).2
      rw [gate]
      exact he
  · rcases from_p with before | deferred
    · -- the entry would wait and be written at the same time
      have once := h.distinct.once r.entry
      have waits : 0 < (entriesOf w.shard.deferred).count r.entry :=
        count_pos_iff.mpr (mem_entriesOf.mpr ⟨p, before, he⟩)
      have batch : 0 < w.shard.gate.batch.count r.entry :=
        count_pos_iff.mpr (mem_batch_of_batchRecords new)
      rw [count_unsettled] at once
      omega
    · obtain ⟨target, entries, g, clone, -, -, gate, rfl⟩ := newBatch_eq deferred
      rw [batchRecords_writing gate] at new
      obtain ⟨segment, above, -, -⟩ := mem_stamped new
      refine ⟨segment, ?_⟩
      show (clone.synced target entries.length).write < r.walSeq + entries.length
      rw [synced_write]
      omega

theorem BoundInv.bounds_step (safe : w.shard.readSafe a.action) :
    ∀ q ∈ w'.shard.deferred, w'.shard.Bounds q := by
  intro q hq
  obtain ⟨shardStep, -⟩ := step_shard hstep
  obtain ⟨p, before | deferred, core⟩ := exists_core_of_deferred shardStep hq
  · exact ((h.bounds p before).step before core hq safe shardStep).of_core core
  · obtain ⟨target, entries, g, clone, action, notFull, gate, rfl⟩ := newBatch_eq deferred
    have bounded : clone.ReadBounded := by
      have copy := safe.2.2
      rw [action, syncReadSafe] at copy
      have copy := copy.2
      rw [copyReadBounded, gate] at copy
      exact copy notFull
    have above : PendingCommitData.StartsAbove (clone.synced target entries.length).readWalSeq
        ⟨g, clone.synced target entries.length, entries, false⟩ := by
      show (clone.synced target entries.length).readWalSeq + entries.length ≤
        (clone.synced target entries.length).write
      rw [synced_write, readWalSeq, synced_read, if_neg notFull]
      exact Nat.add_le_add_right bounded _
    rw [action] at shardStep
    refine Bounds.of_core (fun m record => ?_) core
    rw [record_synced shardStep gate record]
    exact above

/-- The invariant is kept by every step that lets no read cursor pass a waiting batch. -/
theorem BoundInv.step (fresh : enqueued a.action = List.range' next n)
    (safe : w.shard.readSafe a.action) : w'.BoundInv (next + n) where
  distinct := h.distinct.step fresh (step_shard hstep).1
  known := fun r hr => lt_of_lt_of_le (h.known_step hstep r hr) (Nat.le_add_right _ _)
  queue := h.queue_step hstep fresh
  placed := h.placed_step hstep
  bounds := h.bounds_step hstep safe

end Step

end LoggedShard

end Celeriant
