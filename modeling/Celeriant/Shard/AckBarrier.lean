import Celeriant.Shard.CullSafety

/-!
# The ack barrier

`commit_replication` raises `last_self_acked_wal_seq` of the active segment before it returns Ok,
and `truncate_wal` refuses to remove an entry at or below that barrier. The barrier is taken from
the active segment's read cursor, is kept per segment, is part of the record that an fsync copies
and stores back, and is checked before `truncate_wal` waits for the gate. Each of these can fail:
after a rotation the new segment has no read cursor yet, and a cycle that ends then returns without
any barrier (`acked_after_rotation`).

`BarrierTimed` keeps the tasks that touch the active record out of the await between the commit of a
cycle and its bump. Then the bump finds the read cursor where the commit left it, a copy under the
gate has the barrier of the record it was taken from, and the check of `truncate_wal` still holds
once it has the gate.

## Main results

* `ack_barrier_holds`: in every state of every run whose steps meet the condition
* `acked_after_rotation`: a rotation before the bump leaves an accepted entry above the barrier
-/

namespace Celeriant

open Transition LogSegmentsCache

/-- The batches of a cycle that has raised the barrier. -/
def ReplTask.persistingBatches : ReplTask → List PendingCommitData
  | persisting ps => ps
  | _ => []

@[simp] theorem ReplTask.persistingBatches_mapSnapshot (f : PendingCommitData → PendingCommitData)
    (r : ReplTask) : (r.mapSnapshot f).persistingBatches = r.persistingBatches := by
  cases r <;> rfl

/-- The cycle is between its commit and its bump. -/
def ReplTask.isPublished : ReplTask → Bool
  | published _ => true
  | _ => false

namespace GateTask

/-- The barrier in the copy that the gate holder is going to store. -/
def copiedBarrier : GateTask → Option ℕ
  | rotating _ _ source => some source.lastSelfAckedWalSeq
  | writing _ _ _ clone => some clone.lastSelfAckedWalSeq
  | _ => none

/-- The first entry that the truncation under the gate is going to remove. -/
def divergentWalSeq : GateTask → Option ℕ
  | unwinding _ d | unwound d => some d
  | _ => none

/-- The gate holder is going to store, replace or rewind the active record. -/
def touchesActive : GateTask → Bool
  | idle | headerOnly _ _ => false
  | _ => true

theorem copiedBarrier_eq_none {task : GateTask} (quiet : task.touchesActive = false) :
    task.copiedBarrier = none := by
  cases task <;> first | rfl | cases quiet

theorem divergentWalSeq_eq_none {task : GateTask} (quiet : task.touchesActive = false) :
    task.divergentWalSeq = none := by
  cases task <;> first | rfl | cases quiet

end GateTask

namespace LogSegmentsCache

variable {c : LogSegmentsCache}

/-- The active segment's barrier. -/
def barrier (c : LogSegmentsCache) : ℕ := c.active.lastSelfAckedWalSeq

theorem barrier_updateActive {f} (h : ∀ m, (f m).lastSelfAckedWalSeq = m.lastSelfAckedWalSeq) :
    (c.updateActive f).barrier = c.barrier := by
  unfold barrier
  rw [updateActive_active, h]

theorem barrier_commitPcds (ps : List PendingCommitData) :
    (c.commitPcds ps).barrier = c.barrier := by
  unfold barrier active
  rw [(commitPcds_sameTips ps).activeLogId]
  rcases commitPcds_metadata (c := c) ps c.activeLogId with eq | ⟨p, -, -, eq⟩
  · rw [eq]
  · rw [eq]

/-- The active segment is always cached, so loading never replaces its record. -/
theorem active_load (g : ℕ) : (c.load g).active = c.active := by
  unfold active
  by_cases cached : c.IsCached g
  · rw [load, if_pos cached]
  · have other : c.activeLogId ≠ g := fun eq => cached (.inl eq.symm)
    rw [load, if_neg cached]
    simp [setFile, metadata, other]

theorem active_evictFromLru (g : ℕ) : (c.evictFromLru g).active = c.active := by
  unfold active
  rw [evictFromLru_metadata, evictFromLru_activeLogId]

theorem active_setHeader (g : ℕ) (m : LogSegmentFileMetadata) :
    (c.setHeader g m).active = c.active := by
  unfold active
  rw [setHeader_metadata, setHeader_activeLogId]

/-- After a commit the active segment's read cursor is at the last batch, if that lies there. -/
theorem active_commitPcds_concat (ps : List PendingCommitData) {p : PendingCommitData}
    (active : p.logId = c.activeLogId) : (c.commitPcds (ps ++ [p])).active.readWalSeq = p.tip := by
  have split : c.commitPcds (ps ++ [p]) = (c.commitPcds ps).commitPcd p := List.foldl_append ..
  have same : (c.commitPcds ps).activeLogId = p.logId :=
    (commitPcds_sameTips ps).activeLogId.trans active.symm
  have cached : (c.commitPcds ps).IsCached p.logId := .inl same.symm
  rw [split, LogSegmentsCache.active, (commitPcd_sameTips p).activeLogId, same]
  simp only [commitPcd, if_pos cached, setMetadata_metadata_self]
  rfl

end LogSegmentsCache

namespace Shard

/-! ## The condition -/

section Condition

variable (s : Shard)

/-- The first entry that a step of `truncate_wal` under the gate drops or removes. -/
def divergence : ShardAction → Option ℕ
  | .truncateGate i => s.truncations[i]?.map (·.2)
  | .unwindOpened | .unwindClosed => s.gate.divergentWalSeq
  | _ => none

/-- The step starts no fsync and no truncation, begins no cull and commits no parked batch. -/
def LeavesRecord (a : ShardAction) : Prop :=
  (match a with
    | .fsyncCapture _ _ | .truncateWal _ _ => False
    | _ => True) ∧
  s.cullOf a = none ∧ (s.commitsParked a = true → s.cache.parkedCommits = [])

/-- What an action may meet. -/
def barrierTimed : ShardAction → Prop
  -- no fsync or truncation is under way or waits when a cycle is committed, and the segment has not
  -- rotated since its last batch was fsynced
  | .replicationPublished => s.gate.touchesActive = false ∧ s.truncations = [] ∧
      ∀ p ∈ s.repl.snapshot.getLast?, p.logId = s.segments.activeLogId
  -- no cycle has raised the barrier since the segment was sealed
  | .unwindOpened => ∀ target ∈ s.gate.unwindTarget,
      ((s.segments.load target.1).metadata target.1).lastSelfAckedWalSeq = s.segments.barrier
  -- the shutdown was clean: the barrier has reached the header
  | .restart => s.segments.barrier ≤ (s.segments.header s.segments.activeLogId).lastSelfAckedWalSeq
  | _ => True

/-- **The condition on a step.** From the commit of a cycle to its bump nothing touches the active
record; and no cycle holds what a cull removes. -/
def BarrierTimed (s : Shard) (a : ShardAction) : Prop :=
  s.CullSafe a ∧ s.barrierTimed a ∧ (s.repl.isPublished = true → s.LeavesRecord a)

instance (a : ShardAction) : Decidable (s.LeavesRecord a) := by
  induction a using ShardAction.casesOn <;> dsimp only [LeavesRecord] <;> infer_instance

instance : DecidableRel BarrierTimed := fun s a => by
  induction a using ShardAction.casesOn <;> dsimp only [BarrierTimed, barrierTimed] <;>
    infer_instance

end Condition

/-! ## The invariant -/

/-- The barrier covers what is acknowledged and what is about to be; the copy under the gate has it,
and the truncations that passed the check are above it. -/
structure BarrierInv (s : Shard) : Prop where
  queue : s.QueueInv
  acked : s.history.acked ≤ s.segments.barrier
  persisting : maxTip s.repl.persistingBatches ≤ s.segments.barrier
  copies : ∀ b ∈ s.gate.copiedBarrier, b = s.segments.barrier
  waiting : ∀ x ∈ s.truncations, s.segments.barrier < x.2
  divergent : ∀ d ∈ s.gate.divergentWalSeq, s.segments.barrier < d
  /-- Before the bump the active read cursor is where the commit left it, or further. -/
  window : ∀ ps, s.repl = .published ps → s.gate.touchesActive = false ∧ s.truncations = [] ∧
    maxTip ps ≤ s.segments.active.readWalSeq

theorem barrierInv_initial : BarrierInv initial where
  queue := queueInv_initial
  acked := le_rfl
  persisting := le_rfl
  copies := nofun
  waiting := nofun
  divergent := nofun
  window := nofun

variable {s t : Shard} {a : ShardAction}

theorem barrier_advances {segments} (moved : s.Advances segments) :
    segments.barrier = s.segments.barrier := by
  rcases moved with rfl | ⟨-, rfl⟩
  · rfl
  · exact barrier_updateActive fun _ => rfl

theorem barrier_beginCull (target : CullTarget) :
    (s.beginCull target).segments.barrier = s.segments.barrier :=
  barrier_updateActive target.rewind_lastSelfAcked

theorem barrier_selfAcked (n : ℕ) : (s.segments.updateActive (·.selfAckedTo n)).barrier = n := by
  unfold barrier
  rw [updateActive_active]
  rfl

/-- The bump covers the read cursor, whether it raises the barrier or not. -/
theorem read_le_barrier_of_selfAck (hstep : s.step .selfAck = some t) :
    s.segments.active.readWalSeq ≤ t.segments.barrier := by
  cases Step.of_step hstep with
  | barrierRaised => exact le_of_eq (barrier_selfAcked _).symm
  | barrierKept _ _ kept => exact kept

/-! ## What a step does to the barrier -/

/-- A stored copy has the barrier of the record it replaces, and so has a segment that is unwound
to. The barrier rises while no copy is held and no truncation waits. -/
theorem BarrierInv.barrier_step (h : s.BarrierInv) (timed : s.barrierTimed a)
    (hstep : s.step a = some t) : t.segments.barrier = s.segments.barrier ∨
      s.segments.barrier ≤ t.segments.barrier ∧ t.gate.touchesActive = false ∧
        t.truncations = [] := by
  cases Step.of_step hstep with
  | rotated target entries source gate =>
    left
    have copied := h.copies _ (by rw [gate]; rfl)
    change ((s.segments.rotateToNextLog source).metadata
      (s.segments.activeLogId + 1)).lastSelfAckedWalSeq = _
    rw [rotateToNextLog_metadata, if_pos rfl]
    exact copied
  | syncSucceeded target entries g clone gate =>
    left
    have copied := h.copies _ (by rw [gate]; rfl)
    change (((s.segments.setHeader g (clone.synced target entries.length)).setMetadata g
      (clone.synced target entries.length)).metadata s.segments.activeLogId).lastSelfAckedWalSeq = _
    rw [setMetadata_metadata]
    split
    next => rw [LogSegmentFileMetadata.synced_lastSelfAcked]; exact copied
    next => rw [setHeader_metadata]; rfl
  | syncFailed landed | headerSyncDone landed =>
    left
    cases landed with
    | true => exact congrArg LogSegmentFileMetadata.lastSelfAckedWalSeq (active_setHeader _ _)
    | false => rfl
  | replicationPublished ps => exact .inl (barrier_commitPcds ps)
  | barrierRaised ps repl raised =>
    obtain ⟨quiet, none, -⟩ := h.window ps repl
    refine .inr ⟨?_, quiet, none⟩
    rw [barrier_selfAcked]
    exact le_of_lt raised
  | updatePromotionFloor | clearPromotionFloor => exact .inl (barrier_updateActive fun _ => rfl)
  | drained _ _ _ moved | reconcileCommit _ _ _ moved =>
    exact .inl ((barrier_advances moved).trans (barrier_commitPcds _))
  | tailCommit _ _ _ _ _ _ moved =>
    exact .inl ((barrier_advances moved).trans (barrier_commitPcds _))
  | commitParked | truncateUnwind | truncateRefused => exact .inl (barrier_commitPcds _)
  | reconcileRewind | tailCulled | ackBarrierCursor => exact .inl (barrier_beginCull _)
  | truncateInPlace i d =>
    refine .inl (.trans ?_ (barrier_commitPcds (s.cache.parkedUpTo (d - 1))))
    exact barrier_updateActive (f := (·.truncatedTo (d - 1))) fun _ => rfl
  | unwindOpened g d gate =>
    left
    have sealed := timed (g, d) (by rw [gate]; rfl)
    change (((s.segments.load g).unwindActiveToSealed g).metadata g).lastSelfAckedWalSeq = _
    rw [unwindActiveToSealed_metadata]
    exact sealed
  | unwindClosed => exact .inl (barrier_updateActive fun _ => rfl)
  | evictFromLru g =>
    exact .inl (congrArg LogSegmentFileMetadata.lastSelfAckedWalSeq (active_evictFromLru g))
  | load g => exact .inl (congrArg LogSegmentFileMetadata.lastSelfAckedWalSeq (active_load g))
  | restart => exact .inr ⟨timed, rfl, rfl⟩
  | _ => exact .inl rfl

/-- A copy is taken of the active record. -/
theorem copiedBarrier_step (hstep : s.step a = some t) :
    ∀ b ∈ t.gate.copiedBarrier, b ∈ s.gate.copiedBarrier ∨ b = s.segments.barrier := by
  intro b held
  cases Step.of_step hstep with
  | fsyncWrites | fsyncRotates | sidecarWritten => exact .inr (Option.some.inj held).symm
  | rotated target entries source gate =>
    left
    rw [gate]
    exact held
  | fsyncSeals | sidecarFailed | rotateFailed | syncSucceeded | syncFailed | headerSync
  | headerSyncDone | truncateInPlace | truncateUnwind | unwindOpened | unwindClosed
  | truncateHeader | truncateFailed | restart => cases held
  | _ => exact .inl held

/-- A truncation waits only after its check. -/
theorem truncations_step (hstep : s.step a = some t) :
    ∀ x ∈ t.truncations, x ∈ s.truncations ∨ s.segments.barrier < x.2 := by
  intro x waits
  cases Step.of_step hstep with
  | truncateWal g d above =>
    rcases List.mem_append.mp waits with old | new
    · exact .inl old
    · rw [List.mem_singleton.mp new]
      exact .inr above
  | truncateInPlace | truncateUnwind | truncateRefused | truncateTimeout =>
    exact .inl (List.mem_of_mem_eraseIdx waits)
  | restart => cases waits
  | _ => exact .inl waits

/-- The truncation under the gate is one that waited. -/
theorem divergentWalSeq_step (hstep : s.step a = some t) :
    ∀ d ∈ t.gate.divergentWalSeq,
      d ∈ s.gate.divergentWalSeq ∨ ∃ x ∈ s.truncations, x.2 = d := by
  intro d held
  cases Step.of_step hstep with
  | truncateUnwind i g e idle task =>
    exact .inr ⟨_, List.mem_of_getElem? task, Option.some.inj held⟩
  | unwindOpened g e gate =>
    left
    rw [gate]
    exact held
  | fsyncWrites | fsyncSeals | fsyncRotates | sidecarWritten | sidecarFailed | rotated
  | rotateFailed | syncSucceeded | syncFailed | headerSync | headerSyncDone | truncateInPlace
  | unwindClosed | truncateHeader | truncateFailed | restart => cases held
  | _ => exact .inl held

/-! ## The await before the bump -/

/-- Only the commit of a cycle takes it there. -/
theorem published_of_step (other : a ≠ .replicationPublished) (hstep : s.step a = some t) {ps}
    (before : t.repl = .published ps) : s.repl = .published ps := by
  cases Step.of_step hstep with
  | replicationPublished => exact absurd rfl other
  | replicationCaptured | replicationFailed | barrierRaised | barrierKept | leaseLost
  | barrierPersisted | restart => cases before
  | reconcileRewind | tailCulled | ackBarrierCursor | truncateInPlace | unwindOpened
    | unwindClosed =>
    change s.repl.mapSnapshot _ = _ at before
    cases hrepl : s.repl <;> rw [hrepl] at before <;> cases before
    rfl
  | _ => exact before

/-- While the record is left alone, the read cursor does not fall. -/
theorem BarrierInv.read_step (h : s.BarrierInv) {ps} (repl : s.repl = .published ps)
    (leaves : s.LeavesRecord a) (hstep : s.step a = some t) (before : t.repl = .published ps) :
    t.gate.touchesActive = false ∧ t.truncations = [] ∧
      s.segments.active.readWalSeq ≤ t.segments.active.readWalSeq := by
  obtain ⟨quiet, none, -⟩ := h.window ps repl
  obtain ⟨starts, cull, parked⟩ := leaves
  have bounded := h.queue.cull.metadata s.segments.activeLogId
  -- nothing is parked, so a drain moves the cursor forward at most
  have drained : ∀ {u : Shard} {segments}, u.segments = s.segments → u.Advances segments →
      s.segments.active.readWalSeq ≤ segments.active.readWalSeq := by
    intro u segments same moved
    rcases moved with rfl | ⟨-, rfl⟩
    · rw [same]
    · rw [updateActive_active, same]
      exact bounded
  cases Step.of_step hstep with
  | fsyncFlag | fsyncEmpty | fsyncWrites | fsyncSeals | fsyncRotates | fsyncTooLarge
  | truncateWal => exact starts.elim
  | sidecarWritten _ gate | sidecarFailed _ gate | rotated _ _ _ gate | rotateFailed _ _ _ gate
  | syncSucceeded _ _ _ _ gate | syncFailed _ _ _ _ _ gate | unwindOpened _ _ gate
  | unwindClosed _ gate | truncateHeader gate => rw [gate] at quiet; cases quiet
  | truncateFailed gate =>
    cases hgate : s.gate <;> rw [hgate] at gate quiet <;> cases gate <;> cases quiet
  | truncateInPlace _ _ _ task | truncateUnwind _ _ _ _ task | truncateRefused _ _ _ _ task =>
    rw [none] at task
    cases task
  | truncateTimeout i => exact ⟨quiet, by rw [none]; rfl, le_rfl⟩
  | reconcileRewind read isRead behind => simp [cullOf, isRead, behind] at cull
  | tailCulled i mode read task => simp [cullOf, task] at cull
  | ackBarrierCursor i barrier task => simp [cullOf, task] at cull
  | headerSync => exact ⟨rfl, none, le_rfl⟩
  | headerSyncDone landed =>
    refine ⟨rfl, none, ?_⟩
    cases landed with
    | true => exact le_of_eq (congrArg _ (active_setHeader _ _).symm)
    | false => exact le_rfl
  | drained n segments ahead moved =>
    refine ⟨quiet, none, drained ?_ moved⟩
    simp [commitParkedUpTo, commitAll, ShardMemCache.parkedUpTo, parked rfl, commitPcds]
  | reconcileCommit some => exact absurd (parked rfl) some
  | commitParked =>
    exact ⟨quiet, none, by simp [Shard.commitParked, commitAll, parked rfl, commitPcds]⟩
  | tailCommit i mode read task promotion segments moved =>
    subst promotion
    refine ⟨quiet, none, drained ?_ moved⟩
    have empty := parked (commitsParked_tail task)
    simp [Shard.commitParked, commitAll, dropCull, empty, commitPcds]
  | updatePromotionFloor | clearPromotionFloor =>
    refine ⟨quiet, none, le_of_eq ?_⟩
    simp [Shard.updatePromotionFloor, Shard.clearPromotionFloor, updateActive_active,
      LogSegmentFileMetadata.raiseFloor, LogSegmentFileMetadata.clearFloor,
      LogSegmentFileMetadata.readWalSeq]
  | evictFromLru g => exact ⟨quiet, none, le_of_eq (congrArg _ (active_evictFromLru g).symm)⟩
  | load g => exact ⟨quiet, none, le_of_eq (congrArg _ (active_load g).symm)⟩
  | replicationPublished _ sending => rw [repl] at sending; cases sending
  | replicationCaptured | replicationFailed | barrierRaised | barrierKept | leaseLost
    | barrierPersisted | restart => cases before
  | _ => exact ⟨quiet, none, le_rfl⟩

/-- The commit leaves the read cursor at the cycle's last batch, which has its largest tip. -/
theorem BarrierInv.published (h : s.BarrierInv) {ps} (repl : s.repl = .sending ps)
    (active : ∀ p ∈ s.repl.snapshot.getLast?, p.logId = s.segments.activeLogId) :
    maxTip ps ≤ (s.segments.commitPcds ps).active.readWalSeq := by
  rw [repl] at active
  rcases ps.eq_nil_or_concat with rfl | ⟨init, last, rfl⟩
  · exact Nat.zero_le _
  · rw [List.concat_eq_append] at *
    have ascending : Ascending (init ++ [last]) := by
      have sub := h.queue.queue.sublist snapshot_sublist_liveQueue
      rwa [repl] at sub
    rw [active_commitPcds_concat init (active last (by simp [ReplTask.snapshot]))]
    refine maxTip_le fun p hp => ?_
    rcases List.mem_append.mp hp with before | rest
    · exact le_of_lt ((List.pairwise_append.mp ascending).2.2 p before last List.mem_cons_self)
    · rw [List.mem_singleton.mp rest]

/-- What is acknowledged, or about to be, is covered by the barrier after the step. -/
theorem BarrierInv.covered_step (h : s.BarrierInv) (hstep : s.step a = some t)
    (grows : s.segments.barrier ≤ t.segments.barrier)
    (bumps : ∀ ps, s.repl = .published ps → a = .selfAck → maxTip ps ≤ t.segments.barrier) :
    t.history.acked ≤ t.segments.barrier ∧
      maxTip t.repl.persistingBatches ≤ t.segments.barrier := by
  have acked := le_trans h.acked grows
  have persisting := le_trans h.persisting grows
  cases Step.of_step hstep with
  | barrierRaised ps repl => exact ⟨acked, bumps ps repl rfl⟩
  | barrierKept ps repl => exact ⟨Nat.max_le.mpr ⟨acked, bumps ps repl rfl⟩, Nat.zero_le _⟩
  | barrierPersisted ps repl =>
    rw [repl] at persisting
    exact ⟨Nat.max_le.mpr ⟨acked, persisting⟩, Nat.zero_le _⟩
  | replicationCaptured | replicationPublished | replicationFailed | leaseLost | restart =>
    exact ⟨acked, Nat.zero_le _⟩
  | reconcileRewind | tailCulled | ackBarrierCursor | truncateInPlace | unwindOpened
    | unwindClosed =>
    refine ⟨acked, ?_⟩
    change maxTip (s.repl.mapSnapshot _).persistingBatches ≤ _
    rwa [ReplTask.persistingBatches_mapSnapshot]
  | _ => exact ⟨acked, persisting⟩

/-- **One step.** -/
theorem BarrierInv.step (h : s.BarrierInv) (timed : s.BarrierTimed a)
    (hstep : s.step a = some t) : t.BarrierInv := by
  obtain ⟨safe, timed, leaves⟩ := timed
  have moved := h.barrier_step timed hstep
  have grows : s.segments.barrier ≤ t.segments.barrier := moved.elim (fun same => same.ge) (·.1)
  have bumps : ∀ ps, s.repl = .published ps → a = .selfAck → maxTip ps ≤ t.segments.barrier := by
    rintro ps repl rfl
    exact le_trans (h.window ps repl).2.2 (read_le_barrier_of_selfAck hstep)
  obtain ⟨acked, persisting⟩ := h.covered_step hstep grows bumps
  refine ⟨h.queue.step safe hstep, acked, persisting, fun b held => ?_, fun x waits => ?_,
    fun d held => ?_, fun ps before => ?_⟩
  · rcases moved with same | ⟨-, quiet, -⟩
    · rw [same]
      exact (copiedBarrier_step hstep b held).elim (h.copies b) id
    · rw [GateTask.copiedBarrier_eq_none quiet] at held
      cases held
  · rcases moved with same | ⟨-, -, none⟩
    · rw [same]
      exact (truncations_step hstep x waits).elim (h.waiting x) id
    · rw [none] at waits
      cases waits
  · rcases moved with same | ⟨-, quiet, -⟩
    · rw [same]
      rcases divergentWalSeq_step hstep d held with held | ⟨x, waits, rfl⟩
      · exact h.divergent d held
      · exact h.waiting x waits
    · rw [GateTask.divergentWalSeq_eq_none quiet] at held
      cases held
  · by_cases publishes : a = .replicationPublished
    · subst publishes
      cases Step.of_step hstep with
      | replicationPublished sent repl =>
        cases before
        exact ⟨timed.1, timed.2.1, h.published repl timed.2.2⟩
    · have repl := published_of_step publishes hstep before
      obtain ⟨quiet, none, further⟩ := h.read_step repl (leaves (by rw [repl]; rfl)) hstep before
      exact ⟨quiet, none, le_trans (h.window ps repl).2.2 further⟩

end Shard

/-! ## The result -/

/-- **The ack barrier.** In every state of every run whose steps meet the condition, the active
segment's barrier is at least every `wal_seq` that `commit_replication` has returned Ok for, and a
step of `truncate_wal` removes only entries above them. -/
theorem ack_barrier_holds {s : Shard} (h : Reaches Shard.step Shard.BarrierTimed Shard.initial s) :
    s.history.acked ≤ s.segments.active.lastSelfAckedWalSeq ∧
      ∀ a, ∀ d ∈ s.divergence a, s.history.acked < d := by
  have inv : s.BarrierInv :=
    h.invariant (fun _ _ _ inv timed hstep => inv.step timed hstep) Shard.barrierInv_initial
  refine ⟨inv.acked, fun a d hd => lt_of_le_of_lt inv.acked ?_⟩
  cases a with
  | truncateGate i =>
    obtain ⟨x, task, rfl⟩ := Option.map_eq_some_iff.mp hd
    exact inv.waiting x (List.mem_of_getElem? task)
  | unwindOpened | unwindClosed => exact inv.divergent d hd
  | _ => cases hd

/-- One entry is acknowledged; a second is fsynced into the next segment, and a truncation that
keeps the first waits for the gate. -/
def ackedBeforeRotation : List ShardAction :=
  [.enqueue [7], .fsyncCapture .deferToReplicationAck .fits, .syncSucceeded,
    .replicationCapture .write, .replicationPublished, .selfAck, .barrierPersisted,
    .enqueue [8], .fsyncCapture .deferToReplicationAck .rotate, .rotated true, .syncSucceeded,
    .truncateWal 2 2]

theorem ack_barrier_holds_across_rotation :
    ∃ s, exec Shard.step Shard.BarrierTimed Shard.initial ackedBeforeRotation = some s ∧
      s.segments.activeLogId = 2 ∧ s.history.acked = 1 ∧ s.divergence (.truncateGate 0) = some 2 ∧
      (s.history.acked ≤ s.segments.active.lastSelfAckedWalSeq ∧
        ∀ a, ∀ d ∈ s.divergence a, s.history.acked < d) :=
  ⟨_, rfl, by decide, by decide, by decide,
    ack_barrier_holds (reaches_of_exec ackedBeforeRotation rfl)⟩

/-- The segment rotates between the commit of a cycle's entry and the barrier bump;
`commit_replication` returns Ok, and a truncation of that entry passes the barrier check. -/
def rotatedBeforeBump : List ShardAction :=
  [.enqueue [7], .fsyncCapture .deferToReplicationAck .fits, .syncSucceeded,
    .replicationCapture .write, .replicationPublished, .enqueue [8],
    .fsyncCapture .deferToReplicationAck .rotate, .rotated true, .selfAck, .syncSucceeded,
    .truncateWal 1 1]

theorem acked_after_rotation :
    ∃ s, Reaches Shard.step Always Shard.initial s ∧
      s.segments.active.lastSelfAckedWalSeq < s.history.acked ∧
      ∃ d ∈ s.divergence (.truncateGate 0), d ≤ s.history.acked :=
  exists_of_exec rotatedBeforeBump (by decide)

end Celeriant
