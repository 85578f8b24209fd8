import Celeriant.Shard.CullSafety

/-!
# Lost updates of segment metadata

`sync` clones a segment's whole metadata record, awaits the disk and stores the clone; `rotate`
copies the fields of the next segment's record before it awaits. Replication commits, the barrier
bump, the promotion floor and culls update single fields of the same record without the gate, so an
update made in between is overwritten (`fsync_overwrites_read_cursor`). A read cursor also goes back
when an evicted segment is reloaded from a header that lags, and when `commit_pcd`, which assigns
without comparing, runs for a batch that another kind of commit has already passed.

Under `UpdateSafe` no step except a truncation, a cull, `clear_promotion_floor` or a restart lowers
a read cursor, an ack barrier or a promotion floor, and an fsync that was under way continues from
the current write cursor.

## Main results

* `metadata_update_never_lost`: every step of every run under the condition keeps the updates
* `fsync_overwrites_read_cursor`: without it, a replication commit during an fsync is lost
-/

namespace Celeriant

open Transition LogSegmentsCache List

namespace LogSegmentFileMetadata

/-- No update of `m` is missing from `m'`. -/
structure Kept (m m' : LogSegmentFileMetadata) : Prop where
  read : ∀ r ∈ m.read, ∃ r' ∈ m'.read, r ≤ r'
  lastSelfAcked : m.lastSelfAckedWalSeq ≤ m'.lastSelfAckedWalSeq
  lastReceived : m.lastReceivedReplicationWalSeq ≤ m'.lastReceivedReplicationWalSeq

/-- The records agree on everything but the read cursor. -/
def Agrees (m m' : LogSegmentFileMetadata) : Prop :=
  m.write = m'.write ∧ m.lastSelfAckedWalSeq = m'.lastSelfAckedWalSeq ∧
    m.lastReceivedReplicationWalSeq = m'.lastReceivedReplicationWalSeq

variable {m m' : LogSegmentFileMetadata}

theorem Kept.refl (m : LogSegmentFileMetadata) : m.Kept m :=
  ⟨fun r hr => ⟨r, hr, Nat.le_refl r⟩, le_rfl, le_rfl⟩

/-- Moving the read cursor to a place at or above it. -/
theorem kept_setRead {n} (h : m.readWalSeq ≤ n) : m.Kept { m with read := some n } where
  read := by
    intro r hr
    refine ⟨n, rfl, ?_⟩
    rwa [readWalSeq, hr] at h
  lastSelfAcked := le_rfl
  lastReceived := le_rfl

end LogSegmentFileMetadata

open LogSegmentFileMetadata

/-! ## The property and the condition -/

/-- Truncations, culls, `clear_promotion_floor`, and the restart that makes the records anew. -/
def ShardAction.mayLower : ShardAction → Bool
  | .truncateGate _ => true
  | .unwindOpened => true
  | .unwindClosed => true
  | .reconcileDurableTail mode => mode = .rewindToAckBarrier
  | .tailProvenance _ isPeer => !isPeer
  | .ackBarrierCursor _ => true
  | .clearPromotionFloor => true
  | .restart => true
  | _ => false

namespace Shard

/-- The step from `s` to `t` loses no update of a metadata record: outside the excepted actions
nothing in it goes back, an fsync continues from the current write cursor, and a rotation carries
the current write cursor, floor and barrier over. -/
structure NoLostUpdate (s : Shard) (a : ShardAction) (t : Shard) : Prop where
  kept : a.mayLower = false → ∀ g ≤ s.segments.activeLogId,
    (s.segments.metadata g).Kept (t.segments.metadata g)
  fsync : a = .syncSucceeded → ∀ target entries g clone,
    s.gate = .writing target entries g clone →
      (t.segments.metadata g).write = (s.segments.metadata g).write + entries.length
  rotation : a = .rotated true → t.segments.active.Agrees s.segments.active

section Condition

variable (s : Shard)

/-- The record in memory is still the one the fsync cloned; a full commit replaces the read
cursor anyway. -/
def CloneCurrent : Prop :=
  ∀ gm ∈ s.gate.cloneOf, (s.segments.metadata gm.1).Agrees gm.2 ∧
    (s.gate.isFullCommit = true ∨ (s.segments.metadata gm.1).read = gm.2.read)

/-- The record in memory still has the fields the rotation copied. -/
def SourceCurrent : Prop := ∀ source ∈ s.gate.sourceOf, s.segments.active.Agrees source

/-- What is asked of each action beyond `CullSafe`: copies are still current when they are
written back, an evicted record was persisted before it is reloaded, batches of one kind are not
committed past waiting batches of the other, and no read cursor is rewound under a cycle. -/
def updateSafe : ShardAction → Prop
  | .syncSucceeded => s.CloneCurrent ∧ (s.gate.isFullCommit = true → s.NothingDeferred)
  | .rotated ok => ok = true → s.SourceCurrent
  | .load g => s.segments.IsCached g ∨ s.segments.header g = s.segments.metadata g
  | .replicationPublished => s.repl.snapshot = [] ∨ s.cache.parkedCommits = []
  | .drainParkedCommits n =>
    min n s.segments.active.write ≤ s.segments.active.readWalSeq ∨ s.NothingReplicating
  | .commitParkedBeforeCatchup => s.cache.parkedCommits = [] ∨ s.NothingReplicating
  | .reconcileDurableTail mode =>
    mode = .commitForPromotion → s.cache.parkedCommits = [] ∨
      s.segments.active.write ≤ s.segments.active.readWalSeq ∨ s.NothingReplicating
  | .tailProvenance i isPeer =>
    s.commitsParked (.tailProvenance i isPeer) = true → s.NothingReplicating
  | .ackBarrierCursor _ => s.repl.snapshot = []
  | .truncateGate i =>
    ∀ divergent ∈ s.truncations[i]?, s.repl.snapshot = [] ∨
      (s.cache.parkedCommits = [] ∧ divergent.1 ≠ s.segments.activeLogId)
  | .unwindOpened => s.NothingDeferred
  | .unwindClosed => s.NothingDeferred
  | _ => True

/-- The cursors in memory are still the ones the fsync cloned; a full commit replaces the read
cursor anyway. -/
def CursorsCurrent : Prop :=
  ∀ gm ∈ s.gate.cloneOf, (s.segments.metadata gm.1).write = gm.2.write ∧
    (s.gate.isFullCommit = true ∨ (s.segments.metadata gm.1).read = gm.2.read)

/-- The part of `updateSafe` that the cursors need: floors and barriers may go back. -/
def cursorSafe : ShardAction → Prop
  | .syncSucceeded => s.CursorsCurrent ∧ (s.gate.isFullCommit = true → s.NothingDeferred)
  | .rotated _ => True
  | .load g => s.segments.IsCached g ∨ (s.segments.header g).read = (s.segments.metadata g).read
  | a => s.updateSafe a

instance (a : ShardAction) : Decidable (s.cursorSafe a) := by
  induction a using ShardAction.casesOn <;> dsimp only [cursorSafe, updateSafe, CursorsCurrent] <;>
    infer_instance

/-- **The condition on a step.** -/
def UpdateSafe (s : Shard) (a : ShardAction) : Prop := s.CullSafe a ∧ s.updateSafe a

instance : DecidableRel UpdateSafe := fun s a => by
  induction a using ShardAction.casesOn <;>
    dsimp only [UpdateSafe, updateSafe, CloneCurrent, SourceCurrent,
      LogSegmentFileMetadata.Agrees] <;>
    infer_instance

theorem CloneCurrent.cursors (h : s.CloneCurrent) : s.CursorsCurrent :=
  fun gm hgm => ⟨(h gm hgm).1.1, (h gm hgm).2⟩

theorem cursorSafe_of_updateSafe {a} (h : s.updateSafe a) : s.cursorSafe a := by
  cases a with
  | syncSucceeded => exact ⟨CloneCurrent.cursors s h.1, h.2⟩
  | rotated ok => trivial
  | load g => exact Or.imp_right (congrArg LogSegmentFileMetadata.read) h
  | _ => exact h

end Condition

/-! ## The invariant -/

/-- The batch waits for its commit. -/
def Waits (s : Shard) (p : PendingCommitData) : Prop := p ∈ s.liveQueue ∨ p ∈ s.liveParked

/-- The batch lies above its segment's read cursor. -/
def AheadOfRead (s : Shard) (p : PendingCommitData) : Prop :=
  (s.segments.metadata p.logId).readWalSeq < p.tip

/-- The invariant of runs under `UpdateSafe`: waiting batches are ascending and ahead of what is
committed. -/
structure UpdateInv (s : Shard) : Prop where
  queue : s.QueueInv
  ahead : ∀ p, s.Waits p → s.AheadOfRead p

theorem updateInv_initial : UpdateInv initial where
  queue := queueInv_initial
  ahead := by
    rintro p (hp | hp) <;> cases hp

variable {s t : Shard} {p : PendingCommitData} {ps : List PendingCommitData} {target : CommitTarget}
  {entries : List EntryId} {clone : LogSegmentFileMetadata} {a : ShardAction}

theorem Shrinks.waits (h : Shrinks s t) (hp : t.Waits p) : s.Waits p :=
  hp.imp (fun k => h.queue.subset k) (fun k => h.parked.subset k)

theorem live_of_waits (h : s.Waits p) : s.Live p :=
  h.elim live_of_mem_liveQueue live_of_mem_liveParked

theorem not_waits_of_nothing (h : s.NothingDeferred) (p : PendingCommitData) : ¬ s.Waits p := by
  rintro (hp | hp)
  · rw [liveQueue_eq_nil h.1] at hp
    cases hp
  · rw [liveParked_eq_nil h.2] at hp
    cases hp

theorem aheadOfRead_of_read
    (read : (t.segments.metadata p.logId).read = (s.segments.metadata p.logId).read)
    (h : s.AheadOfRead p) : t.AheadOfRead p := by
  unfold AheadOfRead readWalSeq at h ⊢
  rw [read]
  exact h

theorem aheadOfRead_of_metadata
    (eq : ∀ g, t.segments.metadata g = s.segments.metadata g) (h : s.AheadOfRead p) :
    t.AheadOfRead p :=
  aheadOfRead_of_read (by rw [eq]) h

/-- An update of the active record that leaves its read cursor alone. -/
theorem aheadOfRead_updateActive {f}
    (segments : t.segments = s.segments.updateActive f) (read : ∀ m, (f m).read = m.read)
    (h : s.AheadOfRead p) : t.AheadOfRead p := by
  refine aheadOfRead_of_read ?_ h
  rw [segments, updateActive_metadata]
  split
  next hg =>
    rw [read, hg]
    rfl
  next => rfl

/-! ## Commits -/

/-- A batch stays ahead when only batches below it are committed. -/
theorem aheadOfRead_commit
    (segments : t.segments = s.segments.commitPcds ps) (below : ∀ q ∈ ps, q.tip < p.tip)
    (h : s.AheadOfRead p) : t.AheadOfRead p := by
  unfold AheadOfRead
  rw [segments]
  rcases commitPcds_metadata (c := s.segments) ps p.logId with
    eq | ⟨q, hq, -, eq⟩
  · rw [eq]
    exact h
  · rw [eq]
    exact below q hq

theorem commitPcds_kept {c : LogSegmentsCache}
    (h : ∀ p ∈ ps, (c.metadata p.logId).readWalSeq < p.tip) (g : ℕ) :
    (c.metadata g).Kept ((c.commitPcds ps).metadata g) := by
  rcases commitPcds_metadata (c := c) ps g with eq | ⟨p, hp, hg, eq⟩
  · rw [eq]
    exact Kept.refl _
  · rw [eq]
    subst hg
    exact kept_setRead (le_of_lt (h p hp))

theorem commitParked_ahead (safe : s.cache.parkedCommits = [] ∨ s.NothingReplicating)
    (waits : s.commitParked.Waits p) (ahead : s.AheadOfRead p) :
    s.commitParked.AheadOfRead p := by
  rcases safe with empty | nothing
  · refine aheadOfRead_commit rfl (fun q hq => ?_) ahead
    rw [empty] at hq
    cases hq
  · have none : s.commitParked.NothingDeferred := ⟨nothing, rfl⟩
    exact absurd waits (not_waits_of_nothing none p)

/-! ## Fsync cycles -/

/-- A deferred commit from a current clone leaves every read cursor alone. -/
theorem read_commitSync {g} (gate : s.gate = .writing target entries g clone)
    (current : s.CursorsCurrent) (deferred : target ≠ .fullCommit) (k : ℕ) :
    ((s.commitSync target entries g clone).segments.metadata k).read =
      (s.segments.metadata k).read := by
  have read : (s.segments.metadata g).read = clone.read := by
    refine (current (g, clone) (by rw [gate]; rfl)).2.resolve_left ?_
    cases target <;> simp_all [GateTask.isFullCommit]
  rw [metadata_commitSync]
  split
  next hk => rw [synced_read, if_neg deferred, hk, read]
  next => rfl

theorem metadata_rollbackSync (landed : Bool) (target : CommitTarget) (entries : List EntryId)
    (g : ℕ) (clone : LogSegmentFileMetadata) (k : ℕ) :
    (s.rollbackSync landed target entries g clone).segments.metadata k = s.segments.metadata k := by
  cases landed with
  | true => exact setHeader_metadata _ _ _ _
  | false => rfl

theorem metadata_finishHeaderSync (landed : Bool) (g : ℕ) (clone : LogSegmentFileMetadata)
    (k : ℕ) : (s.finishHeaderSync landed g clone).segments.metadata k = s.segments.metadata k := by
  cases landed with
  | true => exact setHeader_metadata _ _ _ _
  | false => rfl

/-! ## Culls and truncations -/

theorem beginCull_ahead {target} (safe : s.RewindSafe target)
    (barrier : target.isBarrier = true → s.repl.snapshot = [])
    (waits : (s.beginCull target).Waits p) (ahead : s.AheadOfRead p) :
    (s.beginCull target).AheadOfRead p := by
  have window := inCullWindow_beginCull (s := s) target
  cases target with
  | writeToRead read => exact aheadOfRead_updateActive rfl (fun _ => rfl) ahead
  | bothToAckBarrier cursor =>
    rcases waits with hp | hp
    · rw [liveQueue_of_window window, snapshot_beginCull safe, barrier rfl] at hp
      cases hp
    · rw [liveParked_of_window window] at hp
      cases hp

theorem nothingDeferred_removeAbove {g n} (h : s.NothingDeferred) :
    (s.removeAbove g n).NothingDeferred := by
  obtain ⟨⟨snapshot, pending⟩, parked⟩ := h
  refine ⟨⟨?_, ?_⟩, ?_⟩
  · simp only [removeAbove, ReplTask.snapshot_mapSnapshot, snapshot, map_nil]
  · simp only [removeAbove, pending, map_nil]
  · simp only [removeAbove, parked, map_nil]

theorem clearForTruncate_ahead {d} (safe : s.repl.snapshot = [] ∨ s.cache.parkedCommits = [])
    (waits : (s.clearForTruncate d).Waits p) (ahead : s.AheadOfRead p) :
    (s.clearForTruncate d).AheadOfRead p := by
  rcases safe with empty | empty
  · have none : (s.clearForTruncate d).NothingDeferred := ⟨⟨empty, rfl⟩, rfl⟩
    exact absurd waits (not_waits_of_nothing none p)
  · have none : ∀ q ∈ s.cache.parkedUpTo (d - 1), q.tip < p.tip := by
      intro q hq
      rw [ShardMemCache.parkedUpTo, empty] at hq
      cases hq
    exact aheadOfRead_commit rfl none ahead

theorem updateActive_kept (c : LogSegmentsCache)
    (f : LogSegmentFileMetadata → LogSegmentFileMetadata) (h : c.active.Kept (f c.active))
    (g : ℕ) : (c.metadata g).Kept ((c.updateActive f).metadata g) := by
  rw [updateActive_metadata]
  split
  next hg =>
    rw [hg]
    exact h
  next => exact Kept.refl _

theorem mayLower_of_cull {target} (h : s.cullOf a = some target) :
    a.mayLower = true := by
  cases a with
  | reconcileDurableTail mode =>
    cases mode with
    | rewindToAckBarrier => rfl
    | commitForPromotion | reconcileAsFollower => cases h
  | tailProvenance i isPeer =>
    cases isPeer with
    | true => cases h
    | false => rfl
  | ackBarrierCursor => rfl
  | _ => cases h

/-! ## Steps -/

namespace UpdateInv

variable (h : s.UpdateInv)
include h

theorem publish_ahead
    (repl : s.repl = .sending ps) (safe : s.repl.snapshot = [] ∨ s.cache.parkedCommits = [])
    (waits : (s.publish ps).Waits p) (ahead : s.AheadOfRead p) :
    (s.publish ps).AheadOfRead p := by
  have snapshot : s.repl.snapshot = ps := by
    rw [repl]
    rfl
  have window : (s.publish ps).InCullWindow ↔ s.InCullWindow := Iff.rfl
  rcases waits with hp | hp
  · by_cases hw : s.InCullWindow
    · rw [liveQueue_of_window (window.mpr hw)] at hp
      cases hp
    · rw [liveQueue_of_not_window (fun k => hw (window.mp k))] at hp
      have ascending := h.queue.queue
      rw [liveQueue_of_not_window hw, snapshot] at ascending
      exact aheadOfRead_commit rfl
        (fun q hq => (pairwise_append.mp ascending).2.2 q hq p hp) ahead
  · rcases safe with empty | empty
    · obtain rfl : ps = [] := snapshot.symm.trans empty
      exact ahead
    · rw [liveParked_eq_nil (s := s.publish ps) empty] at hp
      cases hp

theorem commitParkedUpTo_ahead (nothing : s.NothingReplicating)
    {n} (waits : (s.commitParkedUpTo n).Waits p)
    (ahead : s.AheadOfRead p) : (s.commitParkedUpTo n).AheadOfRead p := by
  have window : (s.commitParkedUpTo n).InCullWindow ↔ s.InCullWindow := Iff.rfl
  have split : s.cache.parkedUpTo n ++ (s.cache.drainParkedCommitsUpTo n).parkedCommits =
      s.cache.parkedCommits := takeWhile_append_dropWhile
  rcases waits with hp | hp
  · rw [liveQueue_eq_nil (s := s.commitParkedUpTo n) nothing] at hp
    cases hp
  · by_cases hw : s.InCullWindow
    · rw [liveParked_of_window (window.mpr hw)] at hp
      cases hp
    · rw [liveParked_of_not_window (fun k => hw (window.mp k))] at hp
      have ascending := h.queue.parked
      rw [liveParked_of_not_window hw, ← split] at ascending
      exact aheadOfRead_commit rfl
        (fun q hq => (pairwise_append.mp ascending).2.2 q hq p hp) ahead

theorem drained_ahead {n segments}
    (nothing : s.NothingReplicating) (moved : (s.commitParkedUpTo n).Advances segments)
    (waits : Waits { s.commitParkedUpTo n with segments } p) (ahead : s.AheadOfRead p) :
    AheadOfRead { s.commitParkedUpTo n with segments } p := by
  rcases moved with rfl | ⟨empty, rfl⟩
  · exact h.commitParkedUpTo_ahead nothing waits ahead
  · refine absurd waits (not_waits_of_nothing ?_ p)
    exact ⟨nothing, empty⟩

theorem commitSync_ahead {g}
    (gate : s.gate = .writing target entries g clone) (current : s.CursorsCurrent)
    (full : s.gate.isFullCommit = true → s.NothingDeferred)
    (waits : (s.commitSync target entries g clone).Waits p) :
    (s.commitSync target entries g clone).AheadOfRead p := by
  by_cases deferred : target = .fullCommit
  · subst deferred
    exact absurd waits (not_waits_of_nothing (full (by rw [gate]; rfl)) p)
  have read := read_commitSync gate current deferred
  have old : s.Waits p → (s.commitSync target entries g clone).AheadOfRead p :=
    fun hp => aheadOfRead_of_read (read p.logId) (h.ahead p hp)
  have new : (s.commitSync target entries g clone).AheadOfRead
      ⟨g, clone.synced target entries.length, entries, false⟩ := by
    -- the batch is not empty and starts at the write cursor, which bounds the read cursor
    have bounded : (s.segments.metadata g).readWalSeq ≤ (s.segments.metadata g).write :=
      h.queue.cull.metadata g
    have same : (s.segments.metadata g).write = clone.write :=
      (current (g, clone) (by rw [gate]; rfl)).1
    have nonempty : entries ≠ [] := by
      have fits := h.queue.cull.gate
      rw [gate] at fits
      exact fits.1
    have positive := length_pos_of_ne_nil nonempty
    refine aheadOfRead_of_read (s := s) (read g) ?_
    change (s.segments.metadata g).readWalSeq < (clone.synced target entries.length).write
    rw [synced_write]
    omega
  rcases waiting_commitSync waits with hp | rfl
  · exact old hp
  · exact new

theorem finishRotation_ahead (target : CommitTarget)
    (entries : List EntryId) (source : LogSegmentFileMetadata)
    (waits : s.Waits p) : (s.finishRotation target entries source).AheadOfRead p := by
  have older : p.logId ≠ s.segments.activeLogId + 1 :=
    Nat.ne_of_lt (Nat.lt_succ_of_le (h.queue.cull.live p (live_of_waits waits)).logId)
  refine aheadOfRead_of_read ?_ (h.ahead p waits)
  change ((s.segments.rotateToNextLog source).metadata p.logId).read = _
  rw [rotateToNextLog_metadata, if_neg older]

theorem step_ahead (safe : s.CullSafe a) (update : s.cursorSafe a) (hstep : s.step a = some t)
    (shrinks : a ≠ .syncSucceeded → Shrinks s t) (waits : t.Waits p) :
    t.AheadOfRead p := by
  obtain ⟨cull, -, -⟩ := safe
  by_cases fsync : a = .syncSucceeded
  · subst fsync
    cases Step.of_step hstep with
    | syncSucceeded target entries g clone gate =>
      exact h.commitSync_ahead gate update.1 update.2 waits
  have waited := (shrinks fsync).waits waits
  have before := h.ahead p waited
  cases Step.of_step hstep with
  | rotated target entries source => exact h.finishRotation_ahead target entries source waited
  | syncSucceeded => exact absurd rfl fsync
  | syncFailed landed target entries g clone =>
    exact aheadOfRead_of_metadata (metadata_rollbackSync landed target entries g clone) before
  | headerSyncDone landed g clone =>
    exact aheadOfRead_of_metadata (metadata_finishHeaderSync landed g clone) before
  | replicationPublished ps repl => exact h.publish_ahead repl update waits before
  | barrierRaised ps =>
    exact aheadOfRead_updateActive (f := (·.selfAckedTo s.segments.active.readWalSeq)) rfl
      (fun _ => rfl) before
  | updatePromotionFloor n =>
    exact aheadOfRead_updateActive (f := (·.raiseFloor n)) rfl (fun _ => rfl) before
  | clearPromotionFloor =>
    exact aheadOfRead_updateActive (f := (·.clearFloor)) rfl (fun _ => rfl) before
  | drained n _ ahead moved =>
    exact h.drained_ahead (update.resolve_left (Nat.not_le_of_lt ahead)) moved waits before
  | commitParked => exact commitParked_ahead update waits before
  | reconcileRewind read isRead behind =>
    have target := cullOf_rewind isRead behind
    exact beginCull_ahead (s := { s with ackBarrierRewindArmed := false }) (cull _ target)
      (by rintro ⟨⟩)
      waits before
  | reconcileCommit nonempty behind =>
    rcases update rfl with empty | reached | nothing
    · exact absurd empty nonempty
    · exact absurd reached (Nat.not_le_of_lt behind)
    · refine absurd waits (not_waits_of_nothing ?_ p)
      exact ⟨nothing, rfl⟩
  | tailCommit i mode read task promotion =>
    subst promotion
    refine absurd waits (not_waits_of_nothing ?_ p)
    exact ⟨update (commitsParked_tail task), rfl⟩
  | tailCulled i mode read task =>
    have target := cullOf_tail task
    exact beginCull_ahead (s := s.dropCull i) (cull _ target) (by rintro ⟨⟩) waits before
  | ackBarrierCursor i barrier task =>
    have target := cullOf_barrier task
    exact beginCull_ahead (s := s.dropCull i) (cull _ target) (fun _ => update) waits before
  | truncateInPlace i d idle task =>
    have empty : s.repl.snapshot = [] := (update _ task).resolve_right fun k => k.2 rfl
    refine absurd waits (not_waits_of_nothing ⟨⟨?_, rfl⟩, rfl⟩ p)
    change (s.repl.mapSnapshot _).snapshot = []
    rw [ReplTask.snapshot_mapSnapshot, empty]
    rfl
  | truncateUnwind i _ _ _ task | truncateRefused i _ _ _ task =>
    exact clearForTruncate_ahead (s := { s with truncations := s.truncations.eraseIdx i })
      ((update _ task).imp_right (·.1)) waits before
  | unwindOpened g d =>
    exact absurd waits (not_waits_of_nothing (nothingDeferred_removeAbove (s := { s with
      segments := (s.segments.load g).unwindActiveToSealed g, gate := .unwound d }) update) p)
  | unwindClosed d =>
    exact absurd waits (not_waits_of_nothing (nothingDeferred_removeAbove (s := { s with
      segments := s.segments.updateActive (·.truncatedTo (d - 1)), gate := .rewound }) update) p)
  | evictFromLru g =>
    exact aheadOfRead_of_metadata (evictFromLru_metadata _ g) before
  | load g =>
    exact aheadOfRead_of_read (load_read_eq _ update p.logId) before
  | restart => exact absurd waits (not_waits_of_nothing ⟨⟨rfl, rfl⟩, rfl⟩ p)
  | _ => exact aheadOfRead_of_metadata (fun _ => rfl) before

/-- The invariant needs the cursors' part of the condition only. -/
theorem step_cursorSafe (safe : s.CullSafe a)
    (cursors : s.cursorSafe a) (hstep : s.step a = some t) : t.UpdateInv where
  queue := h.queue.step safe hstep
  ahead := fun _ waits => h.step_ahead safe cursors hstep (shrinks_step safe hstep) waits

theorem step (safe : s.UpdateSafe a) (hstep : s.step a = some t) : t.UpdateInv :=
  h.step_cursorSafe safe.1 (cursorSafe_of_updateSafe s safe.2) hstep

/-! ## What a step keeps -/

theorem commitSync_noLostUpdate {g}
    (gate : s.gate = .writing target entries g clone) (current : s.CloneCurrent) :
    NoLostUpdate s .syncSucceeded (s.commitSync target entries g clone) := by
  obtain ⟨agrees, read⟩ := current (g, clone) (by rw [gate]; rfl)
  refine ⟨fun _ k _ => ?_, fun _ target' entries' g' clone' gate' => ?_, nofun⟩
  · rw [metadata_commitSync]
    split
    next hk =>
      subst hk
      refine ⟨?_, ?_, ?_⟩
      · intro r hr
        rw [synced_read]
        split
        next full =>
          refine ⟨_, rfl, ?_⟩
          have bounded : (s.segments.metadata k).readWalSeq ≤ (s.segments.metadata k).write :=
            h.queue.cull.metadata k
          rw [readWalSeq, hr, agrees.1] at bounded
          exact le_trans bounded (Nat.le_add_right _ _)
        next deferred =>
          have same : (s.segments.metadata k).read = clone.read := by
            refine read.resolve_left ?_
            cases target <;> simp_all [GateTask.isFullCommit]
          exact ⟨r, same ▸ hr, Nat.le_refl r⟩
      · rw [synced_lastSelfAcked]
        exact le_of_eq agrees.2.1
      · rw [synced_lastReceived]
        exact le_of_eq agrees.2.2
    next => exact Kept.refl _
  · rw [gate] at gate'
    injection gate' with _ hentries hg _
    subst hentries hg
    rw [metadata_commitSync, if_pos rfl, synced_write, agrees.1]

/-- What a step commits was ahead of the read cursors. -/
theorem commits_kept (safe : s.CullSafe a) (hstep : s.step a = some t)
    (commits : s.newlyCommitted t = ps) (g : ℕ) :
    (s.segments.metadata g).Kept ((s.segments.commitPcds ps).metadata g) :=
  commitPcds_kept (fun p hp =>
    h.ahead p (mem_of_live ((live_of_committed safe hstep).2 p (commits ▸ hp)))) g

/-- Every step but an fsync and a reload keeps the records without further conditions. -/
theorem kept (safe : s.CullSafe a)
    (hstep : s.step a = some t) (lower : a.mayLower = false) (fsync : a ≠ .syncSucceeded)
    (reload : ∀ g, a ≠ .load g) {g} (hg : g ≤ s.segments.activeLogId) :
    (s.segments.metadata g).Kept (t.segments.metadata g) := by
  have same : (∀ g, t.segments.metadata g = s.segments.metadata g) →
      (s.segments.metadata g).Kept (t.segments.metadata g) := fun eq => eq g ▸ Kept.refl _
  cases SegmentStep.of_step hstep with
  | kept _ segments | cloned _ _ _ segments => exact same fun g => by rw [segments]
  | rotated target entries source =>
    change (s.segments.metadata g).Kept ((s.segments.rotateToNextLog source).metadata g)
    rw [rotateToNextLog_metadata, if_neg (Nat.ne_of_lt (Nat.lt_succ_of_le hg))]
    exact Kept.refl _
  | synced => exact absurd rfl fsync
  | syncFailed landed target entries g clone =>
    exact same (metadata_rollbackSync landed target entries g clone)
  | headerWritten landed g clone => exact same (metadata_finishHeaderSync landed g clone)
  | touched _ f write read acked floor segments =>
    rw [segments]
    refine updateActive_kept s.segments f ⟨fun r hr => ⟨r, read ▸ hr, Nat.le_refl r⟩, acked, ?_⟩ g
    refine floor.resolve_left ?_
    rintro rfl
    cases lower
  | committed _ ps commits segments =>
    have committed := h.commits_kept safe hstep commits g
    rcases segments with segments | ⟨-, segments⟩
    · rw [segments]
      exact committed
    · rw [segments, updateActive_metadata]
      split
      next hg =>
        rw [hg, (commitPcds_sameTips ps).activeLogId, (active_commitPcds ps 0).1]
        exact kept_setRead (h.queue.cull.metadata s.segments.activeLogId)
      next => exact committed
  | culled _ target cull =>
    rw [mayLower_of_cull cull] at lower
    cases lower
  | truncated rewinds =>
    cases a with
    | truncateGate | unwindClosed => cases lower
    | _ => cases rewinds
  | unwound | restarted => cases lower
  | evicted g => exact same (evictFromLru_metadata _ g)
  | loaded g => exact absurd rfl (reload g)

theorem noLostUpdate (safe : s.UpdateSafe a) (hstep : s.step a = some t) : NoLostUpdate s a t := by
  by_cases fsync : a = .syncSucceeded
  · subst fsync
    cases Step.of_step hstep with
    | syncSucceeded target entries g clone gate => exact h.commitSync_noLostUpdate gate safe.2.1
  refine ⟨fun lower g hg => ?_, fun k => absurd k fsync, fun rotation => ?_⟩
  · by_cases reload : ∃ k, a = .load k
    · obtain ⟨k, rfl⟩ := reload
      cases Step.of_step hstep with
      | load =>
        rw [load_metadata_eq _ safe.2]
        exact Kept.refl _
    · exact h.kept safe.1 hstep lower fsync (fun k hk => reload ⟨k, hk⟩) hg
  · subst rotation
    cases Step.of_step hstep with
    | rotated target entries source gate =>
      have agrees : s.segments.active.Agrees source := safe.2 rfl source (by rw [gate]; rfl)
      change ((s.segments.rotateToNextLog source).metadata (s.segments.activeLogId + 1)).Agrees
        s.segments.active
      rw [rotateToNextLog_metadata, if_pos rfl]
      exact ⟨agrees.1.symm, agrees.2.1.symm, agrees.2.2.symm⟩

end UpdateInv

end Shard

/-! ## The result -/

/-- **No metadata update is lost.** Along every run whose steps meet the condition, every step
outside truncations, culls, `clear_promotion_floor` and restarts keeps every read cursor, ack
barrier and promotion floor, and an fsync or rotation continues from the current record. -/
theorem metadata_update_never_lost {s : Shard}
    (h : Reaches Shard.step Shard.UpdateSafe Shard.initial s) {a : ShardAction} {t : Shard}
    (safe : s.UpdateSafe a) (hstep : s.step a = some t) : s.NoLostUpdate a t := by
  have inv : s.UpdateInv :=
    h.invariant (fun _ _ _ inv safe hstep => inv.step safe hstep) Shard.updateInv_initial
  exact inv.noLostUpdate safe hstep

/-- The second fsync begins after the first entry's commit. -/
def commitBeforeFsync : List ShardAction :=
  [.enqueue [7], .fsyncCapture .deferToReplicationAck .fits, .syncSucceeded,
    .replicationCapture .write, .replicationPublished, .enqueue [8],
    .fsyncCapture .deferToReplicationAck .fits]

theorem metadata_update_never_lost_second_fsync :
    ∃ s t, exec Shard.step Shard.UpdateSafe Shard.initial commitBeforeFsync = some s ∧
      s.UpdateSafe .syncSucceeded ∧ s.step .syncSucceeded = some t ∧
      s.segments.active.read = some 1 ∧ t.segments.active.write = 2 ∧
      s.NoLostUpdate .syncSucceeded t :=
  ⟨_, _, rfl, by decide, rfl, by decide, by decide,
    metadata_update_never_lost (reaches_of_exec commitBeforeFsync rfl) (by decide) rfl⟩

/-- A replication cycle commits entry 1 while the fsync of entry 2 writes; the fsync then stores
the record it cloned before. -/
def commitDuringFsync : List ShardAction :=
  [.enqueue [7], .fsyncCapture .deferToReplicationAck .fits, .syncSucceeded,
    .replicationCapture .write, .enqueue [8], .fsyncCapture .deferToReplicationAck .fits,
    .replicationPublished]

theorem fsync_overwrites_read_cursor :
    ∃ s t, Reaches Shard.step Always Shard.initial s ∧ s.step .syncSucceeded = some t ∧
      s.segments.active.read = some 1 ∧ t.segments.active.read = some 0 ∧
      s.segments.activeLogId = t.segments.activeLogId :=
  exists_step_of_exec commitDuringFsync (by decide)

end Celeriant
