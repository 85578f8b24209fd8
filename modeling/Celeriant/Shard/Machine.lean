import Celeriant.Lib.Transition
import Celeriant.Shard.Segments

/-!
# One shard as interleaving tasks

The executor of a shard is single-threaded: tasks interleave only where one of them awaits. A state
records, for every suspended task, where it is suspended and which values it took with it. An action
runs one task from one suspension point to the next, so an action is atomic exactly when the code
between two awaits is.

* `ShardMemCache` holds the three queues an entry passes through and the signals a rollback leaves
  for waiting tasks: two one-shot flags and a generation counter. The byte counters kept beside the
  queues are zero exactly when their queue is empty, which is all the modelled functions ask.
* The fsync gate has one holder at a time (`GateTask`): a data fsync, a header-only fsync or a
  truncation. `sync` and `rotate` copy the metadata record before they await and use the copy
  afterwards.
* The replication coordinator runs one cycle at a time (`ReplTask`); a captured snapshot lives in
  the task, no longer in the queue.
* Culls (`CullTask`) run without the gate: they rewind the cursors first, rebuild chain tips from
  disk, and only then drop the queues. Several may be under way.
* Truncations check the ack barrier before they wait for the gate.

The node's role changes at any time; here it is the choice of the action (the commit target of a
capture, whether a cycle ends `published`, `failed` or `leaseLost`). `ShardHistory` records what
happened and is never read by a step.

## Main definitions

* `ShardMemCache`: the append queue, the batches awaiting replication, the parked commits
* `Shard`, `ShardAction`, `Shard.step`: states, actions, the step function
* `Shard.initial`: a fresh shard
-/

namespace Celeriant

/-- What a capture phase reports to the coordinator. -/
inductive CaptureResult (δ : Type)
  | failed
  | noCaptureRaceButOk
  | captured (data : δ)

/-- Why a replication cycle is entered. -/
inductive ReplicationTrigger
  | write
  | probe
  | commitNotify
  deriving DecidableEq, Repr

/-- The queues of a shard and its rollback signals. -/
structure ShardMemCache where
  pendingAppendQueue : List EntryId
  pendingReplicationBatches : List PendingCommitData
  parkedCommits : List PendingCommitData
  fsyncRollbackOccurred : Bool
  replicationRollbackOccurred : Bool
  rollbackGeneration : ℕ
  deriving DecidableEq, Repr

namespace ShardMemCache

def empty : ShardMemCache := ⟨[], [], [], false, false, 0⟩

variable (mc : ShardMemCache)

def addToPendingQueue (entries : List EntryId) : ShardMemCache :=
  { mc with pendingAppendQueue := mc.pendingAppendQueue ++ entries }

def pushPendingReplication (batch : PendingCommitData) : ShardMemCache :=
  { mc with pendingReplicationBatches := mc.pendingReplicationBatches ++ [batch] }

/-- Returned batches go to the front: they are replicated before newer ones. -/
def returnToPendingReplication (batches : List PendingCommitData) : ShardMemCache :=
  { mc with pendingReplicationBatches := batches ++ mc.pendingReplicationBatches }

def pushParkedCommit (batch : PendingCommitData) : ShardMemCache :=
  { mc with parkedCommits := mc.parkedCommits ++ [batch] }

/-- The parked batches that `drain_parked_commits_up_to` pops: a prefix, by tip. -/
def parkedUpTo (target : ℕ) : List PendingCommitData :=
  mc.parkedCommits.takeWhile fun p => p.tip ≤ target

def drainParkedCommitsUpTo (target : ℕ) : ShardMemCache :=
  { mc with parkedCommits := mc.parkedCommits.dropWhile fun p => p.tip ≤ target }

/-- `take_all_parked_commits` and `clear_parked_commits`. -/
def clearParkedCommits : ShardMemCache := { mc with parkedCommits := [] }

/-! ## Rollbacks -/

/-- The flag is raised only when the rollback takes something from the append queue. -/
def executeFsyncRollback : ShardMemCache :=
  { mc with
    pendingAppendQueue := []
    fsyncRollbackOccurred := mc.fsyncRollbackOccurred || !mc.pendingAppendQueue.isEmpty
    rollbackGeneration := mc.rollbackGeneration + 1 }

/-- What awaits replication goes too. -/
def executeReplicationRollback : ShardMemCache :=
  { mc.executeFsyncRollback with
    replicationRollbackOccurred :=
      mc.replicationRollbackOccurred || !mc.pendingReplicationBatches.isEmpty
    pendingReplicationBatches := [] }

def clearAllCaches : ShardMemCache := mc.executeReplicationRollback.clearParkedCommits

/-- The append queue stays; flag and generation move only when a queued batch is dropped. -/
def clearSpeculativeWriteCachesForCull : ShardMemCache :=
  { mc with
    pendingReplicationBatches := []
    replicationRollbackOccurred :=
      mc.replicationRollbackOccurred || !mc.pendingReplicationBatches.isEmpty
    rollbackGeneration :=
      if mc.pendingReplicationBatches.isEmpty then mc.rollbackGeneration
      else mc.rollbackGeneration + 1 }

/-! ## Capture phases -/

/-- The rollback flag is consumed before anything else is looked at. -/
def captureFsyncSnapshot : CaptureResult (List EntryId) × ShardMemCache :=
  if mc.fsyncRollbackOccurred then (.failed, { mc with fsyncRollbackOccurred := false })
  else if mc.pendingAppendQueue.isEmpty then (.noCaptureRaceButOk, mc)
  else (.captured mc.pendingAppendQueue, { mc with pendingAppendQueue := [] })

/-- A commit notify that finds pending batches yields to the write cycle behind it; a write that
finds none reports that an earlier cycle took its batch. -/
def captureReplicationSnapshot (trigger : ReplicationTrigger) :
    CaptureResult (List PendingCommitData) × ShardMemCache :=
  if mc.replicationRollbackOccurred then (.failed, { mc with replicationRollbackOccurred := false })
  else if trigger = .commitNotify ∧ !mc.pendingReplicationBatches.isEmpty then
    (.noCaptureRaceButOk, mc)
  else if trigger = .write ∧ mc.pendingReplicationBatches.isEmpty then (.noCaptureRaceButOk, mc)
  else (.captured mc.pendingReplicationBatches, { mc with pendingReplicationBatches := [] })

variable {mc}

theorem captureFsyncSnapshot_flag (h : mc.fsyncRollbackOccurred = true) :
    mc.captureFsyncSnapshot = (.failed, { mc with fsyncRollbackOccurred := false }) := by
  rw [captureFsyncSnapshot, if_pos h]

theorem captureFsyncSnapshot_empty (h : mc.fsyncRollbackOccurred = false)
    (empty : mc.pendingAppendQueue = []) :
    mc.captureFsyncSnapshot = (.noCaptureRaceButOk, mc) := by
  rw [captureFsyncSnapshot, if_neg (by simp [h]), if_pos (by simp [empty])]

theorem captureFsyncSnapshot_captured (h : mc.fsyncRollbackOccurred = false)
    (nonempty : mc.pendingAppendQueue ≠ []) :
    mc.captureFsyncSnapshot =
      (.captured mc.pendingAppendQueue, { mc with pendingAppendQueue := [] }) := by
  rw [captureFsyncSnapshot, if_neg (by simp [h]), if_neg (by simpa using nonempty)]

theorem captureReplicationSnapshot_flag {trigger : ReplicationTrigger}
    (h : mc.replicationRollbackOccurred = true) :
    mc.captureReplicationSnapshot trigger =
      (.failed, { mc with replicationRollbackOccurred := false }) := by
  rw [captureReplicationSnapshot, if_pos h]

/-- Without the flag a capture yields or takes the whole queue. -/
theorem captureReplicationSnapshot_cases {trigger : ReplicationTrigger}
    (h : mc.replicationRollbackOccurred = false) :
    (((trigger = .commitNotify ∧ mc.pendingReplicationBatches ≠ []) ∨
        (trigger = .write ∧ mc.pendingReplicationBatches = [])) ∧
      mc.captureReplicationSnapshot trigger = (.noCaptureRaceButOk, mc)) ∨
    ((trigger = .commitNotify → mc.pendingReplicationBatches = []) ∧
      (trigger = .write → mc.pendingReplicationBatches ≠ []) ∧
      mc.captureReplicationSnapshot trigger =
        (.captured mc.pendingReplicationBatches, { mc with pendingReplicationBatches := [] })) := by
  rw [captureReplicationSnapshot, if_neg (by simp [h])]
  split
  next notify => exact .inl ⟨.inl ⟨notify.1, by simpa using notify.2⟩, rfl⟩
  next notify =>
    split
    next race => exact .inl ⟨.inr ⟨race.1, by simpa using race.2⟩, rfl⟩
    next race =>
      refine .inr ⟨fun ht => ?_, fun ht => ?_, rfl⟩
      · simpa [ht] using notify
      · simpa [ht] using race

end ShardMemCache

/-! ## Tasks -/

/-- The holder of the fsync gate and where it is suspended. -/
inductive GateTask
  | idle
  /-- a full commit without room writes the sidecar of the segment it is about to seal -/
  | sealing (entries : List EntryId)
  /-- `rotate` has copied `source` and creates the next file -/
  | rotating (target : CommitTarget) (entries : List EntryId) (source : LogSegmentFileMetadata)
  /-- `sync` has cloned the record and writes the batch -/
  | writing (target : CommitTarget) (entries : List EntryId) (logId : ℕ)
      (clone : LogSegmentFileMetadata)
  /-- a dual-header write of `clone` without a batch -/
  | headerOnly (logId : ℕ) (clone : LogSegmentFileMetadata)
  /-- `truncate_wal` has cleared the caches and opens the sealed segment -/
  | unwinding (divergentLogId divergentWalSeq : ℕ)
  /-- the sealed segment is active again; the discarded files are being closed -/
  | unwound (divergentWalSeq : ℕ)
  /-- the cursors are rewound; `truncate_wal` waits for the writer -/
  | rewound
  deriving DecidableEq, Repr

/-- The copy of a record that the gate holder is going to write, and its segment. -/
def GateTask.cloneOf : GateTask → Option (ℕ × LogSegmentFileMetadata)
  | writing _ _ logId clone => some (logId, clone)
  | headerOnly logId clone => some (logId, clone)
  | _ => none

/-- The record a rotation copied. -/
def GateTask.sourceOf : GateTask → Option LogSegmentFileMetadata
  | rotating _ _ source => some source
  | _ => none

/-- The segment and first removed entry of a truncation that is opening a sealed segment. -/
def GateTask.unwindTarget : GateTask → Option (ℕ × ℕ)
  | unwinding g d => some (g, d)
  | _ => none

/-- The first removed entry of a truncation that is about to rewind the cursors. -/
def GateTask.rewindTarget : GateTask → Option ℕ
  | unwound d => some d
  | _ => none

/-- The fsync under way commits in full. -/
def GateTask.isFullCommit : GateTask → Bool
  | writing .fullCommit _ _ _ => true
  | _ => false

/-- `truncate_wal` holds the gate. -/
def GateTask.isTruncation : GateTask → Bool
  | unwinding _ _ => true
  | unwound _ => true
  | rewound => true
  | _ => false

/-- The replication cycle and where it is suspended. -/
inductive ReplTask
  | idle
  /-- the snapshot is out of the queue; the cycle sends, backs off or uploads -/
  | sending (snapshot : List PendingCommitData)
  /-- the snapshot was accepted and committed; sidecars are being written -/
  | published (snapshot : List PendingCommitData)
  /-- the ack barrier was raised; its header fsync is awaited -/
  | persisting (snapshot : List PendingCommitData)
  deriving DecidableEq, Repr

namespace ReplTask

/-- The captured batches that are not committed yet. -/
def snapshot : ReplTask → List PendingCommitData
  | sending ps => ps
  | idle => []
  | published _ => []
  | persisting _ => []

def mapSnapshot (f : PendingCommitData → PendingCommitData) : ReplTask → ReplTask
  | sending ps => sending (ps.map f)
  | idle => idle
  | published ps => published ps
  | persisting ps => persisting ps

@[simp] theorem snapshot_mapSnapshot (f : PendingCommitData → PendingCommitData) (r : ReplTask) :
    (r.mapSnapshot f).snapshot = r.snapshot.map f := by
  cases r <;> rfl

end ReplTask

/-- Where a cull puts the cursors. -/
inductive CullTarget
  | writeToRead (read : ℕ)
  | bothToAckBarrier (cursor : ℕ)
  deriving DecidableEq, Repr

namespace CullTarget

/-- Where the target puts the write cursor. -/
def walSeq : CullTarget → ℕ
  | writeToRead read => read
  | bothToAckBarrier cursor => cursor

/-- The cursor updates of `cull_tail`. -/
def rewind : CullTarget → LogSegmentFileMetadata → LogSegmentFileMetadata
  | writeToRead read, m => { m with write := read }
  | bothToAckBarrier cursor, m => { m with write := cursor, read := some cursor }

def isBarrier : CullTarget → Bool
  | writeToRead _ => false
  | bothToAckBarrier _ => true

@[simp] theorem rewind_write (target : CullTarget) (m : LogSegmentFileMetadata) :
    (target.rewind m).write = target.walSeq := by
  cases target <;> rfl

@[simp] theorem rewind_lastSelfAcked (target : CullTarget) (m : LogSegmentFileMetadata) :
    (target.rewind m).lastSelfAckedWalSeq = m.lastSelfAckedWalSeq := by
  cases target <;> rfl

end CullTarget

/-- A role-transition reconciliation and where it is suspended. -/
inductive CullTask
  /-- reads the newest metablock of segment `logId` up to `write` to learn whose the tail is; the
  three cursors are from before the await -/
  | provenance (mode : TailReconciliation) (read : Option ℕ) (logId write : ℕ)
  /-- looks for the cursor at the ack barrier -/
  | locating (barrier : ℕ)
  /-- the cursors are rewound; chain tips are being rebuilt, the queues are not dropped yet -/
  | rewound (demotion : Bool)
  deriving DecidableEq, Repr

def CullTask.isRewound : CullTask → Bool
  | provenance _ _ _ _ => false
  | locating _ => false
  | rewound _ => true

/-! ## The state -/

/-- What has happened so far. -/
structure ShardHistory where
  /-- the batches passed to `commit_pcd`, as they were then -/
  committed : List PendingCommitData
  /-- the batches a cycle put back into the queue, as they were then -/
  requeued : List PendingCommitData
  /-- entries of fsync cycles that succeeded -/
  fsynced : List EntryId
  /-- entries of replication cycles that were accepted -/
  accepted : List EntryId
  /-- entries dropped by a rollback, a cull, a truncation or a failed cycle -/
  discarded : List EntryId
  /-- the largest `wal_seq` of the snapshots whose `commit_replication` returned Ok -/
  acked : ℕ
  deriving DecidableEq, Repr

/-- The state of a shard, with every suspended task. -/
structure Shard where
  segments : LogSegmentsCache
  cache : ShardMemCache
  gate : GateTask
  repl : ReplTask
  culls : List CullTask
  /-- truncations that passed the barrier check and wait for the gate -/
  truncations : List (ℕ × ℕ)
  ackBarrierRewindArmed : Bool
  history : ShardHistory

/-- The entries of some batches. -/
def entriesOf (ps : List PendingCommitData) : List EntryId := ps.flatMap (·.pendingQueue)

/-- The largest tip of some batches. -/
def maxTip (ps : List PendingCommitData) : ℕ := (ps.map (·.tip)).foldr max 0

theorem maxTip_le {ps n} (h : ∀ p ∈ ps, p.tip ≤ n) :
    maxTip ps ≤ n := by
  induction ps with
  | nil => exact Nat.zero_le n
  | cons q ps ih =>
    exact Nat.max_le.mpr ⟨h q List.mem_cons_self,
      ih fun p hp => h p (List.mem_cons_of_mem q hp)⟩

namespace Shard

/-- A fresh shard: the first segment, empty, with its read cursor at the start. -/
def initial : Shard where
  segments :=
    { files := fun _ => ⟨⟨0, some 0, 0, 0⟩, ⟨0, some 0, 0, 0⟩, false⟩
      activeLogId := 1 }
  cache := .empty
  gate := .idle
  repl := .idle
  culls := []
  truncations := []
  ackBarrierRewindArmed := true
  history := ⟨[], [], [], [], [], 0⟩

variable (s : Shard)

/-- Some cull has rewound the cursors and not dropped the queues yet. -/
def InCullWindow : Prop := ∃ task ∈ s.culls, task.isRewound = true
  deriving Decidable

/-! ## Fsync cycles -/

/-- Whether the captured batch fits the active segment. -/
inductive SpaceCheck
  | fits
  | rotate
  | tooLarge
  deriving DecidableEq, Repr

/-- `commit_fsync_with_rollback` up to its first await. Without room for the batch, and none in a
new segment either, it returns an error and the batch is gone without a rollback. -/
def beginFsync (target : CommitTarget) (space : SpaceCheck) (entries : List EntryId) : Shard :=
  match space with
  | .fits => { s with gate := .writing target entries s.segments.activeLogId s.segments.active }
  | .rotate =>
    if target = .fullCommit then { s with gate := .sealing entries }
    else { s with gate := .rotating target entries s.segments.active }
  | .tooLarge =>
    { s with history := { s.history with discarded := s.history.discarded ++ entries } }

/-- The gate holder gives up with an error that does not roll back. -/
def abandonFsync (entries : List EntryId) : Shard :=
  { s with
    gate := .idle
    history := { s.history with discarded := s.history.discarded ++ entries } }

/-- `rotate_to_next_log` has returned: `sync` clones the new active record at once. -/
def finishRotation (target : CommitTarget) (entries : List EntryId)
    (source : LogSegmentFileMetadata) : Shard :=
  { s with
    segments := s.segments.rotateToNextLog source
    gate := .writing target entries (s.segments.activeLogId + 1) source.rotated }

/-- The end of a successful `sync` (the header is durable) and `commit_sync`: the record made
from the clone replaces the record in memory, and the deferred half is queued. -/
def commitSync (target : CommitTarget) (entries : List EntryId) (logId : ℕ)
    (clone : LogSegmentFileMetadata) : Shard :=
  let newMetadata := clone.synced target entries.length
  let pendingCommitData : PendingCommitData := ⟨logId, newMetadata, entries, false⟩
  { s with
    segments := (s.segments.setHeader logId newMetadata).setMetadata logId newMetadata
    gate := .idle
    cache :=
      match target with
      | .fullCommit => s.cache
      | .deferToReplicationAck => s.cache.pushPendingReplication pendingCommitData
      | .deferToLeaderConfirmed => s.cache.pushParkedCommit pendingCommitData
    history := { s.history with fsynced := s.history.fsynced ++ entries } }

/-- A failed `sync` and `rollback_sync`; the header may have reached the disk before the
failure. -/
def rollbackSync (headerLanded : Bool) (target : CommitTarget) (entries : List EntryId)
    (logId : ℕ) (clone : LogSegmentFileMetadata) : Shard :=
  { s with
    segments :=
      if headerLanded then s.segments.setHeader logId (clone.synced target entries.length)
      else s.segments
    gate := .idle
    cache := s.cache.executeFsyncRollback
    history :=
      { s.history with
        discarded := s.history.discarded ++ entries ++ s.cache.pendingAppendQueue } }

/-- `sync_header_only` clones the record once it has the writer. -/
def beginHeaderSync (logId : ℕ) : Shard :=
  { s with gate := .headerOnly logId (s.segments.metadata logId) }

/-- The header has landed, or not. -/
def finishHeaderSync (landed : Bool) (logId : ℕ) (clone : LogSegmentFileMetadata) : Shard :=
  { s with
    segments := if landed then s.segments.setHeader logId clone else s.segments
    gate := .idle }

/-! ## Commits of deferred batches -/

/-- `commit_pcd` for each batch in order. -/
def commitAll (ps : List PendingCommitData) : Shard :=
  { s with
    segments := s.segments.commitPcds ps
    history := { s.history with committed := s.history.committed ++ ps } }

/-- The cycle's snapshot was accepted; each batch goes through `commit_pcd`. -/
def publish (ps : List PendingCommitData) : Shard :=
  { s.commitAll ps with
    repl := .published ps
    history :=
      { s.history with
        committed := s.history.committed ++ ps
        accepted := s.history.accepted ++ entriesOf ps } }

/-- The cycle fails; its snapshot goes back to the front of the queue. -/
def returnSnapshot (ps : List PendingCommitData) : Shard :=
  { s with
    cache := s.cache.returnToPendingReplication ps
    repl := .idle
    history := { s.history with requeued := s.history.requeued ++ ps } }

/-- `commit_replication` returns Ok. -/
def acknowledge (ps : List PendingCommitData) : Shard :=
  { s with
    repl := .idle
    history := { s.history with acked := max s.history.acked (maxTip ps) } }

/-- The barrier bump of `commit_replication`, from the active segment's read cursor. -/
def selfAck (ps : List PendingCommitData) : Shard :=
  let ackedWal := s.segments.active.readWalSeq
  if 0 < ackedWal ∧ s.segments.active.lastSelfAckedWalSeq < ackedWal then
    { s with
      segments := s.segments.updateActive (·.selfAckedTo ackedWal)
      repl := .persisting ps }
  else s.acknowledge ps

def updatePromotionFloor (leaderConfirmedWalSeq : ℕ) : Shard :=
  { s with segments := s.segments.updateActive (·.raiseFloor leaderConfirmedWalSeq) }

def clearPromotionFloor : Shard :=
  { s with segments := s.segments.updateActive (·.clearFloor) }

/-- Every parked batch is committed. -/
def commitParked : Shard :=
  { s.commitAll s.cache.parkedCommits with cache := s.cache.clearParkedCommits }

/-- `advance_visible_position` on the active record. -/
def advanceActive : Shard :=
  { s with segments := s.segments.updateActive (·.advanceVisiblePosition) }

/-- The parked batches up to `target` are committed. -/
def commitParkedUpTo (target : ℕ) : Shard :=
  { s.commitAll (s.cache.parkedUpTo target) with cache := s.cache.drainParkedCommitsUpTo target }

/-- `drain_parked_commits`; its last step is the cold prefix after a restart. -/
def drainParkedCommits (leaderConfirmedWalSeq : ℕ) : Shard :=
  let target := min leaderConfirmedWalSeq s.segments.active.write
  if target ≤ s.segments.active.readWalSeq then s
  else
    let drained := s.commitParkedUpTo target
    if drained.segments.active.readWalSeq < target ∧ target = drained.segments.active.write ∧
        drained.cache.parkedCommits = [] then
      drained.advanceActive
    else drained

/-- `commit_durable_tail` up to its header fsync. -/
def commitDurableTail : Shard :=
  let drained := s.commitParked
  if drained.segments.active.readWalSeq < drained.segments.active.write then
    drained.advanceActive
  else drained

/-! ## Culls -/

/-- Records that the chain lost what lies above `n` in segment `g` and everything in later
segments. -/
def removeAbove (g n : ℕ) : Shard :=
  { s with
    cache :=
      { s.cache with
        pendingReplicationBatches := s.cache.pendingReplicationBatches.map (·.markRemoved g n)
        parkedCommits := s.cache.parkedCommits.map (·.markRemoved g n) }
    repl := s.repl.mapSnapshot (·.markRemoved g n)
    history :=
      { s.history with
        discarded := s.history.discarded ++
          entriesOf ((s.repl.snapshot ++ s.cache.pendingReplicationBatches ++
            s.cache.parkedCommits).filter fun p => p.RemovedBy g n) } }

/-- `cull_tail` up to its first await. -/
def beginCull (target : CullTarget) : Shard :=
  let rewound : Shard := { s with segments := s.segments.updateActive target.rewind }
  { rewound.removeAbove s.segments.activeLogId target.walSeq with
    culls := s.culls ++ [.rewound target.isBarrier] }

/-- `reconcile_durable_tail` up to its first await. -/
def reconcileDurableTail (mode : TailReconciliation) : Shard :=
  let m := s.segments.active
  match mode with
  | .rewindToAckBarrier =>
    let disarmed : Shard := { s with ackBarrierRewindArmed := false }
    match m.read with
    | none => disarmed
    | some read =>
      if read < m.write then disarmed.beginCull (.writeToRead read)
      else
        let barrier := max m.lastSelfAckedWalSeq m.lastReceivedReplicationWalSeq
        if s.ackBarrierRewindArmed ∧ 0 < m.lastSelfAckedWalSeq ∧ barrier < read then
          { disarmed with culls := s.culls ++ [.locating barrier] }
        else disarmed
  | .commitForPromotion =>
    if m.write ≤ m.readWalSeq then s
    else if s.cache.parkedCommits.isEmpty then
      { s with culls := s.culls ++ [.provenance mode m.read s.segments.activeLogId m.write] }
    else s.commitDurableTail
  | .reconcileAsFollower =>
    if m.write ≤ m.readWalSeq then s
    else if s.cache.parkedCommits.isEmpty then
      { s with culls := s.culls ++ [.provenance mode m.read s.segments.activeLogId m.write] }
    else s

/-- A reconciliation leaves its suspension point. -/
def dropCull (i : ℕ) : Shard := { s with culls := s.culls.eraseIdx i }

/-- The tail's owner is known: a peer's tail is committed or kept, an own tail is culled. -/
def decideTail (mode : TailReconciliation) (read : Option ℕ) (isPeer : Bool) : Shard :=
  if isPeer then
    if mode = .commitForPromotion then s.commitDurableTail else s
  else
    match read with
    | none => s
    | some read => s.beginCull (.writeToRead read)

/-- `cull_tail` after the rebuild: the queues are dropped. -/
def finishCull (demotion : Bool) : Shard :=
  if demotion then
    { s with
      cache := s.cache.clearAllCaches
      history :=
        { s.history with
          discarded := s.history.discarded ++ s.cache.pendingAppendQueue ++
            entriesOf (s.cache.pendingReplicationBatches ++ s.cache.parkedCommits) } }
  else
    { s with
      cache := s.cache.clearSpeculativeWriteCachesForCull.clearParkedCommits
      history :=
        { s.history with
          discarded := s.history.discarded ++
            entriesOf (s.cache.pendingReplicationBatches ++ s.cache.parkedCommits) } }

/-! ## Truncation -/

/-- Step 3 of `truncate_wal`: both cursors of the active segment go to `n`. -/
def rewindActive (n : ℕ) : Shard :=
  let rewound : Shard :=
    { s with segments := s.segments.updateActive (·.truncatedTo n), gate := .rewound }
  rewound.removeAbove s.segments.activeLogId n

/-- Step 2 of `truncate_wal` under the gate: the parked batches below the divergence are
committed, everything else queued is dropped. -/
def clearForTruncate (divergentWalSeq : ℕ) : Shard :=
  let survived := s.commitParkedUpTo (divergentWalSeq - 1)
  { survived with
    cache := survived.cache.clearAllCaches
    history :=
      { survived.history with
        discarded := survived.history.discarded ++ s.cache.pendingAppendQueue ++
          entriesOf (s.cache.pendingReplicationBatches ++ survived.cache.parkedCommits) } }

/-- `truncate_wal` from the gate to its next await. -/
def beginTruncate (divergentLogId divergentWalSeq : ℕ) : Shard :=
  let cleared := s.clearForTruncate divergentWalSeq
  if divergentLogId = s.segments.activeLogId then cleared.rewindActive (divergentWalSeq - 1)
  else if divergentLogId < s.segments.activeLogId then
    { cleared with gate := .unwinding divergentLogId divergentWalSeq }
  else cleared

/-- The sealed segment is open and becomes active; the later ones are discarded. -/
def unwind (divergentLogId divergentWalSeq : ℕ) : Shard :=
  let swapped : Shard :=
    { s with
      segments := (s.segments.load divergentLogId).unwindActiveToSealed divergentLogId
      gate := .unwound divergentWalSeq }
  swapped.removeAbove divergentLogId (divergentWalSeq - 1)

/-- The process restarts: tasks and queues are gone, records come from the headers. -/
def restart : Shard :=
  { s with
    segments := s.segments.readyUp
    cache := .empty
    gate := .idle
    repl := .idle
    culls := []
    truncations := []
    ackBarrierRewindArmed := true }

end Shard

/-! ## Actions -/

/-- One task runs to its next await. -/
inductive ShardAction
  | enqueue (entries : List EntryId)
  | fsyncCapture (target : CommitTarget) (space : Shard.SpaceCheck)
  | sidecarWritten (ok : Bool)
  | rotated (ok : Bool)
  | syncSucceeded
  | syncFailed (headerLanded : Bool)
  | headerSync (logId : ℕ)
  | headerSyncDone (landed : Bool)
  | replicationCapture (trigger : ReplicationTrigger)
  | replicationPublished
  | replicationFailed
  | selfAck
  | leaseLost
  | barrierPersisted
  | updatePromotionFloor (leaderConfirmedWalSeq : ℕ)
  | clearPromotionFloor
  | drainParkedCommits (leaderConfirmedWalSeq : ℕ)
  | commitParkedBeforeCatchup
  | reconcileDurableTail (mode : TailReconciliation)
  | tailProvenance (i : ℕ) (isPeer : Bool)
  | ackBarrierCursor (i : ℕ)
  | chainTipsRebuilt (i : ℕ)
  | reconcileFailed (i : ℕ)
  | armAckBarrierRewind
  | truncateWal (divergentLogId divergentWalSeq : ℕ)
  | truncateGate (i : ℕ)
  | truncateTimeout (i : ℕ)
  | unwindOpened
  | unwindClosed
  | truncateHeader
  | truncateFailed
  | evictFromLru (logId : ℕ)
  | load (logId : ℕ)
  | restart
  deriving DecidableEq, Repr

namespace Shard

/-- One task runs to its next suspension point. -/
def step (s : Shard) : ShardAction → Option Shard
  | .enqueue entries => some { s with cache := s.cache.addToPendingQueue entries }
  | .fsyncCapture target space =>
    if s.gate = .idle then
      match s.cache.captureFsyncSnapshot with
      | (.captured entries, cache) => some ({ s with cache }.beginFsync target space entries)
      | (.failed, cache) => some { s with cache }
      | (.noCaptureRaceButOk, cache) => some { s with cache }
    else none
  | .sidecarWritten ok =>
    match s.gate with
    | .sealing entries =>
      some (if ok then { s with gate := .rotating .fullCommit entries s.segments.active }
        else s.abandonFsync entries)
    | _ => none
  | .rotated ok =>
    match s.gate with
    | .rotating target entries source =>
      some (if ok then s.finishRotation target entries source else s.abandonFsync entries)
    | _ => none
  | .syncSucceeded =>
    match s.gate with
    | .writing target entries logId clone => some (s.commitSync target entries logId clone)
    | _ => none
  | .syncFailed headerLanded =>
    match s.gate with
    | .writing target entries logId clone =>
      some (s.rollbackSync headerLanded target entries logId clone)
    | _ => none
  | .headerSync logId =>
    if s.gate = .idle ∧ logId ≤ s.segments.activeLogId then some (s.beginHeaderSync logId) else none
  | .headerSyncDone landed =>
    match s.gate with
    | .headerOnly logId clone => some (s.finishHeaderSync landed logId clone)
    | _ => none
  | .replicationCapture trigger =>
    if s.repl = .idle then
      match s.cache.captureReplicationSnapshot trigger with
      | (.captured snapshot, cache) => some { s with cache, repl := .sending snapshot }
      | (.failed, cache) => some { s with cache }
      | (.noCaptureRaceButOk, cache) => some { s with cache }
    else none
  | .replicationPublished =>
    match s.repl with
    | .sending ps => some (s.publish ps)
    | _ => none
  | .replicationFailed =>
    match s.repl with
    | .sending ps => some (s.returnSnapshot ps)
    | _ => none
  | .selfAck =>
    match s.repl with
    | .published ps => some (s.selfAck ps)
    | _ => none
  | .leaseLost =>
    match s.repl with
    | .published _ => some { s with repl := .idle }
    | _ => none
  | .barrierPersisted =>
    match s.repl with
    | .persisting ps => some (s.acknowledge ps)
    | _ => none
  | .updatePromotionFloor n => some (s.updatePromotionFloor n)
  | .clearPromotionFloor => some s.clearPromotionFloor
  | .drainParkedCommits n => some (s.drainParkedCommits n)
  | .commitParkedBeforeCatchup => some s.commitParked
  | .reconcileDurableTail mode => some (s.reconcileDurableTail mode)
  | .tailProvenance i isPeer =>
    match s.culls[i]? with
    | some (.provenance mode read _ _) => some ((s.dropCull i).decideTail mode read isPeer)
    | _ => none
  | .ackBarrierCursor i =>
    match s.culls[i]? with
    | some (.locating barrier) => some ((s.dropCull i).beginCull (.bothToAckBarrier barrier))
    | _ => none
  | .chainTipsRebuilt i =>
    match s.culls[i]? with
    | some (.rewound demotion) => some ((s.dropCull i).finishCull demotion)
    | _ => none
  | .reconcileFailed i => if i < s.culls.length then some (s.dropCull i) else none
  | .armAckBarrierRewind => some { s with ackBarrierRewindArmed := true }
  | .truncateWal divergentLogId divergentWalSeq =>
    if s.segments.active.lastSelfAckedWalSeq < divergentWalSeq then
      some { s with truncations := s.truncations ++ [(divergentLogId, divergentWalSeq)] }
    else none
  | .truncateGate i =>
    match s.truncations[i]?, s.gate with
    | some (divergentLogId, divergentWalSeq), .idle =>
      some ({ s with truncations := s.truncations.eraseIdx i }.beginTruncate
        divergentLogId divergentWalSeq)
    | _, _ => none
  | .truncateTimeout i =>
    if i < s.truncations.length then
      some { s with truncations := s.truncations.eraseIdx i }
    else none
  | .unwindOpened =>
    match s.gate with
    | .unwinding divergentLogId divergentWalSeq => some (s.unwind divergentLogId divergentWalSeq)
    | _ => none
  | .unwindClosed =>
    match s.gate with
    | .unwound divergentWalSeq => some (s.rewindActive (divergentWalSeq - 1))
    | _ => none
  | .truncateHeader =>
    match s.gate with
    | .rewound => some (s.beginHeaderSync s.segments.activeLogId)
    | _ => none
  | .truncateFailed => if s.gate.isTruncation then some { s with gate := .idle } else none
  | .evictFromLru logId => some { s with segments := s.segments.evictFromLru logId }
  | .load logId =>
    if logId ≤ s.segments.activeLogId then some { s with segments := s.segments.load logId }
    else none
  | .restart => some s.restart

end Shard

end Celeriant
