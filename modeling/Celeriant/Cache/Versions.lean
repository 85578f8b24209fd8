import Celeriant.Cache.Life
import Celeriant.Cache.WritePath

/-!
# Versions are gapless

The next version of an aggregate is computed from an overlay: the queue position if there is one,
else the write snapshot. The invariant says that both describe the log, the queue position with what
is queued and in flight, the write snapshot with what is durable, and that an aggregate without a
queue position has nothing but trims on its way to the disk. In every run that keeps to `Safe` the
log is then numbered without gap or repeat.

`Safe` excludes what breaks the overlay: a recreation without sequence continuation (the merges keep
the higher version of the life before), a write whose snapshot was evicted after its validation, a
counter at its end, a trim admitted by the load although a tombstone is queued, a scan that ends
with metablocks it did not see or passes an older batch, a tombstone queued during the fsync of its
version or recreated within one deferred fsync, a batch dropped without a rollback, and a deferred
trim committed after its snapshot was evicted.

## Main results

* `WritePath.Inv.step`
* `versions_gapless`, `fresh_incarnation_skips_versions`
-/

namespace Celeriant

open MemSnapshotAggregate List Option

namespace WritePath

variable {γ : Type}

/-- The durable metablocks. -/
def log (s : WritePath γ) : List (AggregateBlock γ) := s.wal.map (·.block)

/-- The metablocks that an fsync is writing. -/
def inflight (s : WritePath γ) : List (AggregateBlock γ) :=
  match s.fsync with
  | some captured => captured.blocks
  | none => []

/-- Durable, in flight and queued. -/
def pipeline (s : WritePath γ) : List (AggregateBlock γ) := s.log ++ (s.inflight ++ s.queue)

/-- What a queue position says over a log of which `rest` is not durable: an entry describes all of
it, and without an entry, or with one that only trims made, nothing but trims is on its way. -/
structure Overlay (log rest : List (AggregateBlock γ))
    (entry : Option (QueueAggregatePositions γ)) :
    Prop where
  describes : ∀ q ∈ entry, q.Describes (Life.after .unborn (log ++ rest))
  idle : (∀ q ∈ entry, q.pendingDelete = false ∧ q.hadEventBatch = false) →
    ∀ b ∈ rest, b.isTrim = true

/-- A statement about the whole pipeline, and one about a queue position over a log and what is not
durable, which holds of the current position and of the captured one. -/
structure Carries (whole : List (AggregateBlock γ) → Prop)
    (entry : List (AggregateBlock γ) → List (AggregateBlock γ) →
      Option (QueueAggregatePositions γ) → Prop) (s : WritePath γ) : Prop where
  whole : whole s.pipeline
  positions : entry s.log (s.inflight ++ s.queue) s.positions
  captured : ∀ c ∈ s.fsync, entry s.log c.blocks c.positions

structure Inv (s : WritePath γ) : Prop extends Carries (Continued .unborn) Overlay s where
  snapshot : ∀ m ∈ s.writeSnapshot, m.Describes (Life.after .unborn s.log)
  deferred : ∀ batch ∈ s.deferred, ∀ e ∈ batch.blocks, e ∈ s.wal

/-! ## The steps that keep the invariant -/

/-- A write that is prepared has a queue position or a snapshot to see, starts no fresh incarnation
of a deleted aggregate, and does not reach the end of a counter. -/
def safePrepare (s : WritePath γ) (req : WriteRequest γ) : Prop :=
  (s.positions.isSome ∨ s.writeSnapshot.isSome) ∧
    (s.view.pendingDeleteOrDeleted = true → s.view.allowSequenceContinuation = true) ∧
    s.view.aggregateVersion + 1 ≤ u64Max ∧ s.view.eventSeq + 1 ≤ u64Max ∧
    s.view.eventSeq + req.clientSeqs.length ≤ u64Max

def AggregateOperation.isTrim : AggregateOperation γ → Bool
  | .trim _ => true
  | _ => false

/-- A write-path scan ends with every durable metablock seen, and a trim finds no queued tombstone
then. -/
def safeScan (s : WritePath γ) (op : AggregateOperation γ) (bound : ℕ) : Prop :=
  op.cachePath = .write →
    (∀ e ∈ s.wal, e.walSeq ≤ bound) ∧
      (AggregateOperation.isTrim op = true → ∀ q ∈ s.positions, q.pendingDelete = false)

/-- When the captured position is of a living aggregate: no tombstone of the same version was queued
since, and an fsync that defers to replication carries no tombstone. -/
def safeSync (s : WritePath γ) (target : CommitTarget) (captured : SyncPositionsSnapshot γ) :
    Prop :=
  ∀ q ∈ captured.positions, q.pendingDelete = false →
    (∀ current ∈ s.positions, current.pendingDelete = true →
      current.aggregateVersion ≠ q.aggregateVersion) ∧
    (target = .deferToReplicationAck → ∀ b ∈ captured.blocks, b.isDelete = false)

/-- A deferred trim is committed while the snapshot is cached. -/
def safeCommit (s : WritePath γ) (batch : DeferredBatch γ) : Prop :=
  (∃ e ∈ batch.blocks, e.block.isTrim = true) → s.writeSnapshot.isSome

/-- The steps that the numbering survives. -/
def Safe [DecidableEq γ] (s : WritePath γ) : WriteAction γ → Prop
  | .finishScan i => ∀ scan ∈ s.scanAt i, s.safeScan scan.1 scan.2
  | .prepare i schemaOk =>
    ∀ req ∈ s.writeAt i .validated,
      (s.validateWrite req schemaOk).isOk = true → s.safePrepare req
  | .passAggregate .write j => s.writeSnapshot.isSome ∨ j + 1 = s.wal.length
  | .syncSucceeded target _ _ _ => ∀ captured ∈ s.fsync, s.safeSync target captured
  | .fsyncAbandoned => ∀ captured ∈ s.fsync, captured.blocks = []
  | .commitPcd => ∀ batch ∈ s.deferred.head?, s.safeCommit batch
  | _ => True

instance [DecidableEq γ] : DecidableRel (Safe : WritePath γ → WriteAction γ → Prop) := fun s a => by
  induction a using WriteAction.casesOn with
  | passAggregate path j => induction path using CachePath.casesOn <;> dsimp only [Safe] <;>
    infer_instance
  | _ => dsimp only [Safe, safePrepare, safeScan, safeSync, safeCommit]; infer_instance

/-! ## What every step does to pipeline and positions -/

theorem pipeline_of_core {s t : WritePath γ} (core : t.core = s.core) :
    t.pipeline = s.pipeline := by
  obtain ⟨wal, queue, -, fsync, -⟩ := core_fields core
  rw [pipeline, pipeline, log, log, inflight, inflight, wal, queue, fsync]

namespace Carries

variable {whole : List (AggregateBlock γ) → Prop}
  {entry : List (AggregateBlock γ) → List (AggregateBlock γ) →
    Option (QueueAggregatePositions γ) → Prop}

/-- Nothing is queued or in flight. -/
theorem settled {s} (pipeline : whole s.log) (nothing : entry s.log [] none)
    (queue : s.queue = []) (positions : s.positions = none) (fsync : s.fsync = none) :
    Carries whole entry s := by
  have inflight : s.inflight = [] := by rw [inflight, fsync]
  constructor
  · rw [WritePath.pipeline, inflight, queue, append_nil, append_nil]
    exact pipeline
  · rw [inflight, queue, positions]
    exact nothing
  · simp [fsync]

variable {s t : WritePath γ} (h : Carries whole entry s)
include h

theorem of_fields (wal : t.wal = s.wal) (queue : t.queue = s.queue)
    (positions : t.positions = s.positions) (fsync : t.fsync = s.fsync) :
    Carries whole entry t := by
  obtain ⟨_, _, _, _, _, _, _, _, _, _, _, _⟩ := t
  cases wal
  cases queue
  cases positions
  cases fsync
  exact ⟨h.whole, h.positions, h.captured⟩

theorem of_core (core : t.core = s.core) : Carries whole entry t := by
  obtain ⟨wal, queue, positions, fsync, -⟩ := core_fields core
  exact h.of_fields wal queue positions fsync

theorem enqueue {b q} (longer : whole (s.pipeline ++ [b]))
    (position : entry s.log (s.inflight ++ s.queue ++ [b]) (some q)) :
    Carries whole entry { s with queue := s.queue ++ [b], positions := some q } := by
  refine ⟨?_, ?_, h.captured⟩
  · rw [pipeline, append_assoc, append_assoc] at longer
    exact longer
  · rw [append_assoc] at position
    exact position

theorem capture (idle : s.fsync = none) :
    Carries whole entry { s with fsync := some ⟨s.positions, s.queue⟩, queue := [] } := by
  have inflight : s.inflight = [] := by rw [inflight, idle]
  have before := h.whole
  have overlay := h.positions
  rw [pipeline, inflight, nil_append] at before
  rw [inflight, nil_append] at overlay
  refine ⟨?_, ?_, ?_⟩
  · show whole (s.log ++ (s.queue ++ []))
    rwa [append_nil]
  · show entry s.log (s.queue ++ []) s.positions
    rwa [append_nil]
  · rintro c ⟨⟩
    exact overlay

variable {captured : SyncPositionsSnapshot γ}

/-- A captured batch without a metablock of this aggregate may be dropped. -/
theorem drop (writing : s.fsync = some captured) (nothing : captured.blocks = []) :
    Carries whole entry { s with fsync := none } := by
  have inflight : s.inflight = [] := by rw [inflight, writing]; exact nothing
  have before := h.whole
  have overlay := h.positions
  rw [pipeline, inflight] at before
  rw [inflight] at overlay
  exact ⟨before, overlay, by simp⟩

end Carries

/-! ## What the overlay shows -/

/-- Without a queue position and a snapshot the version is zero. -/
theorem seen_of_version {s : WritePath γ} (version : s.view.aggregateVersion ≠ 0) :
    s.positions.isSome ∨ s.writeSnapshot.isSome := by
  by_contra unseen
  obtain ⟨entry, cached⟩ := not_or.mp unseen
  simp only [Bool.not_eq_true, isSome_eq_false_iff, isNone_iff_eq_none] at entry cached
  exact version (by rw [view, entry, cached]; rfl)

namespace Inv

variable {s : WritePath γ} (h : s.Inv)
include h

/-- What an operation sees, when it sees anything, is the life of the whole pipeline. -/
theorem view_describes (seen : s.positions.isSome ∨ s.writeSnapshot.isSome) :
    s.view.Describes (Life.after .unborn s.pipeline) := by
  unfold view
  cases entry : s.positions with
  | some q => exact h.positions.describes q entry
  | none =>
    obtain ⟨m, cached⟩ := isSome_iff_exists.mp (seen.resolve_left (by simp [entry]))
    have trims := h.positions.idle (by simp [entry])
    rw [cached, pipeline, Life.after_append, Life.after_trims _ trims]
    exact h.snapshot m cached

/-- An operation that sees a version sees the life of the pipeline. -/
theorem view_of_version (version : s.view.aggregateVersion ≠ 0) :
    s.view.Describes (Life.after .unborn s.pipeline) := h.view_describes (seen_of_version version)

theorem continued : Continued .unborn s.pipeline := h.whole

theorem entry_describes : ∀ q ∈ s.positions, q.Describes (Life.after .unborn s.pipeline) :=
  h.positions.describes

end Inv

/-! ## Enqueueing -/

section Enqueue

variable {s : WritePath γ}

/-- Enqueueing a metablock that follows the pipeline, with an entry that describes the result. -/
theorem Inv.enqueue (h : s.Inv) {b q} (follows : Follows (Life.after .unborn s.pipeline) b)
    (described : q.Describes ((Life.after .unborn s.pipeline).next b))
    (idle : q.pendingDelete = false → q.hadEventBatch = false →
      (∀ p ∈ s.positions, p.pendingDelete = false ∧ p.hadEventBatch = false) ∧ b.isTrim = true) :
    Inv { s with queue := s.queue ++ [b], positions := some q } := by
  refine ⟨h.toCarries.enqueue (Continued.concat.mpr ⟨h.continued, follows⟩) ⟨?_, ?_⟩, h.snapshot,
    h.deferred⟩
  · rintro p ⟨⟩
    rw [← append_assoc, Life.after_append]
    exact described
  · intro quiet c mem
    obtain ⟨living, unwritten⟩ := quiet q rfl
    obtain ⟨before, isTrim⟩ := idle living unwritten
    rcases mem_append.mp mem with old | new
    · exact h.positions.idle before c old
    · rwa [mem_singleton.mp new]

theorem Inv.appendWrite [DecidableEq γ] (h : s.Inv) {req}
    (ok : s.view.check req = .ok ()) (safe : s.safePrepare req) : (s.appendWrite req).Inv := by
  obtain ⟨seen, continued, versions, first, sequences⟩ := safe
  have described := h.view_describes seen
  have follows := described.prepare_follows ok
    (fun v n alive => Continued.alive_pos h.continued alive) continued versions first sequences
  exact h.enqueue follows
    (QueueAggregatePositions.addEventBatch_describes h.entry_describes follows) fun _ unwritten =>
    nomatch unwritten

theorem Inv.appendDelete (h : s.Inv) {req}
    (living : s.view.pendingDeleteOrDeleted = false) (version : s.view.aggregateVersion ≠ 0) :
    (s.appendDelete req).Inv := by
  have alive := (h.view_of_version version).alive living version
  exact h.enqueue (b := .softDelete (s.tombstone req)) alive
    (QueueAggregatePositions.addPendingDelete_describes _)
    fun living => nomatch living

theorem Inv.appendTrim (h : s.Inv) (living : s.view.pendingDeleteOrDeleted = false) {keepFrom}
    (above : s.view.minAggregateVersion < keepFrom) (range : keepFrom ≤ s.view.aggregateVersion) :
    (s.appendTrim keepFrom).Inv := by
  have version : s.view.aggregateVersion ≠ 0 := by omega
  have alive := (h.view_of_version version).alive living version
  refine h.enqueue (b := .softTrim (s.trimBlock keepFrom)) alive
    (QueueAggregatePositions.addPendingTrim_describes h.entry_describes alive) fun calm unwritten =>
    ⟨?_, rfl⟩
  intro p entry
  have entry : s.positions = some p := entry
  simp only [QueueAggregatePositions.addPendingTrim, entry, getD_some] at calm unwritten
  exact ⟨calm, unwritten⟩

end Enqueue

/-! ## Commits -/

section Commits

/-- What the commit of one metablock does to the write snapshot: an event batch that defers to
replication leaves it to the queue position. -/
def syncSnapshot (target : CommitTarget) (m : Option MemSnapshotAggregate) (b : AggregateBlock γ) :
    Option MemSnapshotAggregate :=
  if target = .deferToReplicationAck ∧ b.isEventBatch = true then m
  else commitBlock m b

/-- What the captured position does to the write snapshot. -/
def queueSnapshot (m : Option MemSnapshotAggregate) :
    Option (QueueAggregatePositions γ) → Option MemSnapshotAggregate
  | some q =>
    if q.pendingDelete = false ∧ q.hadEventBatch = true then
      some (commitQueuePositions q m)
    else m
  | none => m

/-- The queue position that a commit leaves. -/
def remaining (entry : Option (QueueAggregatePositions γ)) :
    Option (QueueAggregatePositions γ) → Option (QueueAggregatePositions γ)
  | some q =>
    if q.pendingDelete then entry else entry.filter (·.aggregateVersion ≠ q.aggregateVersion)
  | none => entry

/-- The entry stays, or it goes because its version is the captured one. -/
theorem remaining_cases (entry captured : Option (QueueAggregatePositions γ)) :
    remaining entry captured = entry ∨
      (remaining entry captured = none ∧
        ∃ q current, captured = some q ∧ q.pendingDelete = false ∧ entry = some current ∧
          current.aggregateVersion = q.aggregateVersion) := by
  cases captured with
  | none => exact .inl rfl
  | some q =>
    cases deleted : q.pendingDelete with
    | true => exact .inl (by simp [remaining, deleted])
    | false =>
      cases entry with
      | none => exact .inl (by simp [remaining, deleted])
      | some current =>
        by_cases same : current.aggregateVersion = q.aggregateVersion
        · exact .inr ⟨by simp [remaining, deleted, same], q, current, rfl, deleted, rfl, same⟩
        · exact .inl (by simp [remaining, deleted, same])

variable (s : WritePath γ) (target : CommitTarget)

theorem commitSyncBlock_fields [DecidableEq γ] (position : Option ℕ) (e : DurableBlock γ) :
    (s.commitSyncBlock target position e).writeSnapshot =
        syncSnapshot target s.writeSnapshot e.block ∧
      (s.commitSyncBlock target position e).core = s.core := by
  unfold commitSyncBlock
  cases e.block with
  | eventBatch b =>
    cases target with
    | deferToReplicationAck => exact ⟨rfl, rfl⟩
    | deferToLeaderConfirmed | fullCommit =>
      by_cases positive : 0 < b.maxClientSeq
      · simp only [positive, if_true]; exact ⟨rfl, rfl⟩
      · simp only [positive, if_false]; exact ⟨rfl, rfl⟩
  | softTrim t => exact ⟨by simp [syncSnapshot, AggregateBlock.isEventBatch, commitBlock], rfl⟩
  | softDelete d => exact ⟨by simp [syncSnapshot, AggregateBlock.isEventBatch, commitBlock], rfl⟩

theorem commitSyncBlocks [DecidableEq γ] (position : Option ℕ) (blocks : List (DurableBlock γ)) :
    (blocks.foldl (commitSyncBlock · target position) s).writeSnapshot =
        (blocks.map (·.block)).foldl (syncSnapshot target) s.writeSnapshot ∧
      (blocks.foldl (commitSyncBlock · target position) s).core = s.core := by
  induction blocks generalizing s with
  | nil => exact ⟨rfl, rfl⟩
  | cons e blocks ih =>
    obtain ⟨snapshot, core⟩ := ih (s.commitSyncBlock target position e)
    obtain ⟨first, same⟩ := s.commitSyncBlock_fields target position e
    refine ⟨snapshot.trans ?_, core.trans same⟩
    rw [first]
    rfl

theorem commitSyncPositions_fields (isLeader : Bool) (walSeq : ℕ)
    (captured : Option (QueueAggregatePositions γ)) :
    (s.commitSyncPositions isLeader walSeq captured).writeSnapshot =
        queueSnapshot s.writeSnapshot captured ∧
      (s.commitSyncPositions isLeader walSeq captured).core =
        { s with positions := remaining s.positions captured }.core := by
  unfold commitSyncPositions
  cases captured with
  | none => exact ⟨rfl, rfl⟩
  | some q =>
    by_cases deleted : q.pendingDelete = true
    · simp [queueSnapshot, remaining, deleted]
    · by_cases written : q.hadEventBatch = true
      · simp [queueSnapshot, remaining, deleted, written, core]
      · simp [queueSnapshot, remaining, deleted, written, core]

theorem stamp_blocks (n : ℕ) (gaps : List ℕ) (blocks : List (AggregateBlock γ)) :
    (stamp n gaps blocks).map (·.block) = blocks := by
  induction blocks generalizing n gaps with
  | nil => cases gaps <;> rfl
  | cons b blocks ih =>
    cases gaps with
    | nil => exact congrArg (b :: ·) (ih _ _)
    | cons g gaps => exact congrArg (b :: ·) (ih _ _)

/-- The fields of the invariant after the commit of an fsync. -/
theorem synced_fields [DecidableEq γ] (isLeader : Bool) (captured : SyncPositionsSnapshot γ)
    (gaps : List ℕ) (rest : ℕ) :
    let blocks := stamp s.tip gaps captured.blocks
    let tip := lastSeq s.tip blocks + rest
    (s.synced target isLeader captured gaps rest).writeSnapshot =
        captured.blocks.foldl (syncSnapshot target)
          (queueSnapshot s.writeSnapshot captured.positions) ∧
      (s.synced target isLeader captured gaps rest).core =
        (s.wal ++ blocks, s.queue, remaining s.positions captured.positions, none,
          (if target = .fullCommit then s.deferred else s.deferred ++ [⟨blocks, tip⟩]), tip,
          if target = .fullCommit then tip else s.readCursor) := by
  intro blocks tip
  obtain ⟨queued, queuedCore⟩ :=
    s.commitSyncPositions_fields isLeader (positionSeq blocks) captured.positions
  obtain ⟨folded, foldedCore⟩ :=
    commitSyncBlocks (s.commitSyncPositions isLeader (positionSeq blocks) captured.positions) target
      (deletedPosition captured.positions (positionSeq blocks)) blocks
  refine ⟨?_, ?_⟩
  · rw [queued, stamp_blocks] at folded
    exact folded
  · have same := foldedCore.trans queuedCore
    simp only [core, Prod.mk.injEq] at same
    obtain ⟨wal, queue, positions, -, deferred, -, readCursor⟩ := same
    simp only [synced, commitSync, core, wal, queue, positions, deferred, readCursor, blocks, tip]

end Commits

section SyncBlocks

variable {l : Life} {m : Option MemSnapshotAggregate} {blocks : List (AggregateBlock γ)}
  {target : CommitTarget}

/-- Committing the blocks of an fsync takes a snapshot to the life after them. A snapshot that is
ahead, at the life they lead to, may be set back by a tombstone but ends there too. -/
theorem syncBlocks_tracks (h : Continued l blocks) (tracks : ((∀ k ∈ m, k.Describes l) ∧
        (target = .deferToReplicationAck → ∀ b ∈ blocks, b.isTrim = true)) ∨
      ((l.after blocks).isDeleted = false ∧
        (target = .deferToReplicationAck → ∀ b ∈ blocks, b.isDelete = false)) ∧
      ∃ k, m = some k ∧ k.Describes (l.after blocks)) :
    ∀ k ∈ blocks.foldl (syncSnapshot target) m, k.Describes (l.after blocks) := by
  induction blocks generalizing l m with
  | nil =>
    rcases tracks with ⟨tracks, -⟩ | ⟨-, k, rfl, described⟩
    · exact tracks
    · rintro k ⟨⟩
      exact described
  | cons b blocks ih =>
    refine ih h.2 ?_
    by_cases skipped : target = .deferToReplicationAck ∧ b.isEventBatch = true
    · -- the queue position has moved the snapshot already
      rw [syncSnapshot, if_pos skipped]
      rcases tracks with ⟨-, trims⟩ | ⟨⟨living, undeleted⟩, ahead⟩
      · have isTrim := trims skipped.1 b mem_cons_self
        cases b with
        | eventBatch b => cases isTrim
        | _ => cases skipped.2
      · exact .inr ⟨⟨living, fun ack => (forall_mem_cons.mp (undeleted ack)).2⟩, ahead⟩
    rw [syncSnapshot, if_neg skipped]
    rcases tracks with ⟨tracks, trims⟩ | ⟨⟨living, undeleted⟩, k, rfl, described⟩
    · exact .inl ⟨commitBlock_describes tracks h.1, fun ack => (forall_mem_cons.mp (trims ack)).2⟩
    · have later (ack : target = .deferToReplicationAck) := (forall_mem_cons.mp (undeleted ack)).2
      cases b with
      | eventBatch b =>
        rcases commitPosition_describes described living h.2.le.1 h.2.le.2 with
          ahead | here
        · exact .inr ⟨⟨living, later⟩, _, rfl, ahead⟩
        · exact .inl ⟨by rintro k ⟨⟩; exact here, fun ack => absurd ⟨ack, rfl⟩ skipped⟩
      | softTrim t =>
        have alive : l = .alive t.aggregateVersion t.eventSeq := h.1
        subst alive
        exact .inr ⟨⟨living, later⟩, _, rfl,
          commitTrim_describes described h.2.le.1 h.2.le.2⟩
      | softDelete d =>
        refine .inl ⟨by rintro k ⟨⟩; exact ⟨rfl, rfl, rfl, rfl, rfl⟩, fun ack => ?_⟩
        cases undeleted ack _ mem_cons_self

/-- A log that ends with a tombstone leaves the snapshot of the tombstone. -/
theorem syncBlocks_tombstone {d} (last : blocks.getLast? = some (.softDelete d)) :
    blocks.foldl (syncSnapshot target) m = some (.deleted d) := by
  obtain ⟨older, rfl⟩ := List.getLast?_eq_some_iff.mp last
  rw [foldl_append]
  exact if_neg fun skipped => nomatch skipped.2

/-- The whole commit takes the snapshot to the life after the batch. -/
theorem syncBlocks_describes {log} {captured} (overlay : Overlay log blocks captured)
    (continued : Continued .unborn (log ++ blocks))
    (snapshot : ∀ k ∈ m, k.Describes (Life.after .unborn log))
    (safe : ∀ q ∈ captured, q.pendingDelete = false →
      target = .deferToReplicationAck → ∀ b ∈ blocks, b.isDelete = false) :
    ∀ k ∈ blocks.foldl (syncSnapshot target) (queueSnapshot m captured),
      k.Describes (Life.after .unborn (log ++ blocks)) := by
  have rest := (Continued.append.mp continued).2
  rw [Life.after_append]
  -- nothing but trims: the captured position leaves the snapshot to them
  have trimmed (trims : ∀ b ∈ blocks, b.isTrim = true) :
      ∀ k ∈ blocks.foldl (syncSnapshot target) m,
        k.Describes ((Life.after .unborn log).after blocks) :=
    syncBlocks_tracks rest (.inl ⟨snapshot, fun _ => trims⟩)
  cases captured with
  | none => exact trimmed (overlay.idle (by simp))
  | some q =>
    have described : q.Describes ((Life.after .unborn log).after blocks) :=
      Life.after_append .unborn log blocks ▸ overlay.describes q rfl
    have status : q.pendingDelete = ((Life.after .unborn log).after blocks).isDeleted :=
      EventIndexes.Describes.isDeleted described
    cases deleted : q.pendingDelete with
    | true =>
      have unmoved : queueSnapshot m (some q) = m := by simp [queueSnapshot, deleted]
      rw [unmoved]
      by_cases empty : blocks = []
      · subst empty
        exact snapshot
      · obtain ⟨d, last⟩ := rest.last_tombstone (status.symm.trans deleted) empty
        rw [syncBlocks_tombstone last]
        rintro k ⟨⟩
        exact ofBlock_describes rest last
    | false =>
      have living := status.symm.trans deleted
      cases written : q.hadEventBatch with
      | false =>
        have unmoved : queueSnapshot m (some q) = m := by simp [queueSnapshot, written]
        rw [unmoved]
        exact trimmed (overlay.idle (by rintro p ⟨⟩; exact ⟨deleted, written⟩))
      | true =>
        have moved : queueSnapshot m (some q) =
            some (commitQueuePositions q m) := if_pos ⟨deleted, written⟩
        have ahead := commitQueuePositions_describes snapshot described living
          rest.le.1 rest.le.2
        rw [moved]
        exact syncBlocks_tracks rest (.inr ⟨⟨living, safe q rfl deleted⟩, _, rfl, ahead⟩)

end SyncBlocks

section Steps

variable {s : WritePath γ} {captured : SyncPositionsSnapshot γ} {batch : DeferredBatch γ}
  {t : WritePath γ} {rest : List (DeferredBatch γ)}

/-- The pipeline after an fsync: the captured metablocks are durable, the rest is as it was. -/
theorem commitSync_pipeline [DecidableEq γ]
    (writing : s.fsync = some captured) (target : CommitTarget) (isLeader : Bool) (gaps : List ℕ)
    (rest : ℕ) (committed : t = s.synced target isLeader captured gaps rest) :
    t.log = s.log ++ captured.blocks ∧ t.inflight = [] ∧ t.queue = s.queue ∧
      t.positions = remaining s.positions captured.positions ∧ t.fsync = none ∧
      t.writeSnapshot = captured.blocks.foldl (syncSnapshot target)
        (queueSnapshot s.writeSnapshot captured.positions) ∧
      t.pipeline = s.pipeline ∧ s.pipeline = s.log ++ captured.blocks ++ s.queue := by
  subst committed
  obtain ⟨snapshot, core⟩ := s.synced_fields target isLeader captured gaps rest
  generalize s.synced target isLeader captured gaps rest =
    t at snapshot core ⊢
  obtain ⟨wal, queue, positions, fsync, -, -, -⟩ := core_fields core
  have log : t.log = s.log ++ captured.blocks := by
    rw [WritePath.log, wal, map_append, stamp_blocks]
    rfl
  have inflight : t.inflight = [] := by rw [WritePath.inflight, fsync]
  have before : s.inflight = captured.blocks := by rw [WritePath.inflight, writing]
  refine ⟨log, inflight, queue, positions, fsync, snapshot, ?_, ?_⟩
  · rw [pipeline, pipeline, log, inflight, before, queue, nil_append, append_assoc]
  · rw [pipeline, before, append_assoc]

theorem Carries.commitSync [DecidableEq γ] {whole} {entry} (h : Carries whole entry s)
    (writing : s.fsync = some captured)
    (stays : entry s.log (captured.blocks ++ s.queue) s.positions →
      entry (s.log ++ captured.blocks) s.queue s.positions)
    (goes : ∀ q ∈ captured.positions, q.pendingDelete = false → ∀ current ∈ s.positions,
      current.aggregateVersion = q.aggregateVersion →
        entry (s.log ++ captured.blocks) s.queue none)
    (target : CommitTarget) (isLeader : Bool) (gaps : List ℕ) (rest : ℕ) :
    Carries whole entry (s.synced target isLeader captured gaps rest) := by
  obtain ⟨log, inflight, queue, positions, fsync, -, same, -⟩ :=
    commitSync_pipeline writing target isLeader gaps rest rfl
  refine ⟨same ▸ h.whole, ?_, by simp [fsync]⟩
  rw [log, inflight, queue, positions]
  rcases remaining_cases s.positions captured.positions with same | ⟨none, q, current, facts⟩
  · have before := h.positions
    rw [WritePath.inflight, writing] at before
    rw [same]
    exact stays before
  · obtain ⟨position, living, present, version⟩ := facts
    rw [none]
    exact goes q position living current present version

theorem Inv.commitSync [DecidableEq γ] (h : s.Inv)
    (writing : s.fsync = some captured) {target} (safe : s.safeSync target captured)
    (isLeader : Bool) (gaps : List ℕ) (rest : ℕ) :
    (s.synced target isLeader captured gaps rest).Inv := by
  obtain ⟨log, -, -, -, -, snapshot, -, split⟩ :=
    commitSync_pipeline writing target isLeader gaps rest rfl
  obtain ⟨-, core⟩ := s.synced_fields target isLeader captured gaps rest
  obtain ⟨wal, -, -, -, deferred, -, -⟩ := core_fields core
  have continued := h.continued
  rw [split] at continued
  refine ⟨h.toCarries.commitSync writing
    (fun overlay => ⟨?_, ?_⟩) ?_ target isLeader gaps rest, ?_, ?_⟩
  · rw [append_assoc]
    exact overlay.describes
  · exact fun quiet b mem => overlay.idle quiet b (mem_append_right _ mem)
  · -- where the entry goes, only trims are queued
    intro q position deleted current entry same
    refine ⟨fun p mem => absurd mem (by simp), fun _ => ?_⟩
    have described : q.Describes (Life.after .unborn (s.log ++ captured.blocks)) :=
      (h.captured captured writing).describes q position
    have now : current.Describes (Life.after .unborn s.pipeline) := h.entry_describes current entry
    have living : current.pendingDelete = false := by
      by_contra pending
      exact (safe q position deleted).1 current entry (by simpa using pending) same
    rw [split, Life.after_append] at now
    refine (Continued.append.mp continued).2.all_trims ?_ ?_ ?_
    · rw [← EventIndexes.Describes.version described, ← EventIndexes.Describes.version now]
      exact same
    · exact (EventIndexes.Describes.isDeleted now).symm.trans living
    · exact (EventIndexes.Describes.isDeleted described).symm.trans deleted
  · rw [snapshot, log]
    exact syncBlocks_describes (h.captured captured writing)
      (Continued.append.mp continued).1 h.snapshot
      fun q position living => (safe q position living).2
  · intro batch mem e he
    rw [wal, mem_append]
    rw [deferred] at mem
    split at mem
    next => exact .inl (h.deferred batch mem e he)
    next =>
      rcases mem_append.mp mem with old | new
      · exact .inl (h.deferred batch old e he)
      · rw [mem_singleton.mp new] at he
        exact .inr he

/-- The durable part of the pipeline. -/
theorem Inv.log_continued (h : s.Inv) : Continued .unborn s.log :=
  (Continued.append.mp h.continued).1

/-- What leaves the core alone keeps the invariant when the write snapshot describes the log. -/
theorem Inv.of_core (h : s.Inv) (core : t.core = s.core)
    (snapshot : ∀ m ∈ t.writeSnapshot, m.Describes (Life.after .unborn s.log)) : t.Inv := by
  obtain ⟨wal, -, -, -, deferred, -⟩ := core_fields core
  refine ⟨h.toCarries.of_core core, ?_, wal ▸ deferred ▸ h.deferred⟩
  rwa [log, wal]

/-- A batch that ends the log is what a cold load makes of it. -/
theorem coldLoad_last {e j} (visited : s.wal[j]? = some e)
    (last : j + 1 = s.wal.length) : coldLoad s.log = ofBlock e.block := by
  rw [coldLoad, log, List.getLast?_map, List.getLast?_eq_getElem?, ← last,
    Nat.add_sub_cancel, visited]
  rfl

/-- A scan whose bound is not below the log sees all of it. -/
theorem upTo_eq {bound} (seen : ∀ e ∈ s.wal, e.walSeq ≤ bound) :
    (s.upTo bound).map (·.block) = s.log :=
  congrArg (List.map _) (filter_eq_self.mpr fun e mem => decide_eq_true (seen e mem))

/-- What a deferred commit does to the fields of the invariant. -/
theorem commitPcdBlocks (s : WritePath γ) (blocks : List (DurableBlock γ)) :
    (blocks.foldl commitPcdBlock s).core = s.core ∧
      (blocks.foldl commitPcdBlock s).writeSnapshot =
        (blocks.map (·.block)).foldl
          (fun m b => if b.isTrim = true then commitBlock m b else m)
          s.writeSnapshot := by
  induction blocks generalizing s with
  | nil => exact ⟨rfl, rfl⟩
  | cons e blocks ih =>
    obtain ⟨core, snapshot⟩ := ih (s.commitPcdBlock e)
    rw [foldl_cons, core, snapshot, map_cons, foldl_cons]
    unfold commitPcdBlock
    cases e.block with
    | eventBatch | softTrim | softDelete => exact ⟨rfl, rfl⟩

/-- Committing the trims among some metablocks keeps what each of them keeps of a cached
snapshot. -/
theorem foldl_trims {P : MemSnapshotAggregate → Prop} {blocks : List (AggregateBlock γ)}
    {m} (snapshot : ∀ k ∈ m, P k) (cached : (∃ b ∈ blocks, b.isTrim = true) → m.isSome)
    (trim : ∀ t, .softTrim t ∈ blocks → ∀ k, P k → P (commitTrim t (some k))) :
    ∀ k ∈ blocks.foldl
        (fun m b => if b.isTrim = true then commitBlock m b else m) m, P k := by
  induction blocks generalizing m with
  | nil => exact snapshot
  | cons b blocks ih =>
    have trim' : ∀ t, .softTrim t ∈ blocks → ∀ k, P k → P (commitTrim t (some k)) :=
      fun t mem => trim t (mem_cons_of_mem _ mem)
    have stillCached : (∃ c ∈ blocks, c.isTrim = true) → m.isSome := fun ⟨c, mem, isTrim⟩ =>
      cached ⟨c, mem_cons_of_mem _ mem, isTrim⟩
    cases b with
    | eventBatch b | softDelete d => exact ih snapshot stillCached trim'
    | softTrim t =>
      obtain ⟨k, rfl⟩ := isSome_iff_exists.mp (cached ⟨_, mem_cons_self .., rfl⟩)
      refine ih (m := some (commitTrim t (some k))) ?_ (fun _ => rfl) trim'
      rintro k' ⟨⟩
      exact trim t (mem_cons_self ..) k (snapshot k rfl)

/-- A trim of the log leaves a snapshot of the log alone. -/
theorem trim_describes {log : List (AggregateBlock γ)} (h : Continued .unborn log) {t}
    (mem : .softTrim t ∈ log) {k} (snapshot : k.Describes (Life.after .unborn log)) :
    (commitTrim t (some k)).Describes (Life.after .unborn log) := by
  obtain ⟨before, follows, version, eventSeq⟩ := h.follows_of_mem mem
  have alive : before = .alive t.aggregateVersion t.eventSeq := follows
  subst alive
  exact commitTrim_describes snapshot version eventSeq

theorem Inv.deferred_durable (h : s.Inv)
    (deferred : s.deferred = batch :: rest) : ∀ b ∈ batch.blocks.map (·.block), b ∈ s.log := by
  intro b hb
  obtain ⟨e, he, rfl⟩ := mem_map.mp hb
  exact mem_map_of_mem (h.deferred batch (deferred ▸ mem_cons_self ..) e he)

theorem safeCommit.cached (safe : s.safeCommit batch) :
    (∃ b ∈ batch.blocks.map (·.block), b.isTrim = true) → s.writeSnapshot.isSome := by
  rintro ⟨b, hb, isTrim⟩
  obtain ⟨e, he, rfl⟩ := mem_map.mp hb
  exact safe ⟨e, he, isTrim⟩

theorem Inv.commitPcd (h : s.Inv)
    (deferred : s.deferred = batch :: rest) (safe : s.safeCommit batch) :
    ({ s with deferred := rest }.commitPcd batch).Inv := by
  obtain ⟨core, snapshot⟩ := commitPcdBlocks { s with deferred := rest } batch.blocks
  have kept := foldl_trims h.snapshot safe.cached fun t mem k =>
    trim_describes h.log_continued (h.deferred_durable deferred _ mem)
  rw [← snapshot] at kept
  have popped : Inv { s with deferred := rest } :=
    ⟨h.toCarries.of_fields rfl rfl rfl rfl, h.snapshot, fun b hb => h.deferred b <|
      deferred ▸ mem_cons_of_mem _ hb⟩
  have committed := popped.of_core core kept
  exact ⟨committed.toCarries.of_fields rfl rfl rfl rfl, committed.snapshot, committed.deferred⟩

theorem validateWrite_ok {req schemaOk} (ok : s.validateWrite req schemaOk = .ok ()) :
    s.view.check req = .ok () ∧ s.checkClient req = .ok () := by
  unfold validateWrite at ok
  split at ok
  next => cases ok
  next checked =>
    split at ok
    next => cases ok
    next admitted => exact ⟨checked, admitted⟩

/-- A cached aggregate that is found is alive. -/
theorem view_living (found : s.loadStatus .write = some .found) :
    s.view.pendingDeleteOrDeleted = false := by
  unfold loadStatus at found
  unfold view
  cases entry : s.positions with
  | some q =>
    rw [entry] at found
    show q.pendingDelete = false
    by_contra pending
    simp [pending] at found
  | none =>
    rw [entry] at found
    cases cached : s.writeSnapshot with
    | none => rfl
    | some m =>
      have status : m.status = .found := by simpa [cached] using found
      show decide (m.status = .deleted) = false
      simp [status]

/-- After a scan that finds the aggregate alive, and with no tombstone queued, it is seen alive. -/
theorem scanned_living {bound} (core : t.core = s.core)
    (snapshot : t.writeSnapshot = some (coldLoad ((s.upTo bound).map (·.block))))
    (found : s.scanFinds bound = true) (pending : ∀ q ∈ s.positions, q.pendingDelete = false) :
    t.view.pendingDeleteOrDeleted = false := by
  unfold view
  rw [(core_fields core).2.2.1, snapshot]
  cases entry : s.positions with
  | some q => exact pending q entry
  | none =>
    unfold scanFinds at found
    split at found
    next e newest =>
      simp only [coldLoad, List.getLast?_map, newest]
      obtain ⟨walSeq, block⟩ := e
      cases block with
      | eventBatch b => rfl
      | softTrim t => rfl
      | softDelete d => cases found
    next => cases found

theorem Inv.rollback (h : s.Inv) : s.rollback.Inv :=
  ⟨.settled h.log_continued ⟨by simp, fun _ b mem => absurd mem not_mem_nil⟩ rfl rfl rfl,
    h.snapshot, h.deferred⟩

/-! ## Runs -/

theorem Inv.init : (init : WritePath γ).Inv where
  toCarries := .settled trivial ⟨by simp, fun _ b mem => absurd mem not_mem_nil⟩ rfl rfl rfl
  snapshot m mem := absurd mem (by simp [WritePath.init])
  deferred batch mem := absurd mem not_mem_nil

theorem Inv.step [DecidableEq γ] (h : s.Inv) {a} (safe : s.Safe a)
    (hstep : s.step a = some t) : t.Inv := by
  -- a scan that saw the whole log leaves its cold load
  have load {u : WritePath γ} {bound : ℕ} (core : u.core = s.core)
      (put : u.writeSnapshot = some (coldLoad ((s.upTo bound).map (·.block))))
      (seen : ∀ e ∈ s.wal, e.walSeq ≤ bound) : u.Inv := by
    refine h.of_core core ?_
    rw [put, upTo_eq seen]
    rintro m ⟨⟩
    exact coldLoad_describes h.log_continued
  cases PathStep.of_step hstep with
  | quiet _ _ core same => exact h.of_core core (same ▸ h.snapshot)
  | evicted _ core gone => exact h.of_core core (by simp [gone])
  | passed j e _ visited absent core put =>
    have last : j + 1 = s.wal.length := safe.resolve_left (by simp [absent])
    refine h.of_core core ?_
    rw [put, ← coldLoad_last visited last]
    rintro m ⟨⟩
    exact coldLoad_describes h.log_continued
  | loaded i bound op _ path scan core put => exact load core put (safe (op, bound) scan path).1
  | loadedTrim i bound keepFrom u scan found core put above range =>
    obtain ⟨seen, pending⟩ := safe (.trim keepFrom, bound) scan rfl
    exact (load core put seen).appendTrim (scanned_living core put found (pending rfl)) above range
  | trimmed keepFrom found above range => exact h.appendTrim (view_living found) above range
  | prepared i schemaOk req task ok =>
    have safe : s.safePrepare req := safe req task (by rw [ok]; rfl)
    have dropped : (s.dropTask i).Inv := h.of_core rfl h.snapshot
    exact dropped.appendWrite (validateWrite_ok ok).1 safe
  | deleted i req living version =>
    have dropped : (s.dropTask i).Inv := h.of_core rfl h.snapshot
    exact dropped.appendDelete living version
  | captured idle => exact ⟨h.toCarries.capture idle, h.snapshot, h.deferred⟩
  | synced target isLeader gaps rest captured writing =>
    exact h.commitSync writing (safe captured writing) isLeader gaps _
  | rolledBack => exact h.rollback
  | dropped captured writing =>
    exact ⟨h.toCarries.drop writing (safe captured writing), h.snapshot, h.deferred⟩
  | committed batch rest deferred =>
    exact h.commitPcd deferred (safe batch (by rw [deferred]; rfl))

end Steps

end WritePath

open Transition WritePath in
/-- **Versions are gapless**: in every safe run the event batches of the aggregate, in log order,
carry the version and the event sequences that the life before them asks for. -/
theorem versions_gapless {γ : Type} [DecidableEq γ] {s : WritePath γ}
    (run : Reaches step Safe init s) : Numbered .unborn s.log :=
  (Reaches.invariant
    (fun _ _ _ h safe hstep => Inv.step h safe hstep) run .init).log_continued.numbered

/-- The actions of a write that finds its aggregate loaded. -/
def warmWrite (req : WriteRequest Unit) : List (WriteAction Unit) :=
  [.start (.write req), .clientCheck 0, .validate 0 true, .prepare 0 true]

/-- The actions of a write that loads its aggregate. -/
def coldWrite (req : WriteRequest Unit) : List (WriteAction Unit) :=
  [.start (.write req), .beginScan 0, .finishScan 0, .clientCheck 0, .validate 0 true,
    .prepare 0 true]

open Transition WritePath in
/-- A first write, a second one while it is fsynced, a tombstone with sequence continuation and the
recreation after an eviction: a safe run of four metablocks. -/
theorem versions_gapless_recreated :
    ∃ s : WritePath Unit, Reaches step Safe init s ∧ s.log.length = 4 ∧ Numbered .unborn s.log := by
  let req : WriteRequest Unit := ⟨(), [1, 2], true, none, false⟩
  let actions : List (WriteAction Unit) :=
    coldWrite req ++ [.capture] ++ warmWrite req ++
      [.syncSucceeded .deferToReplicationAck true [3] 1, .capture,
      .syncSucceeded .deferToReplicationAck true [] 0, .commitPcd,
      .start (.delete ⟨some 2, true, true⟩), .prepareDelete 0, .capture,
      .syncSucceeded .fullCommit false [] 0, .evictWrite] ++ warmWrite req ++ [.capture,
      .syncSucceeded .fullCommit false [2] 2]
  exact exists_and_of_exec actions (by decide +kernel) fun s run _ => versions_gapless run

open Transition WritePath in
/-- A recreation without sequence continuation starts again at version one, but the queue position
keeps the version of the tombstone: the second batch of the new incarnation is the third version. -/
theorem fresh_incarnation_skips_versions :
    ∃ s : WritePath Unit, Reaches step Always init s ∧ ¬ Numbered .unborn s.log := by
  let req : WriteRequest Unit := ⟨(), [1], true, none, false⟩
  let actions : List (WriteAction Unit) :=
    coldWrite req ++ warmWrite req ++ [.capture, .syncSucceeded .fullCommit false [] 0,
      .start (.delete ⟨none, true, false⟩), .prepareDelete 0, .capture,
      .syncSucceeded .fullCommit false [] 0] ++ warmWrite req ++ warmWrite req ++ [.capture,
      .syncSucceeded .fullCommit false [] 0]
  exact exists_of_exec actions (by decide +kernel)

end Celeriant
