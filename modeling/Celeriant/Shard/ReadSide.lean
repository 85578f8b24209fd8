import Celeriant.Cache.Snapshots
import Celeriant.Shard.ReadBounds

/-!
# What readers are served from

`read`, `exists` and the listings answer from the read snapshots of aggregates, from recent writes
kept in memory, from the summaries of segments and their sidecar files, and from the segment files
below the read cursor. Here a value is modelled by the entries it was computed from, its *sources*:
a response depends on a metablock exactly if the entry is a source of it. Which fields a response
has and how they are folded is left out.

What an entry is, whose aggregate it belongs to and whether it was written here or replicated is
fixed when the entry is made: `Metablocks` is a parameter.

## Main results

* `ReadSide.All.after`
-/

namespace Celeriant

open List

/-- What an entry does to its aggregate. -/
inductive MetablockKind
  | eventBatch
  | softTrim
  | softDelete
  | schemaRegistration
  deriving DecidableEq, Repr

/-- What the entries are. -/
structure Metablocks (κ : Type) where
  kind : EntryId → MetablockKind
  key : EntryId → κ
  /-- written by this node, not received by replication -/
  own : EntryId → Bool

/-- A snapshot of an aggregate for readers: its status, the place of its last metablock, and the
entries its versions and floor come from. -/
structure ReadSnapshot where
  status : AggregateStatus
  logId : ℕ
  walSeq : ℕ
  sources : List EntryId
  deriving DecidableEq, Repr

namespace ReadSnapshot

def found (r : LogRecord) : ReadSnapshot := ⟨.found, r.logId, r.walSeq, [r.entry]⟩

def notFound : ReadSnapshot := ⟨.notFound, 0, 0, []⟩

end ReadSnapshot

/-- The metablocks of a batch, where the sync put them. -/
def PendingCommitData.records (p : PendingCommitData) : List LogRecord :=
  stamped p.logId (p.tip - p.pendingQueue.length) p.pendingQueue

/-- The caches that readers are served from. -/
structure ReadSide (κ : Type) where
  aggregateReadSnapshots : κ → Option ReadSnapshot
  aggregateRecentWrites : List LogRecord
  /-- the accumulator of the active segment -/
  segmentSummary : List EntryId
  sealedSegmentSummaries : ℕ → Option (List EntryId)
  /-- the summary files, by segment -/
  sidecars : ℕ → Option (List EntryId)
  /-- the payload of the sidecar that a full commit is writing -/
  draining : List EntryId

namespace ReadSide

variable {κ : Type} [DecidableEq κ]

def empty : ReadSide κ := ⟨fun _ => none, [], [], fun _ => none, fun _ => none, []⟩

variable (M : Metablocks κ) (rs : ReadSide κ)

/-! ## Commits -/

def putSnapshot (k : κ) (snapshot : ReadSnapshot) : ReadSide κ :=
  { rs with
    aggregateReadSnapshots := fun j =>
      if j = k then some snapshot else rs.aggregateReadSnapshots j }

/-- `commit_position_snapshot`: a snapshot other than NotFound is merged with the batch. -/
def commitPositionSnapshot (r : LogRecord) : ReadSide κ :=
  rs.putSnapshot (M.key r.entry) <|
    match rs.aggregateReadSnapshots (M.key r.entry) with
    | some existing =>
      if existing.status = .notFound then .found r
      else ⟨.found, r.logId, r.walSeq, r.entry :: existing.sources⟩
    | none => .found r

/-- `commit_trim_snapshot`: a cached snapshot of any status keeps status and place. -/
def commitTrimSnapshot (r : LogRecord) : ReadSide κ :=
  rs.putSnapshot (M.key r.entry) <|
    match rs.aggregateReadSnapshots (M.key r.entry) with
    | some existing => { existing with sources := r.entry :: existing.sources }
    | none => .found r

/-- `put_aggregate_into_cache_as_deleted`. -/
def putDeleted (r : LogRecord) : ReadSide κ :=
  rs.putSnapshot (M.key r.entry) ⟨.deleted, r.logId, r.walSeq, [r.entry]⟩

def cacheRecentWrite (r : LogRecord) : ReadSide κ :=
  { rs with aggregateRecentWrites := r :: rs.aggregateRecentWrites }

def updateSegmentSummary (e : EntryId) : ReadSide κ :=
  { rs with segmentSummary := e :: rs.segmentSummary }

/-- `update_segment_summary_for_log`: a staged slot first, else the active accumulator if the commit
belongs there, else nothing. -/
def updateSegmentSummaryForLog (logId activeLogId : ℕ) (e : EntryId) : ReadSide κ :=
  match rs.sealedSegmentSummaries logId with
  | some sources =>
    { rs with
      sealedSegmentSummaries := fun g =>
        if g = logId then some (e :: sources) else rs.sealedSegmentSummaries g }
  | none => if logId = activeLogId then rs.updateSegmentSummary e else rs

/-- The read side of one committed metablock, the same in `commit_pcd` and in a full commit. -/
def commitItem (r : LogRecord) : ReadSide κ :=
  match M.kind r.entry with
  | .eventBatch => (rs.commitPositionSnapshot M r).cacheRecentWrite r
  | .softTrim => rs.commitTrimSnapshot M r
  | .softDelete => rs.putDeleted M r
  | .schemaRegistration => rs

/-- `commit_pcd`. -/
def commitPcd (activeLogId : ℕ) (p : PendingCommitData) : ReadSide κ :=
  p.records.foldl
    (fun rs r => (rs.updateSegmentSummaryForLog p.logId activeLogId r.entry).commitItem M r) rs

def commitPcds (activeLogId : ℕ) (ps : List PendingCommitData) : ReadSide κ :=
  ps.foldl (fun rs p => rs.commitPcd M activeLogId p) rs

/-- `commit_sync` with a full commit. -/
def commitFull (records : List LogRecord) : ReadSide κ :=
  records.foldl (fun rs r => (rs.updateSegmentSummary r.entry).commitItem M r) rs

/-! ## Queue positions

A client's write tracks the queue position of its aggregate until its fsync; a replicated entry does
not. -/

structure QueueAggregatePositions where
  pendingDelete : Bool
  /-- the last event batch of the aggregate in the batch, where `sync` put it -/
  eventBatch : Option LogRecord
  sources : List EntryId

def QueueAggregatePositions.track (k : κ) (q : QueueAggregatePositions) (r : LogRecord) :
    QueueAggregatePositions :=
  if M.own r.entry = true ∧ M.key r.entry = k then
    match M.kind r.entry with
    | .eventBatch => ⟨false, some r, r.entry :: q.sources⟩
    | .softTrim => { q with sources := r.entry :: q.sources }
    | .softDelete => { q with pendingDelete := true, sources := r.entry :: q.sources }
    | .schemaRegistration => q
  else q

/-- The queue position of an aggregate in the snapshot that an fsync captured. -/
def queuePositions (k : κ) (records : List LogRecord) : QueueAggregatePositions :=
  records.foldl (QueueAggregatePositions.track M k) ⟨false, none, []⟩

/-- `commit_sync_positions_snapshot` on a node that is not leader: the read snapshots follow the
queue positions. -/
def commitSyncPositionsSnapshot (records : List LogRecord) : ReadSide κ :=
  { rs with
    aggregateReadSnapshots := fun k =>
      let q := queuePositions M k records
      match q.pendingDelete, q.eventBatch with
      | false, some r =>
        match rs.aggregateReadSnapshots k with
        | some existing =>
          if existing.status = .notFound then some ⟨.found, r.logId, r.walSeq, q.sources⟩
          else some ⟨.found, r.logId, r.walSeq, q.sources ++ existing.sources⟩
        | none => some ⟨.found, r.logId, r.walSeq, q.sources⟩
      | _, _ => rs.aggregateReadSnapshots k }

/-! ## Rotation, truncation, restart -/

/-- The read-side part of `clear_all_caches`. -/
def clearAllCaches : ReadSide κ :=
  { rs with
    aggregateReadSnapshots := fun _ => none
    aggregateRecentWrites := []
    sealedSegmentSummaries := fun _ => none }

/-- `store_sealed_segment_summary`: a slot that is there already is merged. -/
def storeSealedSegmentSummary (logId : ℕ) : ReadSide κ :=
  { rs with
    segmentSummary := []
    sealedSegmentSummaries := fun g =>
      if g = logId then some ((rs.sealedSegmentSummaries logId).getD [] ++ rs.segmentSummary)
      else rs.sealedSegmentSummaries g }

/-- `take_segment_summary`. -/
def takeSegmentSummary : ReadSide κ :=
  { rs with segmentSummary := [], draining := rs.segmentSummary }

/-- The sidecar of a full commit's seal is written, or the write fails and the payload is lost. -/
def sidecarWritten (ok : Bool) (logId : ℕ) : ReadSide κ :=
  { rs with
    draining := []
    sidecars := fun g => if ok ∧ g = logId then some rs.draining else rs.sidecars g }

/-- The sweep writes the sidecar of a sealed segment from its slot. -/
def sweepSidecar (logId : ℕ) : ReadSide κ :=
  { rs with
    sealedSegmentSummaries := fun g => if g = logId then none else rs.sealedSegmentSummaries g
    sidecars := fun g => if g = logId then rs.sealedSegmentSummaries logId else rs.sidecars g }

/-- Step 2 of `truncate_wal`: the parked prefix is committed, the surviving items of the batch that
straddles the divergence go to the summary, then the caches are cleared. -/
def clearForTruncate (activeLogId divergentWalSeq : ℕ)
    (committed discarded : List PendingCommitData) :
    ReadSide κ :=
  let survivors := discarded.flatMap fun p => p.records.filter (·.walSeq < divergentWalSeq)
  (survivors.foldl (fun rs r => rs.updateSegmentSummaryForLog r.logId activeLogId r.entry)
    (rs.commitPcds M activeLogId committed)).clearAllCaches

/-- The sidecars of the discarded segments are deleted. -/
def deleteSidecarsAbove (logId : ℕ) : ReadSide κ :=
  { rs with sidecars := fun g => if logId < g then none else rs.sidecars g }

/-- `reset_segment_summary_after_unwind`. -/
def resetSegmentSummary : ReadSide κ := { rs with segmentSummary := [] }

/-- After a restart only the sidecars are left, and `pre_warm_cache` replays the active segment up
to the write cursor into the accumulator. -/
def replayed (active : List LogRecord) : ReadSide κ :=
  { (empty : ReadSide κ) with sidecars := rs.sidecars, segmentSummary := active.map (·.entry) }

/-- What an action that takes the shard from `s` to `t` does to the caches. -/
def after (log : List LogRecord) (s t : Shard) : ShardAction → ReadSide κ
  | .syncSucceeded =>
    match s.gate with
    | .writing target entries g clone =>
      let records := stamped g clone.write entries
      match target with
      | .deferToReplicationAck => rs
      | .deferToLeaderConfirmed => rs.commitSyncPositionsSnapshot M records
      | .fullCommit => (rs.commitSyncPositionsSnapshot M records).commitFull M records
    | _ => rs
  | .fsyncCapture _ _ =>
    match t.gate with
    | .sealing _ => rs.takeSegmentSummary
    | .rotating _ _ _ => rs.storeSealedSegmentSummary s.segments.activeLogId
    | _ => rs
  | .sidecarWritten ok => rs.sidecarWritten ok s.segments.activeLogId
  | .truncateGate i =>
    match s.truncations[i]? with
    | some (divergentLogId, divergentWalSeq) =>
      let cleared := rs.clearForTruncate M s.segments.activeLogId divergentWalSeq
        (s.newlyCommitted t) (s.cache.drainParkedCommitsUpTo (divergentWalSeq - 1)).parkedCommits
      if divergentLogId = s.segments.activeLogId then cleared
      else cleared.deleteSidecarsAbove divergentLogId
    | none => rs
  | .unwindOpened => rs.resetSegmentSummary
  | .chainTipsRebuilt i =>
    match s.culls[i]? with
    | some (.rewound true) => rs.clearAllCaches
    | _ => rs
  | .restart =>
    rs.replayed (log.filter fun r =>
      r.logId = t.segments.activeLogId ∧ r.walSeq ≤ t.segments.active.write)
  | _ => rs.commitPcds M s.segments.activeLogId (s.newlyCommitted t)

/-! ## Sources -/

/-- Every source of every cache has the property `P`. -/
structure All (P : EntryId → Prop) (rs : ReadSide κ) : Prop where
  snapshots : ∀ k, ∀ snapshot ∈ rs.aggregateReadSnapshots k, ∀ e ∈ snapshot.sources, P e
  recentWrites : ∀ r ∈ rs.aggregateRecentWrites, P r.entry
  summary : ∀ e ∈ rs.segmentSummary, P e
  sealedSummaries : ∀ g, ∀ sources ∈ rs.sealedSegmentSummaries g, ∀ e ∈ sources, P e
  sidecars : ∀ g, ∀ sources ∈ rs.sidecars g, ∀ e ∈ sources, P e
  draining : ∀ e ∈ rs.draining, P e

section All

variable {M rs} {P Q : EntryId → Prop}

omit [DecidableEq κ] in
theorem all_empty : All P (empty : ReadSide κ) := ⟨nofun, nofun, nofun, nofun, nofun, nofun⟩

omit [DecidableEq κ] in
theorem All.mono (h : All P rs) (imp : ∀ e, P e → Q e) : All Q rs where
  snapshots := fun k sn hsn e he => imp e (h.snapshots k sn hsn e he)
  recentWrites := fun r hr => imp _ (h.recentWrites r hr)
  summary := fun e he => imp e (h.summary e he)
  sealedSummaries := fun g es hes e he => imp e (h.sealedSummaries g es hes e he)
  sidecars := fun g es hes e he => imp e (h.sidecars g es hes e he)
  draining := fun e he => imp e (h.draining e he)

/-- A slot that is set in some cases only. -/
theorem forall_mem_ite {α : Type*} {c : Prop} [Decidable c] {x y : Option α} {Q : α → Prop}
    (new : ∀ v ∈ x, Q v) (old : ∀ v ∈ y, Q v) : ∀ v ∈ if c then x else y, Q v := by
  split
  · exact new
  · exact old

theorem All.putSnapshot (h : All P rs) (k : κ) {snapshot : ReadSnapshot}
    (new : ∀ e ∈ snapshot.sources, P e) : All P (rs.putSnapshot k snapshot) :=
  { h with snapshots := fun j => forall_mem_ite (by rintro _ ⟨⟩; exact new) (h.snapshots j) }

variable {r : LogRecord} {e : EntryId} {records : List LogRecord}

omit [DecidableEq κ] in
theorem all_found (hr : P r.entry) : ∀ e ∈ (ReadSnapshot.found r).sources, P e :=
  forall_mem_singleton.mpr hr

theorem mem_queue_of_records {p : PendingCommitData} (hr : r ∈ p.records) :
    r.entry ∈ p.pendingQueue := (mem_stamped hr).2.2.2

/-- The sources of a queue position are own entries of the batch. -/
theorem mem_queuePositions {k} (he : e ∈ (queuePositions M k records).sources) :
    ∃ r ∈ records, r.entry = e ∧ M.own e = true := by
  have fold : ∀ q,
      e ∈ (records.foldl (QueueAggregatePositions.track M k) q).sources →
      e ∈ q.sources ∨ ∃ r ∈ records, r.entry = e ∧ M.own e = true := by
    clear he
    induction records with
    | nil => exact fun q he => .inl he
    | cons r records ih =>
      intro q he
      rcases ih _ he with tracked | ⟨r', hr', found⟩
      · have added : e ∈ q.sources ∨ r.entry = e ∧ M.own r.entry = true := by
          simp only [QueueAggregatePositions.track] at tracked
          split at tracked
          next own =>
            split at tracked
            all_goals first
              | exact .inl tracked
              | exact (mem_cons.mp tracked).elim (fun eq => .inr ⟨eq.symm, own.1⟩) .inl
          next => exact .inl tracked
        rcases added with old | ⟨rfl, own⟩
        · exact .inl old
        · exact .inr ⟨r, mem_cons_self, rfl, own⟩
      · exact .inr ⟨r', mem_cons_of_mem r hr', found⟩
  exact (fold _ he).resolve_left nofun

namespace All

variable (h : All P rs)
include h

section

omit [DecidableEq κ]

theorem cons_existing {k existing}
    (cached : rs.aggregateReadSnapshots k = some existing) (he : P e) :
    ∀ e' ∈ e :: existing.sources, P e' :=
  forall_mem_cons.mpr ⟨he, h.snapshots k existing cached⟩

theorem updateSegmentSummary (he : P e) :
    All P (rs.updateSegmentSummary e) :=
  { h with summary := forall_mem_cons.mpr ⟨he, h.summary⟩ }

theorem updateSegmentSummaryForLog (he : P e) (g active : ℕ) :
    All P (rs.updateSegmentSummaryForLog g active e) := by
  unfold ReadSide.updateSegmentSummaryForLog
  split
  next sources staged =>
    refine { h with sealedSummaries := fun k => forall_mem_ite ?_ (h.sealedSummaries k) }
    rintro _ ⟨⟩
    exact forall_mem_cons.mpr ⟨he, h.sealedSummaries g sources staged⟩
  next =>
    split
    · exact h.updateSegmentSummary he
    · exact h

theorem clearAllCaches : All P rs.clearAllCaches :=
  { h with snapshots := nofun, recentWrites := nofun, sealedSummaries := nofun }

theorem storeSealedSegmentSummary (logId : ℕ) :
    All P (rs.storeSealedSegmentSummary logId) := by
  refine { h with
    summary := nofun
    sealedSummaries := fun g => forall_mem_ite ?_ (h.sealedSummaries g) }
  rintro _ ⟨⟩ e he
  rcases mem_append.mp he with staged | active
  · cases slot : rs.sealedSegmentSummaries logId with
    | none =>
      rw [slot] at staged
      cases staged
    | some sources =>
      rw [slot] at staged
      exact h.sealedSummaries logId sources slot e staged
  · exact h.summary e active

theorem takeSegmentSummary : All P rs.takeSegmentSummary :=
  { h with summary := nofun, draining := h.summary }

theorem sidecarWritten (ok : Bool) (logId : ℕ) :
    All P (rs.sidecarWritten ok logId) := by
  refine { h with draining := nofun, sidecars := fun g => forall_mem_ite ?_ (h.sidecars g) }
  rintro _ ⟨⟩
  exact h.draining

theorem sweepSidecar (logId : ℕ) : All P (rs.sweepSidecar logId) :=
  { h with
    sealedSummaries := fun g => forall_mem_ite nofun (h.sealedSummaries g)
    sidecars := fun g => forall_mem_ite (h.sealedSummaries logId) (h.sidecars g) }

theorem deleteSidecarsAbove (logId : ℕ) : All P (rs.deleteSidecarsAbove logId) :=
  { h with sidecars := fun g => forall_mem_ite nofun (h.sidecars g) }

theorem replayed {active} (known : ∀ r ∈ active, P r.entry) :
    All P (rs.replayed active) :=
  { (all_empty : All P (empty : ReadSide κ)) with
    sidecars := h.sidecars
    summary := forall_mem_map.mpr known }

end

theorem commitPositionSnapshot (hr : P r.entry) :
    All P (rs.commitPositionSnapshot M r) := by
  refine h.putSnapshot _ ?_
  split
  next existing cached =>
    split
    · exact all_found hr
    · exact h.cons_existing cached hr
  next => exact all_found hr

theorem commitTrimSnapshot (hr : P r.entry) :
    All P (rs.commitTrimSnapshot M r) := by
  refine h.putSnapshot _ ?_
  split
  next existing cached => exact h.cons_existing cached hr
  next => exact all_found hr

theorem putDeleted (hr : P r.entry) : All P (rs.putDeleted M r) :=
  h.putSnapshot _ (all_found hr)

theorem commitItem (hr : P r.entry) :
    All P (rs.commitItem M r) := by
  unfold ReadSide.commitItem
  split
  · have snapshots := h.commitPositionSnapshot (M := M) hr
    exact { snapshots with recentWrites := forall_mem_cons.mpr ⟨hr, snapshots.recentWrites⟩ }
  · exact h.commitTrimSnapshot hr
  · exact h.putDeleted hr
  · exact h

theorem commitPcd (active : ℕ) {p : PendingCommitData}
    (hp : ∀ e ∈ p.pendingQueue, P e) : All P (rs.commitPcd M active p) :=
  List.foldlRecOn p.records _ (motive := All P) h fun _ h _ hr =>
    (h.updateSegmentSummaryForLog (hp _ (mem_queue_of_records hr)) p.logId active).commitItem
      (hp _ (mem_queue_of_records hr))

theorem commitPcds (active : ℕ) {ps}
    (hps : ∀ e ∈ entriesOf ps, P e) : All P (rs.commitPcds M active ps) := by
  induction ps generalizing rs with
  | nil => exact h
  | cons p ps ih =>
    exact ih (h.commitPcd active fun e he => hps e (mem_append_left _ he))
      fun e he => hps e (mem_append_right _ he)

theorem commitFull (new : ∀ r ∈ records, P r.entry) :
    All P (rs.commitFull M records) :=
  List.foldlRecOn records _ (motive := All P) h fun _ h r hr =>
    (h.updateSegmentSummary (new r hr)).commitItem (new r hr)

theorem commitSyncPositionsSnapshot (own : ∀ r ∈ records, M.own r.entry = true → P r.entry) :
    All P (rs.commitSyncPositionsSnapshot M records) := by
  refine { h with snapshots := fun k sn hsn => ?_ }
  have queued : ∀ e ∈ (queuePositions M k records).sources, P e := by
    intro e he
    obtain ⟨r, hr, rfl, isOwn⟩ := mem_queuePositions he
    exact own r hr isOwn
  simp only [ReadSide.commitSyncPositionsSnapshot] at hsn
  split at hsn
  next r _ _ =>
    split at hsn
    next existing cached =>
      split at hsn
      · cases hsn
        exact queued
      · cases hsn
        exact forall_mem_append.mpr ⟨queued, h.snapshots k existing cached⟩
    next =>
      cases hsn
      exact queued
  next => exact h.snapshots k sn hsn

theorem clearForTruncate (active d : ℕ) {ps discarded : List PendingCommitData}
    (committed : ∀ e ∈ entriesOf ps, P e) (dropped : ∀ e ∈ entriesOf discarded, P e) :
    All P (rs.clearForTruncate M active d ps discarded) := by
  refine All.clearAllCaches
    (List.foldlRecOn _ _ (h.commitPcds active committed) fun rs h r hr => ?_)
  obtain ⟨p, hp, survives⟩ := mem_flatMap.mp hr
  have queued := mem_queue_of_records (mem_of_mem_filter survives)
  exact h.updateSegmentSummaryForLog (dropped _ (mem_entriesOf.mpr ⟨p, hp, queued⟩)) r.logId active

end All

/-- **What gets into the caches**: the sources after a step are old ones, what the step commits, a
batch committed in full, own entries of a batch that a follower fsyncs, survivors of a truncation,
and after a restart what the log holds. -/
theorem All.after (h : All P rs) {log s t a} (committed : ∀ e ∈ entriesOf (s.newlyCommitted t), P e)
    (full : a = .syncSucceeded → ∀ entries g clone,
      s.gate = .writing .fullCommit entries g clone → ∀ e ∈ entries, P e)
    (own : a = .syncSucceeded → ∀ entries g clone,
      s.gate = .writing .deferToLeaderConfirmed entries g clone → ∀ e ∈ entries,
        M.own e = true → P e)
    (dropped : ∀ i, a = .truncateGate i → ∀ e ∈ entriesOf s.cache.parkedCommits, P e)
    (replay : a = .restart → ∀ r ∈ log, P r.entry) : All P (rs.after M log s t a) := by
  unfold ReadSide.after
  split
  · split
    next target entries g clone gate =>
      cases target with
      | deferToReplicationAck => exact h
      | deferToLeaderConfirmed =>
        exact h.commitSyncPositionsSnapshot fun r hr isOwn =>
          own rfl entries g clone gate _ (mem_stamped hr).2.2.2 isOwn
      | fullCommit =>
        have new : ∀ r ∈ stamped g clone.write entries, P r.entry := fun r hr =>
          full rfl entries g clone gate _ (mem_stamped hr).2.2.2
        exact (h.commitSyncPositionsSnapshot fun r hr _ => new r hr).commitFull new
    next => exact h
  · split
    · exact h.takeSegmentSummary
    · exact h.storeSealedSegmentSummary _
    · exact h
  · exact h.sidecarWritten _ _
  next i =>
    split
    next divergentLogId divergentWalSeq _ =>
      have discarded : ∀ e ∈ entriesOf
          (s.cache.drainParkedCommitsUpTo (divergentWalSeq - 1)).parkedCommits, P e := by
        intro e he
        obtain ⟨p, hp, queued⟩ := mem_entriesOf.mp he
        exact dropped i rfl e
          (mem_entriesOf.mpr ⟨p, (dropWhile_sublist _).subset hp, queued⟩)
      have cleared := h.clearForTruncate (M := M) s.segments.activeLogId divergentWalSeq committed
        discarded
      split
      · exact cleared
      · exact cleared.deleteSidecarsAbove _
    next => exact h
  · exact { h with summary := by rintro _ ⟨⟩ }
  · split
    · exact h.clearAllCaches
    · exact h
  · exact h.replayed fun r hr => replay rfl r (mem_of_mem_filter hr)
  · exact h.commitPcds _ committed

end All

end ReadSide

end Celeriant
