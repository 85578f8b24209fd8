import Celeriant.Lib.Saturating
import Celeriant.Distributed.NodeStatus
import Celeriant.Replication.S3Catchup
import Celeriant.Shard.Machine
import Mathlib.Data.List.Sort

/-!
# The promotion upload

A promoted follower uploads what it received over TCP and S3 has never seen: the entries from the
promotion floor to its write position. `upload_s3_promotion_batch` reconciles the durable tail,
walks the committed metablocks backwards down to the floor, cuts them into objects by size and hands
each object to `replicate_to_s3`, which refuses an object whose entries are of two lease epochs. A
range that spans a failover has such an object as soon as the two epochs meet inside one.

A segment is the list of its metablocks below the write cursor, with the datablocks they refer to. A
cursor is given by the metablocks below it and by the number of the last entry; disk reads and S3
puts succeed. A refused object is refused again by each of the three attempts, so one attempt stands
for all of them.

## Main results

* `promotion_upload_iff_uploadable`
* `upload_refuses_two_epochs`: a range of two epochs is not uploaded
-/

namespace Celeriant

open HashChain List

/-! ## The log -/

/-- Metablocks below it, and the last number. -/
structure PromotionCursor where
  metablocks : ℕ
  walSeq : ℕ
  deriving DecidableEq, Repr

/-- A batch whose commit is deferred, by its segment and the write cursor it ended with. -/
structure ParkedTail where
  logId : ℕ
  write : PromotionCursor
  deriving DecidableEq, Repr

/-- A segment: the metablocks below its write cursor, and its read cursor. For a segment that is not
cached this is the read cursor of its header. -/
structure PromotionSegment (H B D : Type*) where
  logId : ℕ
  items : List (ReplicationBatchItem H B D)
  read : Option PromotionCursor
  cached : Bool

namespace PromotionSegment

variable {H B D : Type*} (seg : PromotionSegment H B D)

/-- The metablocks a scan under the read cursor visits; a segment without one is skipped. -/
def committed : List (ReplicationBatchItem H B D) :=
  match seg.read with
  | some cursor => seg.items.take cursor.metablocks
  | none => []

theorem committed_sublist : seg.committed.Sublist seg.items := by
  unfold committed
  split
  · exact take_sublist _ _
  · exact nil_sublist _

/-- `commit_pcd` for each parked batch in order; one whose segment is not cached moves no cursor. -/
def commitPcds (parked : List ParkedTail) : PromotionSegment H B D :=
  parked.foldl
    (fun seg p => if p.logId = seg.logId ∧ seg.cached then { seg with read := some p.write }
      else seg)
    seg

/-- Commits move the read cursor only, to the end of a batch of the segment. -/
theorem commitPcds_cases (parked : List ParkedTail) :
    ((seg.commitPcds parked).items = seg.items ∧ (seg.commitPcds parked).cached = seg.cached) ∧
      ((seg.commitPcds parked).read = seg.read ∨
        ∃ p ∈ parked, p.logId = seg.logId ∧ (seg.commitPcds parked).read = some p.write) := by
  induction parked generalizing seg with
  | nil => exact ⟨⟨rfl, rfl⟩, .inl rfl⟩
  | cons p parked ih =>
    rw [commitPcds, foldl_cons]
    split
    next committed =>
      obtain ⟨items, read⟩ := ih { seg with read := some p.write }
      refine ⟨items, .inr ?_⟩
      rcases read with same | ⟨q, mem, sameLog, read⟩
      · exact ⟨p, mem_cons_self, committed.1, same⟩
      · exact ⟨q, mem_cons_of_mem p mem, sameLog, read⟩
    next =>
      obtain ⟨items, read⟩ := ih seg
      refine ⟨items, read.imp_right ?_⟩
      rintro ⟨q, mem, sameLog, read⟩
      exact ⟨q, mem_cons_of_mem p mem, sameLog, read⟩

end PromotionSegment

/-- The numbers of the entries ascend. -/
abbrev Ascending {H B D : Type*} (items : List (ReplicationBatchItem H B D)) : Prop :=
  items.Pairwise fun a b => a.metablock.walSeq < b.metablock.walSeq

/-- The segments of a shard, oldest first, its write position and its parked commits. -/
structure PromotionLog (H B D : Type*) where
  sealedSegments : List (PromotionSegment H B D)
  active : PromotionSegment H B D
  writeWalSeq : ℕ
  parked : List ParkedTail
  /-- `get_if_cached` finds the active segment -/
  activeCached : active.cached = true
  ascending : Ascending (sealedSegments.flatMap (·.items) ++ active.items)
  bounded : ∀ item ∈ sealedSegments.flatMap (·.items) ++ active.items,
    item.metablock.walSeq ≤ writeWalSeq
  /-- nothing below a read cursor, set or still deferred, of the active segment is numbered above
  it -/
  cursors : ∀ read, (read ∈ active.read ∨ ∃ p ∈ parked, p.logId = active.logId ∧ p.write = read) →
    ∀ item ∈ sealedSegments.flatMap (·.items) ++ active.items.take read.metablocks,
      item.metablock.walSeq ≤ read.walSeq

namespace PromotionLog

variable {H B D : Type*} (log : PromotionLog H B D)

/-- All entries, oldest first. -/
def entries : List (ReplicationBatchItem H B D) :=
  log.sealedSegments.flatMap (·.items) ++ log.active.items

/-- The committed entries, oldest first. -/
def committed : List (ReplicationBatchItem H B D) :=
  (log.sealedSegments ++ [log.active]).flatMap (·.committed)

/-- The metablocks as the reverse scanner meets them: newest segment first, each from its end. -/
def visited : List (ReplicationBatchItem H B D) :=
  (log.sealedSegments ++ [log.active]).reverse.flatMap fun seg => seg.committed.reverse

theorem visited_eq : log.visited = log.committed.reverse :=
  reverse_flatMap.symm

theorem committed_sublist : log.committed.Sublist log.entries := by
  have flat : log.entries = (log.sealedSegments ++ [log.active]).flatMap (·.items) := by
    simp [entries]
  rw [flat, committed]
  induction log.sealedSegments ++ [log.active] with
  | nil => exact List.Sublist.refl _
  | cons seg segs ih =>
    exact seg.committed_sublist.append ih

theorem ascending_committed : Ascending log.committed :=
  log.ascending.sublist log.committed_sublist

/-- The read position, 0 while the active segment has none. -/
def readWalSeq : ℕ := (log.active.read.map (·.walSeq)).getD 0

/-! ## Reconciling the tail -/

section Reconcile

variable (author : B → ℕ) (nodeId : ℕ)

/-- The newest metablock below the write cursors. -/
def tip : Option (ReplicationBatchItem H B D) := log.entries.getLast?

/-- A tail with parked commits came from the peer; otherwise the author of its last entry
decides. -/
def durableTailIsPeer : Bool :=
  !log.parked.isEmpty || log.tip.any fun item => author item.metablock.content.body ≠ nodeId

/-- The read cursor of the active segment moves to its write cursor. -/
def advanceVisiblePosition : PromotionLog H B D :=
  { log with
    active := { log.active with read := some ⟨log.active.items.length, log.writeWalSeq⟩ }
    cursors := by
      rintro read (⟨⟨⟩⟩ | parked) item mem
      · rw [take_length] at mem
        exact log.bounded item mem
      · exact log.cursors read (.inr parked) item mem }

theorem items_commitPcds (parked : List ParkedTail) (segs : List (PromotionSegment H B D)) :
    (segs.map (·.commitPcds parked)).flatMap (·.items) = segs.flatMap (·.items) := by
  rw [flatMap_map]
  exact flatMap_congr fun seg _ => (seg.commitPcds_cases parked).1.1

/-- Every parked batch goes through `commit_pcd`. -/
def commitParked : PromotionLog H B D where
  sealedSegments := log.sealedSegments.map (·.commitPcds log.parked)
  active := log.active.commitPcds log.parked
  writeWalSeq := log.writeWalSeq
  parked := []
  activeCached := (log.active.commitPcds_cases log.parked).1.2.trans log.activeCached
  ascending := by
    rw [items_commitPcds, (log.active.commitPcds_cases log.parked).1.1]
    exact log.ascending
  bounded := by
    rw [items_commitPcds, (log.active.commitPcds_cases log.parked).1.1]
    exact log.bounded
  cursors := by
    rw [items_commitPcds, (log.active.commitPcds_cases log.parked).1.1]
    rintro read (set | ⟨p, mem, -⟩)
    · apply log.cursors read
      rcases (log.active.commitPcds_cases log.parked).2 with same | ⟨p, mem, sameLog, moved⟩
      · exact .inl (same ▸ set)
      · exact .inr ⟨p, mem, sameLog, Option.some.inj (moved.symm.trans set)⟩
    · cases mem

/-- `commit_durable_tail`: the parked batches, then the rest of the active segment. -/
def commitDurableTail : PromotionLog H B D :=
  let drained := log.commitParked
  if drained.readWalSeq < drained.writeWalSeq then drained.advanceVisiblePosition else drained

/-- `cull_tail`: the write cursor of the active segment goes back to its read cursor. -/
def cullTail (read : PromotionCursor) (current : read ∈ log.active.read) : PromotionLog H B D where
  sealedSegments := log.sealedSegments
  active := { log.active with items := log.active.items.take read.metablocks }
  writeWalSeq := read.walSeq
  parked := []
  activeCached := log.activeCached
  ascending := log.ascending.sublist ((List.Sublist.refl _).append (take_sublist _ _))
  bounded := log.cursors read (.inl current)
  cursors := by
    rintro other (set | ⟨p, none, -⟩) item mem
    · obtain rfl : read = other := Option.some.inj (current.symm.trans set)
      rw [take_take, Nat.min_self] at mem
      exact log.cursors read (.inl current) item mem
    · cases none

/-- `reconcile_durable_tail` for a promotion: a peer's tail is committed, an own one culled. An own
tail without a read cursor stays. -/
def reconcile : PromotionLog H B D :=
  if log.writeWalSeq ≤ log.readWalSeq then log
  else if log.durableTailIsPeer author nodeId then log.commitDurableTail
  else
    match h : log.active.read with
    | none => log
    | some read => log.cullTail read h

end Reconcile

end PromotionLog

/-! ## The machine of the shard -/

section Machine

variable {H B D : Type*}

/-- The file of the segment in the machine of the shard: open with it, at its read cursor. -/
structure PromotionSegment.Mirrors (seg : PromotionSegment H B D) (c : LogSegmentsCache) :
    Prop where
  cached : c.IsCached seg.logId ↔ seg.cached = true
  read : seg.cached = true → (c.metadata seg.logId).read = seg.read.map (·.walSeq)

/-- The shard of the machine has the cursors and the queue of the log. -/
structure PromotionLog.Mirrors (log : PromotionLog H B D) (s : Shard) : Prop where
  activeLogId : s.segments.activeLogId = log.active.logId
  write : s.segments.active.write = log.writeWalSeq
  active : log.active.Mirrors s.segments
  sealedSegments : ∀ seg ∈ log.sealedSegments,
    seg.logId ≠ log.active.logId ∧ seg.Mirrors s.segments
  parked : s.cache.parkedCommits.map (fun p => (p.logId, p.tip)) =
    log.parked.map fun p => (p.logId, p.write.walSeq)

namespace PromotionSegment

variable {seg : PromotionSegment H B D} {c : LogSegmentsCache}

theorem commitPcds_logId (parked : List ParkedTail) :
    (seg.commitPcds parked).logId = seg.logId := by
  induction parked generalizing seg with
  | nil => rfl
  | cons p parked ih =>
    rw [commitPcds, foldl_cons]
    exact ih.trans (by split <;> rfl)

/-- A record of another segment is stored. -/
theorem Mirrors.setMetadata (h : seg.Mirrors c) {g m} (other : seg.logId ≠ g) :
    seg.Mirrors (c.setMetadata g m) := by
  refine ⟨?_, fun isOpen => ?_⟩
  · rw [← h.cached]
    simp [LogSegmentsCache.IsCached, LogSegmentsCache.setMetadata, LogSegmentsCache.setFile, other]
  · rw [LogSegmentsCache.setMetadata_metadata, if_neg other]
    exact h.read isOpen

/-- The read cursor of the segment moves on both sides. -/
theorem Mirrors.setRead (h : seg.Mirrors c) {g m} (here : g = seg.logId) (cursor : PromotionCursor)
    (read : m.read = some cursor.walSeq) :
    { seg with read := some cursor }.Mirrors (c.setMetadata g m) := by
  subst here
  refine ⟨?_, fun _ => ?_⟩
  · refine Iff.trans ?_ h.cached
    simp [LogSegmentsCache.IsCached, LogSegmentsCache.setMetadata, LogSegmentsCache.setFile]
  · rw [LogSegmentsCache.setMetadata_metadata_self]
    exact read

theorem Mirrors.commitPcds (h : seg.Mirrors c) {ps : List PendingCommitData}
    {parked : List ParkedTail} (same : ps.map (fun p => (p.logId, p.tip)) =
      parked.map fun p => (p.logId, p.write.walSeq)) :
    (seg.commitPcds parked).Mirrors (c.commitPcds ps) := by
  induction ps generalizing parked seg c with
  | nil =>
    obtain rfl : parked = [] := by simpa using same.symm
    exact h
  | cons p ps ih =>
    cases parked with
    | nil => cases same
    | cons q parked =>
      obtain ⟨batch, rest⟩ := List.cons.inj same
      obtain ⟨logId, tip⟩ := Prod.mk.inj batch
      rw [PromotionSegment.commitPcds, foldl_cons, LogSegmentsCache.commitPcds, foldl_cons]
      refine ih ?_ rest
      rw [LogSegmentsCache.commitPcd, ← logId]
      by_cases here : p.logId = seg.logId
      · by_cases isOpen : seg.cached = true
        · rw [if_pos ⟨here, isOpen⟩, if_pos (here ▸ h.cached.mpr isOpen)]
          exact h.setRead here q.write (congrArg some tip)
        · rw [if_neg fun both => isOpen both.2, if_neg (here ▸ mt h.cached.mp isOpen)]
          exact h
      · rw [if_neg fun both => here both.1]
        split
        · exact h.setMetadata (Ne.symm here)
        · exact h

end PromotionSegment

namespace PromotionLog.Mirrors

variable {log : PromotionLog H B D} {s : Shard}

theorem read (h : log.Mirrors s) :
    s.segments.active.read = log.active.read.map (·.walSeq) := by
  rw [← h.active.read log.activeCached, ← h.activeLogId]
  rfl

theorem readWalSeq (h : log.Mirrors s) : s.segments.active.readWalSeq = log.readWalSeq :=
  congrArg (·.getD 0) h.read

theorem advance (h : log.Mirrors s) : log.advanceVisiblePosition.Mirrors s.advanceActive where
  activeLogId := h.activeLogId
  write := (congrArg (·.write) (LogSegmentsCache.updateActive_active ..)).trans h.write
  active := h.active.setRead h.activeLogId _ (congrArg some h.write)
  sealedSegments seg mem := by
    obtain ⟨other, mirrors⟩ := h.sealedSegments seg mem
    exact ⟨other, mirrors.setMetadata (h.activeLogId ▸ other)⟩
  parked := h.parked

theorem commitParked (h : log.Mirrors s) : log.commitParked.Mirrors s.commitParked := by
  have tips := LogSegmentsCache.commitPcds_sameTips (c := s.segments) s.cache.parkedCommits
  have same := log.active.commitPcds_logId log.parked
  refine ⟨tips.activeLogId.trans (h.activeLogId.trans same.symm), tips.active_write.trans h.write,
    h.active.commitPcds h.parked, fun _ mem => ?_, rfl⟩
  obtain ⟨seg, isSealed, rfl⟩ := mem_map.mp mem
  obtain ⟨other, mirrors⟩ := h.sealedSegments seg isSealed
  refine ⟨?_, mirrors.commitPcds h.parked⟩
  rw [seg.commitPcds_logId]
  exact fun eq => other (eq.trans same)

theorem commitDurableTail (h : log.Mirrors s) :
    log.commitDurableTail.Mirrors s.commitDurableTail := by
  have drained := h.commitParked
  simp only [PromotionLog.commitDurableTail, Shard.commitDurableTail, drained.readWalSeq,
    drained.write]
  split
  · exact drained.advance
  · exact drained

theorem cullTail (h : log.Mirrors s) (none : log.parked = []) {read}
    (current : log.active.read = some read) :
    (log.cullTail read current).Mirrors (s.beginCull (.writeToRead read.walSeq)) := by
  have queue : s.cache.parkedCommits = [] := by simpa [none] using h.parked
  have cursor : s.segments.active.read = some read.walSeq := by
    rw [h.read, current]
    rfl
  refine ⟨h.activeLogId, congrArg (·.write) (LogSegmentsCache.updateActive_active ..), ?_, ?_, ?_⟩
  · have moved := h.active.setRead (m := { s.segments.active with write := read.walSeq })
      h.activeLogId read cursor
    rw [← current] at moved
    exact ⟨moved.cached, moved.read⟩
  · intro seg mem
    obtain ⟨other, mirrors⟩ := h.sealedSegments seg mem
    exact ⟨other, mirrors.setMetadata (h.activeLogId ▸ other)⟩
  · simp [Shard.beginCull, Shard.removeAbove, queue, PromotionLog.cullTail]

/-- **A promotion's reconciliation is that of the machine of the shard**, at once or after its
answer about the tail, with no step of another task in between. -/
theorem reconcile (h : log.Mirrors s) (author : B → ℕ) (nodeId : ℕ) :
    ∃ t, (log.reconcile author nodeId).Mirrors t ∧
      (s.step (.reconcileDurableTail .commitForPromotion) = some t ∨
        (s.reconcileDurableTail .commitForPromotion).step
          (.tailProvenance s.culls.length (log.durableTailIsPeer author nodeId)) = some t) := by
  have done : s.segments.active.write ≤ s.segments.active.readWalSeq ↔
      log.writeWalSeq ≤ log.readWalSeq := by rw [h.write, h.readWalSeq]
  have queue : s.cache.parkedCommits.isEmpty = true ↔ log.parked = [] := by
    rw [List.isEmpty_iff, ← map_eq_nil_iff, h.parked, map_eq_nil_iff]
  simp only [Shard.step, Shard.reconcileDurableTail, done, queue]
  unfold PromotionLog.reconcile
  by_cases upToDate : log.writeWalSeq ≤ log.readWalSeq
  · exact ⟨s, by rwa [if_pos upToDate], .inl (by rw [if_pos upToDate])⟩
  rw [if_neg upToDate, if_neg upToDate]
  by_cases none : log.parked = []
  · simp only [if_pos none, getElem?_concat_length, Option.some.injEq]
    refine ⟨_, ?_, .inr rfl⟩
    -- the task is gone from the list again, and nothing else has changed
    have same (tasks) : log.Mirrors (Shard.dropCull { s with culls := tasks } s.culls.length) :=
      ⟨h.activeLogId, h.write, h.active, h.sealedSegments, h.parked⟩
    cases log.durableTailIsPeer author nodeId with
    | true => exact (same _).commitDurableTail
    | false =>
      rw [if_neg Bool.false_ne_true]
      split
      next unread =>
        rw [h.read.trans (congrArg _ unread)]
        exact same _
      next read current =>
        rw [h.read.trans (congrArg _ current)]
        exact (same _).cullTail none current
  · have isPeer : log.durableTailIsPeer author nodeId = true := by
      simp [PromotionLog.durableTailIsPeer, none]
    exact ⟨_, by rw [if_pos isPeer]; exact h.commitDurableTail, .inl (by rw [if_neg none])⟩

end PromotionLog.Mirrors

end Machine

/-! ## The upload -/

/-- The items down to the floor, or too many bytes. -/
inductive PromotionBatchScan (H B D : Type*)
  | collected (items : List (ReplicationBatchItem H B D))
  | budgetExceeded

/-- Why an object is not put. -/
inductive ReplicateToS3Error
  | batchNotContiguous (atIndex expectedWalSeq actualWalSeq : ℕ)
  | leaseIndexInconsistent (atIndex first found : ℕ)
  | s3NotConfigured
  deriving DecidableEq, Repr

/-- The size of a metablock on disk. -/
def fixedBlockSizeBytes : ℕ := 1024

/-- A promoted shard and its upload settings. -/
structure PromotionShard (H B D : Type*) where
  nodeStatus : NodeStatus
  nodeId : ℕ
  log : PromotionLog H B D
  lastReceivedReplicationWalSeq : ℕ
  maxPromotionBatchBytes : Option ℕ
  internodeMaxRequestSize : ℕ
  s3Configured : Bool
  s3UploadSequence : ℕ

section Upload

variable {H B D : Type*} (size : B → ℕ)

/-- The uncompressed size a metablock records. -/
def uncompressedSize (item : ReplicationBatchItem H B D) : ℕ := size item.metablock.content.body

/-- The visitor of `scan_for_promotion_batch`, over the metablocks in the order of the scan. -/
def scanForPromotionBatch (startWalSeq : ℕ) (maxBytes : Option ℕ) :
    ℕ → List (ReplicationBatchItem H B D) → PromotionBatchScan H B D
  | _, [] => .collected []
  | accBytes, item :: rest =>
    if item.metablock.walSeq < startWalSeq then .collected []
    else
      let accBytes := satAdd accBytes (uncompressedSize size item)
      if maxBytes.any (· < accBytes) then .budgetExceeded
      else
        match scanForPromotionBatch startWalSeq maxBytes accBytes rest with
        | .collected items => .collected (item :: items)
        | .budgetExceeded => .budgetExceeded

/-- The objects: an item that does not fit opens the next one. -/
def chunkItems (maxObjectBytes : ℕ) :
    List (ReplicationBatchItem H B D) → List (ReplicationBatchItem H B D) → ℕ →
      List (List (ReplicationBatchItem H B D))
  | [], current, _ => if current.isEmpty then [] else [current]
  | item :: rest, current, currentBytes =>
    let itemBytes := fixedBlockSizeBytes + uncompressedSize size item
    if !current.isEmpty ∧ maxObjectBytes < satAdd currentBytes itemBytes then
      current :: chunkItems maxObjectBytes rest [item] itemBytes
    else chunkItems maxObjectBytes rest (current ++ [item]) (currentBytes + itemBytes)

/-- The first item of another lease epoch than `first`. -/
def firstOtherEpoch (first : ℕ) : ℕ → List (ReplicationBatchItem H B D) → Option (ℕ × ℕ)
  | _, [] => none
  | index, item :: rest =>
    if item.metablock.content.leaseEpoch ≠ first then
      some (index, item.metablock.content.leaseEpoch)
    else firstOtherEpoch first (index + 1) rest

/-- `replicate_to_s3`: the object that is put, none for an empty batch. -/
def replicateToS3 (s3Configured : Bool) (uploadSequence : ℕ)
    (batches : List (ReplicationBatchItem H B D)) :
    Except ReplicateToS3Error (Option (FallbackBatch H B D)) :=
  match batches with
  | [] => .ok none
  | first :: rest =>
    match firstGap (E := Unit) 0 batches with
    | some (.batchWalSeqGap atIndex expected actual) =>
      .error (.batchNotContiguous atIndex expected actual)
    | _ =>
      if !s3Configured then .error .s3NotConfigured
      else
        let leaseEpoch := first.metablock.content.leaseEpoch
        match firstOtherEpoch leaseEpoch 1 rest with
        | some (atIndex, found) => .error (.leaseIndexInconsistent atIndex leaseEpoch found)
        | none => .ok (some ⟨leaseEpoch, satAdd uploadSequence 1, batches⟩)

/-- The objects put so far, and how the loop ended. -/
def uploadChunks (s3Configured : Bool) : ℕ → List (List (ReplicationBatchItem H B D)) →
    List (FallbackBatch H B D) × Except ReplicateToS3Error Unit
  | _, [] => ([], .ok ())
  | uploadSequence, chunk :: chunks =>
    match replicateToS3 s3Configured uploadSequence chunk with
    | .error e => ([], .error e)
    | .ok none => uploadChunks s3Configured uploadSequence chunks
    | .ok (some file) =>
      let (files, result) := uploadChunks s3Configured (satAdd uploadSequence 1) chunks
      (file :: files, result)

/-! ## What the pieces of the upload do -/

/-- The bytes a scan has tallied after some metablocks. -/
def tally (accBytes : ℕ) (items : List (ReplicationBatchItem H B D)) : ℕ :=
  items.foldl (fun acc item => satAdd acc (uncompressedSize size item)) accBytes

theorem le_tally (accBytes : ℕ) (items : List (ReplicationBatchItem H B D))
    (small : accBytes ≤ u64Max) :
    accBytes ≤ tally size accBytes items := by
  induction items generalizing accBytes with
  | nil => exact le_rfl
  | cons item items ih =>
    refine le_trans ?_ (ih (satAdd accBytes (uncompressedSize size item)) (Nat.min_le_right ..))
    exact Nat.le_min.mpr ⟨Nat.le_add_right .., small⟩

/-- The metablocks down to the start. -/
def downTo (startWalSeq : ℕ) (visited : List (ReplicationBatchItem H B D)) :
    List (ReplicationBatchItem H B D) :=
  visited.takeWhile fun item => startWalSeq ≤ item.metablock.walSeq

/-- **A scan collects everything down to the start, or finds it to exceed the budget.** -/
theorem scanForPromotionBatch_eq (startWalSeq : ℕ) (maxBytes : Option ℕ) (accBytes : ℕ)
    (small : accBytes ≤ u64Max) (fits : ∀ cap ∈ maxBytes, accBytes ≤ cap)
    (visited : List (ReplicationBatchItem H B D)) :
    scanForPromotionBatch size startWalSeq maxBytes accBytes visited =
      if ∀ cap ∈ maxBytes, tally size accBytes (downTo startWalSeq visited) ≤ cap then
        .collected (downTo startWalSeq visited)
      else .budgetExceeded := by
  induction visited generalizing accBytes with
  | nil => exact (if_pos fits).symm
  | cons item rest ih =>
    rw [scanForPromotionBatch]
    split
    next below =>
      have none : downTo startWalSeq (item :: rest) = [] :=
        takeWhile_cons_of_neg (by simpa using below)
      rw [none]
      exact (if_pos fits).symm
    next above =>
      have some : downTo startWalSeq (item :: rest) = item :: downTo startWalSeq rest :=
        takeWhile_cons_of_pos (by simpa using above)
      have acc : satAdd accBytes (uncompressedSize size item) ≤ u64Max := Nat.min_le_right ..
      have tallied : tally size accBytes (item :: downTo startWalSeq rest) =
        tally size (satAdd accBytes (uncompressedSize size item)) (downTo startWalSeq rest) := rfl
      rw [some, tallied]
      dsimp only
      split
      next exceeded =>
        obtain ⟨cap, rfl, less⟩ := (Option.any_eq_true _ _).mp exceeded
        have more := le_tally size _ (downTo startWalSeq rest) acc
        rw [if_neg]
        intro fits
        have := fits cap rfl
        have := of_decide_eq_true less
        omega
      next within =>
        have fits : ∀ cap ∈ maxBytes, satAdd accBytes (uncompressedSize size item) ≤ cap := by
          rintro cap rfl
          simpa using within
        rw [ih _ acc fits]
        by_cases whole : ∀ cap ∈ maxBytes,
            tally size (satAdd accBytes (uncompressedSize size item))
              (downTo startWalSeq rest) ≤ cap
        · rw [if_pos whole, if_pos whole]
        · rw [if_neg whole, if_neg whole]

/-- The objects hold the items in order, and none is empty. -/
theorem chunkItems_spec (maxObjectBytes : ℕ) (items current : List (ReplicationBatchItem H B D))
    (currentBytes : ℕ) :
    (chunkItems size maxObjectBytes items current currentBytes).flatten = current ++ items ∧
      ∀ chunk ∈ chunkItems size maxObjectBytes items current currentBytes, chunk ≠ [] := by
  induction items generalizing current currentBytes with
  | nil =>
    rw [chunkItems]
    split
    next empty => simp [isEmpty_iff.mp empty]
    next filled => simpa using filled
  | cons item rest ih =>
    rw [chunkItems]
    split
    next full =>
      refine ⟨by simp [ih], fun chunk mem => ?_⟩
      rcases mem_cons.mp mem with rfl | later
      · simpa using full.1
      · exact (ih _ _).2 chunk later
    next => exact ⟨by simp [ih], (ih _ _).2⟩

/-- All items are of one lease epoch. -/
def OneEpoch (items : List (ReplicationBatchItem H B D)) : Prop :=
  ∀ a ∈ items, ∀ b ∈ items, a.metablock.content.leaseEpoch = b.metablock.content.leaseEpoch
  deriving Decidable

variable {items : List (ReplicationBatchItem H B D)}

theorem firstOtherEpoch_eq_none {first index} :
    firstOtherEpoch first index items = none ↔
      ∀ item ∈ items, item.metablock.content.leaseEpoch = first := by
  induction items generalizing index with
  | nil => simp [firstOtherEpoch]
  | cons item rest ih =>
    rw [firstOtherEpoch]
    split
    next other => simp [other]
    next same =>
      rw [ih]
      simp [not_not.mp same]

/-- A gap is reported as a gap. -/
theorem firstGap_eq_some {index} {e : ApplyBatchError H Unit} (h : firstGap index items = some e) :
    ∃ atIndex expected actual, e = .batchWalSeqGap atIndex expected actual := by
  induction items generalizing index with
  | nil => cases h
  | cons a items ih =>
    cases items with
    | nil => cases h
    | cons b items =>
      rw [firstGap] at h
      split at h
      · exact ⟨_, _, _, (Option.some.inj h).symm⟩
      · exact ih h

/-- An object passes exactly when it has no gap and one lease epoch, and S3 is configured. -/
theorem replicateToS3_cases (s3Configured : Bool) (uploadSequence : ℕ)
    {batches : List (ReplicationBatchItem H B D)} (nonempty : batches ≠ []) :
    ((Contiguous (metablocksOf batches) ∧ s3Configured = true ∧ OneEpoch batches) ∧
      ∃ leaseEpoch, (∀ item ∈ batches, item.metablock.content.leaseEpoch = leaseEpoch) ∧
        replicateToS3 s3Configured uploadSequence batches =
          .ok (some ⟨leaseEpoch, satAdd uploadSequence 1, batches⟩)) ∨
    (¬ (Contiguous (metablocksOf batches) ∧ s3Configured = true ∧ OneEpoch batches) ∧
      ∃ e, replicateToS3 s3Configured uploadSequence batches = .error e) := by
  obtain ⟨first, rest, rfl⟩ := exists_cons_of_ne_nil nonempty
  rw [replicateToS3]
  cases gap : firstGap (E := Unit) 0 (first :: rest) with
  | some e =>
    obtain ⟨atIndex, expected, actual, rfl⟩ := firstGap_eq_some gap
    refine .inr ⟨fun passes => ?_, _, rfl⟩
    rw [firstGap_eq_none_iff.mpr passes.1] at gap
    cases gap
  | none =>
    dsimp only
    split
    next unset => exact .inr ⟨fun passes => by simp [passes.2.1] at unset, _, rfl⟩
    next set =>
      cases other : firstOtherEpoch first.metablock.content.leaseEpoch 1 rest with
      | some found =>
        refine .inr ⟨fun passes => ?_, _, rfl⟩
        rw [firstOtherEpoch_eq_none.mpr fun item mem =>
          passes.2.2 item (mem_cons_of_mem _ mem) first mem_cons_self] at other
        cases other
      | none =>
        have same : ∀ item ∈ first :: rest,
            item.metablock.content.leaseEpoch = first.metablock.content.leaseEpoch := by
          intro item mem
          rcases mem_cons.mp mem with rfl | later
          · rfl
          · exact firstOtherEpoch_eq_none.mp other item later
        refine .inl ⟨⟨firstGap_eq_none_iff.mp gap, by simpa using set, ?_⟩, _, same, rfl⟩
        exact fun a ha b hb => (same a ha).trans (same b hb).symm

/-- **The loop ends well exactly when every object passes**, and then puts all of them. -/
theorem uploadChunks_cases (s3Configured : Bool) (uploadSequence : ℕ)
    (chunks : List (List (ReplicationBatchItem H B D))) (nonempty : ∀ chunk ∈ chunks, chunk ≠ []) :
    ((uploadChunks s3Configured uploadSequence chunks).2 = .ok () ↔ ∀ chunk ∈ chunks,
      Contiguous (metablocksOf chunk) ∧ s3Configured = true ∧ OneEpoch chunk) ∧
    ((uploadChunks s3Configured uploadSequence chunks).2 = .ok () →
      (uploadChunks s3Configured uploadSequence chunks).1.map (·.items) = chunks ∧
      ∀ file ∈ (uploadChunks s3Configured uploadSequence chunks).1, ∀ item ∈ file.items,
        item.metablock.content.leaseEpoch = file.leaseEpoch) := by
  induction chunks generalizing uploadSequence with
  | nil => simp [uploadChunks]
  | cons chunk chunks ih =>
    have filled := nonempty chunk mem_cons_self
    obtain ⟨result, files⟩ := ih (satAdd uploadSequence 1)
      fun c mem => nonempty c (mem_cons_of_mem _ mem)
    rcases replicateToS3_cases s3Configured uploadSequence filled with
      ⟨passes, leaseEpoch, same, put⟩ | ⟨refused, e, put⟩
    · simp only [uploadChunks, put, forall_mem_cons]
      refine ⟨result.trans (and_iff_right passes).symm, fun ok => ?_⟩
      obtain ⟨items, epochs⟩ := files ok
      exact ⟨by simp [items], same, epochs⟩
    · simp only [uploadChunks, put, forall_mem_cons]
      refine ⟨⟨nofun, fun all => absurd all.1 refused⟩, nofun⟩

/-- In an ascending log the metablocks down to the start are those from the start on. -/
theorem downTo_reverse (startWalSeq : ℕ) (ascending : Ascending items) :
    (downTo startWalSeq items.reverse).reverse =
      items.filter fun item => startWalSeq ≤ item.metablock.walSeq := by
  -- from the newest metablock downwards: the first one below the start ends both
  induction items using List.reverseRecOn with
  | nil => rfl
  | append_singleton items last ih =>
    obtain ⟨older, -, below⟩ := pairwise_append.mp ascending
    rw [reverse_concat, filter_append]
    by_cases above : startWalSeq ≤ last.metablock.walSeq
    · have kept : downTo startWalSeq (last :: items.reverse) =
          last :: downTo startWalSeq items.reverse :=
        takeWhile_cons_of_pos (by simpa using above)
      rw [kept, reverse_cons, ih older]
      simp [above]
    · have stopped : downTo startWalSeq (last :: items.reverse) = [] :=
        takeWhile_cons_of_neg (by simpa using above)
      have none : items.filter (fun item => startWalSeq ≤ item.metablock.walSeq) = [] := by
        apply filter_eq_nil_iff.mpr
        intro item mem
        have := below item mem last (mem_singleton_self last)
        simp only [decide_eq_true_eq]
        omega
      rw [stopped, none]
      simp [above]

/-- Ascending numbers that fill a range are the range. -/
theorem numbers_eq_range {f w} (ascending : Ascending items)
    (inside : ∀ item ∈ items, f ≤ item.metablock.walSeq ∧ item.metablock.walSeq ≤ w)
    (full : ∀ n, f ≤ n → n ≤ w → ∃ item ∈ items, item.metablock.walSeq = n) :
    items.map (·.metablock.walSeq) = List.range' f (w + 1 - f) := by
  apply List.Pairwise.eq_of_mem_iff (pairwise_map.mpr ascending) (pairwise_lt_range' 1)
  intro n
  rw [mem_map, mem_range'_1]
  constructor
  · rintro ⟨item, mem, rfl⟩
    have := inside item mem
    omega
  · intro between
    exact full n between.1 (by omega)

/-- A part of consecutively numbered items is consecutively numbered. -/
theorem contiguous_of_range {f k} {chunks : List (List (ReplicationBatchItem H B D))}
    (numbers : chunks.flatten.map (·.metablock.walSeq) = List.range' f k)
    {chunk} (mem : chunk ∈ chunks) :
    Contiguous (metablocksOf chunk) := by
  have whole : (chunks.flatten.map (·.metablock.walSeq)).IsChain fun a b => b = a + 1 := by
    rw [numbers]
    exact isChain_range' f k 1
  -- the chunk is a stretch of the whole
  obtain ⟨before, after, split⟩ := infix_of_mem_flatten mem
  have whole := (isChain_map _).mp whole
  rw [← split] at whole
  have part := whole.left_of_append.right_of_append
  exact (isChain_map _).mpr (part.imp fun _ _ next => next.symm)

namespace PromotionShard

variable (author : B → ℕ) (s : PromotionShard H B D)

/-- The upload behind the reconciliation: the objects that were put, and the result. -/
def uploadRange : List (FallbackBatch H B D) × Except ReplicateToS3Error Unit :=
  let startWalSeq := s.lastReceivedReplicationWalSeq
  match s.nodeStatus with
  | .leader _ | .promoting _ =>
    if startWalSeq = 0 ∨ s.log.writeWalSeq < startWalSeq then ([], .ok ())
    else
      match scanForPromotionBatch size startWalSeq s.maxPromotionBatchBytes 0 s.log.visited with
      | .budgetExceeded => ([], .ok ())
      | .collected items =>
        uploadChunks s.s3Configured s.s3UploadSequence
          (chunkItems size s.internodeMaxRequestSize items.reverse [] 0)
  | _ => ([], .ok ())

/-- The shard after `reconcile_durable_tail`. -/
def reconciled : PromotionShard H B D := { s with log := s.log.reconcile author s.nodeId }

/-- `upload_s3_promotion_batch`. -/
def uploadS3PromotionBatch : List (FallbackBatch H B D) × Except ReplicateToS3Error Unit :=
  (s.reconciled author).uploadRange size

/-! ## The range from the floor -/

/-- The entries from the floor on. -/
def fromFloor (items : List (ReplicationBatchItem H B D)) : List (ReplicationBatchItem H B D) :=
  items.filter fun item => s.lastReceivedReplicationWalSeq ≤ item.metablock.walSeq

/-- The files partition the entries from the floor to the write position into consecutive ranges of
one lease epoch each. -/
def Covers (files : List (FallbackBatch H B D)) : Prop :=
  files.flatMap (·.items) = s.fromFloor s.log.entries ∧
  (files.flatMap (·.items)).map (·.metablock.walSeq) =
    List.range' s.lastReceivedReplicationWalSeq
      (s.log.writeWalSeq + 1 - s.lastReceivedReplicationWalSeq) ∧
  ∀ file ∈ files, file.items ≠ [] ∧
    ∀ item ∈ file.items, item.metablock.content.leaseEpoch = file.leaseEpoch

/-- The node leads or promotes with a floor, S3 is configured, every entry from the floor on is
stored and committed, together they stay within the budget, and no object of the size cut mixes
epochs. -/
structure Uploadable : Prop where
  leading : s.nodeStatus.isLeader = true ∨ s.nodeStatus.isPromoting = true
  floor : 0 < s.lastReceivedReplicationWalSeq
  configured : s.s3Configured = true
  stored : ∀ n, s.lastReceivedReplicationWalSeq ≤ n → n ≤ s.log.writeWalSeq →
    ∃ item ∈ s.log.committed, item.metablock.walSeq = n
  budget : ∀ cap ∈ s.maxPromotionBatchBytes,
    tally size 0 (downTo s.lastReceivedReplicationWalSeq s.log.visited) ≤ cap
  epochs : ∀ chunk ∈ chunkItems size s.internodeMaxRequestSize (s.fromFloor s.log.committed) [] 0,
    OneEpoch chunk

variable {size} {author} {s}

/-- The scan collects the committed entries from the floor on. -/
theorem collected_reverse :
    (downTo s.lastReceivedReplicationWalSeq s.log.visited).reverse =
      s.fromFloor s.log.committed := by
  rw [PromotionLog.visited_eq, downTo_reverse _ s.log.ascending_committed]
  rfl

/-- The objects of the size cut. -/
abbrev objects (size : B → ℕ) (s : PromotionShard H B D) :
    List (List (ReplicationBatchItem H B D)) :=
  chunkItems size s.internodeMaxRequestSize (s.fromFloor s.log.committed) [] 0

/-- Behind its guards the upload is the loop over the objects. -/
theorem uploadRange_eq : s.uploadRange size =
    if (s.nodeStatus.isLeader = true ∨ s.nodeStatus.isPromoting = true) ∧
      (0 < s.lastReceivedReplicationWalSeq ∧ s.lastReceivedReplicationWalSeq ≤ s.log.writeWalSeq) ∧
      ∀ cap ∈ s.maxPromotionBatchBytes,
        tally size 0 (downTo s.lastReceivedReplicationWalSeq s.log.visited) ≤ cap
    then uploadChunks s.s3Configured s.s3UploadSequence (objects size s) else ([], .ok ()) := by
  have range : (s.lastReceivedReplicationWalSeq = 0 ∨
      s.log.writeWalSeq < s.lastReceivedReplicationWalSeq) ↔
    ¬ (0 < s.lastReceivedReplicationWalSeq ∧
      s.lastReceivedReplicationWalSeq ≤ s.log.writeWalSeq) := by omega
  rw [uploadRange, scanForPromotionBatch_eq size s.lastReceivedReplicationWalSeq
    s.maxPromotionBatchBytes 0 (Nat.zero_le _) (fun cap _ => Nat.zero_le cap) s.log.visited]
  cases s.nodeStatus with
  | leader | promoting =>
    simp only [range, ite_not, NodeStatus.isLeader, NodeStatus.isPromoting, true_or, or_true,
      true_and]
    by_cases inRange : 0 < s.lastReceivedReplicationWalSeq ∧
      s.lastReceivedReplicationWalSeq ≤ s.log.writeWalSeq
    · simp only [if_pos inRange, and_iff_right inRange]
      split_ifs
      · rw [objects, ← collected_reverse]
      · rfl
    · rw [if_neg inRange, if_neg fun guards => inRange guards.1]
  | _ => rfl

/-- When the committed entries fill the range they are all entries of the range. -/
theorem fromFloor_committed
    (stored : ∀ n, s.lastReceivedReplicationWalSeq ≤ n → n ≤ s.log.writeWalSeq →
      ∃ item ∈ s.log.committed, item.metablock.walSeq = n) :
    s.fromFloor s.log.committed = s.fromFloor s.log.entries ∧
      (s.fromFloor s.log.committed).map (·.metablock.walSeq) =
        List.range' s.lastReceivedReplicationWalSeq
          (s.log.writeWalSeq + 1 - s.lastReceivedReplicationWalSeq) := by
  have numbers {items : List (ReplicationBatchItem H B D)} (ascending : Ascending items)
      (known : items ⊆ s.log.entries) (full : s.log.committed ⊆ items) :
      (s.fromFloor items).map (·.metablock.walSeq) =
        List.range' s.lastReceivedReplicationWalSeq
          (s.log.writeWalSeq + 1 - s.lastReceivedReplicationWalSeq) := by
    apply numbers_eq_range (ascending.filter _)
    · intro item mem
      obtain ⟨mem, above⟩ := mem_filter.mp mem
      exact ⟨of_decide_eq_true above, s.log.bounded item (known mem)⟩
    · intro n above below
      obtain ⟨item, mem, rfl⟩ := stored n above below
      exact ⟨item, mem_filter.mpr ⟨full mem, decide_eq_true above⟩, rfl⟩
  have committed := numbers s.log.ascending_committed s.log.committed_sublist.subset
    (List.Subset.refl _)
  have all := @numbers s.log.entries s.log.ascending (List.Subset.refl _)
    s.log.committed_sublist.subset
  have lengths := congrArg List.length (committed.trans all.symm)
  rw [length_map, length_map] at lengths
  exact ⟨(s.log.committed_sublist.filter _).eq_of_length lengths, committed⟩

theorem flatten_objects : (objects size s).flatten = s.fromFloor s.log.committed :=
  (chunkItems_spec ..).1

/-- The upload of an uploadable range covers it. -/
theorem Uploadable.covers (h : s.Uploadable size)
    (below : s.lastReceivedReplicationWalSeq ≤ s.log.writeWalSeq) :
    (s.uploadRange size).2 = .ok () ∧ s.Covers (s.uploadRange size).1 := by
  obtain ⟨all, numbers⟩ := fromFloor_committed h.stored
  rw [uploadRange_eq, if_pos ⟨h.leading, ⟨h.floor, below⟩, h.budget⟩]
  have filled : ∀ chunk ∈ objects size s, chunk ≠ [] := (chunkItems_spec ..).2
  obtain ⟨result, files⟩ := uploadChunks_cases s.s3Configured s.s3UploadSequence _ filled
  have ok := result.mpr fun chunk mem =>
    ⟨contiguous_of_range (flatten_objects ▸ numbers) mem, h.configured, h.epochs chunk mem⟩
  obtain ⟨items, epochs⟩ := files ok
  refine ⟨ok, ?_, ?_, fun file mem => ⟨?_, epochs file mem⟩⟩
  · rw [flatMap_def, items, flatten_objects, all]
  · rw [flatMap_def, items, flatten_objects, numbers]
  · apply filled
    rw [← items]
    exact mem_map_of_mem mem

/-- An upload that covers its range was uploadable. -/
theorem Uploadable.of_covers (below : s.lastReceivedReplicationWalSeq ≤ s.log.writeWalSeq)
    (ok : (s.uploadRange size).2 = .ok ()) (covers : s.Covers (s.uploadRange size).1) :
    s.Uploadable size := by
  obtain ⟨-, numbers, -⟩ := covers
  rw [uploadRange_eq] at ok numbers
  split at numbers
  next guards =>
    obtain ⟨leading, ⟨floor, -⟩, budget⟩ := guards
    rw [if_pos ⟨leading, ⟨floor, below⟩, budget⟩] at ok
    obtain ⟨result, files⟩ := uploadChunks_cases s.s3Configured s.s3UploadSequence (objects size s)
      (chunkItems_spec ..).2
    have passed := result.mp ok
    rw [flatMap_def, (files ok).1, flatten_objects] at numbers
    have stored : ∀ n, s.lastReceivedReplicationWalSeq ≤ n → n ≤ s.log.writeWalSeq →
        ∃ item ∈ s.fromFloor s.log.committed, item.metablock.walSeq = n := by
      intro n above atMost
      rw [← mem_map, numbers, mem_range'_1]
      omega
    obtain ⟨item, mem, -⟩ := stored _ le_rfl below
    rw [← @flatten_objects _ _ _ size] at mem
    obtain ⟨chunk, mem, -⟩ := mem_flatten.mp mem
    refine ⟨leading, floor, (passed chunk mem).2.1, fun n above atMost => ?_, budget,
      fun c mem => (passed c mem).2.2⟩
    obtain ⟨item, mem, number⟩ := stored n above atMost
    exact ⟨item, mem_of_mem_filter mem, number⟩
  next =>
    have length := congrArg List.length numbers
    simp only [flatMap_nil, map_nil, length_nil, length_range'] at length
    omega

end PromotionShard

end Upload

open PromotionShard in
/-- **The promotion upload covers the range from the floor exactly when it is uploadable.** The
range and the condition are those of the reconciled log. -/
theorem promotion_upload_iff_uploadable {H B D : Type*} (size author : B → ℕ)
    (s : PromotionShard H B D) (below : (s.reconciled author).lastReceivedReplicationWalSeq ≤
      (s.reconciled author).log.writeWalSeq) :
    ((s.uploadS3PromotionBatch size author).2 = .ok () ∧
      (s.reconciled author).Covers (s.uploadS3PromotionBatch size author).1) ↔
    (s.reconciled author).Uploadable size := by
  constructor
  · rintro ⟨ok, covers⟩
    exact Uploadable.of_covers below ok covers
  · intro uploadable
    exact uploadable.covers below

/-- A committed entry of a lease epoch. -/
def epochItem (walSeq leaseEpoch : ℕ) : ReplicationBatchItem ℕ ℕ Unit :=
  ⟨⟨walSeq, 0, ⟨leaseEpoch, 0, .none, 100⟩⟩, none⟩

/-- A promoted node with a sealed segment of entry 1 and an active one of entries 2 and 3, which are
of the given lease epochs. -/
def promotedShard (e₁ e₂ e₃ : ℕ) : PromotionShard ℕ ℕ Unit where
  nodeStatus := .promoting 3
  nodeId := 7
  log :=
    { sealedSegments := [⟨1, [epochItem 1 e₁], some ⟨1, 1⟩, true⟩]
      active := ⟨2, [epochItem 2 e₂, epochItem 3 e₃], none, true⟩
      writeWalSeq := 3
      parked := [⟨2, 1, 2⟩]
      activeCached := rfl
      ascending := by simp [epochItem]
      bounded := by simp [epochItem]
      cursors := by simp [epochItem] }
  lastReceivedReplicationWalSeq := 1
  maxPromotionBatchBytes := some 1000
  internodeMaxRequestSize := 2300
  s3Configured := true
  s3UploadSequence := 0

/-- One epoch: the parked tail is committed and everything is uploaded, in two files. -/
theorem promotion_upload_covers_one_epoch :
    (promotedShard 2 2 2).lastReceivedReplicationWalSeq = 1 ∧
      ((promotedShard 2 2 2).uploadS3PromotionBatch id id).2 = .ok () ∧
      ((promotedShard 2 2 2).reconciled id).Covers
        ((promotedShard 2 2 2).uploadS3PromotionBatch id id).1 := by
  have below : ((promotedShard 2 2 2).reconciled id).lastReceivedReplicationWalSeq ≤
      ((promotedShard 2 2 2).reconciled id).log.writeWalSeq := by decide
  refine ⟨rfl, (promotion_upload_iff_uploadable id id (promotedShard 2 2 2) below).mpr ?_⟩
  refine ⟨.inr rfl, by decide, rfl, ?_, by decide, by decide⟩
  intro n above atMost
  have : n = 1 ∨ n = 2 ∨ n = 3 := by
    change 1 ≤ n at above
    change n ≤ 3 at atMost
    omega
  rcases this with rfl | rfl | rfl <;> decide

/-- **A range of two epochs is not uploaded**: entries 1 and 2 share an object by size and are of
epochs 1 and 2, so the upload fails, on every attempt, before anything is put. Entries 1 to 3 are
stored and committed and S3 accepts puts. -/
theorem upload_refuses_two_epochs :
    (promotedShard 1 2 2).lastReceivedReplicationWalSeq = 1 ∧
      ((promotedShard 1 2 2).reconciled id).log.writeWalSeq = 3 ∧
      ((promotedShard 1 2 2).reconciled id).log.committed.map (·.metablock.walSeq) = [1, 2, 3] ∧
      (promotedShard 1 2 2).uploadS3PromotionBatch id id =
        ([], .error (.leaseIndexInconsistent 1 1 2)) := by
  refine ⟨rfl, rfl, rfl, rfl⟩

end Celeriant
