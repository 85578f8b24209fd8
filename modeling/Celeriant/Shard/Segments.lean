import Mathlib.Data.List.Basic
import Mathlib.Order.Basic

/-!
# Log segments and their metadata records

A shard appends to one active log segment and keeps sealed segments in an LRU. Each segment has
one metadata record in memory (`LogSegmentFileMetadata`: write cursor, read cursor, promotion
floor, ack barrier) and the copy of it that the dual headers on disk hold. Cursors are given by
their `wal_seq`; byte positions, tip hashes and blooms move with them and are not read by the
functions below.

## Main results

* `LogSegmentsCache.commitPcds_sameTips`: committing moves nothing but read cursors
* `LogSegmentsCache.commitPcds_metadata`: a read cursor after committing is the old one or the
  tip of a committed batch
-/

namespace Celeriant

/-- The modes of `reconcile_durable_tail`. -/
inductive TailReconciliation
  | commitForPromotion
  | reconcileAsFollower
  | rewindToAckBarrier
  deriving DecidableEq, Repr

/-- The identity of a queued metablock. -/
abbrev EntryId := ℕ

/-- Who commits the read side of a durable batch, and when. -/
inductive CommitTarget
  | deferToReplicationAck
  | deferToLeaderConfirmed
  | fullCommit
  deriving DecidableEq, Repr

/-! ## The metadata record -/

/-- The cursors, floor and barrier of a segment. -/
structure LogSegmentFileMetadata where
  write : ℕ
  /-- `none` until a commit first advances into the segment -/
  read : Option ℕ
  lastReceivedReplicationWalSeq : ℕ
  lastSelfAckedWalSeq : ℕ
  deriving DecidableEq, Repr

namespace LogSegmentFileMetadata

variable (m : LogSegmentFileMetadata)

/-- The read position, 0 while there is none. -/
def readWalSeq : ℕ := m.read.getD 0

/-- The read cursor goes to the write cursor. -/
def advanceVisiblePosition : LogSegmentFileMetadata := { m with read := some m.write }

/-- What `sync` makes of its clone for a batch of `n` entries: each entry takes the next
`wal_seq`, and a full commit advances the read cursor over them. -/
def synced (target : CommitTarget) (n : ℕ) : LogSegmentFileMetadata :=
  let stamped := { m with write := m.write + n }
  match target with
  | .fullCommit => stamped.advanceVisiblePosition
  | .deferToReplicationAck => stamped
  | .deferToLeaderConfirmed => stamped

/-- The record of the segment `rotate` creates from a copy of this one. -/
def rotated : LogSegmentFileMetadata := { m with read := none }

/-- The barrier bump of `commit_replication`. -/
def selfAckedTo (n : ℕ) : LogSegmentFileMetadata := { m with lastSelfAckedWalSeq := n }

/-- The floor covers what lies above the leader's confirmed entry `n`; it never goes down. -/
def raiseFloor (n : ℕ) : LogSegmentFileMetadata :=
  { m with lastReceivedReplicationWalSeq := max m.lastReceivedReplicationWalSeq (n + 1) }

def clearFloor : LogSegmentFileMetadata := { m with lastReceivedReplicationWalSeq := 0 }

/-- The rewind of `truncate_wal`: both cursors go to `n`, a missing read cursor stays missing. -/
def truncatedTo (n : ℕ) : LogSegmentFileMetadata :=
  { m with write := n, read := m.read.map fun _ => n }

/-- No read cursor beyond the write cursor. -/
def ReadBounded : Prop := m.readWalSeq ≤ m.write
  deriving Decidable

@[simp] theorem synced_write (target : CommitTarget) (n : ℕ) :
    (m.synced target n).write = m.write + n := by
  cases target <;> rfl

@[simp] theorem synced_lastReceived (target : CommitTarget) (n : ℕ) :
    (m.synced target n).lastReceivedReplicationWalSeq = m.lastReceivedReplicationWalSeq := by
  cases target <;> rfl

@[simp] theorem synced_lastSelfAcked (target : CommitTarget) (n : ℕ) :
    (m.synced target n).lastSelfAckedWalSeq = m.lastSelfAckedWalSeq := by
  cases target <;> rfl

theorem synced_read (target : CommitTarget) (n : ℕ) :
    (m.synced target n).read = if target = .fullCommit then some (m.write + n) else m.read := by
  cases target <;> rfl

variable {m}

theorem ReadBounded.synced (h : m.ReadBounded) (target : CommitTarget) (n : ℕ) :
    (m.synced target n).ReadBounded := by
  unfold ReadBounded readWalSeq at h ⊢
  rw [synced_read, synced_write]
  split
  · simp
  · omega

theorem readBounded_rotated : m.rotated.ReadBounded := Nat.zero_le _

theorem readBounded_advanceVisiblePosition : m.advanceVisiblePosition.ReadBounded :=
  Nat.le_refl _

end LogSegmentFileMetadata

/-- A segment: the record in memory, the record the headers on disk hold, and whether a sealed
segment is in the LRU. -/
structure LogSegmentFile where
  metadata : LogSegmentFileMetadata
  header : LogSegmentFileMetadata
  cached : Bool
  deriving DecidableEq, Repr

/-- Data needed to complete a commit after replication. -/
structure PendingCommitData where
  logId : ℕ
  /-- the record `commit_sync` stored, with the updated write cursor -/
  logMetadata : LogSegmentFileMetadata
  pendingQueue : List EntryId
  /-- history: entries of this batch have been removed from the local chain -/
  culled : Bool
  deriving DecidableEq, Repr

namespace PendingCommitData

/-- The `wal_seq` of the batch's last entry. -/
def tip (p : PendingCommitData) : ℕ := p.logMetadata.write

/-- Rewinding the chain to `n` in segment `g` removes an entry of the batch. -/
def RemovedBy (g : ℕ) (n : ℕ) (p : PendingCommitData) : Prop := g < p.logId ∨ n < p.tip
  deriving Decidable

/-- Records that a rewind to `n` in segment `g` removed an entry of the batch. -/
def markRemoved (g : ℕ) (n : ℕ) (p : PendingCommitData) : PendingCommitData :=
  if p.RemovedBy g n then { p with culled := true } else p

theorem markRemoved_of_not {g n} {p : PendingCommitData}
    (h : ¬ p.RemovedBy g n) : p.markRemoved g n = p := if_neg h

@[simp] theorem markRemoved_logId (g : ℕ) (n : ℕ) (p : PendingCommitData) :
    (p.markRemoved g n).logId = p.logId := by
  unfold markRemoved
  split <;> rfl

@[simp] theorem markRemoved_tip (g : ℕ) (n : ℕ) (p : PendingCommitData) :
    (p.markRemoved g n).tip = p.tip := by
  unfold markRemoved
  split <;> rfl

@[simp] theorem markRemoved_pendingQueue (g : ℕ) (n : ℕ) (p : PendingCommitData) :
    (p.markRemoved g n).pendingQueue = p.pendingQueue := by
  unfold markRemoved
  split <;> rfl

/-- A rewind that removes nothing from the batches leaves them as they are. -/
theorem map_markRemoved {g n} {ps : List PendingCommitData}
    (h : ∀ p ∈ ps, ¬ p.RemovedBy g n) : ps.map (markRemoved g n) = ps :=
  (List.map_congr_left fun p hp => markRemoved_of_not (h p hp)).trans (List.map_id' ps)

end PendingCommitData

/-! ## The segments of a shard -/

/-- All segments, and which of them is active. -/
structure LogSegmentsCache where
  files : ℕ → LogSegmentFile
  activeLogId : ℕ

namespace LogSegmentsCache

variable (c : LogSegmentsCache)

def metadata (g : ℕ) : LogSegmentFileMetadata := (c.files g).metadata

def header (g : ℕ) : LogSegmentFileMetadata := (c.files g).header

/-- The record of the active segment. -/
def active : LogSegmentFileMetadata := c.metadata c.activeLogId

/-- `get_if_cached` finds the segment. -/
def IsCached (g : ℕ) : Prop := g = c.activeLogId ∨ (c.files g).cached = true
  deriving Decidable

def setFile (g : ℕ) (file : LogSegmentFile) : LogSegmentsCache :=
  { c with files := fun k => if k = g then file else c.files k }

/-- Stores `m` as the segment's record in memory. -/
def setMetadata (g : ℕ) (m : LogSegmentFileMetadata) : LogSegmentsCache :=
  c.setFile g { c.files g with metadata := m }

/-- Writes `m` to the segment's dual headers. -/
def setHeader (g : ℕ) (m : LogSegmentFileMetadata) : LogSegmentsCache :=
  c.setFile g { c.files g with header := m }

@[simp] theorem setMetadata_activeLogId (g : ℕ) (m : LogSegmentFileMetadata) :
    (c.setMetadata g m).activeLogId = c.activeLogId := rfl

@[simp] theorem setHeader_activeLogId (g : ℕ) (m : LogSegmentFileMetadata) :
    (c.setHeader g m).activeLogId = c.activeLogId := rfl

theorem setMetadata_metadata (g : ℕ) (m : LogSegmentFileMetadata) (k : ℕ) :
    (c.setMetadata g m).metadata k = if k = g then m else c.metadata k := by
  unfold setMetadata setFile metadata
  dsimp only
  split <;> rfl

@[simp] theorem setMetadata_metadata_self (g : ℕ) (m : LogSegmentFileMetadata) :
    (c.setMetadata g m).metadata g = m := by
  rw [setMetadata_metadata, if_pos rfl]

@[simp] theorem setMetadata_header (g : ℕ) (m : LogSegmentFileMetadata) (k : ℕ) :
    (c.setMetadata g m).header k = c.header k := by
  unfold setMetadata setFile header
  dsimp only
  split
  · next h => rw [h]
  · rfl

@[simp] theorem setHeader_metadata (g : ℕ) (m : LogSegmentFileMetadata) (k : ℕ) :
    (c.setHeader g m).metadata k = c.metadata k := by
  unfold setHeader setFile metadata
  dsimp only
  split
  · next h => rw [h]
  · rfl

theorem setHeader_header (g : ℕ) (m : LogSegmentFileMetadata) (k : ℕ) :
    (c.setHeader g m).header k = if k = g then m else c.header k := by
  unfold setHeader setFile header
  dsimp only
  split <;> rfl

/-- `rotate_to_next_log` with the fields `rotate` copied from the record `source`: the new
segment becomes active, the old one is sealed into the LRU. -/
def rotateToNextLog (source : LogSegmentFileMetadata) : LogSegmentsCache where
  files := fun k =>
    if k = c.activeLogId + 1 then ⟨source.rotated, source.rotated, true⟩
    else if k = c.activeLogId then { c.files k with cached := true }
    else c.files k
  activeLogId := c.activeLogId + 1

/-- `get`: a segment that is not cached is opened and its record comes from its header. -/
def load (g : ℕ) : LogSegmentsCache :=
  if c.IsCached g then c
  else c.setFile g { c.files g with metadata := c.header g, cached := true }

/-- The active segment stays. -/
def evictFromLru (g : ℕ) : LogSegmentsCache :=
  if g = c.activeLogId then c else c.setFile g { c.files g with cached := false }

/-- `unwind_active_to_sealed`, once the target is open: it becomes active and the segments above
it leave the cache. -/
def unwindActiveToSealed (g : ℕ) : LogSegmentsCache where
  files := fun k => if g < k then { c.files k with cached := false } else c.files k
  activeLogId := g

/-- `ready_up` after a restart: every record comes from its header. -/
def readyUp : LogSegmentsCache where
  files := fun k => { c.files k with metadata := c.header k, cached := false }
  activeLogId := c.activeLogId

theorem rotateToNextLog_metadata (source : LogSegmentFileMetadata) (k : ℕ) :
    (c.rotateToNextLog source).metadata k =
      if k = c.activeLogId + 1 then source.rotated else c.metadata k := by
  unfold rotateToNextLog metadata
  dsimp only
  split
  · rfl
  · split <;> rfl

theorem rotateToNextLog_header (source : LogSegmentFileMetadata) (k : ℕ) :
    (c.rotateToNextLog source).header k =
      if k = c.activeLogId + 1 then source.rotated else c.header k := by
  unfold rotateToNextLog header
  dsimp only
  split
  · rfl
  · split <;> rfl

@[simp] theorem load_activeLogId (g : ℕ) : (c.load g).activeLogId = c.activeLogId := by
  unfold load
  split <;> rfl

theorem load_metadata (g k : ℕ) :
    (c.load g).metadata k = c.metadata k ∨ (c.load g).metadata k = c.header k := by
  unfold load
  split
  · exact .inl rfl
  · by_cases hk : k = g
    · right
      simp [setFile, metadata, hk]
    · left
      simp [setFile, metadata, hk]

variable {g : ℕ} {f : LogSegmentFileMetadata → LogSegmentFileMetadata}

theorem load_metadata_of_ne {k} (h : k ≠ g) : (c.load g).metadata k = c.metadata k := by
  unfold load
  split
  · rfl
  · simp [setFile, metadata, h]

/-- Loading a segment whose header is up to date changes no record. -/
theorem load_metadata_eq (h : c.IsCached g ∨ c.header g = c.metadata g) (k : ℕ) :
    (c.load g).metadata k = c.metadata k := by
  unfold load
  split
  · rfl
  next absent =>
    have persisted := h.resolve_left absent
    by_cases hk : k = g
    · subst hk
      simpa [setFile, metadata] using persisted
    · simp [setFile, metadata, hk]

/-- Reloading a segment whose header holds its read cursor moves no read cursor. -/
theorem load_read_eq (h : c.IsCached g ∨ (c.header g).read = (c.metadata g).read) (k : ℕ) :
    ((c.load g).metadata k).read = (c.metadata k).read := by
  unfold load
  split
  · rfl
  next absent =>
    by_cases hk : k = g
    · subst hk
      simpa [setFile, metadata] using h.resolve_left absent
    · simp [setFile, metadata, hk]

/-- The active record is not reloaded. -/
@[simp] theorem load_active (g : ℕ) : (c.load g).active = c.active := by
  unfold load
  split
  · rfl
  next uncached =>
    have other : c.activeLogId ≠ g := fun same => uncached (.inl same.symm)
    simp [active, setFile, metadata, other]

@[simp] theorem load_header (g k : ℕ) : (c.load g).header k = c.header k := by
  unfold load
  split
  · rfl
  · unfold setFile header
    dsimp only
    split
    · next h => rw [h]
    · rfl

@[simp] theorem evictFromLru_activeLogId (g : ℕ) :
    (c.evictFromLru g).activeLogId = c.activeLogId := by
  unfold evictFromLru
  split <;> rfl

@[simp] theorem evictFromLru_metadata (g k : ℕ) :
    (c.evictFromLru g).metadata k = c.metadata k := by
  unfold evictFromLru
  split
  · rfl
  · unfold setFile metadata
    dsimp only
    split
    · next h => rw [h]
    · rfl

@[simp] theorem evictFromLru_header (g k : ℕ) :
    (c.evictFromLru g).header k = c.header k := by
  unfold evictFromLru
  split
  · rfl
  · unfold setFile header
    dsimp only
    split
    · next h => rw [h]
    · rfl

@[simp] theorem unwindActiveToSealed_metadata (g k : ℕ) :
    (c.unwindActiveToSealed g).metadata k = c.metadata k := by
  unfold unwindActiveToSealed metadata
  dsimp only
  split <;> rfl

@[simp] theorem unwindActiveToSealed_header (g k : ℕ) :
    (c.unwindActiveToSealed g).header k = c.header k := by
  unfold unwindActiveToSealed header
  dsimp only
  split <;> rfl

/-! ## Committing deferred batches -/

/-- `commit_pcd` on the segments: the read cursor of the batch's segment becomes the batch's
write cursor, when that segment is cached. -/
def commitPcd (p : PendingCommitData) : LogSegmentsCache :=
  if c.IsCached p.logId then
    c.setMetadata p.logId { c.metadata p.logId with read := some p.logMetadata.write }
  else c

/-- `commit_pcd` for each batch in order. -/
def commitPcds : LogSegmentsCache → List PendingCommitData → LogSegmentsCache :=
  List.foldl commitPcd

/-- Stores a changed record of the active segment. -/
def updateActive (f : LogSegmentFileMetadata → LogSegmentFileMetadata) : LogSegmentsCache :=
  c.setMetadata c.activeLogId (f c.active)

/-- The segments agree on the active segment, every write cursor and every header. -/
structure SameTips (c d : LogSegmentsCache) : Prop where
  activeLogId : d.activeLogId = c.activeLogId
  write : ∀ g, (d.metadata g).write = (c.metadata g).write
  header : ∀ g, d.header g = c.header g

theorem updateActive_metadata (f : LogSegmentFileMetadata → LogSegmentFileMetadata) (k : ℕ) :
    (c.updateActive f).metadata k = if k = c.activeLogId then f c.active else c.metadata k :=
  setMetadata_metadata c _ _ k

@[simp] theorem updateActive_header (f : LogSegmentFileMetadata → LogSegmentFileMetadata) (k : ℕ) :
    (c.updateActive f).header k = c.header k :=
  setMetadata_header c _ _ k

@[simp] theorem updateActive_activeLogId (f : LogSegmentFileMetadata → LogSegmentFileMetadata) :
    (c.updateActive f).activeLogId = c.activeLogId := rfl

@[simp] theorem updateActive_active (f : LogSegmentFileMetadata → LogSegmentFileMetadata) :
    (c.updateActive f).active = f c.active :=
  setMetadata_metadata_self c _ _

variable {c} {d e : LogSegmentsCache}

theorem SameTips.refl (c : LogSegmentsCache) : SameTips c c := ⟨rfl, fun _ => rfl, fun _ => rfl⟩

theorem SameTips.trans (h : SameTips c d) (k : SameTips d e) : SameTips c e where
  activeLogId := k.activeLogId.trans h.activeLogId
  write := fun g => (k.write g).trans (h.write g)
  header := fun g => (k.header g).trans (h.header g)

theorem SameTips.active_write (h : SameTips c d) : d.active.write = c.active.write :=
  (h.write _).trans (congrArg (fun g => (c.metadata g).write) h.activeLogId)

theorem setMetadata_sameTips {m}
    (h : m.write = (c.metadata g).write) : SameTips c (c.setMetadata g m) where
  activeLogId := rfl
  write := by
    intro k
    rw [setMetadata_metadata]
    split
    · next hk => rw [h, hk]
    · rfl
  header := fun k => setMetadata_header c g m k

theorem commitPcd_sameTips (p : PendingCommitData) : SameTips c (c.commitPcd p) := by
  unfold commitPcd
  split
  · exact setMetadata_sameTips rfl
  · exact SameTips.refl c

theorem commitPcds_sameTips (ps : List PendingCommitData) : SameTips c (commitPcds c ps) := by
  induction ps generalizing c with
  | nil => exact SameTips.refl c
  | cons p ps ih => exact (commitPcd_sameTips p).trans ih

theorem commitPcd_metadata (p : PendingCommitData) (g : ℕ) :
    (c.commitPcd p).metadata g = c.metadata g ∨
      (p.logId = g ∧ (c.commitPcd p).metadata g = { c.metadata g with read := some p.tip }) := by
  unfold commitPcd
  split
  · rw [setMetadata_metadata]
    split
    · next h => exact .inr ⟨h.symm, h ▸ rfl⟩
    · exact .inl rfl
  · exact .inl rfl

/-- Committing changes a record at most in its read cursor, which becomes the tip of a committed
batch. -/
theorem commitPcds_metadata (ps : List PendingCommitData) (g : ℕ) :
    (commitPcds c ps).metadata g = c.metadata g ∨
      ∃ p ∈ ps, p.logId = g ∧
        (commitPcds c ps).metadata g = { c.metadata g with read := some p.tip } := by
  induction ps generalizing c with
  | nil => exact .inl rfl
  | cons p ps ih =>
    rcases commitPcd_metadata (c := c) p g with first | ⟨hg, first⟩
    · rcases ih (c := c.commitPcd p) with rest | ⟨q, hq, hg, rest⟩
      · exact .inl (rest.trans first)
      · exact .inr ⟨q, List.mem_cons_of_mem p hq, hg, rest.trans (by rw [first])⟩
    · rcases ih (c := c.commitPcd p) with rest | ⟨q, hq, hg, rest⟩
      · exact .inr ⟨p, List.mem_cons_self, hg, rest.trans first⟩
      · exact .inr ⟨q, List.mem_cons_of_mem p hq, hg, rest.trans (by rw [first])⟩

end LogSegmentsCache

end Celeriant
