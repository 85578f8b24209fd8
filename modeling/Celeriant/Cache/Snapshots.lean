import Celeriant.Lib.Saturating
import Mathlib.Data.List.Basic
import Mathlib.Order.Basic

/-!
# Metablocks and snapshots of one aggregate

The caches of a shard are maps from aggregate keys, and every function below reads and writes the
entry of one key. The write path is therefore that of one aggregate: its metablocks in `wal_seq`
order, its queue position, its snapshot. Other aggregates show up only as evictions, as fsync
batches without a metablock of this one, and as scans that pass it.

A snapshot is what the code remembers of an aggregate. A commit merges a metablock into it, an fsync
merges the queue position, and a cold load makes one from the newest metablock it finds.

## Main definitions

* `EventBatch`, `SoftTrim`, `SoftDelete`, `AggregateBlock`: the metablocks of an aggregate
* `MemSnapshotAggregate`: a snapshot, with `commitPosition`, `commitTrim`, `commitQueuePositions`
* `QueueAggregatePositions`: the queue position, with what each operation adds to it
* `EventIndexes`, `EventIndexes.prepare`: what an operation sees, and the batch a write becomes
-/

namespace Celeriant

/-! ## Metablocks -/

/-- What the caches take from an event batch. -/
structure EventBatch (γ : Type) where
  aggregateVersion : ℕ
  minEventSeq : ℕ
  maxEventSeq : ℕ
  trimmedBelowVersion : ℕ
  clientId : γ
  maxClientSeq : ℕ
  deriving DecidableEq, Repr

/-- The metablock of a trim. -/
structure SoftTrim where
  keepFromAggregateVersion : ℕ
  aggregateVersion : ℕ
  eventSeq : ℕ
  deriving DecidableEq, Repr

/-- The tombstone of an aggregate. -/
structure SoftDelete where
  aggregateVersion : ℕ
  eventSeq : ℕ
  allowRecreate : Bool
  allowSequenceContinuation : Bool
  deriving DecidableEq, Repr

/-- A metablock of the aggregate. -/
inductive AggregateBlock (γ : Type)
  | eventBatch (b : EventBatch γ)
  | softTrim (t : SoftTrim)
  | softDelete (d : SoftDelete)
  deriving DecidableEq, Repr

namespace AggregateBlock

variable {γ}

def isEventBatch : AggregateBlock γ → Bool
  | eventBatch _ => true
  | softTrim _ => false
  | softDelete _ => false

def isTrim : AggregateBlock γ → Bool
  | eventBatch _ => false
  | softTrim _ => true
  | softDelete _ => false

def isDelete : AggregateBlock γ → Bool
  | eventBatch _ => false
  | softTrim _ => false
  | softDelete _ => true

end AggregateBlock

/-! ## Snapshots -/

/-- Whether the aggregate is there. -/
inductive AggregateStatus
  | notFound
  | found
  | deleted
  deriving DecidableEq, Repr

/-- The queued writes of an aggregate. -/
structure QueueAggregatePositions (γ : Type) where
  pendingDelete : Bool
  allowRecreate : Bool
  allowSequenceContinuation : Bool
  eventSeq : ℕ
  aggregateVersion : ℕ
  minAggregateVersion : ℕ
  clientSeqes : γ → Option ℕ
  hadEventBatch : Bool

/-- What the cache remembers of an aggregate. -/
structure MemSnapshotAggregate where
  status : AggregateStatus
  eventSeq : ℕ
  aggregateVersion : ℕ
  minAggregateVersion : ℕ
  allowRecreate : Bool
  allowSequenceContinuation : Bool
  deriving DecidableEq, Repr

namespace MemSnapshotAggregate

variable {γ : Type}

def notFound : MemSnapshotAggregate := ⟨.notFound, 0, 0, 0, false, false⟩

def found (eventSeq aggregateVersion minAggregateVersion : ℕ) : MemSnapshotAggregate :=
  ⟨.found, eventSeq, aggregateVersion, minAggregateVersion, false, false⟩

def deleted (d : SoftDelete) : MemSnapshotAggregate :=
  ⟨.deleted, d.eventSeq, d.aggregateVersion, 0, d.allowRecreate, d.allowSequenceContinuation⟩

/-- What a scan makes of the newest metablock of the aggregate. -/
def ofBlock : AggregateBlock γ → MemSnapshotAggregate
  | .eventBatch b => found b.maxEventSeq b.aggregateVersion b.trimmedBelowVersion
  | .softTrim t => found t.eventSeq t.aggregateVersion t.keepFromAggregateVersion
  | .softDelete d => deleted d

/-- What a scan makes of a log. -/
def coldLoad (log : List (AggregateBlock γ)) : MemSnapshotAggregate :=
  match log.getLast? with
  | some b => ofBlock b
  | none => notFound

/-- `commit_position_snapshot`: a snapshot other than NotFound is merged and keeps its flags. -/
def commitPosition (b : EventBatch γ) : Option MemSnapshotAggregate → MemSnapshotAggregate
  | none => found b.maxEventSeq b.aggregateVersion b.trimmedBelowVersion
  | some m =>
    if m.status = .notFound then found b.maxEventSeq b.aggregateVersion b.trimmedBelowVersion
    else
      { m with
        status := .found
        eventSeq := max m.eventSeq b.maxEventSeq
        aggregateVersion := max m.aggregateVersion b.aggregateVersion
        minAggregateVersion := max m.minAggregateVersion b.trimmedBelowVersion }

/-- `commit_trim_snapshot`: a snapshot of any status is merged and keeps status and flags. -/
def commitTrim (t : SoftTrim) : Option MemSnapshotAggregate → MemSnapshotAggregate
  | none => found t.eventSeq t.aggregateVersion t.keepFromAggregateVersion
  | some m =>
    { m with
      eventSeq := max m.eventSeq t.eventSeq
      aggregateVersion := max m.aggregateVersion t.aggregateVersion
      minAggregateVersion := max m.minAggregateVersion t.keepFromAggregateVersion }

/-- The write-cache part of `commit_sync_positions_snapshot` for an entry with an event batch: the
floor of a snapshot that is there stays. -/
def commitQueuePositions (q : QueueAggregatePositions γ) :
    Option MemSnapshotAggregate → MemSnapshotAggregate
  | none => found q.eventSeq q.aggregateVersion q.minAggregateVersion
  | some m =>
    if m.status = .notFound then found q.eventSeq q.aggregateVersion q.minAggregateVersion
    else
      { m with
        status := .found
        eventSeq := max m.eventSeq q.eventSeq
        aggregateVersion := max m.aggregateVersion q.aggregateVersion }

/-- The commit of one metablock, as a fold over all of them sees it. -/
def commitBlock (m : Option MemSnapshotAggregate) : AggregateBlock γ → Option MemSnapshotAggregate
  | .eventBatch b => some (commitPosition b m)
  | .softTrim t => some (commitTrim t m)
  | .softDelete d => some (deleted d)

theorem commitPosition_some (b : EventBatch γ) (m : MemSnapshotAggregate) :
    commitPosition b (some m) =
      if m.status = .notFound then found b.maxEventSeq b.aggregateVersion b.trimmedBelowVersion
      else
        { m with
          status := .found
          eventSeq := max m.eventSeq b.maxEventSeq
          aggregateVersion := max m.aggregateVersion b.aggregateVersion
          minAggregateVersion := max m.minAggregateVersion b.trimmedBelowVersion } := rfl

theorem commitTrim_some (t : SoftTrim) (m : MemSnapshotAggregate) :
    commitTrim t (some m) =
      { m with
        eventSeq := max m.eventSeq t.eventSeq
        aggregateVersion := max m.aggregateVersion t.aggregateVersion
        minAggregateVersion := max m.minAggregateVersion t.keepFromAggregateVersion } := rfl

theorem commitQueuePositions_some (q : QueueAggregatePositions γ) (m : MemSnapshotAggregate) :
    commitQueuePositions q (some m) =
      if m.status = .notFound then found q.eventSeq q.aggregateVersion q.minAggregateVersion
      else
        { m with
          status := .found
          eventSeq := max m.eventSeq q.eventSeq
          aggregateVersion := max m.aggregateVersion q.aggregateVersion } := rfl

end MemSnapshotAggregate

/-! ## Queue positions -/

/-- A write request for the aggregate; `clientSeqs` has one entry for each event. -/
structure WriteRequest (γ : Type) where
  clientId : γ
  clientSeqs : List ℕ
  allowCreate : Bool
  expectedVersion : Option ℕ
  enforceClientIdempotency : Bool

/-- What `get_write_event_seqes` returns. -/
structure EventIndexes where
  pendingDeleteOrDeleted : Bool
  allowRecreate : Bool
  allowSequenceContinuation : Bool
  aggregateVersion : ℕ
  eventSeq : ℕ
  minAggregateVersion : ℕ
  deriving DecidableEq, Repr

namespace QueueAggregatePositions

variable {γ : Type}

/-- The entry that an operation starts from when the aggregate has none. -/
def empty : QueueAggregatePositions γ := ⟨false, false, false, 0, 0, 0, fun _ => none, false⟩

/-- `add_to_pending_append_queue`: version and sequence are merged, the flags of a tombstone
stay. -/
def addEventBatch [DecidableEq γ] (b : EventBatch γ) (entry : Option (QueueAggregatePositions γ)) :
    QueueAggregatePositions γ :=
  let q := entry.getD empty
  { q with
    aggregateVersion := max q.aggregateVersion b.aggregateVersion
    eventSeq := max q.eventSeq b.maxEventSeq
    minAggregateVersion := b.trimmedBelowVersion
    pendingDelete := false
    hadEventBatch := true
    clientSeqes := fun c =>
      if c = b.clientId then
        some (match q.clientSeqes c with
          | some existing => max existing b.maxClientSeq
          | none => b.maxClientSeq)
      else q.clientSeqes c }

/-- `add_pending_delete_to_queue`. -/
def addPendingDelete (d : SoftDelete) (entry : Option (QueueAggregatePositions γ)) :
    QueueAggregatePositions γ :=
  { entry.getD empty with
    pendingDelete := true
    allowRecreate := d.allowRecreate
    allowSequenceContinuation := d.allowSequenceContinuation
    aggregateVersion := d.aggregateVersion
    eventSeq := d.eventSeq }

/-- `add_pending_trim_to_queue`. -/
def addPendingTrim (t : SoftTrim) (entry : Option (QueueAggregatePositions γ)) :
    QueueAggregatePositions γ :=
  let q := entry.getD empty
  { q with
    minAggregateVersion := max q.minAggregateVersion t.keepFromAggregateVersion
    aggregateVersion := max q.aggregateVersion t.aggregateVersion
    eventSeq := max q.eventSeq t.eventSeq }

def indexes (q : QueueAggregatePositions γ) : EventIndexes :=
  ⟨q.pendingDelete, q.allowRecreate, q.allowSequenceContinuation, q.aggregateVersion, q.eventSeq,
    q.minAggregateVersion⟩

end QueueAggregatePositions

namespace MemSnapshotAggregate

def indexes (m : MemSnapshotAggregate) : EventIndexes :=
  ⟨m.status = .deleted, m.allowRecreate, m.allowSequenceContinuation, m.aggregateVersion,
    m.eventSeq, m.minAggregateVersion⟩

end MemSnapshotAggregate

/-- The refusals of a write. -/
inductive ShardWriteError
  | emptyEventsList
  | aggregateNotExists
  | aggregateRecreateNotAllowed
  | optimisticConcurrencyViolation (expected current : ℕ)
  | inflightDuplicateWrite (lastClientSeq attempted : ℕ)
  | clientIdempotencyViolation (lastClientSeq attempted : ℕ)
  /-- validation against a registered schema fails -/
  | schemaRejected
  deriving DecidableEq, Repr

namespace EventIndexes

variable {γ} (ix : EventIndexes)

/-- The indexes of an aggregate that is neither queued nor cached. -/
def none : EventIndexes := ⟨false, false, false, 0, 0, 0⟩

/-- The recreate and concurrency checks of a write. -/
def check (req : WriteRequest γ) : Except ShardWriteError Unit :=
  if ix.pendingDeleteOrDeleted && !ix.allowRecreate then .error .aggregateRecreateNotAllowed
  else
    match req.expectedVersion with
    | some expected =>
      if expected = ix.aggregateVersion then .ok ()
      else .error (.optimisticConcurrencyViolation expected ix.aggregateVersion)
    | Option.none => .ok ()

/-- Whether the write starts an incarnation. -/
def isRecreate : Bool := ix.pendingDeleteOrDeleted || ix.aggregateVersion = 0

/-- The event sequence, the version and the floor that the batch starts from. -/
def start : ℕ × ℕ × ℕ :=
  if ix.isRecreate && !ix.allowSequenceContinuation then (0, 1, 1)
  else (ix.eventSeq, satAdd ix.aggregateVersion 1, ix.minAggregateVersion)

/-- The batch that `validate_and_prepare_write` builds. -/
def prepare (req : WriteRequest γ) : EventBatch γ :=
  let (eventSeq, aggregateVersion, minAggregateVersion) := ix.start
  { aggregateVersion
    minEventSeq := satAdd eventSeq 1
    maxEventSeq := satAdd eventSeq req.clientSeqs.length
    trimmedBelowVersion := if minAggregateVersion = 0 then 1 else minAggregateVersion
    clientId := req.clientId
    maxClientSeq := req.clientSeqs.foldr max 0 }

end EventIndexes

end Celeriant
