import Celeriant.Cache.Snapshots
import Celeriant.Lib.Transition
import Celeriant.Shard.Segments

/-!
# The write path of one aggregate

How the operations on one aggregate read and move its caches. An operation first makes sure that the
aggregate is loaded (`aggregate_exists_and_cache`), a write that enforces idempotency also that its
client is (`cache_aggregate_client`); both may suspend in a scan of the log. It then validates, and
enqueues what it prepared without another wait. A captured batch becomes durable, or its fsync
fails, or it is dropped before the fsync. Deferred batches are committed later, oldest first.

A scan sees what was durable when it took its bound, so a suspended scan is its bound. Scans for
other keys pass the metablocks of this aggregate and may cache what they see. Capacity is not
modelled: an entry may be evicted at any time.

## Main definitions

* `WritePath`: the metablocks, queue, caches and suspended operations of the aggregate
* `WritePath.view`, `WritePath.validateWrite`: what an operation sees, and the checks of a write
* `WritePath.enter`: what an operation does once the aggregate is loaded
* `WritePath.commitSync`, `WritePath.commitPcd`: the commits
* `WritePath.step`: the transitions
-/

namespace Celeriant

/-- A durable metablock of the aggregate. -/
structure DurableBlock (γ : Type) where
  walSeq : ℕ
  block : AggregateBlock γ
  deriving DecidableEq, Repr

/-- What a capture took from the queue, with the queue position at that moment. -/
structure SyncPositionsSnapshot (γ : Type) where
  positions : Option (QueueAggregatePositions γ)
  blocks : List (AggregateBlock γ)

/-- A durable batch whose commit is deferred; `tip` is the write cursor it ended at. -/
structure DeferredBatch (γ : Type) where
  blocks : List (DurableBlock γ)
  tip : ℕ

/-- The cache that a load fills. -/
inductive CachePath
  | read
  | write
  deriving DecidableEq, Repr

/-- What a delete asks for. -/
structure DeleteRequest where
  expectedVersion : Option ℕ
  allowRecreate : Bool
  allowSequenceContinuation : Bool
  deriving DecidableEq, Repr

/-- The operations on an aggregate. -/
inductive AggregateOperation (γ : Type)
  | write (req : WriteRequest γ)
  | delete (req : DeleteRequest)
  | trim (keepFrom : ℕ)
  | read

def AggregateOperation.cachePath {γ : Type} : AggregateOperation γ → CachePath
  | .read => .read
  | _ => .write

/-- Where a suspended operation stands. -/
inductive Stage
  /-- the aggregate load waits for its permit -/
  | waiting
  /-- the aggregate load scans what was durable (committed) up to the bound -/
  | scanning (bound : ℕ)
  /-- the aggregate is loaded -/
  | admitted
  /-- the client load waits for its permit -/
  | clientWaiting
  /-- the client load scans up to the bound -/
  | clientScanning (bound : ℕ)
  /-- the client is loaded; schema loads follow -/
  | warmed
  /-- the write passed `validate_single_write`; other aggregates of the request follow -/
  | validated
  deriving DecidableEq, Repr

/-- An operation and where it is suspended. -/
structure Task (γ : Type) where
  op : AggregateOperation γ
  stage : Stage

/-- Where the newest sequence of a client is. -/
inductive ClientSeqStatus
  | inflightInQueue (clientSeq : ℕ)
  | fsynced (clientSeq walSeq : ℕ)
  deriving DecidableEq, Repr

namespace ClientSeqStatus

def clientSeq : ClientSeqStatus → ℕ
  | inflightInQueue clientSeq => clientSeq
  | fsynced clientSeq _ => clientSeq

/-- An fsynced entry is in flight while its `wal_seq` is above the read cursor. -/
def inflight (readCursor : ℕ) : ClientSeqStatus → Bool
  | inflightInQueue _ => true
  | fsynced _ walSeq => 0 < walSeq && readCursor < walSeq

end ClientSeqStatus

/-- `merge_aggregate_client_seq_max`. -/
def mergeClientSeqMax (clientSeq walSeq : ℕ) : Option (ℕ × ℕ) → ℕ × ℕ
  | some existing => if existing.1 < clientSeq then (clientSeq, walSeq) else existing
  | none => (clientSeq, walSeq)

/-- The state of one aggregate. -/
structure WritePath (γ : Type) where
  /-- its durable metablocks -/
  wal : List (DurableBlock γ)
  /-- the write cursor of the shard -/
  tip : ℕ
  /-- the read cursor of the shard -/
  readCursor : ℕ
  /-- the batches that await their commit -/
  deferred : List (DeferredBatch γ)
  queue : List (AggregateBlock γ)
  positions : Option (QueueAggregatePositions γ)
  /-- the batch that an fsync is writing -/
  fsync : Option (SyncPositionsSnapshot γ)
  writeSnapshot : Option MemSnapshotAggregate
  /-- the metablock that the write snapshot names, zero for none -/
  writePosition : ℕ
  readSnapshot : Option MemSnapshotAggregate
  /-- client sequence and `wal_seq`; sequence zero records that a scan found no batch -/
  clients : γ → Option (ℕ × ℕ)
  tasks : List (Task γ)

namespace WritePath

variable {γ : Type} [DecidableEq γ]

def init : WritePath γ :=
  ⟨[], 0, 0, [], [], none, none, none, 0, none, fun _ => none, []⟩

/-! ## Reading the caches -/

section View

variable (s : WritePath γ)

/-- `get_write_event_seqes`: the queue position first, then the write snapshot. -/
def view : EventIndexes :=
  match s.positions with
  | some q => q.indexes
  | none =>
    match s.writeSnapshot with
    | some m => m.indexes
    | none => .none

/-- `aggregate_load_status`; `none` when the aggregate is not loaded. -/
def loadStatus : CachePath → Option AggregateStatus
  | .write =>
    match s.positions with
    | some q => some (if q.pendingDelete then .deleted else .found)
    | none => s.writeSnapshot.map (·.status)
  | .read => s.readSnapshot.map (·.status)

/-- `get_client_seq_entry`: sequence zero counts as no entry. -/
def clientSeqEntry (c : γ) : Option ClientSeqStatus :=
  match s.positions.bind (·.clientSeqes c) with
  | some clientSeq => some (.inflightInQueue clientSeq)
  | none =>
    match s.clients c with
    | some (clientSeq, walSeq) => if 0 < clientSeq then some (.fsynced clientSeq walSeq) else none
    | none => none

/-- `aggregate_client_load_status`. -/
def clientLoaded (c : γ) : Bool :=
  (s.positions.bind (·.clientSeqes c)).isSome || (s.clients c).isSome

/-- The idempotency check of a write. -/
def checkClient (req : WriteRequest γ) : Except ShardWriteError Unit :=
  if req.enforceClientIdempotency then
    match s.clientSeqEntry req.clientId with
    | some status =>
      let attempted := req.clientSeqs.min?.getD 0
      if attempted ≤ status.clientSeq then
        if status.inflight s.readCursor then
          .error (.inflightDuplicateWrite status.clientSeq attempted)
        else .error (.clientIdempotencyViolation status.clientSeq attempted)
      else .ok ()
    | none => .ok ()
  else .ok ()

/-- The checks that `validate_single_write` ends with and `validate_and_prepare_write` begins with:
recreate, concurrency, idempotency, schema. -/
def validateWrite (req : WriteRequest γ) (schemaOk : Bool) : Except ShardWriteError Unit :=
  match s.view.check req with
  | .error e => .error e
  | .ok _ =>
    match s.checkClient req with
    | .error e => .error e
    | .ok _ => if schemaOk then .ok () else .error .schemaRejected

end View

/-! ## Enqueueing -/

section Enqueue

variable (s : WritePath γ)

def pushTask (op : AggregateOperation γ) (stage : Stage) : WritePath γ :=
  { s with tasks := s.tasks ++ [⟨op, stage⟩] }

def dropTask (i : ℕ) : WritePath γ := { s with tasks := s.tasks.eraseIdx i }

def moveTask (i : ℕ) (op : AggregateOperation γ) (stage : Stage) : WritePath γ :=
  { s with tasks := s.tasks.set i ⟨op, stage⟩ }

/-- `append_prepared_writes_to_queue`. -/
def appendWrite (req : WriteRequest γ) : WritePath γ :=
  let batch := s.view.prepare req
  { s with
    queue := s.queue ++ [.eventBatch batch]
    positions := some (.addEventBatch batch s.positions) }

/-- The tombstone repeats the version and sequence that the delete sees. -/
def tombstone (req : DeleteRequest) : SoftDelete :=
  ⟨s.view.aggregateVersion, s.view.eventSeq, req.allowRecreate, req.allowSequenceContinuation⟩

def appendDelete (req : DeleteRequest) : WritePath γ :=
  { s with
    queue := s.queue ++ [.softDelete (s.tombstone req)]
    positions := some (.addPendingDelete (s.tombstone req) s.positions) }

def trimBlock (keepFrom : ℕ) : SoftTrim := ⟨keepFrom, s.view.aggregateVersion, s.view.eventSeq⟩

/-- What a trim enqueues. -/
def appendTrim (keepFrom : ℕ) : WritePath γ :=
  { s with
    queue := s.queue ++ [.softTrim (s.trimBlock keepFrom)]
    positions := some (.addPendingTrim (s.trimBlock keepFrom) s.positions) }

/-- `trim_start` after its existence check: a floor that is reached already is no error. -/
def trimStart (keepFrom : ℕ) : WritePath γ :=
  if keepFrom ≤ s.view.minAggregateVersion then s
  else if s.view.aggregateVersion < keepFrom then s
  else s.appendTrim keepFrom

/-- What an operation does when `aggregate_exists_and_cache` returns `found`. -/
def enter (op : AggregateOperation γ) (found : Bool) : WritePath γ :=
  match op with
  | .write req =>
    if found then s.pushTask op .admitted
    else if s.loadStatus .write = some .deleted then
      if s.view.allowRecreate then s.pushTask op .admitted else s
    else if req.allowCreate then s.pushTask op .admitted
    else s
  | .delete _ => if found then s.pushTask op .admitted else s
  | .trim keepFrom => if found then s.trimStart keepFrom else s
  | .read => s

end Enqueue

/-! ## Loads -/

section Loads

variable (s : WritePath γ)

/-- The metablocks that a scan with this bound sees. -/
def upTo (bound : ℕ) : List (DurableBlock γ) := s.wal.filter (·.walSeq ≤ bound)

/-- The bound of an aggregate scan: the write cursor, or the read cursor on the read path. -/
def scanBound : CachePath → ℕ
  | .write => s.tip
  | .read => s.readCursor

/-- `put_aggregate_client_into_cache`: what comes from disk counts as durable. -/
def putClient (c : γ) (clientSeq : ℕ) : WritePath γ :=
  { s with clients := fun d => if d = c then some (clientSeq, 0) else s.clients d }

/-- The low-priority form yields to an entry that is there. -/
def putClientIfAbsent (c : γ) (clientSeq : ℕ) : WritePath γ :=
  if (s.clients c).isSome then s else s.putClient c clientSeq

def putSnapshot (path : CachePath) (m : MemSnapshotAggregate) (position : ℕ) : WritePath γ :=
  match path with
  | .write => { s with writeSnapshot := some m, writePosition := position }
  | .read => { s with readSnapshot := some m }

/-- The end of an aggregate scan: the newest metablock it sees becomes the snapshot; an event batch
on the write path also becomes its client's entry. Whatever is cached is replaced. -/
def loadAggregate (path : CachePath) (bound : ℕ) : WritePath γ :=
  match (s.upTo bound).getLast? with
  | none => s.putSnapshot path .notFound 0
  | some e =>
    let loaded := s.putSnapshot path (.ofBlock e.block) e.walSeq
    match path, e.block with
    | .write, .eventBatch b => loaded.putClient b.clientId b.maxClientSeq
    | _, _ => loaded

/-- Whether the scan finds the aggregate alive. -/
def scanFinds (bound : ℕ) : Bool :=
  match (s.upTo bound).getLast? with
  | some e => !e.block.isDelete
  | none => false

/-- The sequence of the newest batch of a client among the metablocks. -/
def newestClientSeq (c : γ) (blocks : List (DurableBlock γ)) : Option ℕ :=
  blocks.reverse.findSome? fun e =>
    match e.block with
    | .eventBatch b => if b.clientId = c then some b.maxClientSeq else none
    | _ => none

/-- Where a client scan starts: at the metablock that the write snapshot names, else at the tip. -/
def clientScanBound : ℕ :=
  if s.writeSnapshot.isSome ∧ s.writePosition ≠ 0 then s.writePosition else s.tip

/-- The end of a client scan: the newest batch of the client that it sees, zero for none. -/
def loadClient (c : γ) (bound : ℕ) : WritePath γ :=
  s.putClient c ((newestClientSeq c (s.upTo bound)).getD 0)

/-- A scan for another key passes an event batch of this aggregate that is not cached. -/
def passAggregate (path : CachePath) (e : DurableBlock γ) (b : EventBatch γ) : WritePath γ :=
  match path with
  | .write =>
    if s.writeSnapshot.isSome then s
    else (s.putSnapshot .write (.ofBlock e.block) e.walSeq).putClientIfAbsent
      b.clientId b.maxClientSeq
  | .read => if s.readSnapshot.isSome then s else s.putSnapshot .read (.ofBlock e.block) e.walSeq

/-- What `pre_warm_cache` does with a metablock it visits: the first one of the aggregate becomes
the snapshot, and each event batch the entry of its client unless that is there. -/
def preWarmVisit (e : DurableBlock γ) : WritePath γ :=
  if s.writeSnapshot.isSome then
    match e.block with
    | .eventBatch b => s.putClientIfAbsent b.clientId b.maxClientSeq
    | _ => s
  else
    let warmed := s.putSnapshot .write (.ofBlock e.block) e.walSeq
    match e.block with
    | .eventBatch b => warmed.putClient b.clientId b.maxClientSeq
    | _ => warmed

/-- `pre_warm_cache`, newest first, up to a number of visits. -/
def preWarm (visits : ℕ) : WritePath γ := (s.wal.reverse.take visits).foldl preWarmVisit s

/-- The fields that loads and evictions leave alone. -/
def core : List (DurableBlock γ) × List (AggregateBlock γ) × Option (QueueAggregatePositions γ) ×
    Option (SyncPositionsSnapshot γ) × List (DeferredBatch γ) × ℕ × ℕ :=
  (s.wal, s.queue, s.positions, s.fsync, s.deferred, s.tip, s.readCursor)

omit [DecidableEq γ] in
theorem core_fields {s : WritePath γ} {wal queue} {positions fsync} {deferred tip readCursor}
    (same : s.core = (wal, queue, positions, fsync, deferred, tip, readCursor)) :
    s.wal = wal ∧ s.queue = queue ∧ s.positions = positions ∧ s.fsync = fsync ∧
      s.deferred = deferred ∧ s.tip = tip ∧ s.readCursor = readCursor := by
  simpa only [core, Prod.mk.injEq] using same

theorem loadAggregate_core (path : CachePath) (bound : ℕ) :
    (s.loadAggregate path bound).core = s.core := by
  unfold loadAggregate
  cases (s.upTo bound).getLast? with
  | none => cases path <;> rfl
  | some e =>
    obtain ⟨walSeq, block⟩ := e
    cases path with
    | read => cases block <;> rfl
    | write => cases block <;> rfl

theorem loadAggregate_snapshots (bound : ℕ) :
    ((s.loadAggregate .write bound).writeSnapshot =
      some (.coldLoad ((s.upTo bound).map (·.block))) ∧
      (s.loadAggregate .write bound).readSnapshot = s.readSnapshot) ∧
    (s.loadAggregate .read bound).readSnapshot = some (.coldLoad ((s.upTo bound).map (·.block))) ∧
      (s.loadAggregate .read bound).writeSnapshot = s.writeSnapshot := by
  unfold loadAggregate MemSnapshotAggregate.coldLoad
  rw [List.getLast?_map]
  cases (s.upTo bound).getLast? with
  | none => exact ⟨⟨rfl, rfl⟩, rfl, rfl⟩
  | some e =>
    obtain ⟨walSeq, block⟩ := e
    cases block <;> exact ⟨⟨rfl, rfl⟩, rfl, rfl⟩

theorem putClientIfAbsent_fields (c : γ) (clientSeq : ℕ) :
    (s.putClientIfAbsent c clientSeq).core = s.core ∧
      (s.putClientIfAbsent c clientSeq).writeSnapshot = s.writeSnapshot ∧
      (s.putClientIfAbsent c clientSeq).readSnapshot = s.readSnapshot := by
  unfold putClientIfAbsent
  split <;> exact ⟨rfl, rfl, rfl⟩

theorem preWarmVisit_snapshot (e : DurableBlock γ) :
    (s.preWarmVisit e).writeSnapshot = s.writeSnapshot.orElse fun _ => some (.ofBlock e.block) := by
  obtain ⟨walSeq, block⟩ := e
  unfold preWarmVisit
  cases cached : s.writeSnapshot with
  | some m =>
    cases block with
    | eventBatch b => exact (putClientIfAbsent_fields ..).2.1.trans cached
    | softTrim t => exact cached
    | softDelete d => exact cached
  | none => cases block <;> rfl

/-- Warming an empty cache leaves what the newest metablock says. -/
theorem preWarm_snapshot (absent : s.writeSnapshot = none) (visits : ℕ) :
    (s.preWarm (visits + 1)).writeSnapshot = s.wal.getLast?.map fun e => .ofBlock e.block := by
  have keep (m : MemSnapshotAggregate) (blocks : List (DurableBlock γ)) (t : WritePath γ)
      (cached : t.writeSnapshot = some m) :
      (blocks.foldl preWarmVisit t).writeSnapshot = some m := by
    induction blocks generalizing t with
    | nil => exact cached
    | cons e blocks ih => exact ih _ (by rw [preWarmVisit_snapshot, cached]; rfl)
  unfold preWarm
  rw [← List.head?_reverse]
  cases s.wal.reverse with
  | nil => exact absent
  | cons e older =>
    have first : (s.preWarmVisit e).writeSnapshot = some (.ofBlock e.block) := by
      rw [preWarmVisit_snapshot, absent]
      rfl
    exact keep _ (older.take visits) _ first

theorem passAggregate_core (path : CachePath) (e : DurableBlock γ) (b : EventBatch γ) :
    (s.passAggregate path e b).core = s.core := by
  unfold passAggregate
  cases path with
  | write =>
    dsimp only
    split
    · rfl
    · exact (putClientIfAbsent_fields ..).1
  | read =>
    dsimp only
    split <;> rfl

/-- Passing a batch caches it when nothing is cached. -/
theorem passAggregate_write (e : DurableBlock γ) (b : EventBatch γ) :
    (s.passAggregate .write e b).writeSnapshot =
      s.writeSnapshot.orElse fun _ => some (.ofBlock e.block) := by
  unfold passAggregate
  cases cached : s.writeSnapshot with
  | some m => simpa using cached
  | none =>
    exact (putClientIfAbsent_fields ..).2.1

theorem passAggregate_read (e : DurableBlock γ) (b : EventBatch γ) :
    (s.passAggregate .read e b).writeSnapshot = s.writeSnapshot := by
  unfold passAggregate
  dsimp only
  split <;> rfl

end Loads

/-! ## Commits -/

section Commits

variable (s : WritePath γ)

/-- The metablocks of a batch with the sequence numbers they get; `gaps` counts the metablocks of
other aggregates before each. -/
def stamp : ℕ → List ℕ → List (AggregateBlock γ) → List (DurableBlock γ)
  | _, _, [] => []
  | n, [], b :: bs => ⟨n + 1, b⟩ :: stamp (n + 1) [] bs
  | n, g :: gaps, b :: bs => ⟨n + g + 1, b⟩ :: stamp (n + g + 1) gaps bs

/-- The last of them, `n` for none. -/
def lastSeq (n : ℕ) (blocks : List (DurableBlock γ)) : ℕ := (blocks.getLast?.map (·.walSeq)).getD n

/-- The sequence number that `sync` records in the captured queue position: of the last event batch
or tombstone, zero when there is none. -/
def positionSeq (blocks : List (DurableBlock γ)) : ℕ :=
  (blocks.reverse.findSome? fun e => if e.block.isTrim then none else some e.walSeq).getD 0

/-- `commit_sync_positions_snapshot` for this aggregate. A captured tombstone is left to its
metablock, with its queue entry in place; otherwise the queue entry goes unless its version
moved. -/
def commitSyncPositions (isLeader : Bool) (walSeq : ℕ)
    (captured : Option (QueueAggregatePositions γ)) :
    WritePath γ :=
  match captured with
  | none => s
  | some q =>
    if q.pendingDelete then s
    else
      let s :=
        if q.hadEventBatch then
          { s with
            writeSnapshot := some (.commitQueuePositions q s.writeSnapshot)
            writePosition := walSeq
            readSnapshot :=
              if isLeader then s.readSnapshot
              else some (.commitQueuePositions q s.readSnapshot) }
        else s
      { s with
        clients := fun c =>
          match q.clientSeqes c with
          | some clientSeq => some (mergeClientSeqMax clientSeq walSeq (s.clients c))
          | none => s.clients c
        positions := s.positions.filter (·.aggregateVersion ≠ q.aggregateVersion) }

def mergeClient (c : γ) (clientSeq walSeq : ℕ) : WritePath γ :=
  { s with
    clients := fun d =>
      if d = c then some (mergeClientSeqMax clientSeq walSeq (s.clients d)) else s.clients d }

/-- The commit of one metablock at the end of an fsync. -/
def commitSyncBlock (target : CommitTarget) (deletedPosition : Option ℕ) (e : DurableBlock γ) :
    WritePath γ :=
  match e.block with
  | .eventBatch b =>
    match target with
    | .deferToReplicationAck => s
    | .deferToLeaderConfirmed =>
      let s := if 0 < b.maxClientSeq then s.mergeClient b.clientId b.maxClientSeq e.walSeq else s
      { s with
        writeSnapshot := some (.commitPosition b s.writeSnapshot)
        writePosition := e.walSeq }
    | .fullCommit =>
      let s := if 0 < b.maxClientSeq then s.mergeClient b.clientId b.maxClientSeq e.walSeq else s
      { s with
        readSnapshot := some (.commitPosition b s.readSnapshot)
        writeSnapshot := some (.commitPosition b s.writeSnapshot)
        writePosition := e.walSeq }
  | .softTrim t =>
    { s with
      writeSnapshot := some (.commitTrim t s.writeSnapshot)
      writePosition := if s.writeSnapshot.isSome then s.writePosition else e.walSeq
      readSnapshot :=
        if target = .fullCommit then some (.commitTrim t s.readSnapshot) else s.readSnapshot }
  | .softDelete d =>
    { s with
      writeSnapshot := some (.deleted d)
      writePosition := deletedPosition.getD e.walSeq
      readSnapshot := if target = .fullCommit then some (.deleted d) else s.readSnapshot }

/-- The position of a captured tombstone. -/
def deletedPosition (captured : Option (QueueAggregatePositions γ)) (walSeq : ℕ) : Option ℕ :=
  captured.bind fun q => if q.pendingDelete then some walSeq else none

/-- `commit_sync`: the queue position first, then the metablocks in order. -/
def commitSync (target : CommitTarget) (isLeader : Bool)
    (captured : Option (QueueAggregatePositions γ))
    (blocks : List (DurableBlock γ)) (tip : ℕ) : WritePath γ :=
  let walSeq := positionSeq blocks
  let s := s.commitSyncPositions isLeader walSeq captured
  let s := blocks.foldl (commitSyncBlock · target (deletedPosition captured walSeq)) s
  { s with
    wal := s.wal ++ blocks
    tip
    readCursor := if target = .fullCommit then tip else s.readCursor
    deferred := if target = .fullCommit then s.deferred else s.deferred ++ [⟨blocks, tip⟩]
    fsync := none }

/-- The captured batch becomes durable, its blocks numbered with the gaps in front of them. -/
abbrev synced (target : CommitTarget) (isLeader : Bool) (captured : SyncPositionsSnapshot γ)
    (gaps : List ℕ) (rest : ℕ) : WritePath γ :=
  let blocks := stamp s.tip gaps captured.blocks
  s.commitSync target isLeader captured.positions blocks (lastSeq s.tip blocks + rest)

/-- The read-side commit of one metablock; a trim is merged into the write snapshot once more. -/
def commitPcdBlock (e : DurableBlock γ) : WritePath γ :=
  match e.block with
  | .eventBatch b => { s with readSnapshot := some (.commitPosition b s.readSnapshot) }
  | .softTrim t =>
    { s with
      writeSnapshot := some (.commitTrim t s.writeSnapshot)
      writePosition := if s.writeSnapshot.isSome then s.writePosition else e.walSeq
      readSnapshot := some (.commitTrim t s.readSnapshot) }
  | .softDelete d => { s with readSnapshot := some (.deleted d) }

/-- `commit_pcd`. -/
def commitPcd (batch : DeferredBatch γ) : WritePath γ :=
  { batch.blocks.foldl commitPcdBlock s with readCursor := batch.tip }

/-- `execute_fsync_rollback`. -/
def rollback : WritePath γ := { s with positions := none, queue := [], fsync := none }

end Commits

/-! ## The transitions -/

end WritePath

/-- One task runs to its next wait, or a cycle moves. -/
inductive WriteAction (γ : Type)
  /-- an operation asks whether the aggregate exists -/
  | start (op : AggregateOperation γ)
  | beginScan (i : ℕ)
  | finishScan (i : ℕ)
  /-- a write asks for its client -/
  | clientCheck (i : ℕ)
  /-- the client was loaded meanwhile, or the negative lookup answers that it never wrote -/
  | clientAbsent (i : ℕ)
  | beginClientScan (i : ℕ)
  | finishClientScan (i : ℕ)
  | validate (i : ℕ) (schemaOk : Bool)
  | prepare (i : ℕ) (schemaOk : Bool)
  | prepareDelete (i : ℕ)
  /-- an operation ends early: an error, a timeout, a rejection of another aggregate's part -/
  | abandon (i : ℕ)
  | passAggregate (path : CachePath) (j : ℕ)
  | passClient (j : ℕ)
  | evictWrite
  | evictRead
  | evictClient (c : γ)
  | capture
  | syncSucceeded (target : CommitTarget) (isLeader : Bool) (gaps : List ℕ) (rest : ℕ)
  | syncFailed
  /-- the batch is dropped before `sync`: too large, or the rotation fails -/
  | fsyncAbandoned
  | commitPcd

namespace WritePath

variable {γ} [DecidableEq γ]

/-- A write without events is refused at once. -/
def isEmptyWrite : AggregateOperation γ → Bool
  | .write req => req.clientSeqs.isEmpty
  | _ => false

/-- The write of a task in the given stage. -/
def writeAt (s : WritePath γ) (i : ℕ) (stage : Stage) : Option (WriteRequest γ) :=
  match s.tasks[i]? with
  | some ⟨.write req, stage'⟩ => if stage' = stage then some req else none
  | _ => none

def eventBatchAt (s : WritePath γ) (j : ℕ) : Option (DurableBlock γ × EventBatch γ) :=
  match s.wal[j]? with
  | some ⟨walSeq, .eventBatch b⟩ => some (⟨walSeq, .eventBatch b⟩, b)
  | _ => none

omit [DecidableEq γ] in
theorem eventBatchAt_wal {s : WritePath γ} {j e b}
    (h : s.eventBatchAt j = some (e, b)) : s.wal[j]? = some e ∧ e.block = .eventBatch b := by
  unfold eventBatchAt at h
  split at h
  next walSeq batch visited =>
    cases h
    exact ⟨visited, rfl⟩
  next => cases h

/-- A delete that loses the concurrency check stays and tries again. -/
def deleteStep (s : WritePath γ) (i : ℕ) (req : DeleteRequest) : WritePath γ :=
  if s.view.pendingDeleteOrDeleted || s.view.aggregateVersion = 0 then s.dropTask i
  else
    match req.expectedVersion with
    | some expected =>
      if expected = s.view.aggregateVersion then (s.dropTask i).appendDelete req else s
    | none => (s.dropTask i).appendDelete req

/-- One step; `none` where the task is not there. -/
def step (s : WritePath γ) : WriteAction γ → Option (WritePath γ)
  | .start op =>
    if isEmptyWrite op then some s
    else
      match s.loadStatus op.cachePath with
      | some status => some (s.enter op (status = .found))
      | none => some (s.pushTask op .waiting)
  | .beginScan i =>
    match s.tasks[i]? with
    | some ⟨op, .waiting⟩ => some (s.moveTask i op (.scanning (s.scanBound op.cachePath)))
    | _ => none
  | .finishScan i =>
    match s.tasks[i]? with
    | some ⟨op, .scanning bound⟩ =>
      some (((s.dropTask i).loadAggregate op.cachePath bound).enter op (s.scanFinds bound))
    | _ => none
  | .clientCheck i =>
    match s.writeAt i .admitted with
    | some req =>
      if req.enforceClientIdempotency && !s.clientLoaded req.clientId then
        some (s.moveTask i (.write req) .clientWaiting)
      else some (s.moveTask i (.write req) .warmed)
    | none => none
  | .clientAbsent i =>
    match s.writeAt i .clientWaiting with
    | some req =>
      if s.clientLoaded req.clientId then some (s.moveTask i (.write req) .warmed)
      else some ((s.moveTask i (.write req) .warmed).putClient req.clientId 0)
    | none => none
  | .beginClientScan i =>
    match s.writeAt i .clientWaiting with
    | some req => some (s.moveTask i (.write req) (.clientScanning s.clientScanBound))
    | none => none
  | .finishClientScan i =>
    match s.tasks[i]? with
    | some ⟨.write req, .clientScanning bound⟩ =>
      some ((s.moveTask i (.write req) .warmed).loadClient req.clientId bound)
    | _ => none
  | .validate i schemaOk =>
    match s.writeAt i .warmed with
    | some req =>
      match s.validateWrite req schemaOk with
      | .ok _ => some (s.moveTask i (.write req) .validated)
      | .error _ => some (s.dropTask i)
    | none => none
  | .prepare i schemaOk =>
    match s.writeAt i .validated with
    | some req =>
      match s.validateWrite req schemaOk with
      | .ok _ => some ((s.dropTask i).appendWrite req)
      | .error _ => some (s.dropTask i)
    | none => none
  | .prepareDelete i =>
    match s.tasks[i]? with
    | some ⟨.delete req, .admitted⟩ => some (s.deleteStep i req)
    | _ => none
  | .abandon i => if i < s.tasks.length then some (s.dropTask i) else none
  | .passAggregate path j =>
    match s.eventBatchAt j with
    | some (e, b) =>
      if path = .read ∧ s.readCursor < e.walSeq then none else some (s.passAggregate path e b)
    | none => none
  | .passClient j =>
    match s.eventBatchAt j with
    | some (_, b) => some (s.putClientIfAbsent b.clientId b.maxClientSeq)
    | none => none
  | .evictWrite => some { s with writeSnapshot := none }
  | .evictRead => some { s with readSnapshot := none }
  | .evictClient c => some { s with clients := fun d => if d = c then none else s.clients d }
  | .capture =>
    match s.fsync with
    | some _ => none
    | none => some { s with fsync := some ⟨s.positions, s.queue⟩, queue := [] }
  | .syncSucceeded target isLeader gaps rest =>
    match s.fsync with
    | some captured =>
      let blocks := stamp s.tip gaps captured.blocks
      some (s.commitSync target isLeader captured.positions blocks (lastSeq s.tip blocks + rest))
    | none => none
  | .syncFailed => if s.fsync.isSome then some s.rollback else none
  | .fsyncAbandoned => if s.fsync.isSome then some { s with fsync := none } else none
  | .commitPcd =>
    match s.deferred with
    | batch :: rest => some ({ s with deferred := rest }.commitPcd batch)
    | [] => none

/-! ## What a step does -/

/-- The outcomes of a step. -/
inductive Step (s : WritePath γ) : WriteAction γ → WritePath γ → Prop
  | refused (op : AggregateOperation γ) (empty : isEmptyWrite op = true) : Step s (.start op) s
  | entered (op : AggregateOperation γ) (status : AggregateStatus)
    (events : isEmptyWrite op = false)
      (loaded : s.loadStatus op.cachePath = some status) :
      Step s (.start op) (s.enter op (status = .found))
  | missed (op : AggregateOperation γ) (events : isEmptyWrite op = false)
      (absent : s.loadStatus op.cachePath = none) : Step s (.start op) (s.pushTask op .waiting)
  | scanBegun (i : ℕ) (op : AggregateOperation γ) (task : s.tasks[i]? = some ⟨op, .waiting⟩) :
      Step s (.beginScan i) (s.moveTask i op (.scanning (s.scanBound op.cachePath)))
  | scanned (i : ℕ) (op : AggregateOperation γ) (bound : ℕ)
      (task : s.tasks[i]? = some ⟨op, .scanning bound⟩) :
      Step s (.finishScan i)
        (((s.dropTask i).loadAggregate op.cachePath bound).enter op (s.scanFinds bound))
  | clientMissed (i : ℕ) (req : WriteRequest γ) (task : s.writeAt i .admitted = some req)
      (enforced : req.enforceClientIdempotency = true)
      (absent : s.clientLoaded req.clientId = false) :
      Step s (.clientCheck i) (s.moveTask i (.write req) .clientWaiting)
  | clientPassed (i req) (task : s.writeAt i .admitted = some req)
      (passed : req.enforceClientIdempotency = true → s.clientLoaded req.clientId = true) :
      Step s (.clientCheck i) (s.moveTask i (.write req) .warmed)
  | clientLoadedBefore (i req) (task : s.writeAt i .clientWaiting = some req)
      (loaded : s.clientLoaded req.clientId = true) :
      Step s (.clientAbsent i) (s.moveTask i (.write req) .warmed)
  | clientAbsent (i req) (task : s.writeAt i .clientWaiting = some req)
      (absent : s.clientLoaded req.clientId = false) :
      Step s (.clientAbsent i) ((s.moveTask i (.write req) .warmed).putClient req.clientId 0)
  | clientScanBegun (i req)
      (task : s.writeAt i .clientWaiting = some req) :
      Step s (.beginClientScan i) (s.moveTask i (.write req) (.clientScanning s.clientScanBound))
  | clientScanned (i req bound)
      (task : s.tasks[i]? = some ⟨.write req, .clientScanning bound⟩) :
      Step s (.finishClientScan i)
        ((s.moveTask i (.write req) .warmed).loadClient req.clientId bound)
  | validated (i schemaOk req)
      (task : s.writeAt i .warmed = some req) (ok : s.validateWrite req schemaOk = .ok ()) :
      Step s (.validate i schemaOk) (s.moveTask i (.write req) .validated)
  | invalid (i schemaOk req e)
      (task : s.writeAt i .warmed = some req) (error : s.validateWrite req schemaOk = .error e) :
      Step s (.validate i schemaOk) (s.dropTask i)
  | prepared (i schemaOk req)
      (task : s.writeAt i .validated = some req) (ok : s.validateWrite req schemaOk = .ok ()) :
      Step s (.prepare i schemaOk) ((s.dropTask i).appendWrite req)
  | unprepared (i schemaOk req e)
      (task : s.writeAt i .validated = some req) (error : s.validateWrite req schemaOk = .error e) :
      Step s (.prepare i schemaOk) (s.dropTask i)
  | deleting (i req) (task : s.tasks[i]? = some ⟨.delete req, .admitted⟩) :
      Step s (.prepareDelete i) (s.deleteStep i req)
  | abandoned (i) : Step s (.abandon i) (s.dropTask i)
  | passed (path j e b)
      (visited : s.eventBatchAt j = some (e, b))
      (bounded : path = .read → e.walSeq ≤ s.readCursor) :
      Step s (.passAggregate path j) (s.passAggregate path e b)
  | clientPassedBy (j e b)
      (visited : s.eventBatchAt j = some (e, b)) :
      Step s (.passClient j) (s.putClientIfAbsent b.clientId b.maxClientSeq)
  | writeEvicted : Step s .evictWrite { s with writeSnapshot := none }
  | readEvicted : Step s .evictRead { s with readSnapshot := none }
  | clientEvicted (c) :
      Step s (.evictClient c) { s with clients := fun d => if d = c then none else s.clients d }
  | captured (idle : s.fsync = none) :
      Step s .capture { s with fsync := some ⟨s.positions, s.queue⟩, queue := [] }
  | synced (target isLeader gaps rest)
      (captured) (writing : s.fsync = some captured) :
      Step s (.syncSucceeded target isLeader gaps rest)
        (s.synced target isLeader captured gaps rest)
  | rolledBack (captured) (writing : s.fsync = some captured) :
      Step s .syncFailed s.rollback
  | dropped (captured) (writing : s.fsync = some captured) :
      Step s .fsyncAbandoned { s with fsync := none }
  | committed (batch rest)
      (deferred : s.deferred = batch :: rest) :
      Step s .commitPcd ({ s with deferred := rest }.commitPcd batch)

theorem Step.of_step {s t : WritePath γ} {a : WriteAction γ} (h : step s a = some t) :
    Step s a t := by
  cases a
  all_goals simp only [step] at h
  case start op =>
    split at h
    next empty => cases h; exact .refused op empty
    next events =>
      split at h
      next status loaded => cases h; exact .entered op status (by simpa using events) loaded
      next absent => cases h; exact .missed op (by simpa using events) absent
  -- the task that the action names is what the path has checked
  case beginScan | finishScan | beginClientScan | finishClientScan | prepareDelete | syncSucceeded |
      commitPcd =>
    split at h
    · cases h
      constructor
      assumption
    · cases h
  case clientCheck i =>
    split at h
    next req task =>
      split at h
      next missed =>
        rw [Bool.and_eq_true, Bool.not_eq_true'] at missed
        cases h; exact .clientMissed i req task missed.1 missed.2
      next passed =>
        cases h
        refine .clientPassed i req task fun enforced => ?_
        simpa [enforced] using passed
    next => cases h
  case clientAbsent i =>
    split at h
    next req task =>
      split at h
      next loaded => cases h; exact .clientLoadedBefore i req task loaded
      next absent => cases h; exact .clientAbsent i req task (by simpa using absent)
    next => cases h
  case validate i schemaOk =>
    split at h
    next req task =>
      split at h
      next ok => cases h; exact .validated i schemaOk req task ok
      next e error => cases h; exact .invalid i schemaOk req e task error
    next => cases h
  case prepare i schemaOk =>
    split at h
    next req task =>
      split at h
      next ok => cases h; exact .prepared i schemaOk req task ok
      next e error => cases h; exact .unprepared i schemaOk req e task error
    next => cases h
  case abandon i =>
    split at h
    next => cases h; exact .abandoned i
    next => cases h
  case passAggregate path j =>
    split at h
    next e b visited =>
      split at h
      next => cases h
      next bounded =>
        cases h
        refine .passed path j e b visited fun read => ?_
        simpa [read] using bounded
    next => cases h
  case passClient j =>
    split at h
    next e b visited => cases h; exact .clientPassedBy j e b visited
    next => cases h
  case evictWrite | evictRead | evictClient =>
    cases h
    constructor
  case capture =>
    split at h
    next => cases h
    next idle => cases h; exact .captured idle
  case syncFailed | fsyncAbandoned =>
    split at h
    next writing =>
      obtain ⟨captured, writing⟩ := Option.isSome_iff_exists.mp writing
      cases h
      constructor
      exact writing
    next => cases h

section Cases

variable (s : WritePath γ)

omit [DecidableEq γ] in
/-- Entering moves tasks alone, or is a trim that raises the floor. -/
theorem enter_cases (op : AggregateOperation γ) (found : Bool) :
    (∃ tasks, s.enter op found = { s with tasks }) ∨
      ∃ keepFrom, op = .trim keepFrom ∧ found = true ∧ s.view.minAggregateVersion < keepFrom ∧
        keepFrom ≤ s.view.aggregateVersion ∧ s.enter op found = s.appendTrim keepFrom := by
  cases op with
  | write req =>
    simp only [enter]
    split
    next => exact .inl ⟨_, rfl⟩
    next =>
      split
      next => split <;> exact .inl ⟨_, rfl⟩
      next => split <;> exact .inl ⟨_, rfl⟩
  | delete req =>
    simp only [enter]
    split <;> exact .inl ⟨_, rfl⟩
  | trim keepFrom =>
    simp only [enter, trimStart]
    split
    next found =>
      split
      next => exact .inl ⟨_, rfl⟩
      next above =>
        split
        next => exact .inl ⟨_, rfl⟩
        next range => exact .inr ⟨keepFrom, rfl, found, by omega, by omega, rfl⟩
    next => exact .inl ⟨_, rfl⟩
  | read => exact .inl ⟨_, rfl⟩

omit [DecidableEq γ] in
/-- A delete moves tasks alone, or enqueues the tombstone of an aggregate it sees alive. -/
theorem deleteStep_cases (i : ℕ) (req : DeleteRequest) :
    (∃ tasks, s.deleteStep i req = { s with tasks }) ∨
      s.view.pendingDeleteOrDeleted = false ∧ s.view.aggregateVersion ≠ 0 ∧
        s.deleteStep i req = (s.dropTask i).appendDelete req := by
  unfold deleteStep
  split
  next => exact .inl ⟨_, rfl⟩
  next present =>
    rw [Bool.or_eq_true, not_or] at present
    have living : s.view.pendingDeleteOrDeleted = false := by simpa using present.1
    have version : s.view.aggregateVersion ≠ 0 := by simpa using present.2
    split
    next =>
      split
      next => exact .inr ⟨living, version, rfl⟩
      next => exact .inl ⟨_, rfl⟩
    next => exact .inr ⟨living, version, rfl⟩

end Cases

/-- The scan of a task. -/
def scanAt (s : WritePath γ) (i : ℕ) : Option (AggregateOperation γ × ℕ) :=
  match s.tasks[i]? with
  | some ⟨op, .scanning bound⟩ => some (op, bound)
  | _ => none

/-- What a step does to the metablocks, the queue position and the write snapshot. -/
inductive PathStep (s : WritePath γ) : WriteAction γ → WritePath γ → Prop
  | quiet (a : WriteAction γ) (t : WritePath γ) (core : t.core = s.core)
      (snapshot : t.writeSnapshot = s.writeSnapshot) : PathStep s a t
  | evicted (t : WritePath γ) (core : t.core = s.core) (snapshot : t.writeSnapshot = none) :
      PathStep s .evictWrite t
  | passed (j : ℕ) (e : DurableBlock γ) (t : WritePath γ) (visited : s.wal[j]? = some e)
      (absent : s.writeSnapshot = none) (core : t.core = s.core)
      (snapshot : t.writeSnapshot = some (.ofBlock e.block)) :
      PathStep s (.passAggregate .write j) t
  | loaded (i bound : ℕ) (op : AggregateOperation γ) (t : WritePath γ)
    (path : op.cachePath = .write)
      (scan : s.scanAt i = some (op, bound)) (core : t.core = s.core)
      (snapshot : t.writeSnapshot = some (.coldLoad ((s.upTo bound).map (·.block)))) :
      PathStep s (.finishScan i) t
  /-- a trim that was suspended in its load -/
  | loadedTrim (i bound keepFrom : ℕ) (t : WritePath γ)
      (scan : s.scanAt i = some (.trim keepFrom, bound)) (found : s.scanFinds bound = true)
      (core : t.core = s.core)
      (snapshot : t.writeSnapshot = some (.coldLoad ((s.upTo bound).map (·.block))))
      (above : t.view.minAggregateVersion < keepFrom) (range : keepFrom ≤ t.view.aggregateVersion) :
      PathStep s (.finishScan i) (t.appendTrim keepFrom)
  | trimmed (keepFrom) (found : s.loadStatus .write = some .found)
      (above : s.view.minAggregateVersion < keepFrom) (range : keepFrom ≤ s.view.aggregateVersion) :
      PathStep s (.start (.trim keepFrom)) (s.appendTrim keepFrom)
  | prepared (i schemaOk req)
      (task : s.writeAt i .validated = some req) (ok : s.validateWrite req schemaOk = .ok ()) :
      PathStep s (.prepare i schemaOk) ((s.dropTask i).appendWrite req)
  | deleted (i req) (living : s.view.pendingDeleteOrDeleted = false)
      (version : s.view.aggregateVersion ≠ 0) :
      PathStep s (.prepareDelete i) ((s.dropTask i).appendDelete req)
  | captured (idle : s.fsync = none) :
      PathStep s .capture { s with fsync := some ⟨s.positions, s.queue⟩, queue := [] }
  | synced (target isLeader gaps rest)
      (captured) (writing : s.fsync = some captured) :
      PathStep s (.syncSucceeded target isLeader gaps rest)
        (s.synced target isLeader captured gaps rest)
  | rolledBack : PathStep s .syncFailed s.rollback
  | dropped (captured) (writing : s.fsync = some captured) :
      PathStep s .fsyncAbandoned { s with fsync := none }
  | committed (batch rest)
      (deferred : s.deferred = batch :: rest) :
      PathStep s .commitPcd ({ s with deferred := rest }.commitPcd batch)

section PathSteps

variable {s t}

theorem PathStep.entering {op : AggregateOperation γ} {status : AggregateStatus}
    (loaded : s.loadStatus op.cachePath = some status) :
    PathStep s (.start op) (s.enter op (status = .found)) := by
  rcases s.enter_cases op (status = .found) with ⟨tasks, same⟩ | ⟨k, rfl, found, above, range, trim⟩
  · rw [same]
    exact .quiet _ _ rfl rfl
  · rw [trim]
    exact .trimmed k (loaded.trans (congrArg some (of_decide_eq_true found))) above range

theorem PathStep.scanning {i bound : ℕ} {op : AggregateOperation γ}
    (task : s.tasks[i]? = some ⟨op, .scanning bound⟩) :
    PathStep s (.finishScan i)
      (((s.dropTask i).loadAggregate op.cachePath bound).enter op (s.scanFinds bound)) := by
  have scan : s.scanAt i = some (op, bound) := by rw [scanAt, task]
  have core : ((s.dropTask i).loadAggregate op.cachePath bound).core = s.core :=
    loadAggregate_core (s.dropTask i) op.cachePath bound
  cases path : op.cachePath with
  | read =>
    rcases enter_cases ((s.dropTask i).loadAggregate .read bound) op (s.scanFinds bound) with
      ⟨tasks, same⟩ | ⟨keepFrom, rfl, -⟩
    · rw [same]
      exact .quiet _ _ (path ▸ core) ((s.dropTask i).loadAggregate_snapshots bound).2.2
    · cases path
  | write =>
    rw [path] at core
    have put := ((s.dropTask i).loadAggregate_snapshots bound).1.1
    rcases enter_cases ((s.dropTask i).loadAggregate .write bound) op (s.scanFinds bound) with
      ⟨tasks, same⟩ | ⟨keepFrom, rfl, found, above, range, trim⟩
    · rw [same]
      exact .loaded i bound op _ path scan core put
    · rw [trim]
      exact .loadedTrim i bound keepFrom _ scan found core put above range

theorem PathStep.passing {j : ℕ} {e : DurableBlock γ} {b : EventBatch γ} (path : CachePath)
    (visited : s.eventBatchAt j = some (e, b)) :
    PathStep s (.passAggregate path j) (s.passAggregate path e b) := by
  have core := s.passAggregate_core path e b
  cases path with
  | read => exact .quiet _ _ core (s.passAggregate_read e b)
  | write =>
    have put := s.passAggregate_write e b
    cases cached : s.writeSnapshot with
    | some m =>
      rw [cached] at put
      exact .quiet _ _ core (put.trans cached.symm)
    | none =>
      rw [cached] at put
      exact .passed j e _ (eventBatchAt_wal visited).1 cached core put

theorem PathStep.of_step {a : WriteAction γ} (hstep : s.step a = some t) : PathStep s a t := by
  cases Step.of_step hstep with
  | entered op status _ loaded => exact .entering loaded
  | scanned i op bound task => exact .scanning task
  | prepared i schemaOk req task ok => exact .prepared i schemaOk req task ok
  | deleting i req task =>
    rcases s.deleteStep_cases i req with ⟨tasks, same⟩ | ⟨living, version, deleted⟩
    · rw [same]
      exact .quiet _ _ rfl rfl
    · rw [deleted]
      exact .deleted i req living version
  | passed path j e b visited _ => exact .passing path visited
  | clientPassedBy j e b visited =>
    obtain ⟨core, snapshot, -⟩ := s.putClientIfAbsent_fields b.clientId b.maxClientSeq
    exact .quiet _ _ core snapshot
  | writeEvicted => exact .evicted _ rfl rfl
  | captured idle => exact .captured idle
  | synced target isLeader gaps rest captured writing =>
    exact .synced target isLeader gaps rest captured writing
  | rolledBack captured writing => exact .rolledBack
  | dropped captured writing => exact .dropped captured writing
  | committed batch rest deferred => exact .committed batch rest deferred
  | _ => exact .quiet _ _ rfl rfl

end PathSteps

end WritePath

end Celeriant
