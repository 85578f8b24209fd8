import Celeriant.Cache.StoredSeqs

/-!
# Client idempotency across restarts and compactions

The write path of an aggregate together with what else decides whether a client has written before:
the negative lookup, which lets a first write skip the scan; restarts, which empty the caches and
warm them again from the log; and compactions, which drop batches of the log. `accepted` is a ghost:
the largest sequence of a client that ever became durable.

A negative lookup answers from a set of clients. It is filled by a build, by commits and by the
loads it answers, and answers absent only when its build ended complete. The set may be larger than
what was inserted (it is a bloom filter), which only costs a scan, so a client that is a member for
no reason is not modelled.

## Main definitions

* `NegativeClientBloom`: the set of the negative lookup
* `CompactionState.resolve`, `CompactionState.keeps`: what a compaction drops
* `Idempotency`, `Idempotency.step`: the write path with lookup, restarts and compactions
-/

namespace Celeriant

variable {γ : Type}

/-- The lookup, and the build that fills it. -/
structure NegativeClientBloom (γ : Type) where
  members : List γ
  complete : Bool
  /-- the build in flight, with the bound of its scan once it has begun -/
  builder : Option (Option ℕ)

/-- `AggregateCompactionState`. -/
inductive CompactionState
  | alive
  | deleted
  | trimmed (minAggregateVersion : ℕ)
  | recreatedAfter (deletionWalSeq : ℕ)
  deriving DecidableEq, Repr

namespace CompactionState

/-- `resolve_aggregate_states` for the aggregate, newest metablock first: the first tombstone
decides, else the newest trim. -/
def resolve (seenEventBatch : Bool) (trimPending : Option ℕ) : List (DurableBlock γ) →
    CompactionState
  | [] =>
    match trimPending with
    | some minAggregateVersion => trimmed minAggregateVersion
    | none => alive
  | e :: rest =>
    match e.block with
    | .softDelete _ => if seenEventBatch then recreatedAfter e.walSeq else deleted
    | .softTrim t => resolve seenEventBatch (trimPending.or (some t.keepFromAggregateVersion)) rest
    | .eventBatch _ => resolve true trimPending rest

/-- `should_keep_metablock`. -/
def keeps (state : CompactionState) (e : DurableBlock γ) : Bool :=
  match e.block with
  | .eventBatch b =>
    match state with
    | deleted => false
    | trimmed minAggregateVersion => minAggregateVersion ≤ b.aggregateVersion
    | recreatedAfter deletionWalSeq => deletionWalSeq < e.walSeq
    | alive => true
  | .softTrim _ => true
  | .softDelete _ => true

end CompactionState

namespace WritePath

/-- The log after the segment with the sequences above `lo` up to `hi` was compacted. -/
def compactedWal (s : WritePath γ) (state : CompactionState) (lo hi : ℕ) : List (DurableBlock γ) :=
  s.wal.filter fun e => !(lo < e.walSeq && e.walSeq ≤ hi) || state.keeps e

/-- `atomic_swap_segment` and `remap_compacted_positions`: a write snapshot that names a metablock
of the segment goes on with the last one that is left there, or goes. -/
def compact (s : WritePath γ) (state : CompactionState) (lo hi : ℕ) : WritePath γ :=
  let wal := s.compactedWal state lo hi
  if lo < s.writePosition ∧ s.writePosition ≤ hi then
    match (wal.filter fun e => lo < e.walSeq && e.walSeq ≤ hi).getLast? with
    | some e => { s with wal, writePosition := e.walSeq }
    | none => { s with wal, writeSnapshot := none }
  else { s with wal }

theorem compact_fields (s : WritePath γ) (state : CompactionState) (lo hi : ℕ) :
    (s.compact state lo hi).wal = s.compactedWal state lo hi ∧
      (s.compact state lo hi).tip = s.tip ∧ (s.compact state lo hi).queue = s.queue ∧
      (s.compact state lo hi).positions = s.positions ∧
      (s.compact state lo hi).fsync = s.fsync ∧ (s.compact state lo hi).clients = s.clients := by
  simp only [compact]
  split
  next =>
    split
    next => exact ⟨rfl, rfl, rfl, rfl, rfl, rfl⟩
    next => exact ⟨rfl, rfl, rfl, rfl, rfl, rfl⟩
  next => exact ⟨rfl, rfl, rfl, rfl, rfl, rfl⟩

variable [DecidableEq γ]

/-- A restart keeps the log and warms the caches again; the read cursor is what recovery leaves. -/
def restart (s : WritePath γ) (visits readCursor : ℕ) : WritePath γ :=
  preWarm { init with wal := s.wal, tip := s.tip, readCursor } visits

/-- Warming touches the write snapshot and the clients alone. -/
theorem preWarmVisit_fields (s : WritePath γ) (e : DurableBlock γ) :
    (s.preWarmVisit e).core = s.core ∧ (s.preWarmVisit e).readSnapshot = s.readSnapshot := by
  obtain ⟨walSeq, block⟩ := e
  unfold preWarmVisit
  cases s.writeSnapshot.isSome with
  | true =>
    cases block with
    | eventBatch b =>
      obtain ⟨core, -, read⟩ := s.putClientIfAbsent_fields b.clientId b.maxClientSeq
      exact ⟨core, read⟩
    | softTrim t => exact ⟨rfl, rfl⟩
    | softDelete d => exact ⟨rfl, rfl⟩
  | false => cases block <;> exact ⟨rfl, rfl⟩

theorem preWarmVisits_fields (s : WritePath γ) (blocks : List (DurableBlock γ)) :
    (blocks.foldl preWarmVisit s).core = s.core ∧
      (blocks.foldl preWarmVisit s).readSnapshot = s.readSnapshot := by
  induction blocks generalizing s with
  | nil => exact ⟨rfl, rfl⟩
  | cons e blocks ih =>
    obtain ⟨core, read⟩ := ih (s.preWarmVisit e)
    obtain ⟨visitCore, visitRead⟩ := s.preWarmVisit_fields e
    exact ⟨core.trans visitCore, read.trans visitRead⟩

/-- After a restart nothing is queued, and the write snapshot is what the newest metablock says. -/
theorem restart_snapshots (s : WritePath γ) (visits readCursor : ℕ) :
    (s.restart visits readCursor).core = (s.wal, [], none, none, [], s.tip, readCursor) ∧
      (s.restart visits readCursor).readSnapshot = none ∧
      ∀ m ∈ (s.restart visits readCursor).writeSnapshot,
        ∃ e, s.wal.getLast? = some e ∧ m = .ofBlock e.block := by
  obtain ⟨core, read⟩ := preWarmVisits_fields
    { (init : WritePath γ) with wal := s.wal, tip := s.tip, readCursor } (s.wal.reverse.take visits)
  refine ⟨core, read, fun m warmed => ?_⟩
  cases visits with
  | zero => cases warmed
  | succ visits =>
    have newest := preWarm_snapshot
      { (init : WritePath γ) with wal := s.wal, tip := s.tip, readCursor } rfl visits
    rw [restart, newest] at warmed
    obtain ⟨e, last, rfl⟩ := Option.map_eq_some_iff.mp warmed
    exact ⟨e, last, rfl⟩

end WritePath

/-- The client of an event batch. -/
def AggregateBlock.client : AggregateBlock γ → Option γ
  | .eventBatch b => some b.clientId
  | .softTrim _ => none
  | .softDelete _ => none

/-- The clients of the event batches among the metablocks. -/
def batchClients (blocks : List (AggregateBlock γ)) : List γ := blocks.filterMap (·.client)

/-- The lookup that is built from the active segment when it is opened: complete when no segment is
sealed. -/
def WritePath.eagerBloom (s : WritePath γ) : Option ℕ → NegativeClientBloom γ
  | none => ⟨batchClients (s.wal.map (·.block)), true, none⟩
  | some sealedEnd =>
    ⟨batchClients ((s.wal.filter (sealedEnd < ·.walSeq)).map (·.block)), false, none⟩

/-- The write path with the lookup and what was accepted. -/
structure Idempotency (γ : Type) where
  path : WritePath γ
  bloom : Option (NegativeClientBloom γ)
  /-- the largest sequence of each client that became durable, zero for none -/
  accepted : γ → ℕ

/-- Steps of the write path, of builds, restarts and compactions. -/
inductive IdempotencyAction (γ : Type)
  | write (a : WriteAction γ)
  /-- `negative_lookup_try_begin_build` -/
  | beginBuild
  | beginBuildScan
  /-- the end of a build: complete, or parked -/
  | finishBuild (complete : Bool)
  | evictBloom
  /-- the compaction of a segment; `bound` is what was committed when it resolved the states, unless
  the cached read snapshot said that the aggregate is deleted -/
  | compact (lo hi : ℕ) (bound : Option ℕ)
  /-- `sealedEnd` is the last sequence of the sealed segments if there are any; `seeded` whether the
  eager lookup found room -/
  | restart (visits : ℕ) (sealedEnd : Option ℕ) (readCursor : ℕ) (seeded : Bool)

namespace Idempotency

variable [DecidableEq γ]

def init : Idempotency γ := ⟨.init, none, fun _ => 0⟩

section Lookup

variable (s : Idempotency γ)

/-- `negative_lookup_insert`, for the clients of some batches. -/
def insertClients (clients : List γ) : Option (NegativeClientBloom γ) :=
  s.bloom.map fun bloom => { bloom with members := clients ++ bloom.members }

/-- `negative_lookup_check` answers DefinitelyAbsent. -/
def definitelyAbsent (c : γ) : Bool :=
  match s.bloom with
  | some bloom => bloom.complete && !(bloom.members.contains c)
  | none => false

/-- What an action of the write path does to the lookup. The commits insert the clients of their
batches: an fsync only when it commits fully. -/
def lookupAfter : WriteAction γ → Option (NegativeClientBloom γ)
  | .clientAbsent i =>
    match s.path.writeAt i .clientWaiting with
    | some req =>
      if s.path.clientLoaded req.clientId then s.bloom else s.insertClients [req.clientId]
    | none => s.bloom
  | .finishClientScan i =>
    match s.path.tasks[i]? with
    | some ⟨.write req, .clientScanning bound⟩ =>
      if (WritePath.newestClientSeq req.clientId (s.path.upTo bound)).isSome then s.bloom
      else s.insertClients [req.clientId]
    | _ => s.bloom
  | .syncSucceeded .fullCommit _ _ _ =>
    match s.path.fsync with
    | some captured => s.insertClients (batchClients captured.blocks)
    | none => s.bloom
  | .commitPcd =>
    match s.path.deferred with
    | batch :: _ => s.insertClients (batchClients (batch.blocks.map (·.block)))
    | [] => s.bloom
  | _ => s.bloom

/-- What an fsync makes durable is accepted. -/
def acceptedAfter : WriteAction γ → γ → ℕ
  | .syncSucceeded _ _ _ _, c =>
    match s.path.fsync with
    | some captured => (batchSeqs c captured.blocks).foldr max (s.accepted c)
    | none => s.accepted c
  | _, c => s.accepted c

/-- The state that a compaction resolves from the committed metablocks above `lo`, or takes from the
cached read snapshot of a deleted aggregate. -/
def compactionState (lo : ℕ) : Option ℕ → Option CompactionState
  | some bound =>
    if s.path.readCursor < bound then none
    else
      some (.resolve false none
        (s.path.wal.filter fun e => lo < e.walSeq && e.walSeq ≤ bound).reverse)
  | none => if s.path.readSnapshot.map (·.status) = some .deleted then some .deleted else none

/-- A client that is not loaded is answered by the lookup only when that is sure. -/
def lookupAllows : WriteAction γ → Bool
  | .clientAbsent i =>
    match s.path.writeAt i .clientWaiting with
    | some req => s.path.clientLoaded req.clientId || s.definitelyAbsent req.clientId
    | none => true
  | _ => true

end Lookup

def step (s : Idempotency γ) : IdempotencyAction γ → Option (Idempotency γ)
  | .write a =>
    if s.lookupAllows a then
      (s.path.step a).map fun path => ⟨path, s.lookupAfter a, s.acceptedAfter a⟩
    else none
  | .beginBuild =>
    match s.bloom with
    | none => some { s with bloom := some ⟨[], false, some none⟩ }
    | some bloom =>
      if bloom.complete || bloom.builder.isSome then none
      else some { s with bloom := some { bloom with builder := some none } }
  | .beginBuildScan =>
    match s.bloom with
    | some ⟨members, complete, some none⟩ =>
      some { s with bloom := some ⟨members, complete, some (some s.path.clientScanBound)⟩ }
    | _ => none
  | .finishBuild complete =>
    match s.bloom with
    | some ⟨members, before, some bound⟩ =>
      if complete then
        match bound with
        | some bound =>
          some { s with
            bloom := some
              ⟨batchClients ((s.path.upTo bound).map (·.block)) ++ members, true, none⟩ }
        | none => none
      else some { s with bloom := some ⟨members, before, none⟩ }
    | _ => none
  | .evictBloom =>
    match s.bloom with
    | some bloom => if bloom.builder.isSome then none else some { s with bloom := none }
    | none => none
  | .compact lo hi bound =>
    if s.path.readCursor < hi then none
    else
      (s.compactionState lo bound).map fun state => { s with path := s.path.compact state lo hi }
  | .restart visits sealedEnd readCursor seeded =>
    some
      { s with
        path := s.path.restart visits readCursor
        bloom := if seeded then some (s.path.eagerBloom sealedEnd) else none }

end Idempotency

end Celeriant
