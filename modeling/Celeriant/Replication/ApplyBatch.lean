import Celeriant.Lib.HashChain
import Mathlib.Data.List.TakeWhile

/-!
# Applying a replicated batch

A follower receives items (a metablock and, for an external datablock, its payload) over TCP or from
S3. `applyExternalBatch` drops the items at or below the local write cursor, checks the number and
the previous hash of the first remaining one, checks that the rest are numbered consecutively, and
queues them. The fsync that follows numbers and chains the queue onto the local tip again, whatever
the items came with.

A metablock is an entry of a hash chain. Its content are the fields the entry hash covers besides
the number and the previous hash; the node-local positions are not among them. `serialise` is the
codec: it re-encodes a payload with the compression of the metablock and returns the external bytes,
if the result is external.

## Main results

* `applyExternalBatch_prepared`: what a successful apply has checked and queued
-/

namespace Celeriant

open HashChain List

/-- Where the datablock of a metablock is. -/
inductive DatablockStorageKind
  | none
  | inline
  | block
  deriving DecidableEq, Repr

/-- The hashed fields of a metablock besides number and previous hash. -/
structure MetablockContent (B : Type*) where
  leaseEpoch : ℕ
  datablockCompressionType : ℕ
  datablock : DatablockStorageKind
  /-- timestamp, author, sizes and payload kind -/
  body : B
  deriving DecidableEq, Repr

abbrev Metablock (H B : Type*) := Entry H (MetablockContent B)

/-- A metablock with its payload. -/
structure ReplicationBatchItem (H B D : Type*) where
  metablock : Metablock H B
  datablock : Option D
  deriving DecidableEq, Repr

/-- A metablock that waits for its fsync. -/
structure ShardLogQueueItem (H B D X : Type*) where
  datablock : Option D
  datablockBytes : Option X
  metablock : Metablock H B
  deriving DecidableEq, Repr

/-- Why a batch is not applied. -/
inductive ApplyBatchError (H E : Type*)
  | walSeqMismatch (current batchFirst : ℕ)
  | tipHashMismatch (current : H) (currentWalSeq : ℕ) (batch : H) (batchWalSeq : ℕ)
  | batchWalSeqGap (index expected actual : ℕ)
  | missingDatablock
  | blockBecameInline
  | serialiseDatablocks (error : E)
  deriving DecidableEq, Repr

section Apply

variable {H B D X E : Type*} [DecidableEq H] (serialise : ℕ → D → Except E (Option X))

/-- The metablocks of some items. -/
def metablocksOf (items : List (ReplicationBatchItem H B D)) : List (Metablock H B) :=
  items.map (·.metablock)

/-- The contents of some items. -/
def contentsOf (items : List (ReplicationBatchItem H B D)) : List (MetablockContent B) :=
  items.map (·.metablock.content)

/-- The first adjacent pair that is not numbered consecutively. -/
def firstGap : ℕ → List (ReplicationBatchItem H B D) → Option (ApplyBatchError H E)
  | _, [] => none
  | _, [_] => none
  | index, a :: b :: items =>
    if a.metablock.walSeq + 1 ≠ b.metablock.walSeq then
      some (.batchWalSeqGap (index + 1) (a.metablock.walSeq + 1) b.metablock.walSeq)
    else firstGap (index + 1) (b :: items)

/-- The queue item of a replicated item. -/
def prepareItem (item : ReplicationBatchItem H B D) :
    Except (ApplyBatchError H E) (ShardLogQueueItem H B D X) :=
  match item.metablock.content.datablock with
  | .none => .ok ⟨none, none, item.metablock⟩
  | .inline => .ok ⟨none, none, item.metablock⟩
  | .block =>
    match item.datablock with
    | none => .error .missingDatablock
    | some datablock =>
      match serialise item.metablock.content.datablockCompressionType datablock with
      | .error e => .error (.serialiseDatablocks e)
      | .ok none => .error .blockBecameInline
      | .ok (some bytes) => .ok ⟨some datablock, some bytes, item.metablock⟩

/-- Prepares every item, or reports the first failure. -/
def prepareAll : List (ReplicationBatchItem H B D) →
    Except (ApplyBatchError H E) (List (ShardLogQueueItem H B D X))
  | [] => .ok []
  | item :: items =>
    match prepareItem serialise item with
    | .error e => .error e
    | .ok prepared =>
      match prepareAll items with
      | .error e => .error e
      | .ok rest => .ok (prepared :: rest)

/-- The queue after `queue_replicated_entries`. -/
def queueReplicatedEntries (queue : List (ShardLogQueueItem H B D X))
    (items : List (ReplicationBatchItem H B D)) :
    Except (ApplyBatchError H E) (List (ShardLogQueueItem H B D X)) :=
  match firstGap 0 items with
  | some e => .error e
  | none =>
    match prepareAll serialise items with
    | .error e => .error e
    | .ok prepared => .ok (queue ++ prepared)

/-- The items from the first one above `currentWalSeq` on. -/
def newItems (currentWalSeq : ℕ) (items : List (ReplicationBatchItem H B D)) :
    List (ReplicationBatchItem H B D) :=
  items.dropWhile fun item => item.metablock.walSeq ≤ currentWalSeq

/-- The queue after `apply_external_batch`. -/
def applyExternalBatch (log : WalLog H (MetablockContent B))
    (queue : List (ShardLogQueueItem H B D X)) (items : List (ReplicationBatchItem H B D)) :
    Except (ApplyBatchError H E) (List (ShardLogQueueItem H B D X)) :=
  match newItems log.walSeq items with
  | [] => .ok queue
  | first :: rest =>
    if log.walSeq + 1 ≠ first.metablock.walSeq then
      .error (.walSeqMismatch log.walSeq first.metablock.walSeq)
    else if log.tipHash ≠ first.metablock.previousTipHash then
      .error (.tipHashMismatch log.tipHash log.walSeq first.metablock.previousTipHash
        first.metablock.walSeq)
    else queueReplicatedEntries serialise queue (first :: rest)

/-! ## What a successful apply has checked -/

variable {items : List (ReplicationBatchItem H B D)} {item : ReplicationBatchItem H B D}
  {log : WalLog H (MetablockContent B)}

section

omit [DecidableEq H]

theorem firstGap_eq_none_iff {index} :
    firstGap (E := E) index items = none ↔ Contiguous (metablocksOf items) := by
  unfold Contiguous metablocksOf
  induction items generalizing index with
  | nil => simp [firstGap]
  | cons a items ih =>
    cases items with
    | nil => simp [firstGap]
    | cons b items =>
      rw [firstGap, map_cons, map_cons, isChain_cons_cons, ← map_cons,
        ← @ih (index + 1)]
      split
      next gap => exact ⟨nofun, fun contiguous => absurd contiguous.1 gap⟩
      next next => exact ⟨fun none => ⟨not_not.mp next, none⟩, And.right⟩

theorem metablock_of_prepareItem {prepared}
    (h : prepareItem serialise item = .ok prepared) : prepared.metablock = item.metablock := by
  unfold prepareItem at h
  repeat' split at h
  all_goals first | cases h; rfl | cases h

theorem metablocks_of_prepareAll {prepared} (h : prepareAll serialise items = .ok prepared) :
    prepared.map (·.metablock) = metablocksOf items := by
  induction items generalizing prepared with
  | nil =>
    cases h
    rfl
  | cons item items ih =>
    rw [prepareAll] at h
    split at h
    · cases h
    next first hfirst =>
      split at h
      · cases h
      next rest hrest =>
        cases h
        rw [map_cons, metablock_of_prepareItem serialise hfirst, ih hrest]
        rfl

theorem getElem?_of_prepareAll {prepared} {k : ℕ}
    (h : prepareAll serialise items = .ok prepared) (found : items[k]? = some item) :
    ∃ queued, prepared[k]? = some queued ∧ prepareItem serialise item = .ok queued := by
  induction items generalizing prepared k with
  | nil => cases found
  | cons first items ih =>
    rw [prepareAll] at h
    split at h
    · cases h
    next hfirst =>
      split at h
      · cases h
      next hrest =>
        cases h
        cases k with
        | zero => exact ⟨_, rfl, Option.some.inj found ▸ hfirst⟩
        | succ k =>
          obtain ⟨queued, at_, prepares⟩ := ih hrest found
          exact ⟨queued, at_, prepares⟩

/-- The new items start right behind the local tip and are numbered consecutively. -/
structure Fits (log : WalLog H (MetablockContent B)) (items : List (ReplicationBatchItem H B D)) :
    Prop where
  first : ∀ item ∈ items.head?, item.metablock.walSeq = log.walSeq + 1 ∧
    item.metablock.previousTipHash = log.tipHash
  contiguous : Contiguous (metablocksOf items)

/-- New items that fit are linked exactly when they extend the local tip. -/
theorem extends_iff_linked {hash : Metablock H B → H} (fits : Fits log items) :
    Extends hash log.walSeq log.tipHash (metablocksOf items) ↔
      Linked hash (metablocksOf items) := by
  cases items with
  | nil => exact ⟨fun _ => .nil, fun _ => trivial⟩
  | cons first rest =>
    obtain ⟨number, previous⟩ := fits.first first rfl
    have contiguous := fits.contiguous
    constructor
    · exact fun ext => (extends_cons_iff.mp ext).2.2.2
    · exact fun linked => extends_cons_iff.mpr ⟨number, previous, contiguous, linked⟩

/-- An item is behind the cursor or among the new ones. -/
theorem mem_newItems_or_le {n} (h : item ∈ items) :
    item ∈ newItems n items ∨ item.metablock.walSeq ≤ n := by
  have split := takeWhile_append_dropWhile
    (p := fun item : ReplicationBatchItem H B D => decide (item.metablock.walSeq ≤ n)) (l := items)
  rw [← split] at h
  rcases mem_append.mp h with behind | new
  · exact .inr (by simpa using mem_takeWhile_imp behind)
  · exact .inl new

theorem newItems_subset {n} :
    newItems n items ⊆ items :=
  (dropWhile_suffix _).subset

/-- New items that fit sit at consecutive numbers behind the tip. -/
theorem walSeq_of_fits (fits : Fits log items) {k} (found : items[k]? = some item) :
    item.metablock.walSeq = log.walSeq + 1 + k := by
  induction k generalizing item with
  | zero =>
    have head : item ∈ items.head? := by rwa [List.head?_eq_getElem?]
    rw [(fits.first item head).1]
  | succ k ih =>
    obtain ⟨inside, rfl⟩ := List.getElem?_eq_some_iff.mp found
    have before := ih (List.getElem?_eq_getElem (Nat.lt_of_succ_lt inside))
    have chain := isChain_iff_getElem.mp fits.contiguous k
      (by simpa [metablocksOf] using inside)
    simp only [metablocksOf, getElem_map] at chain
    omega

end

variable {queue queue' : List (ShardLogQueueItem H B D X)}

/-- **What a successful apply has checked and queued.** -/
theorem applyExternalBatch_prepared
    (h : applyExternalBatch serialise log queue items = .ok queue') :
    Fits log (newItems log.walSeq items) ∧
      ∃ prepared, prepareAll serialise (newItems log.walSeq items) = .ok prepared ∧
        queue' = queue ++ prepared := by
  unfold applyExternalBatch at h
  split at h
  next none =>
    cases h
    rw [none]
    exact ⟨⟨nofun, .nil⟩, [], rfl, (append_nil _).symm⟩
  next first rest new =>
    split at h
    · cases h
    next number =>
      split at h
      · cases h
      next hash =>
        unfold queueReplicatedEntries at h
        split at h
        · cases h
        next noGap =>
          split at h
          · cases h
          next prepared hprepared =>
            cases h
            rw [new]
            refine ⟨⟨?_, firstGap_eq_none_iff.mp noGap⟩, prepared, hprepared, rfl⟩
            intro item hitem
            obtain rfl : first = item := by simpa using hitem
            exact ⟨(not_not.mp number).symm, (not_not.mp hash).symm⟩

theorem applyExternalBatch_ok (h : applyExternalBatch serialise log queue items = .ok queue') :
    Fits log (newItems log.walSeq items) ∧
      queue'.map (·.metablock) =
        queue.map (·.metablock) ++ metablocksOf (newItems log.walSeq items) := by
  obtain ⟨fits, prepared, hprepared, rfl⟩ := applyExternalBatch_prepared serialise h
  exact ⟨fits, by rw [map_append, metablocks_of_prepareAll serialise hprepared]⟩

/-- After the fsync every item of an applied batch is at or below the cursor. -/
theorem walSeq_le_of_applied
    (h : applyExternalBatch serialise log queue items = .ok queue') (hitem : item ∈ items) :
    item.metablock.walSeq ≤ log.walSeq + queue'.length := by
  obtain ⟨fits, queued⟩ := applyExternalBatch_ok serialise h
  have length := congrArg List.length queued
  simp only [length_map, length_append, metablocksOf] at length
  rcases mem_newItems_or_le (n := log.walSeq) hitem with new | behind
  · obtain ⟨k, inside, rfl⟩ := getElem_of_mem new
    rw [walSeq_of_fits fits (List.getElem?_eq_getElem inside)]
    omega
  · omega

end Apply

/-! ## The shard's log and queue -/

/-- The durable log, and what is queued for the next fsync or being written by the one under
way. -/
structure ShardLog (H B D X : Type*) where
  log : WalLog H (MetablockContent B)
  pendingAppendQueue : List (ShardLogQueueItem H B D X)

namespace ShardLog

variable {H B D X : Type*} (hash : Metablock H B → H) (s : ShardLog H B D X)

/-- A successful fsync of the queue: every queued content is numbered and chained anew. -/
def sync : ShardLog H B D X where
  log := s.log.append hash (s.pendingAppendQueue.map (·.metablock.content))
  pendingAppendQueue := []

/-- A failed fsync: the rollback drops the queue. -/
def rollback : ShardLog H B D X := { s with pendingAppendQueue := [] }

end ShardLog

/-! ## Small instances, for concrete runs -/

/-- A small hash. -/
def sumHash (e : Metablock ℕ ℕ) : ℕ := e.walSeq + 10 * e.content.body + 100 * e.previousTipHash

/-- An entry without a datablock. -/
def plainContent (body : ℕ) : MetablockContent ℕ := ⟨1, 0, .none, body⟩

/-- A codec for batches without datablocks. -/
def noCodec (_ : ℕ) (_ : Unit) : Except Unit (Option Unit) := .error ()

end Celeriant
