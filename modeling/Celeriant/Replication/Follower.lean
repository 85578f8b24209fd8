import Celeriant.Distributed.NodeStatus
import Celeriant.Lib.Saturating
import Celeriant.Replication.ApplyBatch

/-!
# The follower's replication handler

`handle_replication_batch` answers a leader's batch. After its guards (catchup, role, clock drift,
lease epoch) it applies the batch, fsyncs and answers Success, which is meant to say that the
follower holds the batch. The apply step never looks at the items at or below the write cursor, and
compares the previous hash of the first new item only; the fsync chains the queue in order. So
Success also answers a batch that is wholly behind the cursor and differs from the local entries
(`forked_batch_answered_success`).

The fsync of the handler covers the queue as it stands: entries that are queued, or being written by
a cycle under way, come before the new items. Its outcome is an argument; when it fails nothing is
answered Success.

## Main results

* `success_iff_holds_batch`: a batch answered Success is held exactly when it is covered
-/

namespace Celeriant

open HashChain

/-- Why a follower turns a batch down. -/
inductive FollowerRejection (H : Type*)
  | notAFollower
  | emptyBatch
  | timeDriftTooHigh (leaderMs followerMs maxAllowedMs : ℕ)
  | walSeqMismatch (maxFollowerWalSeq : ℕ)
  | tipHashMismatch (follower : H) (followerWalSeq : ℕ) (leader : H) (leaderWalSeq : ℕ)
  | missingDatablock
  | staleLease (followerLeaseEpoch receivedLeaseEpoch : ℕ)
  deriving DecidableEq, Repr

/-- The answer to a batch. -/
inductive ReplicationResult (H B : Type*)
  | success (lastFollowerMetablock : Option (Metablock H B))
  | rejected (rejection : FollowerRejection H)
  deriving DecidableEq, Repr

def ReplicationResult.isSuccess {H B : Type*} : ReplicationResult H B → Bool
  | success _ => true
  | rejected _ => false

/-- Errors that end the call. -/
inductive FollowerReplicationWriteError (E F : Type*)
  | shardFsyncError (error : F)
  | failedToSerialiseDatablocks (error : E)
  | blockBecameInline
  | batchWalSeqGap (index expected actual : ℕ)
  deriving DecidableEq, Repr

/-- A leader's batch, stamped with its lease. -/
structure ReplicationBatchRequest (H B D : Type*) where
  correlationId : Option ℕ
  leaderTimestampMs : ℕ
  leaderConfirmedWalSeq : ℕ
  senderLeaseEpoch : ℕ
  batches : List (ReplicationBatchItem H B D)
  deriving Repr

/-- The result with the follower's clock. -/
structure ReplicationBatchResponse (H B : Type*) where
  correlationId : Option ℕ
  followerTimestampMs : ℕ
  result : ReplicationResult H B
  deriving DecidableEq, Repr

/-- The last leader tip a rejected batch has shown, with the epoch that showed it. -/
structure ObservedLeaderTarget where
  leaseEpoch : ℕ
  walSeq : ℕ
  deriving DecidableEq, Repr

/-- A newer epoch replaces the target, within one epoch it only grows. -/
def ObservedLeaderTarget.teach (target : ObservedLeaderTarget) (batchLeaseEpoch observed : ℕ) :
    ObservedLeaderTarget :=
  if target.leaseEpoch < batchLeaseEpoch then ⟨batchLeaseEpoch, observed⟩
  else if batchLeaseEpoch = target.leaseEpoch ∧ target.walSeq < observed then
    { target with walSeq := observed }
  else target

/-- A shard that follows: status, log and floor. -/
structure FollowerShard (H B D X : Type*) where
  nodeStatus : ValidatedNodeStatus
  s3CatchupInFlight : Bool
  maxClockDriftMs : ℕ
  observedLeaderTarget : ObservedLeaderTarget
  lastReceivedReplicationWalSeq : ℕ
  shardLog : ShardLog H B D X

namespace FollowerShard

variable {H B D X E F : Type*} [DecidableEq H]
  (hash : Metablock H B → H) (serialise : ℕ → D → Except E (Option X)) (s : FollowerShard H B D X)

/-- The leader's last entry becomes the catchup target. -/
def recordObservedLeader (request : ReplicationBatchRequest H B D) : FollowerShard H B D X :=
  match request.batches.getLast? with
  | some last =>
    { s with
      observedLeaderTarget :=
        s.observedLeaderTarget.teach request.senderLeaseEpoch last.metablock.walSeq }
  | none => s

/-- The floor of the range a promotion would upload; it only grows. -/
def updatePromotionFloor (leaderConfirmedWalSeq : ℕ) : FollowerShard H B D X :=
  { s with
    lastReceivedReplicationWalSeq :=
      max s.lastReceivedReplicationWalSeq (satAdd leaderConfirmedWalSeq 1) }

/-- What an apply error is answered with, and what is remembered of it. -/
def answerApplyError (request : ReplicationBatchRequest H B D) (error : ApplyBatchError H E) :
    Except (FollowerReplicationWriteError E F) (ReplicationResult H B) × FollowerShard H B D X :=
  match error with
  | .walSeqMismatch current _ =>
    (.ok (.rejected (.walSeqMismatch current)), s.recordObservedLeader request)
  | .tipHashMismatch current currentWalSeq batch batchWalSeq =>
    (.ok (.rejected (.tipHashMismatch current currentWalSeq batch batchWalSeq)),
      s.recordObservedLeader request)
  | .missingDatablock => (.ok (.rejected .missingDatablock), s)
  | .serialiseDatablocks e => (.error (.failedToSerialiseDatablocks e), s)
  | .blockBecameInline => (.error .blockBecameInline, s)
  | .batchWalSeqGap index expected actual => (.error (.batchWalSeqGap index expected actual), s)

/-- Apply and fsync of a batch that passed the guards; `fsync` is the error of the fsync cycle, if
it fails. -/
def applyAndSync (fsync : Option F) (request : ReplicationBatchRequest H B D) :
    Except (FollowerReplicationWriteError E F) (ReplicationResult H B) × FollowerShard H B D X :=
  match applyExternalBatch serialise s.shardLog.log s.shardLog.pendingAppendQueue
      request.batches with
  | .error e => s.answerApplyError request e
  | .ok queue =>
    let queued : ShardLog H B D X := { s.shardLog with pendingAppendQueue := queue }
    let s := s.updatePromotionFloor request.leaderConfirmedWalSeq
    match fsync with
    | some e => (.error (.shardFsyncError e), { s with shardLog := queued.rollback })
    | none => (.ok (.success none), { s with shardLog := queued.sync hash })

/-- The guards and the batch behind them; `now` is the local clock in milliseconds. -/
def handleBatchAt (now : ℕ) (fsync : Option F) (request : ReplicationBatchRequest H B D) :
    Except (FollowerReplicationWriteError E F) (ReplicationResult H B) × FollowerShard H B D X :=
  if s.s3CatchupInFlight then (.ok (.rejected .notAFollower), s)
  else
    match s.nodeStatus.effectiveNodeStatus now with
    | .follower leaderLeaseEpoch =>
      if s.maxClockDriftMs < now - request.leaderTimestampMs then
        (.ok (.rejected (.timeDriftTooHigh request.leaderTimestampMs now s.maxClockDriftMs)), s)
      else if request.senderLeaseEpoch < leaderLeaseEpoch then
        (.ok (.rejected (.staleLease leaderLeaseEpoch request.senderLeaseEpoch)), s)
      else if request.batches.isEmpty then
        -- a commit notify: nothing to apply
        (.ok (.success none), s.updatePromotionFloor request.leaderConfirmedWalSeq)
      else s.applyAndSync hash serialise fsync request
    | _ => (.ok (.rejected .notAFollower), s)

/-- `handle_replication_batch`; a clock before the epoch reads as `none`. -/
def handleReplicationBatch (clock : Option ℕ) (fsync : Option F)
    (request : ReplicationBatchRequest H B D) :
    Except (FollowerReplicationWriteError E F) (ReplicationBatchResponse H B) ×
      FollowerShard H B D X :=
  match clock with
  | none =>
    (.ok ⟨request.correlationId, 0,
      .rejected (.timeDriftTooHigh request.leaderTimestampMs 0 s.maxClockDriftMs)⟩, s)
  | some now =>
    let (result, s') := s.handleBatchAt hash serialise now fsync request
    (result.map fun result => ⟨request.correlationId, now, result⟩, s')

/-! ## What Success has gone through -/

variable {hash serialise s}
  {request : ReplicationBatchRequest H B D} {items : List (ReplicationBatchItem H B D)}
  {fsync : Option F} {result : ReplicationResult H B} {es : List (Metablock H B)}
  {log : WalLog H (MetablockContent B)}

theorem applyAndSync_success (h : (s.applyAndSync hash serialise fsync request).1 = .ok result)
    (success : result.isSuccess) :
    ∃ queue, applyExternalBatch serialise s.shardLog.log s.shardLog.pendingAppendQueue
        request.batches = .ok queue ∧
      (s.applyAndSync hash serialise fsync request).2.shardLog =
        ShardLog.sync hash { s.shardLog with pendingAppendQueue := queue } := by
  unfold applyAndSync at h ⊢
  split at h
  next e he =>
    -- no apply error is answered Success
    unfold answerApplyError at h
    split at h <;> cases h <;> cases success
  next queue applied =>
    cases fsync with
    | some e => cases h
    | none => exact ⟨queue, applied, rfl⟩

theorem handleBatchAt_success {now : ℕ} (nonempty : request.batches ≠ [])
    (h : (s.handleBatchAt hash serialise now fsync request).1 = .ok result)
    (success : result.isSuccess) :
    s.handleBatchAt hash serialise now fsync request =
      s.applyAndSync hash serialise fsync request := by
  unfold handleBatchAt at h ⊢
  split at h
  · cases h
    cases success
  next noCatchup =>
    split at h
    · split at h
      · cases h
        cases success
      next drift =>
        split at h
        · cases h
          cases success
        next lease =>
          have notEmpty : ¬ request.batches.isEmpty = true := by simpa using nonempty
          rw [if_neg noCatchup, if_neg drift, if_neg lease, if_neg notEmpty]
    · cases h
      cases success

/-- **Success for a non-empty batch comes from an apply and an fsync that both succeeded.** -/
theorem handleReplicationBatch_success {clock : Option ℕ} {response : ReplicationBatchResponse H B}
    (nonempty : request.batches ≠ [])
    (h : (s.handleReplicationBatch hash serialise clock fsync request).1 = .ok response)
    (success : response.result.isSuccess) :
    ∃ queue, applyExternalBatch serialise s.shardLog.log s.shardLog.pendingAppendQueue
        request.batches = .ok queue ∧
      (s.handleReplicationBatch hash serialise clock fsync request).2.shardLog =
        ShardLog.sync hash { s.shardLog with pendingAppendQueue := queue } := by
  unfold handleReplicationBatch at h ⊢
  cases clock with
  | none =>
    cases h
    cases success
  | some now =>
    cases answered : (s.handleBatchAt hash serialise now fsync request).1 with
    | error e =>
      simp only [answered] at h
      cases h
    | ok result =>
      simp only [answered] at h
      cases h
      have same := handleBatchAt_success nonempty answered success
      rw [same] at answered
      obtain ⟨queue, applied, synced⟩ := applyAndSync_success answered success
      refine ⟨queue, applied, ?_⟩
      rw [← synced, ← same]

/-! ## What makes it true -/

variable (hash s)

/-- What the handler would have to compare: the items at or below the write cursor are the local
entries; what is queued ahead of the new items has their contents; and the new items are linked. -/
structure Covers (items : List (ReplicationBatchItem H B D)) : Prop where
  overlap : ∀ item ∈ items, item.metablock.walSeq ≤ s.shardLog.log.walSeq →
    s.shardLog.log.entryAt item.metablock.walSeq = some item.metablock
  queue : (s.shardLog.pendingAppendQueue.map (·.metablock.content) ++
      contentsOf (newItems s.shardLog.log.walSeq items)).take
        (newItems s.shardLog.log.walSeq items).length =
    contentsOf (newItems s.shardLog.log.walSeq items)
  linked : Linked hash (metablocksOf (newItems s.shardLog.log.walSeq items))

/-- Every item of the batch is in the durable log. -/
def Holds (items : List (ReplicationBatchItem H B D)) : Prop :=
  ∀ item ∈ items, s.shardLog.log.entryAt item.metablock.walSeq = some item.metablock

variable {hash s}

omit [DecidableEq H] in
/-- The new items are stored exactly when stamping the queue reproduces them. -/
theorem holds_new_iff (fits : Fits log items)
    {contents : List (MetablockContent B)} (enough : items.length ≤ contents.length) :
    (∀ item ∈ items, (log.append hash contents).entryAt item.metablock.walSeq =
        some item.metablock) ↔
      stamp hash log.walSeq log.tipHash (contents.take items.length) = metablocksOf items := by
  have stored : ∀ k (inside : k < items.length),
      (log.append hash contents).entryAt (items[k]).metablock.walSeq =
        (stamp hash log.walSeq log.tipHash contents)[k]? := by
    intro k inside
    rw [walSeq_of_fits fits (List.getElem?_eq_getElem inside)]
    exact WalLog.entryAt_append hash contents (lt_of_lt_of_le inside enough)
  rw [← stamp_take]
  constructor
  · intro held
    refine List.ext_getElem? fun k => ?_
    by_cases inside : k < items.length
    · rw [List.getElem?_take_of_lt inside, ← stored k inside, held _ (List.getElem_mem inside)]
      simp [metablocksOf, List.getElem?_eq_getElem inside]
    · rw [List.getElem?_eq_none (by simp; omega),
        List.getElem?_eq_none (by simp [metablocksOf]; omega)]
  · intro eq item hitem
    obtain ⟨k, inside, rfl⟩ := List.getElem_of_mem hitem
    rw [stored k inside, ← List.getElem?_take_of_lt inside, eq]
    simp [metablocksOf, List.getElem?_eq_getElem inside]

/-- **A batch answered Success is held exactly when it is covered.** -/
theorem success_iff_holds_batch {clock : Option ℕ} {fsync : Option F}
    {request : ReplicationBatchRequest H B D} {response : ReplicationBatchResponse H B}
    (nonempty : request.batches ≠ [])
    (h : (s.handleReplicationBatch hash serialise clock fsync request).1 = .ok response)
    (success : response.result.isSuccess) :
    (s.handleReplicationBatch hash serialise clock fsync request).2.Holds request.batches ↔
      s.Covers hash request.batches := by
  obtain ⟨queue, applied, synced⟩ := handleReplicationBatch_success nonempty h success
  obtain ⟨fits, queued⟩ := applyExternalBatch_ok serialise applied
  unfold Holds
  rw [synced]
  set log := s.shardLog.log
  set new := newItems log.walSeq request.batches
  -- the fsync stamps what was queued before, then the new items
  have contents : queue.map (·.metablock.content) =
      s.shardLog.pendingAppendQueue.map (·.metablock.content) ++ contentsOf new := by
    have := congrArg (List.map (·.content)) queued
    simpa [metablocksOf, contentsOf, Function.comp_def] using this
  have enough : new.length ≤ (queue.map (·.metablock.content)).length := by
    rw [contents]
    simp [contentsOf]
  have newPart : (∀ item ∈ new, (log.append hash (queue.map (·.metablock.content))).entryAt
      item.metablock.walSeq = some item.metablock) ↔ _ := holds_new_iff fits enough
  rw [stamp_eq_iff, extends_iff_linked fits, contents] at newPart
  have newContents : (metablocksOf new).map (·.content) = contentsOf new := by
    simp [metablocksOf, contentsOf]
  rw [newContents] at newPart
  have kept : ∀ n ≤ log.walSeq, (log.append hash (queue.map (·.metablock.content))).entryAt n =
      log.entryAt n := fun n => WalLog.entryAt_append_of_le hash _
  simp only [ShardLog.sync]
  constructor
  · intro held
    obtain ⟨ahead, linked⟩ :=
      newPart.mp fun item hitem => contents ▸ held item (newItems_subset hitem)
    exact ⟨fun item hitem behind => kept _ behind ▸ held item hitem, ahead, linked⟩
  · intro covers item hitem
    rcases mem_newItems_or_le (n := log.walSeq) hitem with isNew | behind
    · exact contents ▸ newPart.mpr ⟨covers.queue, covers.linked⟩ item isNew
    · rw [kept _ behind]
      exact covers.overlap item hitem behind

/-! ## A fork behind the cursor -/

section Fork

/-- A follower of epoch 1 with the given entries. -/
def followerHolding (bodies : List ℕ) : FollowerShard ℕ ℕ Unit Unit where
  nodeStatus := ⟨.follower 1, 1000, 10, 0, false⟩
  s3CatchupInFlight := false
  maxClockDriftMs := 10
  observedLeaderTarget := ⟨0, 0⟩
  lastReceivedReplicationWalSeq := 0
  shardLog := ⟨WalLog.append sumHash ⟨fun _ => none, 0, 0⟩ (bodies.map plainContent), []⟩

/-- A batch of the leader of epoch 1 that starts at entry 1. -/
def batchFromOne (bodies : List ℕ) : ReplicationBatchRequest ℕ ℕ Unit where
  correlationId := some 4
  leaderTimestampMs := 100
  leaderConfirmedWalSeq := 0
  senderLeaseEpoch := 1
  batches := (stamp sumHash 0 0 (bodies.map plainContent)).map (⟨·, none⟩)

/-- A resent batch that the follower has already, and one new entry: held. -/
theorem success_iff_holds_batch_resent :
    ((followerHolding [7]).handleReplicationBatch sumHash noCodec (some 105)
      (none : Option Unit) (batchFromOne [7, 8])).2.Holds (batchFromOne [7, 8]).batches :=
  have answered : ((followerHolding [7]).handleReplicationBatch sumHash noCodec (some 105)
      (none : Option Unit) (batchFromOne [7, 8])).1 = .ok ⟨some 4, 105, .success none⟩ := rfl
  (success_iff_holds_batch (by decide) answered rfl).mpr ⟨by decide, by decide, .singleton _⟩

/-- **A batch behind the cursor that differs from the local entries is answered Success.** -/
theorem forked_batch_answered_success :
    ((followerHolding [7]).handleReplicationBatch sumHash noCodec (some 105)
        (none : Option Unit) (batchFromOne [9])).1 = .ok ⟨some 4, 105, .success none⟩ ∧
      ¬ ((followerHolding [7]).handleReplicationBatch sumHash noCodec (some 105)
        (none : Option Unit) (batchFromOne [9])).2.Holds (batchFromOne [9]).batches :=
  ⟨rfl, fun held => absurd (held _ (List.mem_singleton_self _)) (by decide)⟩

end Fork

end FollowerShard

end Celeriant
