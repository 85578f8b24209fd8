import Celeriant.Lib.Transition
import Celeriant.Replication.Follower

/-!
# Overlapping replication batches

`handle_replication_batch` awaits its fsync, and a second call can start meanwhile: a retry on a new
connection. A call validates against the durable write cursor. What the other call has queued, or
what its fsync is writing, is not below that cursor yet, so the same items pass a second time. The
fsync chains the queue in order and never compares the result with what the items came with: the
second copy is stored behind the first, under other numbers and hashes
(`retry_during_fsync_is_restamped`).

The machine below interleaves any number of calls at their awaits. A call up to its fsync is one
step (`startBatch`), and so are the capture, which takes the whole queue, and the three ways an
fsync cycle ends. The items that reach the log are recorded as they came and as they were stored.

## Main results

* `FollowerShard.handleBatchAt_eq`: the handler is its start, and the fsync of the queue
* `overlapping_batches_applied_once`
-/

namespace Celeriant

open HashChain Transition List

namespace FollowerShard

variable {H B D X E F : Type*} [DecidableEq H]
  (hash : Metablock H B → H) (serialise : ℕ → D → Except E (Option X)) (s : FollowerShard H B D X)

/-- The handler up to its fsync: the answer, when it has one already, and the shard. -/
def startBatch (now : ℕ) (request : ReplicationBatchRequest H B D) :
    Option (Except (FollowerReplicationWriteError E F) (ReplicationResult H B)) ×
      FollowerShard H B D X :=
  if s.s3CatchupInFlight then (some (.ok (.rejected .notAFollower)), s)
  else
    match s.nodeStatus.effectiveNodeStatus now with
    | .follower leaderLeaseEpoch =>
      if s.maxClockDriftMs < now - request.leaderTimestampMs then
        (some (.ok (.rejected (.timeDriftTooHigh request.leaderTimestampMs now s.maxClockDriftMs))),
          s)
      else if request.senderLeaseEpoch < leaderLeaseEpoch then
        (some (.ok (.rejected (.staleLease leaderLeaseEpoch request.senderLeaseEpoch))), s)
      else if request.batches.isEmpty then
        (some (.ok (.success none)), s.updatePromotionFloor request.leaderConfirmedWalSeq)
      else
        match applyExternalBatch serialise s.shardLog.log s.shardLog.pendingAppendQueue
            request.batches with
        | .error e =>
          let (answer, s') := s.answerApplyError request e
          (some answer, s')
        | .ok queue =>
          (none,
            { s.updatePromotionFloor request.leaderConfirmedWalSeq with
              shardLog := { s.shardLog with pendingAppendQueue := queue } })
    | _ => (some (.ok (.rejected .notAFollower)), s)

/-- The guards that a batch with items passes before it is applied. -/
def Admits (now : ℕ) (request : ReplicationBatchRequest H B D) : Prop :=
  s.s3CatchupInFlight = false ∧
    now - request.leaderTimestampMs ≤ s.maxClockDriftMs ∧
    match s.nodeStatus.effectiveNodeStatus now with
    | .follower leaderLeaseEpoch => leaderLeaseEpoch ≤ request.senderLeaseEpoch
    | _ => False

instance (now : ℕ) (request : ReplicationBatchRequest H B D) :
    Decidable (s.Admits now request) := by
  unfold Admits
  cases s.nodeStatus.effectiveNodeStatus now <;> exact inferInstance

/-- **The handler is its start, and the fsync of the queue.** -/
theorem handleBatchAt_eq (now : ℕ) (fsync : Option F) (request : ReplicationBatchRequest H B D) :
    s.handleBatchAt hash serialise now fsync request =
      match s.startBatch (F := F) serialise now request, fsync with
      | (some answer, s'), _ => (answer, s')
      | (none, s'), some e =>
        (.error (.shardFsyncError e), { s' with shardLog := s'.shardLog.rollback })
      | (none, s'), none =>
        (.ok (.success none), { s' with shardLog := s'.shardLog.sync hash }) := by
  unfold handleBatchAt startBatch applyAndSync
  split
  · rfl
  · cases s.nodeStatus.effectiveNodeStatus now with
    | follower leaderLeaseEpoch =>
      dsimp only
      split
      · rfl
      · split
        · rfl
        · split
          · rfl
          · cases applyExternalBatch serialise s.shardLog.log s.shardLog.pendingAppendQueue
              request.batches with
            | error e => rfl
            | ok queue => cases fsync <;> rfl
    | _ => rfl

variable {hash s}

/-- The start of a call leaves the log alone; it enqueues new items that fit, or nothing. -/
theorem startBatch_cases (now : ℕ) (request : ReplicationBatchRequest H B D) :
    (s.startBatch (F := F) serialise now request).2.shardLog = s.shardLog ∨
    ∃ queue, s.Admits now request ∧
      Fits s.shardLog.log (newItems s.shardLog.log.walSeq request.batches) ∧
      queue.map (·.metablock) = s.shardLog.pendingAppendQueue.map (·.metablock) ++
        metablocksOf (newItems s.shardLog.log.walSeq request.batches) ∧
      (s.startBatch (F := F) serialise now request).2.shardLog =
        { s.shardLog with pendingAppendQueue := queue } := by
  unfold startBatch Admits
  split
  · exact .inl rfl
  next noCatchup =>
    cases s.nodeStatus.effectiveNodeStatus now with
    | follower leaderLeaseEpoch =>
      dsimp only
      split
      · exact .inl rfl
      next drift =>
        split
        · exact .inl rfl
        next lease =>
          split
          · exact .inl rfl
          · split
            · unfold answerApplyError recordObservedLeader
              left
              repeat' split
              all_goals rfl
            next queue applied =>
              obtain ⟨fits, queued⟩ := applyExternalBatch_ok serialise applied
              exact .inr ⟨queue, ⟨by simpa using noCatchup, by omega, by omega⟩, fits, queued, rfl⟩
    | _ => exact .inl rfl

/-- How the start of a call can end: refused by a guard; answered after an apply error; a commit
notify; or enqueued and waiting for the fsync. -/
theorem startBatch_outcomes (now : ℕ) (request : ReplicationBatchRequest H B D) :
    (¬ s.Admits now request ∧ ∃ rejection,
      s.startBatch (F := F) serialise now request = (some (.ok (.rejected rejection)), s)) ∨
    s.Admits now request ∧
      ((∃ answer s', s.startBatch (F := F) serialise now request = (some answer, s') ∧
          (∀ last, answer ≠ .ok (.success last)) ∧ s'.shardLog = s.shardLog ∧
          s'.lastReceivedReplicationWalSeq = s.lastReceivedReplicationWalSeq) ∨
        s.startBatch (F := F) serialise now request =
          (some (.ok (.success none)), s.updatePromotionFloor request.leaderConfirmedWalSeq) ∨
        ∃ queue, s.startBatch (F := F) serialise now request =
          (none, { s.updatePromotionFloor request.leaderConfirmedWalSeq with
            shardLog := { s.shardLog with pendingAppendQueue := queue } })) := by
  unfold startBatch Admits
  cases s.s3CatchupInFlight with
  | true => exact .inl ⟨nofun, _, rfl⟩
  | false =>
    cases s.nodeStatus.effectiveNodeStatus now with
    | follower leaderLeaseEpoch =>
      simp only [Bool.false_eq_true, if_false]
      by_cases drift : s.maxClockDriftMs < now - request.leaderTimestampMs
      · exact .inl ⟨by omega, _, if_pos drift⟩
      by_cases lease : request.senderLeaseEpoch < leaderLeaseEpoch
      · exact .inl ⟨by omega, _, by rw [if_neg drift, if_pos lease]⟩
      simp only [if_neg drift, if_neg lease]
      refine .inr ⟨⟨trivial, by omega, by omega⟩, ?_⟩
      split
      · exact .inr (.inl rfl)
      · split
        next e _ =>
          refine .inl ⟨_, _, rfl, ?_⟩
          unfold answerApplyError recordObservedLeader
          repeat' split
          all_goals exact ⟨nofun, rfl, rfl⟩
        next queue applied => exact .inr (.inr ⟨queue, rfl⟩)
    | _ => exact .inl ⟨fun h => h.2.2, _, rfl⟩

end FollowerShard

/-- A follower between the awaits of its calls. -/
structure InterleavedFollower (H B D X : Type*) where
  shard : FollowerShard H B D X
  fsyncRollbackOccurred : Bool
  /-- what the fsync under way has captured -/
  writing : Option (List (ShardLogQueueItem H B D X))
  /-- the metablocks that reached the log, each as it came and as it was stored -/
  appended : List (Metablock H B × Metablock H B)

/-- A call starts, or the fsync cycle moves. -/
inductive InterleavedAction (H B D : Type*)
  /-- a call up to its fsync; the clock is `none` before the epoch -/
  | call (clock : Option ℕ) (request : ReplicationBatchRequest H B D)
  /-- the role and the catchup flag are set by other tasks -/
  | observe (nodeStatus : ValidatedNodeStatus) (s3CatchupInFlight : Bool)
  | capture
  | synced
  | rolledBack
  /-- the cycle ends before its write, with the captured items dropped: a failed rotation, or a
  batch that fits no segment -/
  | abandoned

namespace InterleavedFollower

variable {H B D X E : Type*} [DecidableEq H]
  (hash : Metablock H B → H) (serialise : ℕ → D → Except E (Option X))
  (s : InterleavedFollower H B D X)

def log : WalLog H (MetablockContent B) := s.shard.shardLog.log

def queue : List (ShardLogQueueItem H B D X) := s.shard.shardLog.pendingAppendQueue

/-- What is not durable yet, in the order in which it will be stored. -/
def pending : List (Metablock H B) := (s.writing.getD [] ++ s.queue).map (·.metablock)

def withQueue (queue : List (ShardLogQueueItem H B D X)) : InterleavedFollower H B D X :=
  { s with shard := { s.shard with shardLog := ⟨s.log, queue⟩ } }

/-- A successful fsync: the captured contents are numbered and chained behind the tip. -/
def store (items : List (ShardLogQueueItem H B D X)) : InterleavedFollower H B D X :=
  let contents := items.map (·.metablock.content)
  { s with
    shard := { s.shard with shardLog := ⟨s.log.append hash contents, s.queue⟩ }
    writing := none
    appended := s.appended ++
      (items.map (·.metablock)).zip (stamp hash s.log.walSeq s.log.tipHash contents) }

def step : InterleavedAction H B D → Option (InterleavedFollower H B D X)
  | .call none _ => some s
  | .call (some now) request =>
    some { s with shard := (s.shard.startBatch (F := Unit) serialise now request).2 }
  | .observe nodeStatus s3CatchupInFlight =>
    some { s with
      shard :=
        { s.shard with nodeStatus := nodeStatus, s3CatchupInFlight := s3CatchupInFlight } }
  | .capture =>
    -- one cycle at a time holds the gate
    if s.writing.isSome then none
    else if s.fsyncRollbackOccurred then some { s with fsyncRollbackOccurred := false }
    else if s.queue.isEmpty then some s
    else some { s.withQueue [] with writing := some s.queue }
  | .synced => s.writing.map (s.store hash)
  | .rolledBack =>
    s.writing.map fun _ =>
      { s.withQueue [] with
        writing := none
        fsyncRollbackOccurred := s.fsyncRollbackOccurred || !s.queue.isEmpty }
  | .abandoned => s.writing.map fun _ => { s with writing := none }

/-- A follower with nothing queued, before the calls. -/
def start (shard : FollowerShard H B D X) : InterleavedFollower H B D X :=
  { shard := { shard with shardLog := ⟨shard.shardLog.log, []⟩ }
    fsyncRollbackOccurred := false
    writing := none
    appended := [] }

/-- **Every appended item was stored as it came, once.** -/
structure AppliedOnce : Prop where
  asReceived : ∀ p ∈ s.appended, p.2 = p.1 ∧ s.log.entryAt p.1.walSeq = some p.1
  once : (s.appended.map (·.1.walSeq)).Nodup

/-- A batch that is about to be enqueued is linked, and nothing else is pending. -/
def Alone : InterleavedAction H B D → Prop
  | .call (some now) request =>
    let new := newItems s.log.walSeq request.batches
    s.shard.Admits now request → Fits s.log new → new ≠ [] →
      s.queue = [] ∧ s.writing = none ∧ Linked hash (metablocksOf new)
  | _ => True

/-! ## One step -/

/-- What is pending continues the log; what is appended is in it. -/
structure Inv : Prop where
  chained : Extends hash s.log.walSeq s.log.tipHash s.pending
  gate : s.writing ≠ none → s.queue = []
  below : ∀ p ∈ s.appended, p.1.walSeq ≤ s.log.walSeq
  applied : s.AppliedOnce

variable {hash s}

omit [DecidableEq H] in
theorem inv_start (shard : FollowerShard H B D X) : (start shard).Inv hash where
  chained := trivial
  gate := nofun
  below := nofun
  applied := ⟨nofun, .nil⟩

omit [DecidableEq H] in
/-- The invariant looks at the log, the queue, the captured items and the appended ones. -/
theorem Inv.congr {t : InterleavedFollower H B D X} (inv : s.Inv hash) (log : t.log = s.log)
    (pending : Extends hash s.log.walSeq s.log.tipHash t.pending)
    (gate : t.writing ≠ none → t.queue = []) (appended : t.appended = s.appended) :
    t.Inv hash where
  chained := log ▸ pending
  gate := gate
  below := by
    rw [appended, log]
    exact inv.below
  applied := by
    refine ⟨?_, ?_⟩
    · rw [appended, log]
      exact inv.applied.asReceived
    · rw [appended]
      exact inv.applied.once

variable {items : List (ShardLogQueueItem H B D X)}

omit [DecidableEq H] in
/-- Items that continue the log are stored as they are. -/
theorem stamp_eq_of_extends {n h} (ext : Extends hash n h (items.map (·.metablock))) :
    stamp hash n h (items.map (·.metablock.content)) = items.map (·.metablock) := by
  apply stamp_eq_iff.mpr
  exact ⟨by simp, ext⟩

omit [DecidableEq H] in
/-- **A successful fsync stores what continues the log as it came.** -/
theorem Inv.store (inv : s.Inv hash)
    (captured : s.writing = some items) : (s.store hash items).Inv hash := by
  have idle : s.queue = [] := inv.gate (by simp [captured])
  have ext : Extends hash s.log.walSeq s.log.tipHash (items.map (·.metablock)) := by
    have := inv.chained
    simpa [pending, captured, idle] using this
  have stamped := stamp_eq_of_extends ext
  have appended : (s.store hash items).appended =
      s.appended ++ (items.map (·.metablock)).map fun e => (e, e) := by
    simp only [InterleavedFollower.store, stamped, zip_map', map_map, Function.comp_def]
  have log : (s.store hash items).log = s.log.append hash (items.map (·.metablock.content)) := rfl
  have number {e : Metablock H B} (he : e ∈ items.map (·.metablock)) :
      s.log.walSeq < e.walSeq ∧ e.walSeq ≤ s.log.walSeq + items.length := by
    have : e.walSeq ∈ (items.map (·.metablock)).map (·.walSeq) := mem_map_of_mem he
    rw [ext.map_walSeq, mem_range'_1, length_map] at this
    omega
  refine ⟨?_, ?_, ?_, ?_, ?_⟩
  · have none : (s.store hash items).pending = [] := by
      simpa [pending, InterleavedFollower.store, queue] using idle
    rw [none]
    trivial
  · intro busy
    exact absurd rfl busy
  · intro p hp
    rw [appended, mem_append] at hp
    rw [log, WalLog.walSeq_append, length_map]
    rcases hp with old | new
    · exact (inv.below p old).trans (Nat.le_add_right _ _)
    · obtain ⟨e, he, rfl⟩ := mem_map.mp new
      exact (number he).2
  · intro p hp
    rw [appended, mem_append] at hp
    rw [log]
    rcases hp with old | new
    · rw [WalLog.entryAt_append_of_le hash _ (inv.below p old)]
      exact inv.applied.asReceived p old
    · obtain ⟨e, he, rfl⟩ := mem_map.mp new
      obtain ⟨k, inside, rfl⟩ := getElem_of_mem he
      have short : k < (items.map (·.metablock.content)).length := by simpa using inside
      have place := ext.walSeq (List.getElem?_eq_getElem inside)
      refine ⟨rfl, ?_⟩
      rw [place, WalLog.entryAt_append hash _ short, stamped, List.getElem?_eq_getElem inside]
  · rw [appended, map_append, nodup_append]
    refine ⟨inv.applied.once, ?_, ?_⟩
    · have numbers : ((items.map (·.metablock)).map fun e => (e, e)).map (·.1.walSeq) =
          List.range' (s.log.walSeq + 1) (items.map (·.metablock)).length := by
        rw [map_map, ← ext.map_walSeq]
        rfl
      rw [numbers]
      exact nodup_range'
    · intro a ha b hb same
      obtain ⟨p, hp, rfl⟩ := mem_map.mp ha
      obtain ⟨q, hq, rfl⟩ := mem_map.mp hb
      obtain ⟨e, he, rfl⟩ := mem_map.mp hq
      have old := inv.below p hp
      have new := (number he).1
      change p.1.walSeq = e.walSeq at same
      omega

variable {serialise} {a : InterleavedAction H B D} {t : InterleavedFollower H B D X}

/-- A call that enqueues a linked batch alone leaves what is pending behind the log. -/
theorem Inv.call (inv : s.Inv hash) {now request}
    (alone : s.Alone hash (.call (some now) request)) :
    Inv hash { s with shard := (s.shard.startBatch (F := Unit) serialise now request).2 } := by
  rcases FollowerShard.startBatch_cases (F := Unit)
    (s := s.shard) serialise now request with same | ⟨queue, admits, fits, queued, enqueued⟩
  · apply inv.congr
    · exact congrArg ShardLog.log same
    · have : (s.shard.startBatch (F := Unit) serialise now request).2.shardLog.pendingAppendQueue =
          s.queue := congrArg ShardLog.pendingAppendQueue same
      simpa [pending, InterleavedFollower.queue, this] using inv.chained
    · intro busy
      exact (congrArg ShardLog.pendingAppendQueue same).trans (inv.gate busy)
    · rfl
  · have after :
        (s.shard.startBatch (F := Unit) serialise now request).2.shardLog.pendingAppendQueue =
          queue := congrArg ShardLog.pendingAppendQueue enqueued
    have logAfter :
        (s.shard.startBatch (F := Unit) serialise now request).2.shardLog.log = s.log := by
      rw [enqueued]
      rfl
    apply inv.congr
    · exact logAfter
    · by_cases none : newItems s.log.walSeq request.batches = []
      -- every item is behind the cursor: the queue is what it was
      · have none' : newItems s.shard.shardLog.log.walSeq request.batches = [] := none
        rw [none'] at queued
        simp only [metablocksOf, map_nil, append_nil] at queued
        have := inv.chained
        simp only [pending, map_append, InterleavedFollower.queue, after] at this ⊢
        rwa [queued]
      · obtain ⟨idle, free, linked⟩ := alone admits fits none
        have idle' : s.shard.shardLog.pendingAppendQueue = [] := idle
        rw [idle'] at queued
        simp only [pending, InterleavedFollower.queue, free, after, Option.getD_none,
          nil_append]
        rw [queued]
        exact (extends_iff_linked fits).mpr linked
    · intro busy
      by_cases none : newItems s.log.walSeq request.batches = []
      · have none' : newItems s.shard.shardLog.log.walSeq request.batches = [] := none
        have idle' : s.shard.shardLog.pendingAppendQueue = [] := inv.gate busy
        rw [none', idle'] at queued
        exact after.trans (map_eq_nil_iff.mp queued)
      · exact absurd (alone admits fits none).2.1 busy
    · rfl

/-- **Every step under the condition keeps the invariant.** -/
theorem Inv.step (inv : s.Inv hash) (alone : s.Alone hash a)
    (h : s.step hash serialise a = some t) :
    t.Inv hash := by
  cases a with
  | call clock request =>
    cases clock with
    | none =>
      cases h
      exact inv
    | some now =>
      cases h
      exact inv.call alone
  | observe nodeStatus s3CatchupInFlight =>
    cases h
    exact inv.congr rfl inv.chained inv.gate rfl
  | capture =>
    rw [InterleavedFollower.step] at h
    split at h
    · cases h
    next free =>
      have idle : s.writing = none := by simpa using free
      split at h
      · cases h
        exact inv.congr rfl inv.chained inv.gate rfl
      · split at h
        · cases h
          exact inv
        · cases h
          apply inv.congr
          · rfl
          · have := inv.chained
            simpa [pending, idle, withQueue, queue] using this
          · intro _
            rfl
          · rfl
  | synced =>
    obtain ⟨items, captured, rfl⟩ := Option.map_eq_some_iff.mp h
    exact inv.store captured
  | rolledBack =>
    obtain ⟨items, -, rfl⟩ := Option.map_eq_some_iff.mp h
    exact inv.congr rfl trivial (fun _ => rfl) rfl
  | abandoned =>
    obtain ⟨items, captured, rfl⟩ := Option.map_eq_some_iff.mp h
    have idle : s.queue = [] := inv.gate (by simp [captured])
    refine inv.congr rfl ?_ (fun busy => absurd rfl busy) rfl
    -- nothing was queued behind the captured items
    have nothing : pending { s with writing := none } = [] := by
      simpa [pending, queue] using idle
    rw [nothing]
    trivial

end InterleavedFollower

/-! ## Whole runs -/

open InterleavedFollower in
/-- **Batches that are enqueued alone are applied once.** In every run, from any follower with
nothing queued, in which every batch that is about to be enqueued is linked and finds nothing
pending: every item that reached the log is stored there under its own number and previous hash, and
no number was appended twice. -/
theorem overlapping_batches_applied_once {H B D X E : Type*} [DecidableEq H]
    (hash : Metablock H B → H) (serialise : ℕ → D → Except E (Option X))
    (shard : FollowerShard H B D X) (s : InterleavedFollower H B D X)
    (run : Reaches (InterleavedFollower.step hash serialise) (Alone hash) (start shard) s) :
    s.AppliedOnce := by
  have inv : s.Inv hash := by
    refine run.invariant ?_ (inv_start shard)
    intro s a t inv alone step
    exact inv.step alone step
  exact inv.applied

section Retry

instance (log : WalLog ℕ (MetablockContent ℕ)) (items : List (ReplicationBatchItem ℕ ℕ Unit)) :
    Decidable (Fits log items) :=
  have : Decidable (Contiguous (metablocksOf items)) :=
    inferInstanceAs (Decidable (List.IsChain _ _))
  decidable_of_iff ((∀ item ∈ items.head?, item.metablock.walSeq = log.walSeq + 1 ∧
      item.metablock.previousTipHash = log.tipHash) ∧ Contiguous (metablocksOf items))
    ⟨fun h => ⟨h.1, h.2⟩, fun h => ⟨h.first, h.contiguous⟩⟩

instance : DecidableRel
    (InterleavedFollower.Alone sumHash : InterleavedFollower ℕ ℕ Unit Unit → _ → Prop) := by
  intro s a
  cases a with
  | call clock request =>
    cases clock with
    | none => exact isTrue trivial
    | some now =>
      have linked :
          Decidable (Linked sumHash (metablocksOf (newItems s.log.walSeq request.batches))) :=
        inferInstanceAs (Decidable (List.IsChain _ _))
      exact inferInstanceAs (Decidable (_ → _ → _ → _ ∧ _ ∧ _))
  | _ => exact isTrue trivial

/-- A batch whose fsync is done can be sent again, alone or with more: each entry is applied
once. -/
theorem overlapping_batches_applied_once_resent :
    ∃ s, Reaches (InterleavedFollower.step sumHash noCodec) (InterleavedFollower.Alone sumHash)
        (.start (FollowerShard.followerHolding [])) s ∧
      s.appended.map (·.1.walSeq) = [1, 2] ∧ s.AppliedOnce := by
  exact exists_and_of_exec
    [.call (some 105) (FollowerShard.batchFromOne [7]), .capture, .synced,
      .call (some 106) (FollowerShard.batchFromOne [7]), .capture,
      .call (some 107) (FollowerShard.batchFromOne [7, 8]), .capture, .synced] (by decide +kernel)
    fun s run _ => overlapping_batches_applied_once sumHash noCodec _ s run

/-- **A retry during the fsync is stored again under another number.** The batch of entry 1 is
received; while its fsync writes, it is received again and passes the same checks. The second cycle
stores the second copy as entry 2. -/
theorem retry_during_fsync_is_restamped :
    ∃ s, Reaches (InterleavedFollower.step sumHash noCodec) Always
        (.start (FollowerShard.followerHolding [])) s ∧
      s.appended.map (fun p => (p.1.walSeq, p.2.walSeq)) = [(1, 1), (1, 2)] ∧ ¬ s.AppliedOnce := by
  refine exists_and_of_exec
    [.call (some 105) (FollowerShard.batchFromOne [7]), .capture,
      .call (some 106) (FollowerShard.batchFromOne [7]), .synced, .capture, .synced]
    (by decide +kernel) ?_
  intro s _ numbers applied
  have once := applied.once
  have twice := congrArg (List.map Prod.fst) numbers
  rw [map_map] at twice
  rw [show s.appended.map (·.1.walSeq) = [1, 1] from twice] at once
  exact absurd once (by decide)

end Retry

end Celeriant
