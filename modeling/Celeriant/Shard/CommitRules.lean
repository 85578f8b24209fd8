import Celeriant.Distributed.NodeStatus
import Celeriant.Shard.Confirm
import Mathlib.Data.List.TakeWhile

/-!
# Commit rules

Three paths enqueue into one append queue: client writes, batches of a peer over TCP, and S3
catchup. A leader's client entry is committed by a replication ack, a peer's entry by the leader's
confirmed index, and a catchup entry by its own fsync. An fsync cycle captures the whole queue,
whoever filled it, and commits it by the `CommitTarget` of the caller that leads the cycle
(`catchup_cycle_commits_client_entry`).

`RuledShard` is the shard with the callers of the three paths, and with the path of every entry.
Enqueueing and asking for the fsync is one step, since no path awaits in between; the target of a
caller is fixed there. Everything else is a step of the shard.

## Main results

* `commits_follow_provenance`: in every run in which paths do not overlap, commits follow provenance
-/

namespace Celeriant

open Transition List

/-- The target `sync_durable` takes from the raw status. -/
def syncDurableTarget : NodeStatus → CommitTarget
  | .leader _ => .deferToReplicationAck
  | .follower _ => .deferToLeaderConfirmed
  | .followerCatchingUp _ => .deferToLeaderConfirmed
  | _ => .fullCommit

/-- The rule of a client entry that was admitted under the given effective status. -/
def admissionRule : NodeStatus → Option CommitTarget
  | .leader _ => some .deferToReplicationAck
  | .standalone => some .fullCommit
  | _ => none

/-! ## What the shard does with its batches -/

namespace Shard

variable {s t : Shard} {a : ShardAction}

/-- What commits a peer's batch: a confirmed index at or above its tip, a catchup or a promotion,
and a truncation above its tip. -/
def CommitsPeer (s : Shard) (a : ShardAction) (p : PendingCommitData) : Prop :=
  match a with
  | .drainParkedCommits leaderConfirmedWalSeq => p.tip ≤ leaderConfirmedWalSeq
  | .commitParkedBeforeCatchup => True
  | .reconcileDurableTail mode => mode = .commitForPromotion
  | .tailProvenance _ isPeer => isPeer = true
  | .truncateGate i => ∃ divergent ∈ s.truncations[i]?, p.tip ≤ divergent.2 - 1
  | _ => False

/-- Only a write adds to the append queue. -/
theorem queue_subset_step (hstep : s.step a = some t) (other : ∀ entries, a ≠ .enqueue entries) :
    t.cache.pendingAppendQueue ⊆ s.cache.pendingAppendQueue := by
  cases Step.of_step hstep with
  | enqueue entries => exact absurd rfl (other entries)
  | fsyncWrites | fsyncSeals | fsyncRotates | fsyncTooLarge | syncFailed | demotionFinished
  | truncateInPlace | truncateUnwind | truncateRefused | restart => exact nil_subset _
  | syncSucceeded target => cases target <;> exact fun _ => id
  | _ => exact fun _ => id

/-- The fsync that holds the gate keeps its target and its batch. -/
theorem fsync_step (hstep : s.step a = some t)
    (other : ∀ target space, a ≠ .fsyncCapture target space)
    {f} (h : t.gate.fsync = some f) : s.gate.fsync = some f := by
  cases Step.of_step hstep with
  | fsyncFlag | fsyncEmpty | fsyncWrites | fsyncSeals | fsyncRotates | fsyncTooLarge =>
    exact absurd rfl (other _ _)
  | sidecarWritten entries gate | rotated target entries source gate =>
    rw [gate]
    exact h
  | sidecarFailed | rotateFailed | syncSucceeded | syncFailed | headerSync | headerSyncDone
  | truncateInPlace | truncateUnwind | unwindOpened | unwindClosed | truncateHeader | truncateFailed
  | restart => cases h
  | _ => exact h

/-- A capture takes the whole queue, under the target of its caller. -/
theorem fsync_capture {target space} (hstep : s.step (.fsyncCapture target space) = some t) {f}
    (h : t.gate.fsync = some f) : f = (target, s.cache.pendingAppendQueue) := by
  cases Step.of_step hstep with
  | fsyncFlag _ _ idle | fsyncEmpty _ _ idle =>
    rw [idle] at h
    cases h
  | fsyncTooLarge _ ready =>
    rw [ready.1] at h
    cases h
  | fsyncWrites | fsyncSeals | fsyncRotates => exact (Option.some.inj h).symm

/-- What `P` says of the batches that wait for replication, and of those that are parked. -/
def Sorted (P : CommitTarget → List EntryId → Prop) (s : Shard) : Prop :=
  (∀ p ∈ s.waiting, P .deferToReplicationAck p.pendingQueue) ∧
    ∀ p ∈ s.cache.parkedCommits, P .deferToLeaderConfirmed p.pendingQueue

variable {P : CommitTarget → List EntryId → Prop}

theorem Sorted.removeAbove (h : s.Sorted P) (g n : ℕ) : (s.removeAbove g n).Sorted P := by
  constructor
  · rw [waiting_removeAbove]
    intro q hq
    obtain ⟨p, hp, rfl⟩ := mem_map.mp hq
    rw [PendingCommitData.markRemoved_pendingQueue]
    exact h.1 p hp
  · intro q hq
    obtain ⟨p, hp, rfl⟩ := mem_map.mp hq
    rw [PendingCommitData.markRemoved_pendingQueue]
    exact h.2 p hp

/-- Batches that wait in `t` waited in `s` in the same queue. -/
theorem Sorted.mono (h : s.Sorted P) (waiting : t.waiting ⊆ s.waiting)
    (parked : t.cache.parkedCommits ⊆ s.cache.parkedCommits) : t.Sorted P :=
  ⟨fun p hp => h.1 p (waiting hp), fun p hp => h.2 p (parked hp)⟩

theorem snapshot_subset_waiting : s.repl.snapshot ++ [] ⊆ s.waiting := by
  rw [append_nil]
  exact subset_append_left _ _

theorem Sorted.clearForTruncate (h : s.Sorted P) (i d : ℕ) :
    (Shard.clearForTruncate { s with truncations := s.truncations.eraseIdx i } d).Sorted P :=
  h.mono (snapshot_subset_waiting (s := s)) (nil_subset _)

/-- **Batches stay in the queue of their rule**, if an fsync of that rule has written them. -/
theorem Sorted.step (h : s.Sorted P) (hstep : s.step a = some t)
    (written : ∀ target entries g clone, s.gate = .writing target entries g clone →
      P target entries) :
    t.Sorted P := by
  cases Step.of_step hstep with
  | syncSucceeded target entries g clone gate =>
    have new := written target entries g clone gate
    cases target with
    | fullCommit => exact h
    | deferToReplicationAck =>
      refine ⟨?_, h.2⟩
      intro p hp
      rcases mem_append.mp hp with hp | hp
      · exact h.1 p (mem_append_left _ hp)
      · rcases mem_append.mp hp with hp | hp
        · exact h.1 p (mem_append_right _ hp)
        · obtain rfl := mem_singleton.mp hp
          exact new
    | deferToLeaderConfirmed =>
      refine ⟨h.1, ?_⟩
      intro p hp
      rcases mem_append.mp hp with hp | hp
      · exact h.2 p hp
      · obtain rfl := mem_singleton.mp hp
        exact new
  | replicationCaptured =>
    refine h.mono ?_ fun _ => id
    exact append_subset.mpr ⟨subset_append_right _ _, nil_subset _⟩
  | replicationPublished => exact h.mono (subset_append_right _ _) fun _ => id
  | replicationFailed ps repl | barrierRaised ps repl | barrierKept ps repl | leaseLost ps repl
  | barrierPersisted ps repl =>
    refine h.mono ?_ fun _ => id
    rw [waiting, waiting, repl]
    exact fun _ => id
  | drained n => exact h.mono (fun _ => id) (dropWhile_subset _)
  | commitParked | reconcileCommit | tailCommit => exact h.mono (fun _ => id) (nil_subset _)
  | reconcileRewind | tailCulled | ackBarrierCursor | unwindOpened | unwindClosed =>
    exact h.removeAbove _ _
  | cullFinished | demotionFinished =>
    exact h.mono (snapshot_subset_waiting (s := s)) (nil_subset _)
  | truncateInPlace i d => exact (h.clearForTruncate i d).removeAbove _ _
  | truncateUnwind i g d | truncateRefused i g d => exact h.clearForTruncate i d
  | restart => exact h.mono (nil_subset _) (nil_subset _)
  | _ => exact h

/-- **What a step commits**: the snapshot of a replication cycle, or parked batches. -/
theorem Sorted.committed (h : s.Sorted P) (hstep : s.step a = some t) {p}
    (hp : p ∈ s.newlyCommitted t) :
    P .deferToReplicationAck p.pendingQueue ∧ a = .replicationPublished ∨
      P .deferToLeaderConfirmed p.pendingQueue ∧ s.CommitsPeer a p := by
  have upTo {n : ℕ} (mem : p ∈ s.cache.parkedUpTo n) : p ∈ s.cache.parkedCommits ∧ p.tip ≤ n :=
    ⟨takeWhile_subset _ mem, by simpa using mem_takeWhile_imp mem⟩
  cases Step.of_step hstep with
  | replicationPublished ps repl =>
    rw [newlyCommitted_eq ps rfl] at hp
    refine .inl ⟨h.1 p (mem_append_left _ ?_), rfl⟩
    rw [repl]
    exact hp
  | drained n segments =>
    rw [newlyCommitted_eq (s.cache.parkedUpTo (min n s.segments.active.write)) rfl] at hp
    obtain ⟨parked, covered⟩ := upTo hp
    exact .inr ⟨h.2 p parked, le_trans covered (Nat.min_le_left _ _)⟩
  | commitParked =>
    rw [newlyCommitted_eq s.cache.parkedCommits rfl] at hp
    exact .inr ⟨h.2 p hp, trivial⟩
  | reconcileCommit | tailCommit =>
    rw [newlyCommitted_eq s.cache.parkedCommits rfl] at hp
    exact .inr ⟨h.2 p hp, rfl⟩
  | truncateInPlace i d idle task | truncateUnwind i g d idle task
    | truncateRefused i g d idle task =>
    rw [newlyCommitted_eq (s.cache.parkedUpTo (d - 1)) rfl] at hp
    obtain ⟨parked, below⟩ := upTo hp
    exact .inr ⟨h.2 p parked, _, task, below⟩
  | _ =>
    rw [newlyCommitted_eq_nil] at hp
    · cases hp
    · rfl

theorem confirmSafe_enqueue (entries : List EntryId) : s.ConfirmSafe (.enqueue entries) :=
  ⟨⟨nofun, nofun, trivial⟩, trivial, nofun⟩

theorem confirmSafe_fsyncCapture (target : CommitTarget) (space : SpaceCheck) :
    s.ConfirmSafe (.fsyncCapture target space) :=
  ⟨⟨nofun, nofun, trivial⟩, trivial, nofun⟩

end Shard

/-! ## The paths -/

/-- A shard with the callers of its three paths. -/
structure RuledShard where
  shard : Shard
  nodeStatus : ValidatedNodeStatus
  /-- client calls that were admitted and have not enqueued, by their rule -/
  admitted : List CommitTarget
  /-- callers that have asked for an fsync, by their target -/
  callers : List CommitTarget
  /-- history: the rule of the path that enqueued an entry -/
  rule : EntryId → Option CommitTarget

/-- What a path, or the shard, does next. -/
inductive RuleAction
  | setNodeStatus (status : ValidatedNodeStatus)
  /-- a client call passes the role check -/
  | callAdmitted (now : ℕ)
  | refuse (rule : CommitTarget)
  | clientAppend (rule : CommitTarget) (entries : List EntryId)
  | peerBatch (now : ℕ) (entries : List EntryId)
  | catchupApply (entries : List EntryId)
  | capture (target : CommitTarget) (space : Shard.SpaceCheck)
  /-- a caller is answered: by the cycle it joined, or by a timeout -/
  | answered (target : CommitTarget)
  | shard (a : ShardAction)

namespace RuledShard

variable (s : RuledShard)

/-- A path enqueues new entries and asks for an fsync under the given target. -/
def enqueue (rule target : CommitTarget) (entries : List EntryId) : Option RuledShard :=
  if ∀ e ∈ entries, s.rule e = none then
    (s.shard.step (.enqueue entries)).map fun shard =>
      { s with
        shard
        callers := s.callers ++ [target]
        rule := fun e => if e ∈ entries then some rule else s.rule e }
  else none

/-- The step is one of a path's, not of the shard alone. -/
def ofPath : ShardAction → Bool
  | .enqueue _ => true
  | .fsyncCapture _ _ => true
  | _ => false

/-- One path, or the shard, runs to its next await. -/
def step : RuleAction → Option RuledShard
  | .setNodeStatus status => some { s with nodeStatus := status }
  | .callAdmitted now =>
    (admissionRule (s.nodeStatus.effectiveNodeStatus now)).map fun rule =>
      { s with admitted := rule :: s.admitted }
  | .refuse rule => some { s with admitted := s.admitted.erase rule }
  | .clientAppend rule entries =>
    if rule ∈ s.admitted then
      { s with admitted := s.admitted.erase rule }.enqueue rule
        (syncDurableTarget s.nodeStatus.raw) entries
    else none
  | .peerBatch now entries =>
    if (s.nodeStatus.effectiveNodeStatus now).isFollower then
      s.enqueue .deferToLeaderConfirmed (syncDurableTarget s.nodeStatus.raw) entries
    else none
  | .catchupApply entries => s.enqueue .fullCommit .fullCommit entries
  | .capture target space =>
    if target ∈ s.callers then
      (s.shard.step (.fsyncCapture target space)).map fun shard =>
        { s with shard, callers := s.callers.erase target }
    else none
  | .answered target => some { s with callers := s.callers.erase target }
  | .shard a =>
    if ofPath a then none
    else (s.shard.step a).map fun shard =>
      -- a restart takes the calls with it
      { s with
        shard
        admitted := if a = .restart then [] else s.admitted
        callers := if a = .restart then [] else s.callers }

/-- A fresh shard of a node with some status. -/
def start (status : ValidatedNodeStatus) : RuledShard := ⟨.initial, status, [], [], fun _ => none⟩

/-- Every entry came by the path of the given rule. -/
def Ruled (rule : CommitTarget) (entries : List EntryId) : Prop :=
  ∀ e ∈ entries, s.rule e = some rule
  deriving Decidable

/-- **Commits follow provenance.** A cycle has captured entries of its own rule; what waits for a
replication ack is a client's, and above every read cursor; what is parked is a peer's. -/
structure FollowsProvenance : Prop where
  captured : ∀ target entries, s.shard.gate.fsync = some (target, entries) → s.Ruled target entries
  replication : ∀ p ∈ s.shard.waiting,
    s.Ruled .deferToReplicationAck p.pendingQueue ∧ s.shard.ReadBehind p
  parked : ∀ p ∈ s.shard.cache.parkedCommits, s.Ruled .deferToLeaderConfirmed p.pendingQueue

/-- No caller of another path waits for an fsync, and nothing of another path is queued. -/
def Alone (rule : CommitTarget) : Prop :=
  (∀ target ∈ s.callers, target = rule) ∧ s.Ruled rule s.shard.cache.pendingAppendQueue
  deriving Decidable

/-- **The condition on a step.** A path enqueues alone, a client call while the role is the one it
was admitted under; the shard's own steps are `ConfirmSafe`. -/
def OnePath : RuleAction → Prop
  | .clientAppend rule _ => s.Alone rule ∧ syncDurableTarget s.nodeStatus.raw = rule
  | .peerBatch _ _ => s.Alone .deferToLeaderConfirmed
  | .catchupApply _ => s.Alone .fullCommit
  | .shard a => s.shard.ConfirmSafe a
  | _ => True

instance : DecidableRel OnePath := fun s a => by
  cases a <;> dsimp only [OnePath] <;> infer_instance

/-- The invariant of runs under `OnePath`: callers and queue belong to one path. -/
structure Inv : Prop where
  alone : ∃ rule, s.Alone rule
  captured : ∀ target entries, s.shard.gate.fsync = some (target, entries) → s.Ruled target entries
  sorted : s.shard.Sorted s.Ruled
  confirm : s.shard.ConfirmInv

variable {s t : RuledShard}

theorem inv_start (status : ValidatedNodeStatus) : (start status).Inv :=
  ⟨⟨.fullCommit, nofun, nofun⟩, nofun, ⟨nofun, nofun⟩, Shard.confirmInv_initial⟩

theorem Inv.followsProvenance (inv : s.Inv) : s.FollowsProvenance :=
  ⟨inv.captured, fun p hp => ⟨inv.sorted.1 p hp, inv.confirm.behind p hp⟩, inv.sorted.2⟩

/-- **A path that enqueues alone, under its own target, keeps the invariant.** -/
theorem Inv.enqueue (inv : s.Inv) {rule entries} (alone : s.Alone rule)
    (h : s.enqueue rule rule entries = some t) : t.Inv := by
  unfold RuledShard.enqueue at h
  split at h
  next fresh =>
    obtain ⟨shard, hstep, rfl⟩ := Option.map_eq_some_iff.mp h
    -- what had a rule keeps it, for the entries are new
    have kept {rule' es} (ruled : s.Ruled rule' es) :
        ∀ e ∈ es, (if e ∈ entries then some rule else s.rule e) = some rule' := by
      intro e he
      have known := ruled e he
      rw [if_neg]
      · exact known
      · intro new
        rw [fresh e new] at known
        cases known
    have confirm := inv.confirm.step (Shard.confirmSafe_enqueue entries) hstep
    obtain rfl := Option.some.inj hstep
    refine ⟨⟨rule, ?_, ?_⟩, fun target es fsync => kept (inv.captured target es fsync),
      ⟨fun p hp => kept (inv.sorted.1 p hp), fun p hp => kept (inv.sorted.2 p hp)⟩, confirm⟩
    · exact forall_mem_append.mpr ⟨alone.1, forall_mem_singleton.mpr rfl⟩
    · exact forall_mem_append.mpr ⟨kept alone.2, fun e he => if_pos he⟩
  · cases h

/-- A step of the shard itself moves batches within the queue of their rule. -/
theorem Inv.shard (inv : s.Inv) {a : ShardAction} {shard : Shard}
    (hstep : s.shard.step a = some shard) (safe : s.shard.ConfirmSafe a) (own : ofPath a = false)
    (admitted : List CommitTarget) {callers} (fewer : callers ⊆ s.callers) :
    Inv { s with shard, admitted, callers } := by
  obtain ⟨rule, alone, queued⟩ := inv.alone
  have subset := Shard.queue_subset_step hstep (by rintro entries rfl; cases own)
  refine ⟨⟨rule, fun target h => alone target (fewer h), fun e he => queued e (subset he)⟩, ?_, ?_,
    inv.confirm.step safe hstep⟩
  · intro target entries fsync
    refine inv.captured target entries (Shard.fsync_step hstep ?_ fsync)
    rintro target space rfl
    cases own
  · refine inv.sorted.step hstep fun target entries g clone gate => inv.captured target entries ?_
    rw [gate]
    rfl

/-- A live follower status is the raw status. -/
theorem syncDurableTarget_of_isFollower {status : ValidatedNodeStatus} {now}
    (follower : (status.effectiveNodeStatus now).isFollower = true) :
    syncDurableTarget status.raw = .deferToLeaderConfirmed := by
  unfold ValidatedNodeStatus.effectiveNodeStatus at follower
  unfold ValidatedNodeStatus.raw
  cases raw : status.status with
  | follower _ => rfl
  | leader _ | promoting _ =>
    -- these decay to fenced
    rw [raw] at follower
    dsimp only at follower
    split at follower <;> cases follower
  | _ =>
    rw [raw] at follower
    cases follower

/-- **Every step under the condition keeps the invariant.** -/
theorem Inv.step {a : RuleAction} (inv : s.Inv) (onePath : s.OnePath a)
    (h : s.step a = some t) : t.Inv := by
  have ⟨⟨rule, callers, queued⟩, captured, sorted, confirm⟩ := inv
  cases a with
  | setNodeStatus | refuse =>
    cases h
    exact ⟨⟨rule, callers, queued⟩, captured, sorted, confirm⟩
  | callAdmitted now =>
    obtain ⟨_, -, rfl⟩ := Option.map_eq_some_iff.mp h
    exact ⟨⟨rule, callers, queued⟩, captured, sorted, confirm⟩
  | clientAppend own entries =>
    rw [RuledShard.step] at h
    split at h
    · obtain ⟨alone, same⟩ := onePath
      have inv' : Inv { s with admitted := s.admitted.erase own } :=
        ⟨⟨rule, callers, queued⟩, captured, sorted, confirm⟩
      rw [same] at h
      exact inv'.enqueue alone h
    · cases h
  | peerBatch now entries =>
    rw [RuledShard.step] at h
    split at h
    next follower =>
      rw [syncDurableTarget_of_isFollower follower] at h
      exact inv.enqueue onePath h
    · cases h
  | catchupApply entries => exact inv.enqueue onePath h
  | capture target space =>
    rw [RuledShard.step] at h
    split at h
    next waits =>
      obtain ⟨shard, hstep, rfl⟩ := Option.map_eq_some_iff.mp h
      obtain rfl := callers target waits
      have subset := Shard.queue_subset_step hstep nofun
      refine ⟨⟨target, fun r hr => callers r (erase_subset hr), fun e he => queued e (subset he)⟩,
        ?_, ?_, confirm.step (Shard.confirmSafe_fsyncCapture target space) hstep⟩
      · intro target' entries fsync
        obtain ⟨rfl, rfl⟩ := Prod.mk.inj (Shard.fsync_capture hstep fsync)
        exact queued
      · refine sorted.step hstep fun target' entries g clone gate => captured target' entries ?_
        rw [gate]
        rfl
    · cases h
  | answered target =>
    cases h
    exact ⟨⟨rule, fun r hr => callers r (erase_subset hr), queued⟩, captured, sorted, confirm⟩
  | shard a =>
    rw [RuledShard.step] at h
    split at h
    · cases h
    next own =>
      obtain ⟨shard, hstep, rfl⟩ := Option.map_eq_some_iff.mp h
      refine inv.shard hstep onePath (by simpa using own) _ ?_
      split
      · exact nil_subset _
      · exact fun _ => id

end RuledShard

/-! ## Whole runs -/

section Runs

/-- A leader of epoch 1. -/
def leadingStatus : ValidatedNodeStatus := ⟨.leader 1, 1000, 10, 0, true⟩

/-- The same node as a follower of epoch 2. -/
def followingStatus : ValidatedNodeStatus := ⟨.follower 2, 1000, 10, 0, false⟩

/-- The same node in catchup. -/
def catchingUpStatus : ValidatedNodeStatus := ⟨.followerCatchingUp 2, 1000, 10, 0, false⟩

end Runs

end Celeriant
