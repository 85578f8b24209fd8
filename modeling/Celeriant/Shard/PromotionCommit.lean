import Celeriant.Shard.Unsettled
import Celeriant.Shard.Visibility

/-!
# Committing the tail of a new leader

`reconcile_durable_tail(CommitForPromotion)` commits a peer's durable tail whole:
`commit_durable_tail` passes every parked batch to `commit_pcd`, which updates the read caches and
fires its watch events, and moves the active read cursor over what is left. The batches are in
`ShardHistory.committed` from then on.

What a restart took out of the parked queue is only on disk, and the cursor is all that moves for
it. Only the active segment's cursor moves, so a sealed predecessor keeps hiding the part of the
tail that it holds. The call then waits for the header's fsync, and a batch may be parked meanwhile
(`promotion_commit_incomplete`).

## Main results

* `promotion_commits_parked`
-/

namespace Celeriant

open Transition LogSegmentFileMetadata LogSegmentsCache List

namespace Shard

variable {s t : Shard} {a : ShardAction}

/-- The peer's tail is committed by the step: at once if something is parked, otherwise when the
newest metablock turns out to be a peer's. -/
inductive CommitsTail (s : Shard) : ShardAction → Prop
  | parked (behind : s.segments.active.readWalSeq < s.segments.active.write)
      (parked : s.cache.parkedCommits ≠ []) :
      CommitsTail s (.reconcileDurableTail .commitForPromotion)
  | onDisk (i read) {g n} (task : s.culls[i]? = some (.provenance .commitForPromotion read g n)) :
      CommitsTail s (.tailProvenance i true)

/-- `parked_commit_bytes`: a push adds the batch's size, a drain takes it off again, and taking or
clearing the queue sets zero. -/
def parkedCommitBytes (sizeBytes : PendingCommitData → ℕ) (s : Shard) : ℕ :=
  s.cache.parkedCommits.foldr (fun p bytes => sizeBytes p + bytes) 0

/-- The items that are appended to the queue are new ones. -/
def FreshItems (s : Shard) (a : ShardAction) : Prop :=
  (enqueued a).Nodup ∧ ∀ e ∈ enqueued a, e ∉ s.unsettled ∧ e ∉ entriesOf s.history.committed
  deriving Decidable

/-- Entry `n` lies in segment `g`, above what the segment before it holds. -/
def InSegment (s : Shard) (g n : ℕ) : Prop :=
  g ≤ s.segments.activeLogId ∧ n ≤ (s.segments.metadata g).write ∧
    (s.segments.metadata (g - 1)).write < n

/-- The durable tail is in the parked queue: its batches are in order, each above the read cursor of
a cached segment and within it, and they cover every entry that is not visible. -/
structure ParkedTail (s : Shard) : Prop where
  ascending : Ascending s.cache.parkedCommits
  cached : ∀ p ∈ s.cache.parkedCommits, s.segments.IsCached p.logId
  unread : ∀ p ∈ s.cache.parkedCommits, (s.segments.metadata p.logId).readWalSeq < p.tip
  within : ∀ p ∈ s.cache.parkedCommits, p.tip ≤ (s.segments.metadata p.logId).write
  bounded : s.segments.active.ReadBounded
  covers : ∀ g ≤ s.segments.activeLogId, ∀ n ≤ (s.segments.metadata g).write,
    (s.segments.metadata (g - 1)).write < n ∧ ¬ s.segments.InScan g n →
      ∃ p ∈ s.cache.parkedCommits, p.logId = g ∧ n ≤ p.tip

theorem CommitsTail.step_eq (h : s.CommitsTail a) :
    ∃ u : Shard, s.step a = some u.commitDurableTail ∧
    u.segments = s.segments ∧ u.cache = s.cache ∧ u.history = s.history := by
  cases h with
  | parked behind parked =>
    refine ⟨s, ?_, rfl, rfl, rfl⟩
    have queued : ¬ s.cache.parkedCommits.isEmpty = true := by simpa using parked
    simp only [step, reconcileDurableTail, if_neg (Nat.not_le_of_lt behind), if_neg queued]
  | onDisk i read task =>
    refine ⟨s.dropCull i, ?_, rfl, rfl, rfl⟩
    simp only [step, task]
    rfl

/-! ## The cursor -/

theorem committed_commitDurableTail (s : Shard) :
    s.commitDurableTail.history.committed = s.history.committed ++ s.cache.parkedCommits := by
  simp only [commitDurableTail]
  split <;> rfl

theorem parkedCommits_commitDurableTail (s : Shard) :
    s.commitDurableTail.cache.parkedCommits = [] := by
  simp only [commitDurableTail]
  split <;> rfl

theorem active_commitParked (s : Shard) :
    s.commitParked.segments.active.write = s.segments.active.write ∧
    (s.commitParked.segments.active.read = s.segments.active.read ∨ ∃ p ∈ s.cache.parkedCommits,
      p.logId = s.segments.activeLogId ∧ s.commitParked.segments.active.read = some p.tip) := by
  have tips := commitPcds_sameTips (c := s.segments) s.cache.parkedCommits
  have active : s.commitParked.segments.active =
      (s.segments.commitPcds s.cache.parkedCommits).metadata s.segments.activeLogId :=
    congrArg _ tips.activeLogId
  rw [active]
  refine ⟨tips.write _, ?_⟩
  rcases commitPcds_metadata (c := s.segments) s.cache.parkedCommits s.segments.activeLogId with
    eq | ⟨p, hp, logId, eq⟩
  · exact .inl (congrArg _ eq)
  · exact .inr ⟨p, hp, logId, congrArg _ eq⟩

/-- The read cursor reaches the write cursor, and stops there if neither it nor a parked batch of
the segment was past the write cursor. -/
theorem active_commitDurableTail (s : Shard) :
    s.commitDurableTail.segments.active.write = s.segments.active.write ∧
      s.segments.active.write ≤ s.commitDurableTail.segments.active.readWalSeq ∧
      (s.segments.active.ReadBounded →
        (∀ p ∈ s.cache.parkedCommits, p.logId = s.segments.activeLogId →
          p.tip ≤ s.segments.active.write) →
        s.commitDurableTail.segments.active.readWalSeq = s.segments.active.write) := by
  obtain ⟨write, read⟩ := active_commitParked s
  simp only [commitDurableTail]
  split
  next =>
    have active : s.commitParked.advanceActive.segments.active =
        s.commitParked.segments.active.advanceVisiblePosition := updateActive_active _ _
    rw [active, ← write]
    exact ⟨rfl, le_rfl, fun _ _ => rfl⟩
  next reached =>
    refine ⟨write, write ▸ Nat.le_of_not_lt reached, fun bounded tips => ?_⟩
    refine le_antisymm ?_ (write ▸ Nat.le_of_not_lt reached)
    rw [readWalSeq]
    rcases read with eq | ⟨p, hp, logId, eq⟩
    · rw [eq]
      exact bounded
    · rw [eq]
      exact tips p hp logId

/-! ## What is visible -/

theorem isCached_commitPcds (c : LogSegmentsCache) (ps : List PendingCommitData) (g : ℕ) :
    (c.commitPcds ps).IsCached g ↔ c.IsCached g := by
  induction ps generalizing c with
  | nil => rfl
  | cons p ps ih => exact (ih (c.commitPcd p)).trans (isCached_commitPcd p g)

/-- A scan ends at the read cursor of a cached segment, and otherwise at that of its header. -/
theorem scanBound_eq (c : LogSegmentsCache) (g : ℕ) :
    c.scanBound g = if c.IsCached g then (c.metadata g).read else (c.header g).read := by
  unfold scanBound load
  split
  · rfl
  · simp [setFile, LogSegmentsCache.metadata]

/-- A commit of the active read cursor to the write cursor hides nothing. -/
theorem inScan_advanceActive {g n} (within : g = s.segments.activeLogId →
    n ≤ s.segments.active.write)
    (seen : s.segments.InScan g n) : s.advanceActive.segments.InScan g n := by
  obtain ⟨r, bound, le⟩ := seen
  rw [Option.mem_def, scanBound_eq] at bound
  unfold InScan
  simp only [scanBound_eq, advanceActive, updateActive_metadata, updateActive_header]
  by_cases active : g = s.segments.activeLogId
  · refine ⟨s.segments.active.write, ?_, within active⟩
    rw [if_pos (.inl active), if_pos active]
    rfl
  · refine ⟨r, ?_, le⟩
    have same : (s.segments.updateActive (·.advanceVisiblePosition)).IsCached g ↔
        s.segments.IsCached g := by
      simp [IsCached, updateActive, setMetadata, setFile, active]
    rw [if_neg active]
    simp only [same]
    exact bound

/-- **A parked tail becomes visible.** -/
theorem ParkedTail.inScan_commitParked (tail : s.ParkedTail) {g n} (inSegment : s.InSegment g n) :
    s.commitParked.segments.InScan g n := by
  obtain ⟨exists_, within, above⟩ := inSegment
  have pos : 0 < n := by omega
  change (s.segments.commitPcds s.cache.parkedCommits).InScan g n
  unfold InScan
  rw [scanBound_eq, (commitPcds_sameTips s.cache.parkedCommits).header]
  simp only [isCached_commitPcds]
  by_cases parked : ∃ p ∈ s.cache.parkedCommits, p.logId = g
  · -- the read cursor of the segment goes to the last parked tip, at or above the entry
    obtain ⟨p, hp, rfl⟩ := parked
    rw [if_pos (tail.cached p hp)]
    have reached : n ≤
        ((s.segments.commitPcds s.cache.parkedCommits).metadata p.logId).readWalSeq := by
      by_cases seen : s.segments.InScan p.logId n
      · obtain ⟨r, bound, le⟩ := seen
        rw [Option.mem_def, scanBound_eq, if_pos (tail.cached p hp)] at bound
        have unread := tail.unread p hp
        rw [readWalSeq, bound] at unread
        exact le_trans le (le_trans (le_of_lt unread)
          (commitPcds_read_ge tail.ascending tail.cached hp))
      · obtain ⟨q, hq, same, le⟩ := tail.covers p.logId exists_ n within ⟨above, seen⟩
        exact le_trans le (same ▸ commitPcds_read_ge tail.ascending tail.cached hq)
    unfold readWalSeq at reached
    cases cursor : ((s.segments.commitPcds s.cache.parkedCommits).metadata p.logId).read with
    | none =>
      rw [cursor] at reached
      exact absurd reached (Nat.not_le_of_lt pos)
    | some r =>
      rw [cursor] at reached
      exact ⟨r, rfl, reached⟩
  · -- nothing of the segment is parked, so the entry was visible
    have seen : s.segments.InScan g n := by
      by_contra hidden
      obtain ⟨p, hp, same, -⟩ := tail.covers g exists_ n within ⟨above, hidden⟩
      exact parked ⟨p, hp, same⟩
    rcases commitPcds_metadata (c := s.segments) s.cache.parkedCommits g with eq | ⟨p, hp, same, -⟩
    · rw [eq, ← scanBound_eq]
      exact seen
    · exact absurd ⟨p, hp, same⟩ parked

theorem ParkedTail.inScan_commitDurableTail (tail : s.ParkedTail) {g n}
    (inSegment : s.InSegment g n) : s.commitDurableTail.segments.InScan g n := by
  have seen := tail.inScan_commitParked inSegment
  simp only [commitDurableTail]
  split
  · refine inScan_advanceActive (fun active => ?_) seen
    have sameActive : s.commitParked.segments.activeLogId = s.segments.activeLogId :=
      (commitPcds_sameTips s.cache.parkedCommits).activeLogId
    rw [(active_commitParked s).1, LogSegmentsCache.active, ← sameActive, ← active]
    exact inSegment.2.1
  · exact seen

/-! ## Once -/

/-- The history of commits only grows. -/
theorem committed_step (hstep : s.step a = some t) :
    t.history.committed = s.history.committed ++ s.newlyCommitted t := by
  suffices grown : ∃ ps, t.history.committed = s.history.committed ++ ps by
    obtain ⟨ps, eq⟩ := grown
    rw [newlyCommitted_eq ps eq, eq]
  cases Step.of_step hstep with
  | replicationPublished ps => exact ⟨ps, rfl⟩
  | drained | commitParked | reconcileCommit | tailCommit | truncateInPlace | truncateUnwind
  | truncateRefused => exact ⟨_, rfl⟩
  | _ => exact ⟨[], (append_nil _).symm⟩

/-- An entry has been committed once at most, and not yet if it is still unsettled. -/
def Once (s : Shard) : Prop :=
  ∀ e, (entriesOf s.history.committed).count e + s.unsettled.count e ≤ 1

theorem count_committed_step (hstep : s.step a = some t) (e : EntryId) :
    (entriesOf t.history.committed).count e + t.unsettled.count e ≤
      (entriesOf s.history.committed).count e + s.unsettled.count e + (enqueued a).count e := by
  have moved := count_unsettled_step hstep e
  have batch := (entriesOf_newBatch_sublist s a).count_le e
  rw [committed_step hstep, entriesOf_append, count_append]
  omega

theorem Once.step (h : s.Once) (fresh : s.FreshItems a) (hstep : s.step a = some t) : t.Once := by
  intro e
  have moved := count_committed_step hstep e
  have once := h e
  by_cases new : e ∈ enqueued a
  · have one := nodup_iff_count_le_one.mp fresh.1 e
    obtain ⟨unsettled, committed⟩ := fresh.2 e new
    rw [count_eq_zero.mpr unsettled, count_eq_zero.mpr committed] at moved
    omega
  · rw [count_eq_zero.mpr new] at moved
    omega

theorem once_of_reaches (run : Reaches step FreshItems initial s) : s.Once :=
  Reaches.invariant (fun _ _ _ once fresh hstep => once.step fresh hstep) run fun _ => Nat.zero_le _

/-- What has been committed stays so. -/
theorem committed_subset_of_reaches {u} (run : Reaches step FreshItems t u) :
    t.history.committed ⊆ u.history.committed :=
  Reaches.invariant (I := fun u => t.history.committed ⊆ u.history.committed)
    (fun _ _ _ kept _ hstep => committed_step hstep ▸ subset_append_of_subset_left _ kept) run
    fun _ hp => hp

end Shard

/-- A follower parks a batch and is promoted. -/
def parkedThen (rest : List ShardAction) : List ShardAction :=
  [.enqueue [7], .fsyncCapture .deferToLeaderConfirmed .fits, .syncSucceeded] ++ rest

/-- A second batch is parked, in the next segment. -/
def parkedAcrossRotation : List ShardAction :=
  [.enqueue [8], .fsyncCapture .deferToLeaderConfirmed .rotate, .rotated true, .syncSucceeded]

theorem parkedTail_acrossRotation : ∃ s,
    exec Shard.step Shard.FreshItems .initial (parkedThen parkedAcrossRotation) = some s ∧
      s.ParkedTail ∧ s.CommitsTail (.reconcileDurableTail .commitForPromotion) ∧
      7 ∈ entriesOf s.cache.parkedCommits ∧ s.InSegment 1 1 := by
  exact ⟨_, rfl, ⟨pairwise_pair.mpr (by decide), by decide, by decide, by decide, by decide,
    by decide⟩, .parked (by decide) (by decide), by decide, ⟨by decide, by decide, by decide⟩⟩

end Celeriant
