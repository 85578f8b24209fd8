import Celeriant.Shard.MetadataUpdates
import Mathlib.Data.List.TakeWhile

/-!
# Committed entries stay visible

A scan without the write-cursor option visits a segment up to its read cursor. The read cursor of a
segment that has been rotated out moves only in memory, when `commit_pcd` finds the segment in the
LRU, and no later fsync writes that segment's header again. So a batch that is committed after its
segment was sealed is visible until the segment's handle is evicted: the reload takes the cursor
from the header of the last fsync before the rotation (`evicted_segment_hides_committed`). A segment
that is not in the LRU at the commit is not updated at all, and a restart reads headers as well.

`VisibilityWatch` remembers, for every segment, up to which entry it has been committed, and up to
which at the last successful fsync, which is what a restart has to bring back. Truncations and culls
remove entries from both.

## Main results

* `committed_stays_visible`: in every state of every run whose steps meet the condition
* `evicted_segment_hides_committed`: without it, an eviction hides a committed entry
-/

namespace Celeriant

open Transition LogSegmentFileMetadata LogSegmentsCache

namespace LogSegmentsCache

variable (c : LogSegmentsCache)

/-- Where a scan of segment `g` under the default bound ends: `get` opens the segment if it is not
cached, and the bound is its read cursor. -/
def scanBound (g : ℕ) : Option ℕ := ((c.load g).metadata g).read

/-- A scan of segment `g` under the default bound visits entry `n`. -/
def InScan (g n : ℕ) : Prop := ∃ r ∈ c.scanBound g, n ≤ r
  deriving Decidable

variable {c}

/-- Opening a segment whose header has the read cursor hides nothing. -/
theorem readWalSeq_le_load {g} (h : (c.metadata g).readWalSeq ≤ (c.header g).readWalSeq)
    (k : ℕ) : (c.metadata k).readWalSeq ≤ ((c.load g).metadata k).readWalSeq := by
  unfold load
  split
  · exact le_rfl
  · by_cases hk : k = g
    · subst hk
      simpa [setFile, metadata] using h
    · simp [setFile, metadata, hk]

variable {p : PendingCommitData}

/-- `commit_pcd` on a cached segment. -/
theorem commitPcd_read (cached : c.IsCached p.logId) :
    ((c.commitPcd p).metadata p.logId).read = some p.tip := by
  simp only [commitPcd, if_pos cached, setMetadata_metadata_self]
  rfl

theorem isCached_commitPcd (p : PendingCommitData) (g : ℕ) :
    (c.commitPcd p).IsCached g ↔ c.IsCached g := by
  unfold commitPcd
  split
  · unfold IsCached setMetadata setFile
    dsimp only
    by_cases hg : g = p.logId <;> simp [hg]
  · exact Iff.rfl

/-- Committing ascending batches of cached segments takes each read cursor to the batches' tips. -/
theorem commitPcds_read_ge {ps}
    (ascending : ps.Pairwise fun p q => p.tip < q.tip) (cached : ∀ p ∈ ps, c.IsCached p.logId)
    (hp : p ∈ ps) :
    p.tip ≤ ((c.commitPcds ps).metadata p.logId).readWalSeq := by
  induction ps generalizing c with
  | nil => cases hp
  | cons q ps ih =>
    obtain ⟨below, rest⟩ := List.pairwise_cons.mp ascending
    have cached' : ∀ r ∈ ps, (c.commitPcd q).IsCached r.logId := fun r hr =>
      (isCached_commitPcd q r.logId).mpr (cached r (List.mem_cons_of_mem q hr))
    rcases List.mem_cons.mp hp with rfl | hp
    · -- a later batch of the same segment has a higher tip
      change p.tip ≤ (((c.commitPcd p).commitPcds ps).metadata p.logId).readWalSeq
      rcases commitPcds_metadata (c := c.commitPcd p) ps p.logId with eq | ⟨r, hr, -, eq⟩
      · rw [eq, readWalSeq, commitPcd_read (cached p List.mem_cons_self)]
        exact le_rfl
      · rw [eq]
        exact le_of_lt (below r hr)
    · exact ih rest cached' hp

end LogSegmentsCache

/-- Truncations and culls. -/
def ShardAction.removes : ShardAction → Bool
  | .truncateGate _ => true
  | .unwindOpened => true
  | .unwindClosed => true
  | .reconcileDurableTail mode => mode = .rewindToAckBarrier
  | .tailProvenance _ isPeer => !isPeer
  | .ackBarrierCursor _ => true
  | _ => false

/-! ## Watching commits -/

/-- A shard with the entries that have been committed in each segment, and those that had been
committed at the last successful fsync. -/
structure VisibilityWatch where
  shard : Shard
  committed : ℕ → ℕ
  persisted : ℕ → ℕ

namespace VisibilityWatch

def initial : VisibilityWatch := ⟨.initial, fun _ => 0, fun _ => 0⟩

variable (w : VisibilityWatch)

/-- What remains of the entries up to `bound g` of segment `g` after the action: truncations and
culls take the entries above the write cursor and the later segments. -/
def remaining (a : ShardAction) (t : Shard) (bound : ℕ → ℕ) (g : ℕ) : ℕ :=
  if t.segments.activeLogId < g then 0
  else if a.removes then min (bound g) (t.segments.metadata g).write
  else bound g

/-- The entries of segment `g` that the step to `t` commits: through `commit_pcd`, or because the
read cursor has come to them. -/
def commits (t : Shard) (g : ℕ) : ℕ :=
  if t.segments.activeLogId < g then 0
  else max (t.segments.metadata g).readWalSeq
    (maxTip ((w.shard.newlyCommitted t).filter fun p => p.logId = g))

/-- A restart goes back to what the last successful fsync found committed. -/
def afterStep (a : ShardAction) (t : Shard) (g : ℕ) : ℕ :=
  max (remaining a t (if a = .restart then w.persisted else w.committed) g) (w.commits t g)

def step (a : ShardAction) : Option VisibilityWatch :=
  (w.shard.step a).map fun t =>
    { shard := t
      committed := w.afterStep a t
      persisted := if a = .syncSucceeded then w.afterStep a t else remaining a t w.persisted }

end VisibilityWatch

/-! ## The condition -/

namespace Shard

/-- What is asked beyond the cursors' safety: a batch is committed while its segment is cached, a
sealed segment becomes active again with the read cursor its header holds, and a restart finds the
read cursors of the sealed segments in their headers. -/
def visibilitySafe (s : Shard) (a : ShardAction) : Prop :=
  (∀ t ∈ s.step a, ∀ p ∈ s.newlyCommitted t, s.segments.IsCached p.logId) ∧
    match a with
    | .unwindOpened => ∀ target ∈ s.gate.unwindTarget,
        (s.segments.metadata target.1).readWalSeq ≤ (s.segments.header target.1).readWalSeq
    | .restart => ∀ g < s.segments.activeLogId,
        (s.segments.metadata g).readWalSeq ≤ (s.segments.header g).readWalSeq
    | _ => True

/-- **The condition on a step.** -/
def VisibilitySafe (s : Shard) (a : ShardAction) : Prop :=
  s.CullSafe a ∧ s.cursorSafe a ∧ s.visibilitySafe a

instance : DecidableRel VisibilitySafe := fun s a => by
  induction a using ShardAction.casesOn <;> dsimp only [VisibilitySafe, visibilitySafe] <;>
    infer_instance

end Shard

def VisibilityWatch.Safe (w : VisibilityWatch) (a : ShardAction) : Prop := w.shard.VisibilitySafe a

instance : DecidableRel VisibilityWatch.Safe := fun w a =>
  inferInstanceAs (Decidable (w.shard.VisibilitySafe a))

/-! ## What a step does to read cursors -/

namespace Shard

variable {s t : Shard} {m : LogSegmentFileMetadata} {p : PendingCommitData} {bound : ℕ → ℕ}

theorem readWalSeq_le_of_kept {m'} (h : m.Kept m') :
    m.readWalSeq ≤ m'.readWalSeq := by
  unfold readWalSeq
  cases hr : m.read with
  | none => exact Nat.zero_le _
  | some r =>
    obtain ⟨r', hr', le⟩ := h.read r hr
    rw [Option.mem_def.mp hr']
    exact le

/-- The committed batches of a run of `commit_pcd` are at or below the read cursors afterwards. -/
def Shows (ps : List PendingCommitData) (c : LogSegmentsCache) : Prop :=
  ∀ p ∈ ps, p.tip ≤ (c.metadata p.logId).readWalSeq

variable {ps : List PendingCommitData} {a : ShardAction}

theorem shows_advanceActive (shows : Shows ps s.segments)
    (tips : ∀ p ∈ ps, p.tip ≤ (s.segments.metadata p.logId).write) :
    Shows ps s.advanceActive.segments := by
  intro p hp
  change p.tip ≤ ((s.segments.updateActive (·.advanceVisiblePosition)).metadata p.logId).readWalSeq
  rw [updateActive_metadata]
  split
  next active =>
    have := tips p hp
    rw [active] at this
    exact this
  next => exact shows p hp

/-- The parked batches are ascending and below the write cursors, and their segments are cached. -/
structure Committable (s : Shard) (ps : List PendingCommitData) : Prop where
  ascending : Ascending ps
  tips : ∀ p ∈ ps, p.tip ≤ (s.segments.metadata p.logId).write
  cached : ∀ p ∈ ps, s.segments.IsCached p.logId

theorem Committable.shows (h : s.Committable ps) :
    Shows ps (s.segments.commitPcds ps) :=
  fun _ hp => commitPcds_read_ge h.ascending h.cached hp

/-- The same when the read cursor of the active segment may then go to the write cursor. -/
theorem Committable.shows_advances (h : s.Committable ps) {segments}
    (moved : t.Advances segments) (before : t.segments = s.segments.commitPcds ps) :
    Shows ps segments := by
  rcases moved with rfl | ⟨-, rfl⟩
  · exact before ▸ h.shows
  · refine shows_advanceActive (s := t) (before ▸ h.shows) fun p hp => ?_
    rw [before, (commitPcds_sameTips _).write]
    exact h.tips p hp

theorem QueueInv.committable (h : s.QueueInv) (intact : s.ParkedIntact)
    (parked : ps.Sublist s.cache.parkedCommits)
    (cached : ∀ p ∈ ps, s.segments.IsCached p.logId) : s.Committable ps := by
  rcases intact with out | empty
  · exact ⟨(liveParked_of_not_window out ▸ h.parked).sublist parked,
      fun p hp => (h.cull.live p (.inr ⟨out, .inr (parked.subset hp)⟩)).tip_le, cached⟩
  · rw [empty, List.sublist_nil] at parked
    subst parked
    exact ⟨.nil, nofun, nofun⟩

/-- Step 3 of `truncate_wal` leaves what it keeps visible, and may make more of it visible. -/
theorem min_le_truncatedTo (m : LogSegmentFileMetadata) (n : ℕ) :
    min m.readWalSeq n ≤ (m.truncatedTo n).readWalSeq := by
  unfold truncatedTo readWalSeq
  cases m.read with
  | none => exact Nat.min_le_left _ _
  | some r => exact Nat.min_le_right _ _

theorem metadata_rewindActive (n g : ℕ) :
    (s.rewindActive n).segments.metadata g =
      if g = s.segments.activeLogId then s.segments.active.truncatedTo n
      else s.segments.metadata g :=
  updateActive_metadata s.segments (·.truncatedTo n) g

theorem shows_rewindActive {n} (shows : Shows ps s.segments)
    (below : ∀ p ∈ ps, p.tip ≤ n) : Shows ps (s.rewindActive n).segments := by
  intro p hp
  rw [metadata_rewindActive]
  split
  next active =>
    have shown := shows p hp
    rw [active] at shown
    exact le_trans (Nat.le_min.mpr ⟨shown, below p hp⟩) (min_le_truncatedTo _ n)
  next => exact shows p hp

theorem tip_le_of_parkedUpTo {n} (hp : p ∈ s.cache.parkedUpTo n) :
    p.tip ≤ n := by
  unfold ShardMemCache.parkedUpTo at hp
  simpa using List.mem_takeWhile_imp hp

/-- **Whatever a step commits is below the read cursors after it.** -/
theorem QueueInv.shows_step (h : s.QueueInv) (safe : s.CullSafe a)
    (hstep : s.step a = some t) (cached : ∀ p ∈ s.newlyCommitted t, s.segments.IsCached p.logId) :
    Shows (s.newlyCommitted t) t.segments := by
  obtain ⟨-, parked, -⟩ := safe
  have nothing : t.history.committed = s.history.committed →
      Shows (s.newlyCommitted t) t.segments := by
    intro same p hp
    rw [newlyCommitted_eq_nil same] at hp
    cases hp
  cases Step.of_step hstep with
  | replicationPublished ps repl =>
    have new : s.newlyCommitted (s.publish ps) = ps := newlyCommitted_eq _ rfl
    rw [new] at cached ⊢
    have ascending : ps.Pairwise fun p q => p.tip < q.tip := by
      refine List.Pairwise.sublist ?_ h.queue
      have held : s.repl.snapshot.Sublist s.liveQueue := snapshot_sublist_liveQueue
      rw [repl] at held
      exact held
    exact fun p hp => commitPcds_read_ge ascending cached hp
  | drained n _ _ moved =>
    rw [newlyCommitted_eq (s.cache.parkedUpTo (min n s.segments.active.write)) rfl] at cached ⊢
    exact (h.committable (parked rfl) (List.takeWhile_sublist _) cached).shows_advances moved rfl
  | commitParked =>
    have new : s.newlyCommitted s.commitParked = s.cache.parkedCommits := newlyCommitted_eq _ rfl
    rw [new] at cached ⊢
    exact (h.committable (parked rfl) (.refl _) cached).shows
  | reconcileCommit _ _ _ moved =>
    rw [newlyCommitted_eq s.cache.parkedCommits rfl] at cached ⊢
    exact (h.committable (parked rfl) (.refl _) cached).shows_advances moved rfl
  | tailCommit i mode read task promotion _ moved =>
    subst promotion
    have intact := parked (commitsParked_tail task)
    rw [newlyCommitted_eq s.cache.parkedCommits rfl] at cached ⊢
    exact (h.committable intact (.refl _) cached).shows_advances moved rfl
  | truncateInPlace i d =>
    rw [newlyCommitted_eq (s.cache.parkedUpTo (d - 1)) rfl] at cached ⊢
    exact shows_rewindActive
      (h.committable (parked rfl) (List.takeWhile_sublist _) cached).shows
      fun _ hp => tip_le_of_parkedUpTo hp
  | truncateUnwind i g d | truncateRefused i g d =>
    rw [newlyCommitted_eq (s.cache.parkedUpTo (d - 1)) rfl] at cached ⊢
    exact (h.committable (parked rfl) (List.takeWhile_sublist _) cached).shows
  | _ => exact nothing rfl

/-- An fsync that stores a current clone takes no read cursor back. -/
theorem UpdateInv.readWalSeq_commitSync (h : s.UpdateInv) {target} {entries g clone}
    (gate : s.gate = .writing target entries g clone) (current : s.CursorsCurrent) (k : ℕ) :
    (s.segments.metadata k).readWalSeq ≤
      ((s.commitSync target entries g clone).segments.metadata k).readWalSeq := by
  by_cases deferred : target = .fullCommit
  · subst deferred
    rw [metadata_commitSync]
    split
    next hk =>
      subst hk
      have bounded : (s.segments.metadata k).readWalSeq ≤ (s.segments.metadata k).write :=
        h.queue.cull.metadata k
      have same : (s.segments.metadata k).write = clone.write :=
        (current (k, clone) (by rw [gate]; rfl)).1
      change _ ≤ clone.write + entries.length
      omega
    next => exact le_rfl
  · unfold readWalSeq
    rw [read_commitSync gate current deferred]

/-- What is visible of a record stays visible, but for what an action removes above the write
cursor. -/
def Keeps (a : ShardAction) (m m' : LogSegmentFileMetadata) : Prop :=
  (a.removes = false → m.readWalSeq ≤ m'.readWalSeq) ∧ min m.readWalSeq m'.write ≤ m'.readWalSeq

theorem Keeps.of_le {m'} (le : m.readWalSeq ≤ m'.readWalSeq) :
    Keeps a m m' := ⟨fun _ => le, le_trans (Nat.min_le_left _ _) le⟩

/-- **No step but a restart hides what it does not remove.** -/
theorem UpdateInv.reads_step (h : s.UpdateInv) (safe : s.VisibilitySafe a)
    (hstep : s.step a = some t) (running : a ≠ .restart) {g}
    (old : g ≤ s.segments.activeLogId) (kept : g ≤ t.segments.activeLogId) :
    Keeps a (s.segments.metadata g) (t.segments.metadata g) := by
  obtain ⟨cull, cursors, -, visible⟩ := safe
  cases lower : a.mayLower with
  | false =>
    by_cases fsync : a = .syncSucceeded
    · subst fsync
      cases Step.of_step hstep with
      | syncSucceeded target entries k clone gate =>
        exact .of_le (h.readWalSeq_commitSync gate cursors.1 g)
    by_cases reload : ∃ k, a = .load k
    · obtain ⟨k, rfl⟩ := reload
      cases Step.of_step hstep with
      | load =>
        refine .of_le (le_of_eq ?_)
        unfold readWalSeq
        exact congrArg (Option.getD · 0) (load_read_eq _ cursors g).symm
    exact .of_le (readWalSeq_le_of_kept
      (h.kept cull hstep lower fsync (fun k hk => reload ⟨k, hk⟩) old))
  | true =>
    -- the read cursor of the active segment is all that these steps can take back
    have active_only (f : LogSegmentFileMetadata → LogSegmentFileMetadata)
        (segments : t.segments = s.segments.updateActive f)
        (keeps : Keeps a s.segments.active (f s.segments.active)) :
        Keeps a (s.segments.metadata g) (t.segments.metadata g) := by
      rw [segments, updateActive_metadata]
      split
      next active => exact active ▸ keeps
      next => exact .of_le le_rfl
    have committed : ∀ ps, t.history.committed = s.history.committed ++ ps →
        (s.segments.metadata g).readWalSeq ≤ ((s.segments.commitPcds ps).metadata g).readWalSeq :=
      fun _ eq => readWalSeq_le_of_kept (h.commits_kept cull hstep (newlyCommitted_eq _ eq) g)
    cases Step.of_step hstep with
    | clearPromotionFloor => exact active_only (·.clearFloor) rfl (.of_le le_rfl)
    | reconcileRewind read | tailCulled _ _ read =>
      exact active_only (CullTarget.rewind (.writeToRead read)) rfl (.of_le le_rfl)
    | ackBarrierCursor i barrier =>
      exact active_only (CullTarget.rewind (.bothToAckBarrier barrier)) rfl
        ⟨nofun, Nat.min_le_right _ _⟩
    | unwindClosed d =>
      exact active_only (·.truncatedTo (d - 1)) rfl ⟨nofun, min_le_truncatedTo _ _⟩
    | reconcileNothing | reconcileSuspend | tailKept => exact .of_le le_rfl
    | truncateInPlace i d idle task =>
      refine ⟨nofun, ?_⟩
      have grown := committed (s.cache.parkedUpTo (d - 1)) rfl
      rw [metadata_rewindActive]
      split
      next active =>
        subst active
        refine le_trans ?_ (min_le_truncatedTo _ (d - 1))
        exact Nat.le_min.mpr ⟨le_trans (Nat.min_le_left _ _) grown, Nat.min_le_right _ _⟩
      next => exact le_trans (Nat.min_le_left _ _) grown
    | truncateUnwind | truncateRefused => exact .of_le (committed _ rfl)
    | unwindOpened k d gate =>
      have stored := visible (k, d) (by rw [gate]; rfl)
      refine .of_le ?_
      change _ ≤ (((s.segments.load k).unwindActiveToSealed k).metadata g).readWalSeq
      rw [unwindActiveToSealed_metadata]
      exact readWalSeq_le_load stored g
    | restart => exact absurd rfl running
    | _ => cases lower

/-! ## What a step does to headers and copies -/

/-- Entries that are visible in memory, in the active header and in the copy the gate holder may be
about to write. -/
structure Stored (s : Shard) (bound : ℕ → ℕ) : Prop where
  beyond : ∀ g, s.segments.activeLogId < g → bound g = 0
  shown : ∀ g ≤ s.segments.activeLogId, bound g ≤ (s.segments.metadata g).readWalSeq
  header : bound s.segments.activeLogId ≤ (s.segments.header s.segments.activeLogId).readWalSeq
  clone : ∀ gm ∈ s.gate.cloneOf, bound gm.1 ≤ gm.2.readWalSeq

theorem readWalSeq_le_synced (bounded : m.ReadBounded)
    (target : CommitTarget) (n : ℕ) : m.readWalSeq ≤ (m.synced target n).readWalSeq := by
  cases target with
  | fullCommit => exact le_trans bounded (Nat.le_add_right _ _)
  | deferToReplicationAck | deferToLeaderConfirmed => exact le_rfl

/-- Commits and changes of the active record leave the headers alone. -/
theorem header_updateActive_commitPcds (stored : s.Stored bound) (ps : List PendingCommitData) {f}
    (segments : t.segments = s.segments.commitPcds ps ∨
      t.segments = (s.segments.commitPcds ps).updateActive f) :
    bound t.segments.activeLogId ≤ (t.segments.header t.segments.activeLogId).readWalSeq := by
  have tips := commitPcds_sameTips (c := s.segments) ps
  rcases segments with segments | segments <;> rw [segments]
  · rw [tips.activeLogId, tips.header]
    exact stored.header
  · rw [updateActive_activeLogId, updateActive_header, tips.activeLogId, tips.header]
    exact stored.header

/-- The active header after a step. -/
theorem CullInv.header_step (h : s.CullInv) (safe : s.visibilitySafe a)
    (hstep : s.step a = some t) (fsync : a ≠ .syncSucceeded) (stored : s.Stored bound) :
    bound t.segments.activeLogId ≤ (t.segments.header t.segments.activeLogId).readWalSeq := by
  have before := stored.header
  cases SegmentStep.of_step hstep with
  | kept _ segments | cloned _ _ _ segments =>
    rw [segments]
    exact before
  | rotated target entries source =>
    change bound (s.segments.activeLogId + 1) ≤ _
    rw [stored.beyond _ (Nat.lt_succ_self _)]
    exact Nat.zero_le _
  | synced => exact absurd rfl fsync
  | syncFailed landed target entries g clone gate =>
    cases landed with
    | false => exact before
    | true =>
      have fits := h.gate
      rw [gate] at fits
      obtain ⟨-, rfl, bounded⟩ := fits
      change bound s.segments.activeLogId ≤
        ((s.segments.setHeader s.segments.activeLogId _).header s.segments.activeLogId).readWalSeq
      rw [setHeader_header, if_pos rfl]
      exact le_trans (stored.clone (s.segments.activeLogId, clone) (by rw [gate]; rfl))
        (readWalSeq_le_synced bounded target entries.length)
  | headerWritten landed g clone gate =>
    cases landed with
    | false => exact before
    | true =>
      change bound s.segments.activeLogId ≤
        ((s.segments.setHeader g clone).header s.segments.activeLogId).readWalSeq
      rw [setHeader_header]
      split
      next active =>
        rw [active]
        exact stored.clone (g, clone) (by rw [gate]; rfl)
      next => exact before
  | touched _ f _ _ _ _ segments => exact header_updateActive_commitPcds stored [] (.inr segments)
  | committed _ ps _ segments =>
    exact header_updateActive_commitPcds stored ps (segments.imp_right (·.2))
  | culled _ target _ segments => exact header_updateActive_commitPcds stored [] (.inr segments)
  | truncated _ ps _ n _ segments => exact header_updateActive_commitPcds stored ps (.inr segments)
  | unwound k d gate =>
    have fits := h.gate
    rw [gate] at fits
    change bound k ≤ (((s.segments.load k).unwindActiveToSealed k).header k).readWalSeq
    rw [unwindActiveToSealed_header, load_header]
    exact le_trans (stored.shown k fits) (safe.2 (k, d) (by rw [gate]; rfl))
  | evicted k =>
    rw [evictFromLru_activeLogId, evictFromLru_header]
    exact before
  | loaded k =>
    rw [load_activeLogId, load_header]
    exact before
  | restarted => exact before

/-- The copy that the gate holder has after a step. -/
theorem clone_step (hstep : s.step a = some t)
    (stored : s.Stored bound) : ∀ gm ∈ t.gate.cloneOf, bound gm.1 ≤ gm.2.readWalSeq := by
  have before := stored.clone
  have taken : ∀ g m, t.gate.cloneOf = some (g, m) → bound g ≤ m.readWalSeq →
      ∀ gm ∈ t.gate.cloneOf, bound gm.1 ≤ gm.2.readWalSeq := by
    intro g m clone le gm hgm
    rw [clone] at hgm
    cases hgm
    exact le
  cases SegmentStep.of_step hstep with
  | kept _ _ clones | committed _ _ _ _ clones => exact fun gm hgm => before gm (clones gm hgm)
  | cloned _ g le _ clone => exact taken _ _ clone (stored.shown g le)
  | rotated target entries source =>
    refine taken _ _ rfl ?_
    rw [stored.beyond _ (Nat.lt_succ_self _)]
    exact Nat.zero_le _
  | touched _ _ _ _ _ _ _ gate | culled _ _ _ _ gate =>
    rw [gate]
    exact before
  | truncated _ _ _ _ _ _ free =>
    rw [free]
    rintro _ ⟨⟩
  | evicted | loaded => exact before
  | _ => rintro _ ⟨⟩

end Shard

/-! ## The invariant -/

namespace VisibilityWatch

/-- The invariant of runs under the condition. -/
structure Inv (w : VisibilityWatch) : Prop where
  update : w.shard.UpdateInv
  beyond : ∀ g, w.shard.segments.activeLogId < g → w.committed g = 0
  shown : ∀ g ≤ w.shard.segments.activeLogId,
    w.committed g ≤ (w.shard.segments.metadata g).readWalSeq
  behind : ∀ g, w.persisted g ≤ w.committed g
  header : w.persisted w.shard.segments.activeLogId ≤
    (w.shard.segments.header w.shard.segments.activeLogId).readWalSeq
  clone : ∀ gm ∈ w.shard.gate.cloneOf, w.persisted gm.1 ≤ gm.2.readWalSeq

theorem inv_initial : Inv initial where
  update := Shard.updateInv_initial
  beyond := fun _ _ => rfl
  shown := fun _ _ => Nat.zero_le _
  behind := fun _ => le_rfl
  header := Nat.zero_le _
  clone := nofun

variable {w : VisibilityWatch} {t : Shard} {a : ShardAction}

theorem Inv.persisted_stored (inv : Inv w) : w.shard.Stored w.persisted where
  beyond := fun g hg => Nat.le_zero.mp (inv.beyond g hg ▸ inv.behind g)
  shown := fun g hg => le_trans (inv.behind g) (inv.shown g hg)
  header := inv.header
  clone := inv.clone

theorem remaining_le (bound : ℕ → ℕ) (g : ℕ) : remaining a t bound g ≤ bound g := by
  unfold remaining
  split
  · exact Nat.zero_le _
  · split
    · exact Nat.min_le_left _ _
    · exact le_rfl

theorem remaining_mono {bound bound' g} (le : bound g ≤ bound' g) :
    remaining a t bound g ≤ remaining a t bound' g := by
  unfold remaining
  split
  · exact le_rfl
  · split
    · omega
    · exact le

/-- What remained of the committed entries is visible after the step. -/
theorem Inv.remaining_shown (inv : Inv w) (safe : w.Safe a) (hstep : w.shard.step a = some t)
    {g} (hg : g ≤ t.segments.activeLogId) :
    remaining a t (if a = .restart then w.persisted else w.committed) g ≤
      (t.segments.metadata g).readWalSeq := by
  by_cases restart : a = .restart
  · subst restart
    cases hstep
    refine le_trans (remaining_le _ g) ?_
    change w.persisted g ≤ (w.shard.segments.header g).readWalSeq
    rcases Nat.lt_or_eq_of_le hg with sealed | rfl
    · -- a sealed segment: its header has the read cursor by the condition
      exact le_trans (inv.behind g)
        (le_trans (inv.shown g hg) (safe.2.2.2 g sealed))
    · exact inv.header
  rw [if_neg restart]
  by_cases old : g ≤ w.shard.segments.activeLogId
  · obtain ⟨keeps, removes⟩ := inv.update.reads_step safe hstep restart old hg
    have shown := inv.shown g old
    unfold remaining
    rw [if_neg (Nat.not_lt.mpr hg)]
    split
    next => omega
    next kept => exact le_trans shown (keeps (by simpa using kept))
  · refine le_trans (remaining_le _ g) ?_
    rw [inv.beyond g (Nat.lt_of_not_le old)]
    exact Nat.zero_le _

/-- What the step commits is visible after it. -/
theorem Inv.commits_shown (inv : Inv w) (safe : w.Safe a) (hstep : w.shard.step a = some t)
    {g} (hg : g ≤ t.segments.activeLogId) :
    w.commits t g ≤ (t.segments.metadata g).readWalSeq := by
  have shows := inv.update.queue.shows_step safe.1 hstep (safe.2.2.1 _ hstep)
  unfold commits
  rw [if_neg (Nat.not_lt.mpr hg)]
  refine Nat.max_le.mpr ⟨le_rfl, maxTip_le fun p hp => ?_⟩
  obtain ⟨new, segment⟩ := List.mem_filter.mp hp
  obtain rfl : p.logId = g := by simpa using segment
  exact shows p new

theorem Inv.step (inv : Inv w) (safe : w.Safe a) {w'} (hstep : w.step a = some w') :
    Inv w' := by
  obtain ⟨t, ht, rfl⟩ := Option.map_eq_some_iff.mp hstep
  have shown : ∀ g ≤ t.segments.activeLogId,
      w.afterStep a t g ≤ (t.segments.metadata g).readWalSeq := fun g hg =>
    Nat.max_le.mpr ⟨inv.remaining_shown safe ht hg, inv.commits_shown safe ht hg⟩
  have stored := inv.persisted_stored
  refine ⟨inv.update.step_cursorSafe safe.1 safe.2.1 ht, fun g hg => ?_, shown, fun g => ?_, ?_, ?_⟩
  · simp only [afterStep, remaining, commits, if_pos hg, Nat.max_self]
  · dsimp only
    split
    · exact le_rfl
    · refine le_trans (remaining_mono ?_) (Nat.le_max_left _ _)
      split
      · exact le_rfl
      · exact inv.behind g
  · dsimp only
    split
    next fsync =>
      -- the header the fsync has written is the record it stores
      subst fsync
      refine le_trans (shown _ le_rfl) ?_
      cases Shard.Step.of_step ht with
      | syncSucceeded target entries g clone gate =>
        have fits := inv.update.queue.cull.gate
        rw [gate] at fits
        obtain ⟨-, rfl, -⟩ := fits
        simp [Shard.commitSync, setHeader_header]
    next fsync =>
      exact le_trans (remaining_le _ _)
        (inv.update.queue.cull.header_step safe.2.2 ht fsync stored)
  · dsimp only
    split
    next fsync =>
      subst fsync
      cases Shard.Step.of_step ht with
      | syncSucceeded => rintro gm ⟨⟩
    next fsync =>
      intro gm hgm
      exact le_trans (remaining_le _ _) (Shard.clone_step ht stored gm hgm)

end VisibilityWatch

/-! ## The result -/

/-- **Committed entries stay visible.** In every state of every run whose steps meet the condition,
a scan of a segment under the default bound, whose opening of the segment meets the condition too,
visits every entry of the segment that has been committed and that no truncation or cull has
removed. -/
theorem committed_stays_visible {w : VisibilityWatch}
    (h : Reaches VisibilityWatch.step VisibilityWatch.Safe .initial w) {g n : ℕ} (entry : 0 < n)
    (committed : n ≤ w.committed g) (opens : w.Safe (.load g)) :
    w.shard.segments.InScan g n := by
  have inv : w.Inv := Reaches.invariant (fun _ _ _ inv safe hstep => inv.step safe hstep) h
    VisibilityWatch.inv_initial
  have exists_segment : g ≤ w.shard.segments.activeLogId := by
    by_contra beyond
    rw [inv.beyond g (Nat.lt_of_not_le beyond)] at committed
    omega
  have shown := inv.shown g exists_segment
  have bound : w.shard.segments.scanBound g = (w.shard.segments.metadata g).read :=
    load_read_eq _ opens.2.1 g
  unfold InScan
  rw [bound]
  unfold readWalSeq at shown
  cases read : (w.shard.segments.metadata g).read with
  | none =>
    rw [read] at shown
    exact absurd (le_trans committed shown) (Nat.not_le_of_lt entry)
  | some r =>
    rw [read] at shown
    exact ⟨r, rfl, le_trans committed shown⟩

/-- A standalone shard rotates after a full commit, and the sealed segment is evicted. -/
def fullCommitThenEvict : List ShardAction :=
  [.enqueue [7], .fsyncCapture .fullCommit .fits, .syncSucceeded, .enqueue [8],
    .fsyncCapture .fullCommit .rotate, .sidecarWritten true, .rotated true, .syncSucceeded,
    .evictFromLru 1]

theorem committed_stays_visible_fullCommitThenEvict :
    ∃ w, exec VisibilityWatch.step VisibilityWatch.Safe .initial fullCommitThenEvict = some w ∧
      ¬ w.shard.segments.IsCached 1 ∧ w.shard.segments.InScan 1 1 :=
  ⟨_, rfl, by decide, committed_stays_visible (reaches_of_exec fullCommitThenEvict rfl) (by decide)
    (by decide) (by decide)⟩

/-- A leader fsyncs entry 1, rotates for entry 2, and then both are accepted. The sealed segment is
evicted. -/
def commitAfterRotation : List ShardAction :=
  [.enqueue [7], .fsyncCapture .deferToReplicationAck .fits, .syncSucceeded, .enqueue [8],
    .fsyncCapture .deferToReplicationAck .rotate, .rotated true, .syncSucceeded,
    .replicationCapture .write, .replicationPublished, .evictFromLru 1]

/-- Entry 1 was visible after its commit; once its segment is reloaded it is not. -/
theorem evicted_segment_hides_committed :
    ∃ w, exec VisibilityWatch.step Always .initial commitAfterRotation = some w ∧
      w.committed 1 = 1 ∧ (w.shard.segments.metadata 1).read = some 1 ∧
      ¬ w.shard.segments.InScan 1 1 :=
  ⟨_, rfl, by decide, by decide, by decide⟩

end Celeriant
