import Celeriant.Shard.TailAuthors

/-!
# What a demotion leaves behind

A node that stops leading calls `reconcile_durable_tail` so that none of its own entries above the
ack barrier stays below the write cursor: the peer authors other entries at the same `wal_seq`s, and
an own entry that stays makes the node skip them. The call may return at once, after the read of the
newest metablock, or after a cull whose chain-tip rebuild and header fsync it awaits.
`DemotionWatch` counts the calls that have decided about the tail and not returned yet.

The call exits early where there is no read cursor, which is the state of every segment that has
just been rotated in, and then own entries stay (`demotion_without_read_cursor_keeps_own`). It also
never looks below the read cursor while there is a tail above it, it needs an ack barrier other than
0, and its rewind to the barrier moves the cursor of the active segment only. `DemotionSafe` asks
that none of this matters when the decision is made, and that nothing own is fsynced before the call
returns.

## Main results

* `LoggedShard.ownAcked_of_decision`: where the tail is decided about
* `LoggedShard.OwnAcked.step`: until the call returns
* `demotion_leaves_acked`: when a demotion or boot reconciliation returns
-/

namespace Celeriant

open Transition LogSegmentFileMetadata LogSegmentsCache Option

/-- `reconcile_durable_tail` has to read the disk before it can decide. -/
def Shard.suspends (s : Shard) : TailReconciliation → Bool
  | .rewindToAckBarrier =>
    match s.segments.active.read with
    | none => false
    | some cursor =>
      ¬ cursor < s.segments.active.write ∧ s.ackBarrierRewindArmed = true ∧
        0 < s.segments.active.lastSelfAckedWalSeq ∧
        max s.segments.active.lastSelfAckedWalSeq
          s.segments.active.lastReceivedReplicationWalSeq < cursor
  | _ =>
    ¬ s.segments.active.write ≤ s.segments.active.readWalSeq ∧ s.cache.parkedCommits.isEmpty = true

/-- The action decides what a reconciliation in a demotion or boot mode does with the tail. -/
def Shard.decidesTail (s : Shard) : ShardAction → Bool
  | .reconcileDurableTail .commitForPromotion => false
  | .reconcileDurableTail mode => !s.suspends mode
  | .tailProvenance i _ =>
    match s.culls[i]? with
    | some (.provenance .reconcileAsFollower _ _ _) => true
    | _ => false
  | .ackBarrierCursor _ => true
  | _ => false

namespace LoggedShard

section Condition

variable (own : EntryId → Bool) (w : LoggedShard)

/-- No own entry above the ack barrier is on the chain. -/
def OwnAcked : Prop :=
  ∀ r ∈ w.log, w.InChain r → own r.entry = true →
    r.walSeq ≤ w.shard.segments.active.lastSelfAckedWalSeq
  deriving Decidable

/-- Own entries in sealed segments, and those up to `n`, are acknowledged. -/
def AckedUpTo (n : ℕ) : Prop :=
  ∀ r ∈ w.log, w.InChain r → own r.entry = true →
    r.logId < w.shard.segments.activeLogId ∨ r.walSeq ≤ n →
      r.walSeq ≤ w.shard.segments.active.lastSelfAckedWalSeq

/-- What is asked where the tail is decided about. A demotion finds a read cursor; the own entries
up to it, and those in sealed segments, are acknowledged; a tail that is kept has one author and the
newest metablock, as it is now, is the peer's; a tail that is culled is culled to the read cursor as
it is now. -/
def decisionSafe : ShardAction → Prop
  | .reconcileDurableTail .rewindToAckBarrier =>
    w.shard.suspends .rewindToAckBarrier = true ∨
      w.shard.segments.active.read ≠ none ∧ w.AckedUpTo own w.shard.segments.active.readWalSeq
  | .reconcileDurableTail .reconcileAsFollower =>
    w.shard.suspends .reconcileAsFollower = true ∨
      w.AckedUpTo own w.shard.segments.active.readWalSeq ∧
        OneAuthor own w.log w.shard.segments.activeLogId w.shard.segments.active.readWalSeq
          w.shard.segments.active.write ∧
        (w.shard.segments.active.readWalSeq < w.shard.segments.active.write →
          w.tailIsPeer own = true)
  | .tailProvenance i isPeer =>
    w.shard.decidesTail (.tailProvenance i isPeer) = true →
      (∀ task ∈ w.shard.culls[i]?, task.read = w.shard.segments.active.read) ∧
        (isPeer = true → w.tailIsPeer own = true) ∧
        (isPeer = false → w.shard.segments.active.read ≠ none ∧
          w.shard.segments.active.readWalSeq ≤ w.shard.segments.active.write) ∧
        w.AckedUpTo own w.shard.segments.active.readWalSeq ∧
        OneAuthor own w.log w.shard.segments.activeLogId w.shard.segments.active.readWalSeq
          w.shard.segments.active.write
  | .ackBarrierCursor i =>
    ∀ target ∈ w.shard.cullOf (.ackBarrierCursor i),
      target.walSeq ≤ w.shard.segments.active.write ∧ w.AckedUpTo own target.walSeq
  | _ => True

instance (a : ShardAction) : Decidable (w.decisionSafe own a) := by
  induction a using ShardAction.casesOn with
  | reconcileDurableTail mode =>
    induction mode using TailReconciliation.casesOn <;>
      dsimp only [decisionSafe, AckedUpTo] <;> infer_instance
  | _ => dsimp only [decisionSafe, AckedUpTo]; infer_instance

/-- What is asked until the call returns: no own entry is written below a write cursor, a record
that is installed is not older than the rewind, no header with a higher write cursor is loaded, no
rewind moves the write cursor up, and no sealed segment is reopened. -/
def windowSafe : ShardAction → Prop
  | .syncSucceeded =>
    ∀ c ∈ w.shard.gate.cloneOf, (∀ r ∈ w.batchRecords, own r.entry = false) ∧
      c.2.write ≤ (w.shard.segments.metadata c.1).write ∧
      w.shard.segments.active.lastSelfAckedWalSeq ≤ c.2.lastSelfAckedWalSeq
  | .syncFailed _ =>
    ∀ c ∈ w.shard.gate.cloneOf, (∀ r ∈ w.batchRecords, own r.entry = false) ∨
      (w.shard.segments.metadata c.1).write ≤ c.2.write
  | .rotated true =>
    ∀ source ∈ w.shard.gate.sourceOf,
      w.shard.segments.active.lastSelfAckedWalSeq ≤ source.lastSelfAckedWalSeq
  | .load g => (w.shard.segments.header g).write ≤ (w.shard.segments.metadata g).write
  | .unwindOpened => False
  | .restart => True
  | a => ∀ t ∈ w.shard.step a, t.segments.active.write ≤ w.shard.segments.active.write

instance (a : ShardAction) : Decidable (w.windowSafe own a) := by
  induction a using ShardAction.casesOn with
  | rotated ok => induction ok using Bool.casesOn <;> dsimp only [windowSafe] <;> infer_instance
  | _ => dsimp only [windowSafe]; infer_instance

end Condition

variable {own : EntryId → Bool} {w w' : LoggedShard} {a : LoggedAction}

/-! ## Until the call returns -/

/-- A step that writes no metablock, keeps the write cursors down and the ack barrier up. -/
theorem OwnAcked.of_writes (h : w.OwnAcked own) (log : w'.log = w.log)
    (activeLogId : w'.shard.segments.activeLogId = w.shard.segments.activeLogId)
    (writes : ∀ g, (w'.shard.segments.metadata g).write ≤ (w.shard.segments.metadata g).write)
    (acked : w.shard.segments.active.lastSelfAckedWalSeq ≤
      w'.shard.segments.active.lastSelfAckedWalSeq) : w'.OwnAcked own := by
  intro r hr chain isOwn
  rw [log] at hr
  have before : w.InChain r := ⟨activeLogId ▸ chain.1, le_trans chain.2 (writes r.logId)⟩
  exact le_trans (h r hr before isOwn) acked

/-- An update of the active record that keeps its write cursor down and its ack barrier up. -/
theorem OwnAcked.updateActive (h : w.OwnAcked own) (log : w'.log = w.log) {f c}
    (tips : SameTips w.shard.segments c) (segments : w'.shard.segments = c.updateActive f)
    (write : (f c.active).write ≤ w.shard.segments.active.write)
    (acked : w.shard.segments.active.lastSelfAckedWalSeq ≤ (f c.active).lastSelfAckedWalSeq) :
    w'.OwnAcked own := by
  refine h.of_writes log ?_ (fun g => ?_) ?_
  · rw [segments]
    exact tips.activeLogId
  · rw [segments, updateActive_metadata]
    split
    next same =>
      rw [same, tips.activeLogId]
      exact write
    next => rw [tips.write]
  · rw [segments, updateActive_active]
    exact acked

theorem lastSelfAcked_commitPcds (c : LogSegmentsCache) (ps : List PendingCommitData) (g : ℕ) :
    ((c.commitPcds ps).metadata g).lastSelfAckedWalSeq = (c.metadata g).lastSelfAckedWalSeq := by
  rcases commitPcds_metadata (c := c) ps g with eq | ⟨p, -, -, eq⟩ <;> rw [eq]

theorem lastSelfAcked_commitPcds_active (c : LogSegmentsCache) (ps : List PendingCommitData) :
    (c.commitPcds ps).active.lastSelfAckedWalSeq = c.active.lastSelfAckedWalSeq := by
  have tips := commitPcds_sameTips (c := c) ps
  rw [LogSegmentsCache.active, tips.activeLogId]
  exact lastSelfAcked_commitPcds c ps _

variable {target : CommitTarget} {entries : List EntryId} {clone : LogSegmentFileMetadata}
  {landed : List ℕ}

theorem OwnAcked.synced (h : w.OwnAcked own)
    {g} (gate : w.shard.gate = .writing target entries g clone)
    (safe : w.windowSafe own .syncSucceeded) :
    OwnAcked own ⟨w.shard.commitSync target entries g clone,
      overwrite w.log (stamped g clone.write entries)⟩ := by
  obtain ⟨batch, write, acked⟩ := safe (g, clone) (by rw [gate]; rfl)
  rw [batchRecords_writing gate] at batch
  have barrier : w.shard.segments.active.lastSelfAckedWalSeq ≤
      (w.shard.commitSync target entries g clone).segments.active.lastSelfAckedWalSeq := by
    by_cases active : w.shard.segments.activeLogId = g
    · simpa [Shard.commitSync, LogSegmentsCache.active, setMetadata_metadata,
        active] using acked
    · simp [Shard.commitSync, LogSegmentsCache.active, setMetadata_metadata, active]
  intro r hr chain isOwn
  obtain ⟨logId, below⟩ := chain
  -- an own metablock is an old one, below the cursor the sync started from
  have old : r ∈ w.log ∧ w.InChain r := by
    simp only [Shard.commitSync, setMetadata_metadata,
      setHeader_metadata] at below
    split at below
    next same =>
      rw [synced_write] at below
      rcases mem_overwrite_stamped hr same below with ⟨mem, low⟩ | new
      · exact ⟨mem, logId, le_trans low (same ▸ write)⟩
      · rw [batch r new] at isOwn
        cases isOwn
    next other =>
      rcases mem_overwrite hr with mem | new
      · exact ⟨mem, logId, below⟩
      · exact absurd (mem_stamped new).1 other
  exact le_trans (h r old.1 old.2 isOwn) barrier

theorem OwnAcked.syncFailed (h : w.OwnAcked own) (landed : Bool) (kept : List ℕ) {g}
    (gate : w.shard.gate = .writing target entries g clone)
    (safe : w.windowSafe own (.syncFailed landed)) :
    OwnAcked own ⟨w.shard.rollbackSync landed target entries g clone,
      overwrite w.log ((stamped g clone.write entries).filter fun r => r.walSeq ∈ kept)⟩ := by
  have fits := safe (g, clone) (by rw [gate]; rfl)
  rw [batchRecords_writing gate] at fits
  have metadata : ∀ k, (w.shard.rollbackSync landed target entries g clone).segments.metadata k =
      w.shard.segments.metadata k := by
    intro k
    cases landed with
    | false => rfl
    | true => simp [Shard.rollbackSync]
  have activeLogId : (w.shard.rollbackSync landed target entries g clone).segments.activeLogId =
      w.shard.segments.activeLogId := by
    cases landed <;> rfl
  intro r hr chain isOwn
  have chain : w.InChain r := ⟨activeLogId ▸ chain.1, metadata r.logId ▸ chain.2⟩
  show r.walSeq ≤ ((w.shard.rollbackSync landed target entries g clone).segments.metadata
    (w.shard.rollbackSync landed target entries g clone).segments.activeLogId).lastSelfAckedWalSeq
  rw [metadata, activeLogId]
  rcases mem_overwrite hr with old | new
  · exact h r old chain isOwn
  · -- what the failed sync left lies above the write cursor, or is not own
    obtain ⟨stamp, -⟩ := List.mem_filter.mp new
    obtain ⟨logId, above, -⟩ := mem_stamped stamp
    rcases fits with notOwn | higher
    · rw [notOwn r stamp] at isOwn
      cases isOwn
    · have below := chain.2
      rw [logId] at below
      exact absurd (lt_of_lt_of_le above below) (Nat.not_lt_of_le higher)

theorem OwnAcked.step (h : w.OwnAcked own) (safe : w.windowSafe own a.action)
    (notRestart : a.action ≠ .restart) (hstep : w.step own a = some w') : w'.OwnAcked own := by
  obtain ⟨shardStep, log⟩ := step_shard hstep
  obtain ⟨t, log'⟩ := w'
  subst log
  obtain ⟨action, landed⟩ := a
  dsimp only at shardStep safe notRestart
  cases Shard.SegmentStep.of_step shardStep with
  | kept quiet segments | cloned quiet _ _ segments =>
    refine h.of_writes (logAfter_of_not_writesLog quiet) ?_ ?_ ?_ <;> simp [segments]
  | rotated target entries source gate =>
    have acked := safe source (by rw [gate]; rfl)
    intro r hr chain isOwn
    obtain ⟨mem, other⟩ := List.mem_filter.mp hr
    have other : r.logId ≠ w.shard.segments.activeLogId + 1 := of_decide_eq_true other
    obtain ⟨logId, below⟩ := chain
    simp only [Shard.finishRotation, rotateToNextLog_metadata, if_neg other] at below
    have logId : r.logId ≤ w.shard.segments.activeLogId + 1 := logId
    refine le_trans (h r mem ⟨by omega, below⟩ isOwn) ?_
    show _ ≤ ((w.shard.segments.rotateToNextLog source).metadata
      (w.shard.segments.activeLogId + 1)).lastSelfAckedWalSeq
    rw [rotateToNextLog_metadata, if_pos rfl]
    exact acked
  | synced target entries g clone gate =>
    have log : w.logAfter ⟨.syncSucceeded, landed⟩ =
        overwrite w.log (stamped g clone.write entries) := by
      rw [logAfter, batchRecords_writing gate]
    rw [log]
    exact h.synced gate safe
  | syncFailed headerLanded target entries g clone gate =>
    have log : w.logAfter ⟨.syncFailed headerLanded, landed⟩ =
        overwrite w.log ((stamped g clone.write entries).filter fun r => r.walSeq ∈ landed) := by
      rw [logAfter, batchRecords_writing gate]
    rw [log]
    exact h.syncFailed headerLanded landed gate safe
  | headerWritten headerLanded g clone gate =>
    refine h.of_writes rfl ?_ ?_ ?_ <;> cases headerLanded <;>
      simp [Shard.finishHeaderSync, LogSegmentsCache.active]
  | touched quiet f write read acked floor segments gate =>
    exact h.updateActive (logAfter_of_not_writesLog quiet) (.refl _) segments (le_of_eq write)
      acked
  | committed quiet ps isCommitted segments clones =>
    have tips := commitPcds_sameTips (c := w.shard.segments) ps
    have acked := lastSelfAcked_commitPcds_active w.shard.segments ps
    rcases segments with segments | ⟨-, segments⟩
    · refine h.of_writes (logAfter_of_not_writesLog quiet) ?_ (fun g => ?_) ?_
      · rw [segments, tips.activeLogId]
      · rw [segments, tips.write]
      · rw [segments, acked]
    · refine h.updateActive (logAfter_of_not_writesLog quiet) tips segments ?_ ?_
      · show ((w.shard.segments.commitPcds ps).metadata _).write ≤ _
        rw [tips.activeLogId, tips.write]
        exact le_rfl
      · exact le_of_eq acked.symm
  | culled quiet target isCull segments gate =>
    have lower : t.segments.active.write ≤ w.shard.segments.active.write := by
      cases action <;> first | exact safe t shardStep | cases isCull
    rw [segments, updateActive_active] at lower
    exact h.updateActive (logAfter_of_not_writesLog quiet) (.refl _) segments lower
      (le_of_eq (CullTarget.rewind_lastSelfAcked _ _).symm)
  | truncated rewinds ps isCommitted n cuts segments free =>
    have lower : t.segments.active.write ≤ w.shard.segments.active.write := by
      cases action <;> first | exact safe t shardStep | cases rewinds
    rw [segments, updateActive_active] at lower
    exact h.updateActive (logAfter_of_not_writesLog (ShardAction.writesLog_of_rewindsLog rewinds))
      (commitPcds_sameTips ps) segments lower
      (le_of_eq (lastSelfAcked_commitPcds_active w.shard.segments ps).symm)
  | unwound g d gate => exact safe.elim
  | evicted g =>
    refine h.of_writes rfl ?_ ?_ ?_ <;> simp [LogSegmentsCache.active]
  | loaded g le =>
    refine h.of_writes rfl ?_ (fun k => ?_) ?_
    · exact load_activeLogId _ g
    · by_cases same : k = g
      · subst same
        rcases load_metadata w.shard.segments k k with eq | eq
        · exact le_of_eq (congrArg _ eq)
        · exact le_trans (le_of_eq (congrArg _ eq)) safe
      · exact le_of_eq (congrArg _ (load_metadata_of_ne _ same))
    · simp
  | restarted => exact absurd rfl notRestart

/-! ## Where the tail is decided about -/

/-- What is kept of a tail: nothing above the read cursor, or a tail of the peer. -/
theorem ownAcked_of_kept (acked : w.AckedUpTo own w.shard.segments.active.readWalSeq)
    (author : OneAuthor own w.log w.shard.segments.activeLogId w.shard.segments.active.readWalSeq
      w.shard.segments.active.write)
    (peer : w.shard.segments.active.readWalSeq < w.shard.segments.active.write →
      w.tailIsPeer own = true) : w.OwnAcked own := by
  intro r hr chain isOwn
  rcases Nat.lt_or_eq_of_le chain.1 with older | active
  · exact acked r hr chain isOwn (.inl older)
  rcases Nat.lt_or_ge w.shard.segments.active.readWalSeq r.walSeq with above | below
  · -- the newest metablock would have the same author
    exfalso
    have bound : r.walSeq ≤ w.shard.segments.active.write := by
      rw [LogSegmentsCache.active, ← active]
      exact chain.2
    obtain ⟨who, all⟩ := author
    obtain ⟨tip, mem, answer, logId, le, tipBelow⟩ := exists_tip own hr active bound
    rw [peer (lt_of_lt_of_le above bound)] at answer
    have ofTip := all tip mem logId (lt_of_lt_of_le above le) tipBelow
    rw [all r hr active above bound, ← ofTip] at isOwn
    rw [isOwn] at answer
    cases answer
  · exact acked r hr chain isOwn (.inr below)

/-- What is left by a cull of the active segment to `target`. -/
theorem ownAcked_of_culled (target : CullTarget) (isCull : w.shard.cullOf a.action = some target)
    (hstep : w.step own a = some w') (bound : target.walSeq ≤ w.shard.segments.active.write)
    (acked : w.AckedUpTo own target.walSeq) : w'.OwnAcked own := by
  obtain ⟨shardStep, log⟩ := step_shard hstep
  have segments := Shard.segments_of_cull isCull shardStep
  have quiet : a.action.writesLog = false := by
    generalize a.action = action at isCull
    cases action <;> first | rfl | cases isCull
  rw [logAfter_of_not_writesLog quiet] at log
  intro r hr chain isOwn
  rw [log] at hr
  have logId : r.logId ≤ w.shard.segments.activeLogId := by
    have := chain.1
    rw [segments] at this
    exact this
  have below := chain.2
  rw [segments, updateActive_metadata] at below
  rw [segments, updateActive_active, CullTarget.rewind_lastSelfAcked]
  split at below
  next active =>
    rw [CullTarget.rewind_write] at below
    refine acked r hr ⟨logId, ?_⟩ isOwn (.inr below)
    rw [active]
    exact le_trans below bound
  next other =>
    exact acked r hr ⟨logId, below⟩ isOwn (.inl (Nat.lt_of_le_of_ne logId other))

/-- A step that changes neither the metablocks nor the records. -/
theorem OwnAcked.same (h : w.OwnAcked own) (log : w'.log = w.log)
    (segments : w'.shard.segments = w.shard.segments) : w'.OwnAcked own := by
  refine h.of_writes log ?_ ?_ ?_ <;> simp [segments]

theorem ownAcked_of_rewind (safe : w.decisionSafe own (.reconcileDurableTail .rewindToAckBarrier))
    (decides : w.shard.suspends .rewindToAckBarrier = false)
    (hstep : w.step own ⟨.reconcileDurableTail .rewindToAckBarrier, landed⟩ = some w') :
    w'.OwnAcked own := by
  obtain ⟨present, acked⟩ := safe.resolve_left (by rw [decides]; nofun)
  obtain ⟨shardStep, log⟩ := step_shard hstep
  obtain ⟨cursor, isRead⟩ := ne_none_iff_exists'.mp present
  have position : w.shard.segments.active.readWalSeq = cursor := by
    rw [readWalSeq, isRead]
    rfl
  by_cases behind : cursor < w.shard.segments.active.write
  · have isCull : w.shard.cullOf (.reconcileDurableTail .rewindToAckBarrier) =
        some (.writeToRead cursor) := by
      simp only [Shard.cullOf, isRead, behind, if_true]
    exact ownAcked_of_culled (.writeToRead cursor) isCull hstep (le_of_lt behind)
      (position ▸ acked)
  · -- no tail, and no barrier to go back to
    have kept : w'.shard = { w.shard with ackBarrierRewindArmed := false } := by
      have stay : ¬ (w.shard.ackBarrierRewindArmed = true ∧
          0 < w.shard.segments.active.lastSelfAckedWalSeq ∧
          max w.shard.segments.active.lastSelfAckedWalSeq
            w.shard.segments.active.lastReceivedReplicationWalSeq < cursor) := by
        intro moves
        simp only [Shard.suspends, isRead, decide_eq_false_iff_not] at decides
        exact decides ⟨behind, moves⟩
      rw [← some.inj shardStep]
      simp only [Shard.reconcileDurableTail, isRead, if_neg behind, if_neg stay]
    refine OwnAcked.same (w := w) ?_ log (by rw [kept])
    intro r hr chain isOwn
    refine acked r hr chain isOwn ?_
    rcases Nat.lt_or_eq_of_le chain.1 with older | active
    · exact .inl older
    · right
      have below := chain.2
      rw [active] at below
      rw [position]
      exact le_trans below (Nat.le_of_not_lt behind)

theorem ownAcked_of_follower
    (safe : w.decisionSafe own (.reconcileDurableTail .reconcileAsFollower))
    (decides : w.shard.suspends .reconcileAsFollower = false)
    (hstep : w.step own ⟨.reconcileDurableTail .reconcileAsFollower, landed⟩ = some w') :
    w'.OwnAcked own := by
  obtain ⟨acked, author, peer⟩ := safe.resolve_left (by rw [decides]; nofun)
  obtain ⟨shardStep, log⟩ := step_shard hstep
  have kept : w'.shard = w.shard := by
    rw [← some.inj shardStep]
    simp only [Shard.reconcileDurableTail]
    split
    · rfl
    next behind =>
      split
      next empty =>
        simp only [Shard.suspends, decide_eq_false_iff_not] at decides
        exact absurd ⟨behind, empty⟩ decides
      next => rfl
  exact (ownAcked_of_kept acked author peer).same log (by rw [kept])

theorem ownAcked_of_provenance {i isPeer} (safe : w.decisionSafe own (.tailProvenance i isPeer))
    (decides : w.shard.decidesTail (.tailProvenance i isPeer) = true)
    (hstep : w.step own ⟨.tailProvenance i isPeer, landed⟩ = some w') : w'.OwnAcked own := by
  obtain ⟨current, peer, culled, acked, author⟩ := safe decides
  obtain ⟨shardStep, log⟩ := step_shard hstep
  obtain ⟨read, g, n, task⟩ : ∃ read g n,
      w.shard.culls[i]? = some (.provenance .reconcileAsFollower read g n) := by
    simp only [Shard.decidesTail] at decides
    split at decides
    next read g n task => exact ⟨read, g, n, task⟩
    next => cases decides
  obtain rfl : read = w.shard.segments.active.read := current _ task
  cases isPeer with
  | true =>
    have kept : w'.shard = w.shard.dropCull i := by
      simp only [Shard.step, task] at shardStep
      exact (some.inj shardStep).symm
    exact (ownAcked_of_kept acked author fun _ => peer rfl).same log (by rw [kept]; rfl)
  | false =>
    obtain ⟨present, bound⟩ := culled rfl
    obtain ⟨cursor, isRead⟩ := ne_none_iff_exists'.mp present
    have position : w.shard.segments.active.readWalSeq = cursor := by
      rw [readWalSeq, isRead]
      rfl
    have isCull : w.shard.cullOf (.tailProvenance i false) = some (.writeToRead cursor) := by
      rw [isRead] at task
      simp only [Shard.cullOf, task]
    exact ownAcked_of_culled (.writeToRead cursor) isCull hstep (position ▸ bound)
      (position ▸ acked)

/-- Whatever the call does with the tail, no own entry above the ack barrier stays. -/
theorem ownAcked_of_decision (safe : w.decisionSafe own a.action)
    (decides : w.shard.decidesTail a.action = true) (hstep : w.step own a = some w') :
    w'.OwnAcked own := by
  obtain ⟨action, landed⟩ := a
  cases action with
  | reconcileDurableTail mode =>
    cases mode with
    | commitForPromotion => cases decides
    | rewindToAckBarrier =>
      exact ownAcked_of_rewind safe (by simpa [Shard.decidesTail] using decides) hstep
    | reconcileAsFollower =>
      exact ownAcked_of_follower safe (by simpa [Shard.decidesTail] using decides) hstep
  | tailProvenance i isPeer => exact ownAcked_of_provenance safe decides hstep
  | ackBarrierCursor i =>
    have shardStep := (step_shard hstep).1
    simp only [Shard.step] at shardStep
    split at shardStep
    next barrier task =>
      have isCull : w.shard.cullOf (.ackBarrierCursor i) = some (.bothToAckBarrier barrier) := by
        simp only [Shard.cullOf, task]
      obtain ⟨bound, acked⟩ := safe _ isCull
      exact ownAcked_of_culled _ isCull hstep bound acked
    next => cases shardStep
  | _ => cases decides

end LoggedShard

/-! ## Calls that are about to return -/

/-- The shard with the number of demotion and boot reconciliations that have decided about the tail
and not returned. -/
structure DemotionWatch where
  logged : LoggedShard
  returning : ℕ

/-- A step of the shard, or a call returns. -/
inductive DemotionAction
  | log (a : LoggedAction)
  /-- a reconciliation returns Ok -/
  | returned
  deriving DecidableEq, Repr

namespace DemotionWatch

def initial : DemotionWatch := ⟨.initial, 0⟩

variable (own : EntryId → Bool) (d : DemotionWatch)

/-- A restart ends the calls; they never return. -/
def returningAfter (a : ShardAction) : ℕ :=
  if a = .restart then 0
  else if d.logged.shard.decidesTail a then d.returning + 1
  else d.returning

/-- Calls are counted from decision to return. -/
def step : DemotionAction → Option DemotionWatch
  | .log a => (d.logged.step own a).map fun w => ⟨w, d.returningAfter a.action⟩
  | .returned => if 0 < d.returning then some { d with returning := d.returning - 1 } else none

/-- **The condition on a step**: what `decisionSafe` asks where a tail is decided about, and what
`windowSafe` asks while a call is about to return. -/
def Safe : DemotionAction → Prop
  | .log a =>
    (d.logged.shard.decidesTail a.action = true → d.logged.decisionSafe own a.action) ∧
      (0 < d.returning → d.logged.shard.decidesTail a.action = false →
        d.logged.windowSafe own a.action)
  | .returned => True

instance : DecidableRel (Safe own) := fun d a => by
  induction a using DemotionAction.casesOn <;> dsimp only [Safe] <;> infer_instance

variable {own d} {d' : DemotionWatch} {a : DemotionAction}

theorem ownAcked_step (h : 0 < d.returning → d.logged.OwnAcked own) (safe : d.Safe own a)
    (hstep : d.step own a = some d') : 0 < d'.returning → d'.logged.OwnAcked own := by
  intro pending
  cases a with
  | returned =>
    simp only [step] at hstep
    split at hstep
    next positive =>
      cases hstep
      exact h positive
    next => cases hstep
  | log a =>
    obtain ⟨w, logStep, rfl⟩ := map_eq_some_iff.mp hstep
    cases decides : d.logged.shard.decidesTail a.action with
    | true => exact LoggedShard.ownAcked_of_decision (safe.1 decides) decides logStep
    | false =>
      simp only [returningAfter, decides] at pending
      split at pending
      · exact absurd pending (Nat.lt_irrefl 0)
      next notRestart =>
        exact (h pending).step (safe.2 pending decides) notRestart logStep

end DemotionWatch

/-- **When a demotion or boot reconciliation returns, no own entry above the ack barrier is left.**
In every run whose steps meet the condition: when `reconcile_durable_tail` returns Ok in one of
these modes, every own entry below the write cursor of its segment is at or below
`last_self_acked_wal_seq`. -/
theorem demotion_leaves_acked {own : EntryId → Bool} {d d' : DemotionWatch}
    (run : Reaches (DemotionWatch.step own) (DemotionWatch.Safe own) .initial d)
    (returns : d.step own .returned = some d') : d'.logged.OwnAcked own := by
  have inv : 0 < d.returning → d.logged.OwnAcked own :=
    Reaches.invariant (I := fun d => 0 < d.returning → d.logged.OwnAcked own)
      (fun _ _ _ inv safe hstep => DemotionWatch.ownAcked_step inv safe hstep) run nofun
  simp only [DemotionWatch.step] at returns
  split at returns
  next positive =>
    cases returns
    exact inv positive
  next => cases returns

/-- Entry 10 is committed and acknowledged, entry 11 is fsynced, and the demotion culls it. -/
def ackThenDemote : List DemotionAction :=
  [(.enqueue [10] : ShardAction), .fsyncCapture .deferToReplicationAck .fits, .syncSucceeded,
    .replicationCapture .write, .replicationPublished, .selfAck, .barrierPersisted, .enqueue [11],
    .fsyncCapture .deferToReplicationAck .fits, .syncSucceeded,
    .reconcileDurableTail .rewindToAckBarrier, .chainTipsRebuilt 0].map (.log ·.logged)

theorem demotion_leaves_acked_ackThenDemote :
    ∃ d d', exec (DemotionWatch.step ownFromTen) (DemotionWatch.Safe ownFromTen) .initial
        ackThenDemote = some d ∧
      d.step ownFromTen .returned = some d' ∧
      d'.logged.InChain ⟨1, 1, 10⟩ ∧ ⟨1, 2, 11⟩ ∈ d'.logged.log ∧ d'.logged.OwnAcked ownFromTen :=
  ⟨_, _, rfl, rfl, by decide, by decide,
    demotion_leaves_acked (reaches_of_exec ackThenDemote rfl) rfl⟩

/-- A leader's batch goes to a new segment, and the node is demoted before it is replicated. -/
def rotateThenDemote : List DemotionAction :=
  [(.enqueue [10] : ShardAction), .fsyncCapture .deferToReplicationAck .rotate, .rotated true,
    .syncSucceeded, .reconcileDurableTail .rewindToAckBarrier].map (.log ·.logged)

/-- The new segment has no read cursor, the call returns Ok, and the own entry stays. -/
theorem demotion_without_read_cursor_keeps_own :
    ∃ d d', exec (DemotionWatch.step ownFromTen) Always .initial rotateThenDemote = some d ∧
      d.step ownFromTen .returned = some d' ∧
      d'.logged.shard.segments.active.read = none ∧
      d'.logged.InChain ⟨2, 1, 10⟩ ∧ ¬ d'.logged.OwnAcked ownFromTen :=
  ⟨_, _, rfl, rfl, by decide, by decide, by decide⟩

end Celeriant
