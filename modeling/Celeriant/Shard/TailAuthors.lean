import Celeriant.Shard.LogRecords

/-!
# Whose tail it is

When a node changes its role, `reconcile_durable_tail` decides about the entries above the read
cursor as a whole. It looks at the newest one: a tail of the peer is kept or committed, because the
peer's clients may have been answered, and an own tail is culled. That is sound as long as no tail
has entries of both. The comment at `durable_tail_is_peer` calls such tails impossible.

They are not. A shard that learns it leads accepts writes at once, while the tail it inherited is
still being looked at, and the write lands on top of the peer's entries. The scan has taken its
cursor before, so it answers for the peer's entries and all is committed. The rewind to the ack
barrier does not look at authors at all: a demotion before this node's first acknowledgement then
takes the peer's entries back (`demotion_after_mixed_tail_culls_peer_entry`).

Under `TailSafe` the entries of the active segment above a read cursor have one author: above the
cursor in memory, above the one in the header, and above the one in the gate holder's copy, which
are what a restart and the end of a sync make of it.

## Main results

* `LoggedShard.AuthorInv.step`: a step keeps the tails of memory, header and copy with one author
* `tail_has_one_author`
-/

namespace Celeriant

open Transition LogSegmentFileMetadata LogSegmentsCache List

/-- The action looks at the tail: `reconcile_durable_tail` is called, or `durable_tail_is_peer`
reads the newest metablock. -/
def ShardAction.inspectsTail : ShardAction → Bool
  | .reconcileDurableTail _ => true
  | .tailProvenance _ _ => true
  | _ => false

/-- The read cursor that a reconciliation took when it was called. -/
def CullTask.read : CullTask → Option ℕ
  | provenance _ read _ _ => read
  | _ => none

/-- The cursors that a provenance scan took when it was called are still those of the segments: no
entry was fsynced, committed or rewound since. -/
def CullTask.standsIn (segments : LogSegmentsCache) : CullTask → Bool
  | provenance _ read g n =>
    read = segments.active.read ∧ g = segments.activeLogId ∧ n = segments.active.write
  | _ => true

/-- The metablocks of segment `g` in `(low, high]` have one author. -/
def OneAuthor (own : EntryId → Bool) (log : List LogRecord) (g low high : ℕ) : Prop :=
  ∃ author, ∀ r ∈ log, r.logId = g → low < r.walSeq → r.walSeq ≤ high → own r.entry = author
  deriving Decidable

variable {log : List LogRecord} {low high : ℕ}

theorem OneAuthor.mono {own g low' high'}
    (h : OneAuthor own log g low high) (hlow : low ≤ low') (hhigh : high' ≤ high) :
    OneAuthor own log g low' high' := by
  obtain ⟨author, all⟩ := h
  refine ⟨author, fun r hr logId above below => ?_⟩
  exact all r hr logId (lt_of_le_of_lt hlow above) (le_trans below hhigh)

/-- Nothing lies above the read cursor. -/
theorem OneAuthor.of_le {own g} (h : high ≤ low) : OneAuthor own log g low high :=
  ⟨true, fun _ _ _ above below => absurd (lt_of_lt_of_le above below) (Nat.not_lt_of_le h)⟩

/-- Metablocks written to another segment do not matter. -/
theorem OneAuthor.overwrite_other {own new}
    {g} (h : OneAuthor own log g low high) (other : ∀ r ∈ new, r.logId ≠ g) :
    OneAuthor own (overwrite log new) g low high := by
  obtain ⟨author, all⟩ := h
  refine ⟨author, fun r hr logId above below => ?_⟩
  rcases mem_overwrite hr with old | written
  · exact all r old logId above below
  · exact absurd logId (other r written)

namespace LoggedShard

section Tail

variable (own : EntryId → Bool) (w : LoggedShard)

/-- The metablock is in `(read, write]`; no read cursor counts as 0. -/
def InTail (r : LogRecord) : Prop :=
  w.InChain r ∧ w.shard.segments.active.readWalSeq < r.walSeq ∧
    r.walSeq ≤ w.shard.segments.active.write
  deriving Decidable

/-- The tail is all own or all received from the peer. -/
def Homogeneous : Prop := ∃ author, ∀ r ∈ w.log, w.InTail r → own r.entry = author
  deriving Decidable

/-- The active segment has a read cursor and everything above it lies in that segment. -/
def TailInActive : Prop :=
  w.shard.segments.active.read ≠ none ∧
    ∀ r ∈ w.log, r.logId < w.shard.segments.activeLogId → w.InChain r →
      r.walSeq ≤ w.shard.segments.active.readWalSeq
  deriving Decidable

/-- The batch of a sync that succeeds has the author of the entries it is written above. -/
def BatchFits : Prop :=
  ∀ c ∈ w.shard.gate.cloneOf, ∃ author, (∀ r ∈ w.batchRecords, own r.entry = author) ∧
    ∀ r ∈ w.log, r.logId = c.1 → c.2.readWalSeq < r.walSeq → r.walSeq ≤ c.2.write →
      own r.entry = author

/-- The batch of a sync that fails has the author of all entries above a read cursor of the
segment, also of those that lie above the write cursor. -/
def RemainsFit : Prop :=
  ∀ c ∈ w.shard.gate.cloneOf, ∃ author, (∀ r ∈ w.batchRecords, own r.entry = author) ∧
    ∀ r ∈ w.log, r.logId = c.1 →
      min c.2.readWalSeq (min (w.shard.segments.metadata c.1).readWalSeq
        (w.shard.segments.header c.1).readWalSeq) < r.walSeq → own r.entry = author

/-- What is asked of a cull: the demotion rewind finds an own entry newest, nothing has moved a
cursor since the scan was started that found the tail to be own, and the rewind to the ack barrier
finds no entry of the peer above it. -/
def cullSafe : ShardAction → Prop
  | .reconcileDurableTail .rewindToAckBarrier =>
    (w.shard.cullOf (.reconcileDurableTail .rewindToAckBarrier)).isSome → w.tailIsPeer own = false
  | .tailProvenance i isPeer =>
    (w.shard.cullOf (.tailProvenance i isPeer)).isSome →
      ∀ task ∈ w.shard.culls[i]?, task.standsIn w.shard.segments = true
  | .ackBarrierCursor i =>
    ∀ target ∈ w.shard.cullOf (.ackBarrierCursor i), ∀ r ∈ w.log,
      r.logId = w.shard.segments.activeLogId → target.walSeq < r.walSeq →
        r.walSeq ≤ w.shard.segments.active.write → own r.entry = true
  | _ => True

instance (a : ShardAction) : Decidable (w.cullSafe own a) := by
  induction a using ShardAction.casesOn with
  | reconcileDurableTail mode =>
    induction mode using TailReconciliation.casesOn <;> dsimp only [cullSafe] <;> infer_instance
  | _ => dsimp only [cullSafe]; infer_instance

/-- What is asked of syncs, truncations and unwinds. -/
def appendSafe : ShardAction → Prop
  | .syncSucceeded => w.BatchFits own
  | .syncFailed _ => w.RemainsFit own
  | .truncateGate i =>
    ∀ t ∈ w.shard.step (.truncateGate i), t.segments.active.write ≤ w.shard.segments.active.write
  | .unwindClosed =>
    ∀ t ∈ w.shard.step .unwindClosed, t.segments.active.write ≤ w.shard.segments.active.write
  | .unwindOpened =>
    ∀ target ∈ w.shard.gate.unwindTarget,
      (w.shard.segments.metadata target.1).write ≤ (w.shard.segments.metadata target.1).readWalSeq ∧
        (w.shard.segments.header target.1).write ≤ (w.shard.segments.header target.1).readWalSeq
  | _ => True

instance (a : ShardAction) : Decidable (w.appendSafe own a) := by
  induction a using ShardAction.casesOn <;> dsimp only [appendSafe, BatchFits, RemainsFit] <;>
    infer_instance

/-- **The condition on a step.** A tail is looked at only where it lies in the active segment; a
batch is written above entries of its own author only; a commit does not move the read cursor back;
a cull knows what it culls; a truncation moves the write cursor back, into a segment that was
committed to its end. -/
def TailSafe (a : LoggedAction) : Prop :=
  (a.action.inspectsTail = true → w.TailInActive) ∧ w.appendSafe own a.action ∧
    w.cullSafe own a.action ∧
    ∀ t ∈ w.shard.step a.action, ∀ p ∈ w.shard.newlyCommitted t,
      p.logId = w.shard.segments.activeLogId → w.shard.segments.active.readWalSeq ≤ p.tip
  deriving Decidable

end Tail

/-! ## The invariant -/

variable {own : EntryId → Bool} {w w' : LoggedShard} {a : LoggedAction}

/-- The entries of the active segment above the read cursor have one author: for the record in
memory, for the header, and for the copy the gate holder may be about to write. -/
def AuthorInv (own : EntryId → Bool) (w : LoggedShard) : Prop :=
  ∀ m, w.shard.Record w.shard.segments.activeLogId m →
    OneAuthor own w.log w.shard.segments.activeLogId m.readWalSeq m.write

theorem authorInv_initial : AuthorInv own initial := by
  intro m record
  cases record with
  | memory | header => exact .of_le (Nat.le_refl 0)
  | clone m held => cases held

variable {g : ℕ} {r : LogRecord} {entries : List EntryId} {clone : LogSegmentFileMetadata}
  {target : CullTarget}

/-- A slot in the range of a batch holds a metablock of the batch. -/
theorem exists_stamped {n k es} (low : n < k) (high : k ≤ n + es.length) :
    ∃ r ∈ stamped g n es, r.logId = g ∧ r.walSeq = k := by
  induction es generalizing n with
  | nil =>
    rw [length_nil] at high
    omega
  | cons e es ih =>
    rw [length_cons] at high
    rcases Nat.lt_or_eq_of_le (Nat.succ_le_of_lt low) with later | here
    · obtain ⟨r, hr, logId, walSeq⟩ := ih later (by omega)
      exact ⟨r, mem_cons_of_mem _ hr, logId, walSeq⟩
    · exact ⟨_, mem_cons_self, rfl, here⟩

/-- After a sync the slots above its cursor hold the batch. -/
theorem mem_overwrite_stamped {log n es}
    (h : r ∈ overwrite log (stamped g n es)) (logId : r.logId = g)
    (high : r.walSeq ≤ n + es.length) : (r ∈ log ∧ r.walSeq ≤ n) ∨ r ∈ stamped g n es := by
  rcases mem_append.mp h with old | new
  · obtain ⟨mem, kept⟩ := mem_filter.mp old
    rcases Nat.lt_or_ge n r.walSeq with above | below
    · obtain ⟨other, stamp, otherLogId, walSeq⟩ := exists_stamped (g := g) above high
      have := all_eq_true.mp kept other stamp
      simp [otherLogId, walSeq, logId] at this
    · exact .inl ⟨mem, below⟩
  · exact .inr new

/-- A scan that found the tail to be own, at a time when its cursors are still the shard's. -/
theorem standing_of_cull {i isPeer} (cull : w.cullSafe own (.tailProvenance i isPeer))
    (isCull : w.shard.cullOf (.tailProvenance i isPeer) = some target) :
    isPeer = false ∧ w.shard.segments.active.read = some target.walSeq ∧
      ∃ mode read, w.shard.culls[i]? = some (.provenance mode read w.shard.segments.activeLogId
        w.shard.segments.active.write) := by
  have stands := cull (by rw [isCull]; rfl)
  cases isPeer with
  | true => cases isCull
  | false =>
    simp only [Shard.cullOf] at isCull
    split at isCull
    next mode read g n task =>
      obtain ⟨isRead, rfl, rfl⟩ : some read = w.shard.segments.active.read ∧
          g = w.shard.segments.activeLogId ∧ n = w.shard.segments.active.write := by
        simpa [CullTask.standsIn] using stands _ task
      cases isCull
      exact ⟨rfl, isRead.symm, mode, _, task⟩
    next => cases isCull

/-- Every cull that meets the condition leaves nothing above the read cursor. -/
theorem rewind_empty (cull : w.cullSafe own a.action)
    (isCull : w.shard.cullOf a.action = some target) :
    (target.rewind w.shard.segments.active).write ≤
      (target.rewind w.shard.segments.active).readWalSeq := by
  cases target with
  | bothToAckBarrier cursor => exact Nat.le_refl cursor
  | writeToRead read =>
    have current : w.shard.segments.active.read = some read := by
      obtain ⟨action, landed⟩ := a
      cases action with
      | reconcileDurableTail mode =>
        cases mode with
        | rewindToAckBarrier =>
          simp only [Shard.cullOf] at isCull
          split at isCull
          next read' isRead =>
            split at isCull
            · obtain rfl : read' = read := by simpa using isCull
              exact isRead
            · cases isCull
          next => cases isCull
        | commitForPromotion => cases isCull
        | reconcileAsFollower => cases isCull
      | tailProvenance i isPeer => exact (standing_of_cull cull isCull).2.1
      | ackBarrierCursor i =>
        simp only [Shard.cullOf] at isCull
        split at isCull <;> cases isCull
      | _ => cases isCull
    show read ≤ (w.shard.segments.active).readWalSeq
    rw [readWalSeq, current]
    exact Nat.le_refl read

namespace AuthorInv

variable (h : AuthorInv own w)
include h

theorem synced {target} (gate : w.shard.gate = .writing target entries g clone)
    (fits : w.BatchFits own) :
    AuthorInv own ⟨w.shard.commitSync target entries g clone,
      overwrite w.log (stamped g clone.write entries)⟩ := by
  obtain ⟨author, batch, below⟩ := fits (g, clone) (by rw [gate]; rfl)
  rw [batchRecords_writing gate] at batch
  intro m record
  rcases Shard.record_commitSync record with ⟨active, eq⟩ | ⟨other, record⟩
  · -- the record is what the sync made of its copy
    have active : w.shard.segments.activeLogId = g := active
    show OneAuthor own _ w.shard.segments.activeLogId _ _
    rw [eq, active]
    by_cases full : target = .fullCommit
    · subst full
      exact .of_le le_rfl
    · refine ⟨author, fun r hr logId above high => ?_⟩
      rw [readWalSeq, synced_read, if_neg full] at above
      rw [synced_write] at high
      rcases mem_overwrite_stamped hr logId high with ⟨old, low⟩ | new
      · exact below r old logId above low
      · exact batch r new
  · -- the copy was of another segment
    exact (h m record).overwrite_other fun r hr same =>
      other (same.symm.trans (mem_stamped hr).1)

theorem syncFailed (landed : Bool) (kept : List ℕ) {target}
    (gate : w.shard.gate = .writing target entries g clone) (fits : w.RemainsFit own) :
    AuthorInv own ⟨w.shard.rollbackSync landed target entries g clone,
      overwrite w.log ((stamped g clone.write entries).filter fun r => r.walSeq ∈ kept)⟩ := by
  obtain ⟨author, batch, above⟩ := fits (g, clone) (by rw [gate]; rfl)
  rw [batchRecords_writing gate] at batch
  have activeLogId : (w.shard.rollbackSync landed target entries g clone).segments.activeLogId =
      w.shard.segments.activeLogId := by
    cases landed <;> rfl
  intro m record
  rw [activeLogId] at record ⊢
  by_cases active : w.shard.segments.activeLogId = g
  · -- old or new, an entry above one of the three cursors has the batch's author
    have tail : (clone.readWalSeq ≤ m.readWalSeq ∨
        (w.shard.segments.metadata g).readWalSeq ≤ m.readWalSeq ∨
          (w.shard.segments.header g).readWalSeq ≤ m.readWalSeq) →
        OneAuthor own (overwrite w.log ((stamped g clone.write entries).filter fun r =>
          r.walSeq ∈ kept)) w.shard.segments.activeLogId m.readWalSeq m.write := by
      intro cursor
      refine ⟨author, fun r hr logId low _ => ?_⟩
      rcases mem_overwrite hr with old | new
      · refine above r old (logId.trans active) ?_
        dsimp only
        omega
      · exact batch r (mem_of_mem_filter new)
    rw [active] at record
    rcases Shard.record_setHeader record rfl rfl with record | ⟨-, -, eq⟩
    · cases record with
      | memory => exact tail (.inr (.inl le_rfl))
      | header => exact tail (.inr (.inr le_rfl))
      | clone m held =>
        rw [gate] at held
        obtain ⟨-, rfl⟩ := Prod.mk.inj (Option.some.inj held)
        exact tail (.inl le_rfl)
    · by_cases full : target = .fullCommit
      · subst full eq
        exact .of_le le_rfl
      · refine tail (.inl ?_)
        rw [eq, readWalSeq, readWalSeq, synced_read, if_neg full]
  · rcases Shard.record_setHeader record rfl rfl with record | ⟨-, same, -⟩
    · exact (h m record).overwrite_other fun r hr same =>
        active (same.symm.trans (mem_stamped (mem_of_mem_filter hr)).1)
    · exact absurd same active

/-- A step that writes no metablock. -/
theorem quiet {landed action t}
    (safe : w.TailSafe own ⟨action, landed⟩) (quiet : action.writesLog = false)
    (shardStep : w.shard.step action = some t) : AuthorInv own ⟨t, w.log⟩ := by
  obtain ⟨-, append, cull, commits⟩ := safe
  intro m record
  cases Shard.record_step shardStep record with
  | old record le =>
    rcases Shard.activeLogId_step shardStep with same | ⟨rfl, -⟩ | ⟨k, d, gate, rfl, active⟩
    · rw [same] at record ⊢
      exact h m record
    · cases quiet
    · -- the sealed segment was committed to its end
      obtain ⟨memory, header⟩ := append (k, d) (by rw [gate]; rfl)
      rw [active] at record
      cases record with
      | memory => exact .of_le memory
      | header => exact .of_le header
      | clone m held =>
        rw [gate] at held
        cases held
  | rotated target entries source gate rotates =>
    subst rotates
    cases quiet
  | synced target entries clone gate sync =>
    rcases sync with rfl | rfl <;> cases quiet
  | touched active write read =>
    rw [active.same, readWalSeq, read, write]
    exact h _ .memory
  | committed p isCommitted logId same eq =>
    rw [same] at logId eq ⊢
    rw [eq]
    exact (h _ .memory).mono (commits t shardStep p isCommitted logId) le_rfl
  | advanced active advances eq =>
    rw [eq]
    exact .of_le le_rfl
  | culled active target isCull window snapshot eq =>
    rw [eq]
    exact .of_le (rewind_empty (a := ⟨action, landed⟩) cull isCull)
  | truncated active rewinds n cuts write read =>
    have lower : t.segments.active.write ≤ w.shard.segments.active.write := by
      cases action with
      | truncateGate i => exact append t shardStep
      | unwindClosed => exact append t shardStep
      | _ => cases rewinds
    rcases read with read | ⟨none, read⟩
    · exact .of_le (by rw [read, write])
    · rw [active.same, read, ← none, active.now]
      exact (h _ .memory).mono le_rfl lower

theorem step (safe : w.TailSafe own a) (hstep : w.step own a = some w') : AuthorInv own w' := by
  obtain ⟨shardStep, log⟩ := step_shard hstep
  obtain ⟨t, log'⟩ := w'
  subst log
  obtain ⟨action, landed⟩ := a
  cases writes : action.writesLog with
  | false =>
    rw [logAfter_of_not_writesLog writes]
    exact h.quiet safe writes shardStep
  | true =>
    obtain ⟨-, append, -⟩ := safe
    cases Shard.Step.of_step shardStep with
    | rotated target entries source gate =>
      -- the new file is empty
      refine fun m record => ⟨true, fun r hr logId => ?_⟩
      exact absurd logId (of_decide_eq_true (mem_filter.mp hr).2)
    | syncSucceeded target entries g clone gate =>
      rw [logAfter, batchRecords_writing gate]
      exact h.synced gate append
    | syncFailed headerLanded target entries g clone gate =>
      rw [logAfter, batchRecords_writing gate]
      exact h.syncFailed headerLanded landed gate append
    | _ => cases writes

/-! ## What the reconciliation sees and what it removes -/

theorem homogeneous (inActive : w.TailInActive) :
    w.Homogeneous own := by
  obtain ⟨author, all⟩ := h _ .memory
  refine ⟨author, fun r hr => ?_⟩
  rintro ⟨chain, above, below⟩
  have logId : r.logId = w.shard.segments.activeLogId := by
    rcases Nat.lt_or_eq_of_le chain.1 with older | same
    · exact absurd (inActive.2 r hr older chain) (Nat.not_le_of_lt above)
    · exact same
  exact all r hr logId above below

/-- Above the read cursor the newest metablock speaks for all of the active segment. -/
theorem own_of_tip (notPeer : w.tailIsPeer own = false)
    (hr : r ∈ w.log) (logId : r.logId = w.shard.segments.activeLogId)
    (above : w.shard.segments.active.readWalSeq < r.walSeq)
    (below : r.walSeq ≤ w.shard.segments.active.write) : own r.entry = true := by
  obtain ⟨author, all⟩ := h _ .memory
  obtain ⟨tip, mem, answer, tipLogId, le, tipBelow⟩ := exists_tip own hr logId below
  have ofTip := all tip mem tipLogId (lt_of_lt_of_le above le) tipBelow
  rw [all r hr logId above below, ← ofTip]
  rw [notPeer] at answer
  simpa using answer.symm

/-- A cull that meets the condition takes own entries only. -/
theorem cull_own (safe : w.TailSafe own a) (hstep : w.step own a = some w')
    (isCull : w.shard.cullOf a.action = some target) (hr : r ∈ w.log)
    (logId : r.logId = w.shard.segments.activeLogId) (above : target.walSeq < r.walSeq)
    (below : r.walSeq ≤ w.shard.segments.active.write) : own r.entry = true := by
  obtain ⟨-, -, cull, -⟩ := safe
  obtain ⟨action, landed⟩ := a
  cases action with
  | reconcileDurableTail mode =>
    cases mode with
    | rewindToAckBarrier =>
      have notPeer : w.tailIsPeer own = false := cull (by rw [isCull]; rfl)
      simp only [Shard.cullOf] at isCull
      split at isCull
      next read isRead =>
        split at isCull
        · cases isCull
          refine h.own_of_tip notPeer hr logId ?_ below
          rw [readWalSeq, isRead]
          exact above
        · cases isCull
      next => cases isCull
    | commitForPromotion => cases isCull
    | reconcileAsFollower => cases isCull
  | tailProvenance i isPeer =>
    -- the cursors did not move, so the answer is about the tail as it is now
    obtain ⟨rfl, current, mode, read, task⟩ := standing_of_cull cull isCull
    have notPeer : w.tailIsPeer own = false := (step_provenance hstep rfl task).symm
    refine h.own_of_tip notPeer hr logId ?_ below
    rw [readWalSeq, current]
    exact above
  | ackBarrierCursor i => exact cull target isCull r hr logId above below
  | _ => cases isCull

end AuthorInv

/-- What a cull removes from the chain lies in the active segment above its target. -/
theorem removed_by_cull (hstep : w.step own a = some w')
    (isCull : w.shard.cullOf a.action = some target) (before : w.InChain r)
    (after : ¬ w'.InChain r) : r.logId = w.shard.segments.activeLogId ∧ target.walSeq < r.walSeq ∧
      r.walSeq ≤ w.shard.segments.active.write := by
  have segments := Shard.segments_of_cull isCull (step_shard hstep).1
  have activeLogId : w'.shard.segments.activeLogId = w.shard.segments.activeLogId := by
    rw [segments]
    rfl
  by_cases logId : r.logId = w.shard.segments.activeLogId
  · have write : (w'.shard.segments.metadata r.logId).write = target.walSeq := by
      rw [segments, updateActive_metadata, if_pos logId, CullTarget.rewind_write]
    refine ⟨logId, ?_, ?_⟩
    · refine Nat.lt_of_not_le fun le => after ⟨?_, ?_⟩
      · rw [activeLogId]
        exact before.1
      · rw [write]
        exact le
    · rw [LogSegmentsCache.active, ← logId]
      exact before.2
  · have same : w'.shard.segments.metadata r.logId = w.shard.segments.metadata r.logId := by
      rw [segments, updateActive_metadata, if_neg logId]
    exact absurd ⟨activeLogId ▸ before.1, same ▸ before.2⟩ after

end LoggedShard

/-! ## Whole runs -/

/-- Entries from 10 on are this node's. -/
def ownFromTen (e : EntryId) : Bool := 10 ≤ e

/-- The peer's entry 1 is applied and confirmed; then this node leads and fsyncs its entry 10. -/
def commitThenLead : List LoggedAction :=
  [(.enqueue [1] : ShardAction), .fsyncCapture .deferToLeaderConfirmed .fits, .syncSucceeded,
    .drainParkedCommits 1, .enqueue [10], .fsyncCapture .deferToReplicationAck .fits,
    .syncSucceeded].map ShardAction.logged

/-- This node leads, acknowledges its entry 10 and is demoted. It applies the peer's entry 1 and
acknowledges it to the peer. It restarts and wins the election, and a client's write is fsynced
while the provenance of the tail is being read. -/
def writeDuringProvenance : List LoggedAction :=
  [(.enqueue [10] : ShardAction), .fsyncCapture .deferToReplicationAck .fits, .syncSucceeded,
    .replicationCapture .write, .replicationPublished, .selfAck, .barrierPersisted,
    .reconcileDurableTail .rewindToAckBarrier, .enqueue [1], .updatePromotionFloor 1,
    .fsyncCapture .deferToLeaderConfirmed .fits, .syncSucceeded, .restart,
    .reconcileDurableTail .commitForPromotion, .enqueue [11],
    .fsyncCapture .deferToReplicationAck .fits, .syncSucceeded].map ShardAction.logged

/-- The scan finds the peer's entry and the whole tail is committed. The flip clears the promotion
floor, and the node is demoted before it acknowledges anything. -/
def demotedAfterFlip : List LoggedAction :=
  [(.tailProvenance 0 true : ShardAction), .clearPromotionFloor,
    .reconcileDurableTail .rewindToAckBarrier].map ShardAction.logged

end Celeriant
