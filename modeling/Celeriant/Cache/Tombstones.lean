import Celeriant.Cache.LogOrder

/-!
# Tombstones that do not allow a recreation

A delete without `allow_recreate` ends its aggregate. Its tombstone is the last metablock of the
aggregate as long as every operation that sees it turns away. A trim does not look once more: it
asks whether the aggregate exists, may wait for a scan, and then enqueues its metablock behind a
tombstone that was queued meanwhile. `KeepsTombstone` excludes that and what hides a tombstone from
the caches; under it nothing is ever enqueued behind one.

## Main results

* `WritePath.TombstoneInv.step`
-/

namespace Celeriant

open MemSnapshotAggregate List

variable {γ : Type}

/-- A tombstone that does not allow a recreation. -/
def AggregateBlock.isFinal : AggregateBlock γ → Bool
  | eventBatch _ => false
  | softTrim _ => false
  | softDelete d => !d.allowRecreate

theorem AggregateBlock.eq_softDelete {b : AggregateBlock γ} (final : b.isFinal = true) :
    ∃ d, b = .softDelete d ∧ d.allowRecreate = false := by
  cases b with
  | eventBatch b => cases final
  | softTrim t => cases final
  | softDelete d => exact ⟨d, rfl, by simpa [isFinal] using final⟩

/-! ## The steps that keep a tombstone -/

namespace WritePath

/-- The delete of a task is enqueued now and does not allow a recreation. -/
def deletesFinally (s : WritePath γ) (i : ℕ) : Bool :=
  match s.tasks[i]? with
  | some ⟨.delete req, .admitted⟩ =>
    !req.allowRecreate && !s.view.pendingDeleteOrDeleted && s.view.aggregateVersion ≠ 0 &&
      (match req.expectedVersion with
        | some expected => expected = s.view.aggregateVersion
        | none => true)
  | _ => false

/-- A final tombstone is committed. -/
def tombstoneCommitted (s : WritePath γ) : Bool :=
  s.wal.any fun e => e.block.isFinal && e.walSeq ≤ s.readCursor

/-- A scan ends after it saw the final tombstone that is durable (committed on the read path), and a
trim then finds none queued. -/
def seesTombstone (s : WritePath γ) (op : AggregateOperation γ) (bound : ℕ) : Prop :=
  (∀ e ∈ s.wal, e.block.isFinal = true → e.walSeq ≤ s.scanBound op.cachePath → e.walSeq ≤ bound) ∧
    (AggregateOperation.isTrim op = true →
      ∀ q ∈ s.positions, q.pendingDelete = true → q.allowRecreate = true)

/-- No final tombstone of the captured version was queued since, and a full commit does not pass
one that waits for its commit. -/
def syncKeepsTombstone (s : WritePath γ) (target : CommitTarget)
    (captured : SyncPositionsSnapshot γ) :
    Prop :=
  (∀ q ∈ captured.positions, q.pendingDelete = false →
    ∀ current ∈ s.positions, current.pendingDelete = true → current.allowRecreate = false →
      current.aggregateVersion ≠ q.aggregateVersion) ∧
  (target = .fullCommit → ∀ batch ∈ s.deferred, ∀ e ∈ batch.blocks, e.block.isFinal = false)

/-- A batch with metablocks of the aggregate is not committed behind the tombstone, and a trim not
while the snapshot of the tombstone is evicted. -/
def commitKeepsTombstone (s : WritePath γ) (batch : DeferredBatch γ) : Prop :=
  (s.tombstoneCommitted = true → batch.blocks = [] ∧ s.readCursor ≤ batch.tip) ∧
    ((∃ b ∈ s.log, b.isFinal = true) → (∃ e ∈ batch.blocks, e.block.isTrim = true) →
      s.writeSnapshot.isSome = true)

def KeepsTombstone (s : WritePath γ) : WriteAction γ → Prop
  | .finishScan i => ∀ scan ∈ s.scanAt i, s.seesTombstone scan.1 scan.2
  | .prepare _ _ =>
    (∃ b ∈ s.pipeline, b.isFinal = true) → s.positions.isSome = true ∨ s.writeSnapshot.isSome = true
  | .passAggregate path _ =>
    (∃ e ∈ s.wal, e.block.isFinal = true ∧ e.walSeq ≤ s.scanBound path) →
      (s.snapshotOn path).isSome = true
  | .syncSucceeded target _ _ _ => ∀ captured ∈ s.fsync, s.syncKeepsTombstone target captured
  | .commitPcd => ∀ batch ∈ s.deferred.head?, s.commitKeepsTombstone batch
  | _ => True

instance [DecidableEq γ] : DecidableRel (KeepsTombstone : WritePath γ → WriteAction γ → Prop) :=
  fun s a => by
    induction a using WriteAction.casesOn <;>
      dsimp only [KeepsTombstone, seesTombstone, syncKeepsTombstone, commitKeepsTombstone] <;>
      infer_instance

end WritePath

/-! ## The tombstone stays last -/

/-- Some final tombstone is among the metablocks. -/
def Ended (blocks : List (AggregateBlock γ)) : Prop := ∃ b ∈ blocks, b.isFinal = true

/-- Nothing follows a final tombstone. -/
def FinalLast (blocks : List (AggregateBlock γ)) : Prop :=
  blocks.Pairwise fun b _ => b.isFinal = false

section Blocks

variable {blocks more : List (AggregateBlock γ)}

theorem Ended.append : Ended (blocks ++ more) ↔ Ended blocks ∨ Ended more := by
  simp only [Ended, mem_append, or_and_right, exists_or]

theorem FinalLast.append :
    FinalLast (blocks ++ more) ↔ FinalLast blocks ∧ FinalLast more ∧
      (Ended blocks → more = []) := by
  unfold FinalLast
  rw [pairwise_append]
  refine and_congr_right fun _ => and_congr_right fun _ => ⟨?_, ?_⟩
  · rintro none ⟨b, mem, final⟩
    refine eq_nil_iff_forall_not_mem.mpr fun c later => ?_
    exact absurd final (by simp [none b mem c later])
  · intro empty b mem c later
    by_contra final
    rw [empty ⟨b, mem, by simpa using final⟩] at later
    exact absurd later not_mem_nil

theorem FinalLast.concat (h : FinalLast blocks) (living : ¬ Ended blocks) (b : AggregateBlock γ) :
    FinalLast (blocks ++ [b]) :=
  FinalLast.append.mpr ⟨h, pairwise_singleton _ _, fun ended => absurd ended living⟩

/-- A log that ended ends with its tombstone. -/
theorem FinalLast.getLast (h : FinalLast blocks) (ended : Ended blocks) :
    ∃ older d, blocks = older ++ [.softDelete d] ∧ d.allowRecreate = false := by
  obtain ⟨b, mem, final⟩ := ended
  obtain ⟨d, rfl, recreate⟩ := AggregateBlock.eq_softDelete final
  obtain ⟨older, newer, rfl⟩ := append_of_mem mem
  have newest : newer = [] := by
    refine eq_nil_iff_forall_not_mem.mpr fun c later => ?_
    have followed := (pairwise_cons.mp (pairwise_append.mp h).2.1).1 c later
    exact absurd final (by simp [followed])
  exact ⟨older, d, by rw [newest], recreate⟩

end Blocks

namespace WritePath

theorem durable_last {blocks} (last : FinalLast (blocks.map (·.block)))
    {e : DurableBlock γ} (mem : e ∈ blocks) (final : e.block.isFinal = true) :
    ∃ older, blocks = older ++ [e] := by
  obtain ⟨older, newer, rfl⟩ := append_of_mem mem
  rw [map_append, map_cons] at last
  have followed := (FinalLast.append.mp last).2.1
  rw [← singleton_append, FinalLast.append] at followed
  have newest : newer.map (·.block) = [] := followed.2.2 ⟨_, mem_singleton_self _, final⟩
  exact ⟨older, by rw [map_eq_nil_iff.mp newest]⟩

/-- A tombstone on its way has a queue position, and a position behind one shows it. -/
structure TombstoneOverlay (log rest : List (AggregateBlock γ))
    (position : Option (QueueAggregatePositions γ)) : Prop where
  queued : Ended rest → position.isSome = true
  entry : Ended (log ++ rest) → ∀ q ∈ position, q.pendingDelete = true ∧ q.allowRecreate = false

theorem TombstoneOverlay.settled_none (log : List (AggregateBlock γ)) :
    TombstoneOverlay log [] none :=
  ⟨fun ⟨_, mem, _⟩ => absurd mem not_mem_nil, by simp⟩

structure TombstoneInv (s : WritePath γ) : Prop extends Carries FinalLast TombstoneOverlay s where
  snapshot : Ended s.log → ∀ m ∈ s.writeSnapshot, m.status = .deleted ∧ m.allowRecreate = false
  ordered : s.Ordered

namespace TombstoneInv

variable {s t : WritePath γ} (h : s.TombstoneInv)
include h

theorem last : FinalLast s.pipeline := h.whole

theorem last_log : FinalLast s.log := (FinalLast.append.mp h.last).1

/-- Whoever sees the aggregate sees its tombstone. -/
theorem view_ended (ended : Ended s.pipeline)
    (seen : s.positions.isSome = true ∨ s.writeSnapshot.isSome = true) :
    s.view.pendingDeleteOrDeleted = true ∧ s.view.allowRecreate = false := by
  unfold view
  cases entry : s.positions with
  | some q => exact h.positions.entry ended q entry
  | none =>
    obtain ⟨m, cached⟩ := Option.isSome_iff_exists.mp (seen.resolve_left (by simp [entry]))
    have durable : Ended s.log := by
      refine (Ended.append.mp ended).resolve_right fun rest => ?_
      exact absurd (h.positions.queued rest) (by simp [entry])
    obtain ⟨status, recreate⟩ := h.snapshot durable m cached
    simp only [cached, indexes, status, recreate, decide_true, and_self]

/-- An aggregate that is seen alive has no tombstone on its way. -/
theorem living (alive : s.view.pendingDeleteOrDeleted = false)
    (seen : s.positions.isSome = true ∨ s.writeSnapshot.isSome = true) : ¬ Ended s.pipeline := by
  intro ended
  rw [(h.view_ended ended seen).1] at alive
  cases alive

/-- What leaves the core alone keeps the invariant when the write snapshot shows the tombstone. -/
theorem of_core (core : t.core = s.core)
    (snapshot : Ended s.log → ∀ m ∈ t.writeSnapshot, m.status = .deleted ∧
      m.allowRecreate = false) :
    t.TombstoneInv := by
  refine ⟨h.toCarries.of_core core, ?_, h.ordered.of_core core⟩
  rwa [log, (core_fields core).1]

variable {q : QueueAggregatePositions γ} {e : DurableBlock γ} {bound : ℕ}

/-- A metablock is enqueued behind a living aggregate. -/
theorem enqueue {b} (living : ¬ Ended s.pipeline)
    (flags : b.isFinal = true → q.pendingDelete = true ∧ q.allowRecreate = false) :
    TombstoneInv { s with queue := s.queue ++ [b], positions := some q } := by
  refine ⟨h.toCarries.enqueue (h.last.concat living b) ⟨fun _ => rfl, ?_⟩, h.snapshot,
    ⟨h.ordered.sorted, h.ordered.below⟩⟩
  rintro ended p ⟨⟩
  rw [← append_assoc] at ended
  rcases Ended.append.mp ended with old | ⟨c, mem, final⟩
  · exact absurd old living
  · exact flags (mem_singleton.mp mem ▸ final)

theorem appendTrim (living : ¬ Ended s.pipeline) (keepFrom : ℕ) :
    (s.appendTrim keepFrom).TombstoneInv :=
  h.enqueue living (by simp [AggregateBlock.isFinal])

theorem appendDelete (living : ¬ Ended s.pipeline) (req : DeleteRequest) :
    (s.appendDelete req).TombstoneInv := by
  refine h.enqueue living fun final => ⟨rfl, ?_⟩
  simpa [AggregateBlock.isFinal, QueueAggregatePositions.addPendingDelete] using final

/-- A delete that is enqueued finds no final tombstone. -/
theorem deletesFinally_living {i} (deletes : s.deletesFinally i = true) : ¬ Ended s.pipeline := by
  unfold deletesFinally at deletes
  split at deletes
  next req task =>
    simp only [Bool.and_eq_true, Bool.not_eq_true', decide_eq_true_iff] at deletes
    exact h.living deletes.1.1.2 (seen_of_version deletes.1.2)
  next => cases deletes

theorem appendWrite [DecidableEq γ] {req} (ok : s.view.check req = .ok ())
    (seen : Ended s.pipeline → s.positions.isSome = true ∨ s.writeSnapshot.isSome = true) :
    (s.appendWrite req).TombstoneInv := by
  refine h.enqueue (fun ended => ?_) (by simp [AggregateBlock.isFinal])
  obtain ⟨deleted, recreate⟩ := h.view_ended ended (seen ended)
  simp [EventIndexes.check, deleted, recreate] at ok

theorem commitSync [DecidableEq γ] {captured} (writing : s.fsync = some captured) {target}
    (safe : s.syncKeepsTombstone target captured) (isLeader : Bool) (gaps : List ℕ) (rest : ℕ)
    (ordered : (s.synced target isLeader captured gaps rest).Ordered) :
    (s.synced target isLeader captured gaps rest).TombstoneInv := by
  obtain ⟨log, -, -, -, -, snapshot, -, split⟩ :=
    commitSync_pipeline writing target isLeader gaps rest rfl
  have last := h.last
  rw [split] at last
  obtain ⟨lastDurable, -, ends⟩ := FinalLast.append.mp last
  obtain ⟨-, lastBlocks, endsLog⟩ := FinalLast.append.mp lastDurable
  refine ⟨h.toCarries.commitSync writing (fun overlay => ⟨?_, ?_⟩) ?_ target isLeader gaps rest,
    fun ended => ?_, ordered⟩
  · exact fun ended => overlay.queued (Ended.append.mpr (.inr ended))
  · rw [append_assoc]
    exact overlay.entry
  · -- the entry of a queued tombstone is not the captured one
    refine fun q position alive current entry same => ⟨fun ended => ?_, fun _ q mem => by cases mem⟩
    obtain ⟨pending, recreate⟩ := h.positions.entry
      (Ended.append.mpr (.inr (Ended.append.mpr (.inr ended)))) current entry
    exact absurd same (safe.1 q position alive current entry pending recreate)
  · rw [log] at ended
    rw [snapshot]
    rcases Ended.append.mp ended with old | new
    · -- behind the tombstone nothing is written
      have pending : queueSnapshot s.writeSnapshot captured.positions = s.writeSnapshot := by
        cases entry : captured.positions with
        | none => rfl
        | some q =>
          have deleted := ((h.captured captured writing).entry ended q entry).1
          simp [queueSnapshot, deleted]
      rw [endsLog old, pending]
      exact h.snapshot old
    · obtain ⟨older, d, blocks, recreate⟩ := lastBlocks.getLast new
      rw [syncBlocks_tombstone (d := d) (by rw [blocks, List.getLast?_concat])]
      rintro m ⟨⟩
      exact ⟨rfl, recreate⟩

theorem commitPcd {batch rest} (safe : s.commitKeepsTombstone batch) :
    ({ s with deferred := rest }.commitPcd batch).TombstoneInv := by
  obtain ⟨core, snapshot⟩ := commitPcdBlocks { s with deferred := rest } batch.blocks
  have popped : TombstoneInv { s with deferred := rest } :=
    ⟨h.toCarries.of_fields rfl rfl rfl rfl, h.snapshot, ⟨h.ordered.sorted, h.ordered.below⟩⟩
  have committed := popped.of_core core fun ended => by
    rw [snapshot]
    -- a trim keeps the status and the flags
    refine foldl_trims (h.snapshot ended) (fun ⟨b, mem, isTrim⟩ => ?_) fun _ _ _ shown => shown
    obtain ⟨e, he, rfl⟩ := mem_map.mp mem
    exact safe.2 ended ⟨e, he, isTrim⟩
  exact ⟨committed.toCarries.of_fields rfl rfl rfl rfl, committed.snapshot,
    ⟨committed.ordered.sorted, committed.ordered.below⟩⟩

/-- The captured batch is gone. -/
theorem drop : TombstoneInv { s with fsync := none } := by
  have queued : Ended s.queue → Ended (s.inflight ++ s.queue) := fun ended =>
    Ended.append.mpr (.inr ended)
  have last := h.last
  rw [pipeline, ← append_assoc] at last
  obtain ⟨lastDurable, lastQueue, ends⟩ := FinalLast.append.mp last
  refine ⟨⟨?_, ⟨fun ended => h.positions.queued (queued ended), fun ended => ?_⟩, by simp⟩,
    h.snapshot, ⟨h.ordered.sorted, h.ordered.below⟩⟩
  · exact FinalLast.append.mpr ⟨h.last_log, lastQueue, fun ended =>
      ends (Ended.append.mpr (.inl ended))⟩
  · exact h.positions.entry (Ended.append.mpr ((Ended.append.mp ended).imp_right queued))

/-- A durable final tombstone is the newest metablock. -/
theorem wal_tombstone (mem : e ∈ s.wal) (final : e.block.isFinal = true) :
    ∃ older d, s.wal = older ++ [e] ∧ e.block = .softDelete d ∧ d.allowRecreate = false := by
  obtain ⟨d, tombstone, recreate⟩ := AggregateBlock.eq_softDelete final
  obtain ⟨older, wal⟩ := durable_last h.last_log mem final
  exact ⟨older, d, wal, tombstone, recreate⟩

/-- A scan that reaches the tombstone sees the whole log, and stops there. -/
theorem scan_tombstone (mem : e ∈ s.wal) (final : e.block.isFinal = true)
    (reached : e.walSeq ≤ bound) :
    s.scanFinds bound = false ∧ ∃ d, d.allowRecreate = false ∧
      coldLoad (s.logUpTo bound) = .deleted d := by
  obtain ⟨older, d, wal, tombstone, recreate⟩ := h.wal_tombstone mem final
  have whole : s.upTo bound = s.wal := by
    refine filter_eq_self.mpr fun e' mem' => decide_eq_true ?_
    have sorted := h.ordered.sorted
    rw [wal] at sorted mem'
    rcases mem_append.mp mem' with old | new
    · have := (pairwise_append.mp sorted).2.2 e' old e (mem_singleton_self e)
      omega
    · rwa [mem_singleton.mp new]
  have newest : (s.upTo bound).getLast? = some e := by rw [whole, wal, List.getLast?_concat]
  refine ⟨?_, d, recreate, ?_⟩
  · rw [scanFinds, newest]
    simp [tombstone, AggregateBlock.isDelete]
  · rw [coldLoad, logUpTo, List.getLast?_map, newest, Option.map_some, tombstone]
    rfl

omit h in
theorem exists_of_ended (ended : Ended s.log) : ∃ e ∈ s.wal, e.block.isFinal = true := by
  obtain ⟨b, mem, final⟩ := ended
  obtain ⟨e, he, rfl⟩ := mem_map.mp mem
  exact ⟨e, he, final⟩

/-- What a scan puts shows the tombstone that is durable. -/
theorem loaded (core : t.core = s.core)
    (put : t.writeSnapshot = some (coldLoad ((s.upTo bound).map (·.block))))
    (seen : ∀ e ∈ s.wal, e.block.isFinal = true → e.walSeq ≤ bound) : t.TombstoneInv := by
  refine h.of_core core fun ended => ?_
  obtain ⟨e, mem, final⟩ := exists_of_ended ended
  obtain ⟨-, d, recreate, loaded⟩ := h.scan_tombstone mem final (seen e mem final)
  rw [put]
  rintro m ⟨⟩
  exact loaded.symm ▸ ⟨rfl, recreate⟩

/-- A trim that a scan admits finds no tombstone. -/
theorem scanned_living [DecidableEq γ] {op}
    (write : op.cachePath = .write) (safe : s.seesTombstone op bound)
    (isTrim : AggregateOperation.isTrim op = true) (found : s.scanFinds bound = true) :
    ¬ Ended s.pipeline := by
  intro ended
  cases entry : s.positions with
  | some q =>
    obtain ⟨pending, recreate⟩ := h.positions.entry ended q entry
    exact absurd (safe.2 isTrim q entry pending) (by simp [recreate])
  | none =>
    have durable : Ended s.log := by
      refine (Ended.append.mp ended).resolve_right fun rest => ?_
      exact absurd (h.positions.queued rest) (by simp [entry])
    obtain ⟨e, mem, final⟩ := exists_of_ended durable
    have below : e.walSeq ≤ s.scanBound op.cachePath := by
      rw [write]
      exact h.ordered.below e mem
    rw [(h.scan_tombstone mem final (safe.1 e mem final below)).1] at found
    cases found

end TombstoneInv

theorem TombstoneInv.init : (init : WritePath γ).TombstoneInv where
  toCarries := .settled List.Pairwise.nil (.settled_none _) rfl rfl rfl
  snapshot := fun ⟨_, mem, _⟩ => absurd mem not_mem_nil
  ordered := .init

theorem TombstoneInv.step [DecidableEq γ] {s t : WritePath γ} (h : s.TombstoneInv)
    {a} (safe : s.KeepsTombstone a) (hstep : s.step a = some t) :
    t.TombstoneInv := by
  have ordered : t.Ordered := h.ordered.step hstep
  -- a scan of the write path reaches the tombstone
  have reached {i bound : ℕ} {op : AggregateOperation γ} (path : op.cachePath = .write)
      (scan : s.scanAt i = some (op, bound)) (safe : s.KeepsTombstone (.finishScan i)) :
      ∀ e ∈ s.wal, e.block.isFinal = true → e.walSeq ≤ bound := fun e mem final =>
    (safe (op, bound) scan).1 e mem final (by rw [path]; exact h.ordered.below e mem)
  cases PathStep.of_step hstep with
  | quiet _ _ core same => exact h.of_core core (same ▸ h.snapshot)
  | evicted _ core gone => exact h.of_core core (by simp [gone])
  | passed j e _ visited absent core put =>
    refine h.of_core core fun ended => ?_
    obtain ⟨e, mem, final⟩ := exists_of_ended ended
    have cached : s.writeSnapshot.isSome = true := safe ⟨e, mem, final, h.ordered.below e mem⟩
    simp [absent] at cached
  | loaded i bound op _ path scan core put => exact h.loaded core put (reached path scan safe)
  | loadedTrim i bound keepFrom u scan found core put =>
    refine (h.loaded core put (reached rfl scan safe)).appendTrim (fun ended => ?_) keepFrom
    exact h.scanned_living rfl (safe _ scan) rfl found (pipeline_of_core core ▸ ended)
  | trimmed keepFrom found above range =>
    exact h.appendTrim (h.living (view_living found) (seen_of_version (by omega))) keepFrom
  | prepared i schemaOk req task ok =>
    have dropped : (s.dropTask i).TombstoneInv := h.of_core rfl h.snapshot
    exact dropped.appendWrite (validateWrite_ok ok).1 safe
  | deleted i req living version =>
    have dropped : (s.dropTask i).TombstoneInv := h.of_core rfl h.snapshot
    exact dropped.appendDelete (h.living living (seen_of_version version)) req
  | captured idle => exact ⟨h.toCarries.capture idle, h.snapshot, ordered⟩
  | synced target isLeader gaps rest captured writing =>
    exact h.commitSync writing (safe captured writing) isLeader gaps _ ordered
  | rolledBack => exact ⟨.settled h.last_log (.settled_none _) rfl rfl rfl, h.snapshot, ordered⟩
  | dropped captured writing => exact h.drop
  | committed batch rest deferred =>
    exact h.commitPcd (safe batch (by rw [deferred]; rfl))

end WritePath

end Celeriant
