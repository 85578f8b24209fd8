import Celeriant.Cache.Idempotency
import Celeriant.Cache.Tombstones

/-!
# Acknowledged deletes are permanent

Once the call of a delete without `allow_recreate` has returned Ok nothing is written to the
aggregate any more and no read finds it. The write path of the aggregate is run together with the
delete call: `waiting` while the call waits for its tombstone, `acked` once it has returned. A trim
that was enqueued behind the tombstone undoes the delete: every cold load takes its metablock, the
newest, for that of a living aggregate.

## Main results

* `acknowledged_delete_is_permanent`
* `trim_behind_tombstone_revives`
-/

namespace Celeriant

open List

variable {γ : Type}

/-! ## The log and the read snapshot along a step -/

namespace WritePath

variable {s t : WritePath γ}

/-- Neither the log nor what waits for its commit is touched. -/
structure SameLog (s t : WritePath γ) : Prop where
  wal : t.wal = s.wal
  tip : t.tip = s.tip
  readCursor : t.readCursor = s.readCursor
  deferred : t.deferred = s.deferred

theorem SameLog.of_core (core : t.core = s.core) : SameLog s t := by
  obtain ⟨wal, -, -, -, deferred, tip, readCursor⟩ := core_fields core
  exact ⟨wal, tip, readCursor, deferred⟩

theorem SameLog.trans {u} (h : SameLog s t) (k : SameLog t u) : SameLog s u :=
  ⟨k.wal.trans h.wal, k.tip.trans h.tip, k.readCursor.trans h.readCursor,
    k.deferred.trans h.deferred⟩

theorem enter_same (op : AggregateOperation γ) (found : Bool) :
    SameLog s (s.enter op found) ∧ (s.enter op found).readSnapshot = s.readSnapshot := by
  rcases s.enter_cases op found with ⟨tasks, same⟩ | ⟨keepFrom, -, -, -, -, trimmed⟩
  · rw [same]
    exact ⟨⟨rfl, rfl, rfl, rfl⟩, rfl⟩
  · rw [trimmed]
    exact ⟨⟨rfl, rfl, rfl, rfl⟩, rfl⟩

theorem deleteStep_same (i : ℕ) (req : DeleteRequest) :
    SameLog s (s.deleteStep i req) ∧ (s.deleteStep i req).readSnapshot = s.readSnapshot := by
  rcases s.deleteStep_cases i req with ⟨tasks, same⟩ | ⟨-, -, deleted⟩
  · rw [same]
    exact ⟨⟨rfl, rfl, rfl, rfl⟩, rfl⟩
  · rw [deleted]
    exact ⟨⟨rfl, rfl, rfl, rfl⟩, rfl⟩

variable [DecidableEq γ]

/-- What a step does to the log and to the read snapshot. -/
inductive ReadStep (s : WritePath γ) : WriteAction γ → WritePath γ → Prop
  | same (a t) (log : SameLog s t)
      (read : t.readSnapshot = s.readSnapshot) : ReadStep s a t
  | loaded (i bound op t) (path : op.cachePath = .read)
      (scan : s.scanAt i = some (op, bound)) (log : SameLog s t)
      (read : t.readSnapshot = some (.coldLoad (s.logUpTo bound))) : ReadStep s (.finishScan i) t
  | passed (j e b t)
      (visited : s.eventBatchAt j = some (e, b)) (bounded : e.walSeq ≤ s.readCursor)
      (absent : s.readSnapshot = none) (log : SameLog s t)
      (read : t.readSnapshot = some (.ofBlock e.block)) : ReadStep s (.passAggregate .read j) t
  | evicted (t : WritePath γ) (log : SameLog s t) (read : t.readSnapshot = none) :
      ReadStep s .evictRead t
  | synced (target isLeader gaps rest)
      (captured) (writing : s.fsync = some captured) :
      ReadStep s (.syncSucceeded target isLeader gaps rest)
        (s.synced target isLeader captured gaps rest)
  | committed (batch rest)
      (deferred : s.deferred = batch :: rest) :
      ReadStep s .commitPcd ({ s with deferred := rest }.commitPcd batch)

/-- A scan of the write path leaves the read snapshot alone, one of the read path puts it. -/
theorem ReadStep.scanned {i bound op} (task : s.tasks[i]? = some ⟨op, .scanning bound⟩) :
    ReadStep s (.finishScan i)
      (((s.dropTask i).loadAggregate op.cachePath bound).enter op (s.scanFinds bound)) := by
  have loaded : SameLog s ((s.dropTask i).loadAggregate op.cachePath bound) :=
    .of_core ((s.dropTask i).loadAggregate_core op.cachePath bound)
  obtain ⟨entered, kept⟩ := enter_same (s := (s.dropTask i).loadAggregate op.cachePath bound) op
    (s.scanFinds bound)
  cases path : op.cachePath with
  | read =>
    rw [path] at loaded entered kept
    refine .loaded i bound op _ path (by rw [scanAt, task]) (loaded.trans entered) ?_
    exact kept.trans ((s.dropTask i).loadAggregate_snapshots bound).2.1
  | write =>
    rw [path] at loaded entered kept
    exact .same _ _ (loaded.trans entered)
      (kept.trans ((s.dropTask i).loadAggregate_snapshots bound).1.2)

theorem ReadStep.passing {j e} {b : EventBatch γ} (path : CachePath)
    (visited : s.eventBatchAt j = some (e, b)) (bounded : path = .read → e.walSeq ≤ s.readCursor) :
    ReadStep s (.passAggregate path j) (s.passAggregate path e b) := by
  have log : SameLog s (s.passAggregate path e b) := .of_core (s.passAggregate_core path e b)
  cases path with
  | write =>
    refine .same _ _ log ?_
    unfold passAggregate
    cases s.writeSnapshot.isSome with
    | true => rfl
    | false => exact (putClientIfAbsent_fields ..).2.2
  | read =>
    cases cached : s.readSnapshot with
    | some m => exact .same _ _ log (by simp [passAggregate, cached])
    | none =>
      exact .passed j e b _ visited (bounded rfl) cached log
        (s.passAggregate_snapshotOn .read e b cached)

theorem ReadStep.of_step {a} (hstep : s.step a = some t) : ReadStep s a t := by
  cases Step.of_step hstep with
  | entered op status _ loaded => exact .same _ _ (enter_same op _).1 (enter_same op _).2
  | scanned i op bound task => exact .scanned task
  | deleting i req task => exact .same _ _ (deleteStep_same i req).1 (deleteStep_same i req).2
  | passed path j e b visited bounded => exact .passing path visited bounded
  | clientPassedBy j e b visited =>
    obtain ⟨core, -, read⟩ := s.putClientIfAbsent_fields b.clientId b.maxClientSeq
    exact .same _ _ (.of_core core) read
  | readEvicted => exact .evicted _ ⟨rfl, rfl, rfl, rfl⟩ rfl
  | synced target isLeader gaps rest captured writing =>
    exact .synced target isLeader gaps rest captured writing
  | committed batch rest deferred => exact .committed batch rest deferred
  | _ => exact .same _ _ ⟨rfl, rfl, rfl, rfl⟩ rfl

/-! ## Bounds -/

/-- Read cursor and deferred batches end at or below the write cursor. -/
structure Bounded (s : WritePath γ) : Prop where
  cursor : s.readCursor ≤ s.tip
  deferred : ∀ batch ∈ s.deferred, batch.tip ≤ s.tip

omit [DecidableEq γ] in
theorem Bounded.congr (h : s.Bounded) (same : SameLog s t) : t.Bounded := by
  constructor
  · rw [same.readCursor, same.tip]
    exact h.cursor
  · rw [same.deferred, same.tip]
    exact h.deferred

theorem Bounded.commitSync (h : s.Bounded) (target : CommitTarget) (isLeader : Bool)
    (captured : SyncPositionsSnapshot γ) (gaps : List ℕ) (rest : ℕ) :
    (s.synced target isLeader captured gaps rest).Bounded := by
  obtain ⟨-, core⟩ := s.synced_fields target isLeader captured gaps rest
  obtain ⟨-, -, grows⟩ := stamp_ordered s.tip gaps captured.blocks
  obtain ⟨-, -, -, -, deferred, tip, readCursor⟩ := core_fields core
  constructor
  · rw [readCursor, tip]
    have := h.cursor
    split <;> omega
  · rw [deferred, tip]
    intro batch mem
    split at mem
    next =>
      have := h.deferred batch mem
      omega
    next =>
      rcases List.mem_append.mp mem with old | new
      · have := h.deferred batch old
        omega
      · obtain rfl := List.mem_singleton.mp new
        exact le_rfl

omit [DecidableEq γ] in
theorem Bounded.commitPcd (h : s.Bounded) {batch rest} (deferred : s.deferred = batch :: rest) :
    ({ s with deferred := rest }.commitPcd batch).Bounded := by
  obtain ⟨core, -⟩ := commitPcdBlocks { s with deferred := rest } batch.blocks
  obtain ⟨-, -, -, -, left, tip, -⟩ := core_fields core
  have tips := h.deferred
  rw [deferred] at tips
  constructor
  · show batch.tip ≤ (batch.blocks.foldl commitPcdBlock { s with deferred := rest }).tip
    rw [tip]
    exact tips batch List.mem_cons_self
  · show ∀ b ∈ (batch.blocks.foldl commitPcdBlock { s with deferred := rest }).deferred,
      b.tip ≤ (batch.blocks.foldl commitPcdBlock { s with deferred := rest }).tip
    rw [left, tip]
    exact fun b mem => tips b (List.mem_cons_of_mem _ mem)

theorem Bounded.step (h : s.Bounded) {a} (hstep : s.step a = some t) : t.Bounded := by
  cases ReadStep.of_step hstep with
  | same a t log read => exact h.congr log
  | loaded i bound op t path scan log read => exact h.congr log
  | passed j e b t visited bounded absent log read => exact h.congr log
  | evicted t log read => exact h.congr log
  | synced target isLeader gaps rest captured writing =>
    exact h.commitSync target isLeader captured gaps rest
  | committed batch rest deferred => exact h.commitPcd deferred

end WritePath

/-! ## The model -/

/-- The write path and the call of a delete. -/
structure DeletePath (γ : Type) where
  path : WritePath γ
  /-- the call of a delete without recreation waits for the durability of its tombstone -/
  waiting : Bool
  /-- history: the call returned Ok -/
  acked : Bool

/-- Steps of the path, the call returns, restarts. -/
inductive DeletePathAction (γ : Type)
  | write (a : WriteAction γ)
  /-- the delete call returns: its tombstone is committed and no rollback came between -/
  | acknowledge
  | restart (visits readCursor : ℕ)

namespace WritePath

variable [DecidableEq γ]

/-- The write that is enqueued by the step, if there is one. -/
def acceptsWrite (s : WritePath γ) : WriteAction γ → Bool
  | .prepare i schemaOk =>
    match s.writeAt i .validated with
    | some req => (s.validateWrite req schemaOk).isOk
    | none => false
  | _ => false

/-- The status that a read or `exists` ends with in this step: a read returns events when it is
Found, and `exists` reports a delete when it is Deleted. -/
def answersRead (s : WritePath γ) : WriteAction γ → Option AggregateStatus
  | .start .read => s.loadStatus .read
  | .finishScan i =>
    match s.tasks[i]? with
    | some ⟨.read, .scanning bound⟩ => some (MemSnapshotAggregate.coldLoad (s.logUpTo bound)).status
    | _ => none
  | _ => none

end WritePath

namespace DeletePath

variable [DecidableEq γ]

def init : DeletePath γ := ⟨.init, false, false⟩

/-- What an action of the write path does to the delete call: a rollback, or the loss of its batch,
makes it fail. -/
def waitingAfter (s : DeletePath γ) : WriteAction γ → Bool
  | .prepareDelete i => s.waiting || s.path.deletesFinally i
  | .syncFailed => false
  | .fsyncAbandoned => s.waiting && !s.path.inflight.any (·.isFinal)
  | _ => s.waiting

def step (s : DeletePath γ) : DeletePathAction γ → Option (DeletePath γ)
  | .write a => (s.path.step a).map fun path => ⟨path, s.waitingAfter a, s.acked⟩
  | .acknowledge =>
    if s.waiting = true ∧ s.path.tombstoneCommitted = true then
      some { s with waiting := false, acked := true }
    else none
  | .restart visits readCursor =>
    if readCursor ≤ s.path.tip then
      some { s with path := s.path.restart visits readCursor, waiting := false }
    else none

end DeletePath

/-- The condition on a step; a restart recovers a read cursor that covers an acknowledged
tombstone. -/
def DeletePath.KeepsTombstone (s : DeletePath γ) : DeletePathAction γ → Prop
  | .write a => s.path.KeepsTombstone a
  | .acknowledge => True
  | .restart _ readCursor =>
    s.acked = true → ∀ e ∈ s.path.wal, e.block.isFinal = true → e.walSeq ≤ readCursor

instance [DecidableEq γ] :
    DecidableRel (DeletePath.KeepsTombstone : DeletePath γ → DeletePathAction γ → Prop) :=
  fun s a => by
    induction a using DeletePathAction.casesOn <;> dsimp only [DeletePath.KeepsTombstone] <;>
      infer_instance

namespace WritePath

/-! ## The tombstone stays visible -/

theorem TombstoneInv.restart [DecidableEq γ] {s : WritePath γ} (h : s.TombstoneInv)
    (visits readCursor : ℕ) :
    (s.restart visits readCursor).TombstoneInv := by
  obtain ⟨core, -, warmed⟩ := s.restart_snapshots visits readCursor
  generalize s.restart visits readCursor = t at core warmed ⊢
  obtain ⟨wal, queue, positions, fsync, -, tip, -⟩ := core_fields core
  have log : t.log = s.log := by rw [WritePath.log, wal, WritePath.log]
  refine ⟨.settled (log ▸ h.last_log) (.settled_none _) queue positions fsync,
    fun ended m mem => ?_, ⟨?_, ?_⟩⟩
  · rw [log] at ended
    obtain ⟨e, durable, final⟩ := TombstoneInv.exists_of_ended ended
    obtain ⟨older, d, split, tombstone, recreate⟩ := h.wal_tombstone durable final
    obtain ⟨newest, last, rfl⟩ := warmed m mem
    rw [split, List.getLast?_concat, Option.some.injEq] at last
    rw [← last, tombstone]
    exact ⟨rfl, recreate⟩
  · rw [wal]
    exact h.ordered.sorted
  · rw [wal, tip]
    exact h.ordered.below

/-- The tombstone waits for its commit: it is the last metablock of a batch that comes after
everything that ends below it. -/
def Waits (s : WritePath γ) (e : DurableBlock γ) : Prop :=
  s.readCursor < e.walSeq ∧ ∃ before batch after, s.deferred = before ++ batch :: after ∧
    batch.blocks.getLast? = some e ∧ e.walSeq ≤ batch.tip ∧ ∀ b ∈ before, b.tip < e.walSeq

/-- The tombstone is committed, and the read snapshot is one of it. -/
def ShowsDeleted (s : WritePath γ) (e : DurableBlock γ) : Prop :=
  e.walSeq ≤ s.readCursor ∧ ∀ m ∈ s.readSnapshot, m.status = .deleted

/-- Every final tombstone waits for its commit or is shown. -/
def ReadsTombstone (s : WritePath γ) : Prop :=
  ∀ e ∈ s.wal, e.block.isFinal = true → s.Waits e ∨ s.ShowsDeleted e

section Reads

variable {s t : WritePath γ} {blocks : List (DurableBlock γ)} {captured : SyncPositionsSnapshot γ}

/-- A full commit that ends with a tombstone leaves its snapshot to reads. -/
theorem commitSyncBlocks_read [DecidableEq γ] (position : Option ℕ)
    {e d} (last : blocks.getLast? = some e) (tombstone : e.block = .softDelete d) :
    (blocks.foldl (commitSyncBlock · .fullCommit position) s).readSnapshot = some (.deleted d) := by
  obtain ⟨older, rfl⟩ := List.getLast?_eq_some_iff.mp last
  rw [foldl_append, foldl_cons, foldl_nil]
  generalize older.foldl (commitSyncBlock · .fullCommit position) s = u
  unfold commitSyncBlock
  rw [tombstone]
  rfl

theorem commitPcdBlocks_read {e d}
    (last : blocks.getLast? = some e) (tombstone : e.block = .softDelete d) :
    (blocks.foldl commitPcdBlock s).readSnapshot = some (.deleted d) := by
  obtain ⟨older, rfl⟩ := List.getLast?_eq_some_iff.mp last
  rw [foldl_append, foldl_cons, foldl_nil]
  generalize older.foldl commitPcdBlock s = u
  unfold commitPcdBlock
  rw [tombstone]

variable [DecidableEq γ]

omit [DecidableEq γ] in
theorem tombstoneCommitted_iff : s.tombstoneCommitted = true ↔
    ∃ e ∈ s.wal, e.block.isFinal = true ∧ e.walSeq ≤ s.readCursor := by
  simp only [tombstoneCommitted, any_eq_true, Bool.and_eq_true, decide_eq_true_iff]

/-- Behind the tombstone an fsync has nothing of the aggregate to commit. -/
theorem TombstoneInv.commitSync_idle (h : s.TombstoneInv) (ended : Ended s.log)
    (writing : s.fsync = some captured) (target : CommitTarget)
    (isLeader : Bool) (gaps : List ℕ) (rest : ℕ) :
    captured.blocks = [] ∧
      (s.synced target isLeader captured gaps rest).readSnapshot = s.readSnapshot := by
  have whole : s.pipeline = s.log ++ captured.blocks ++ s.queue := by
    rw [pipeline, inflight, writing, append_assoc]
  have last := h.last
  rw [whole] at last
  have empty : captured.blocks = [] :=
    (FinalLast.append.mp (FinalLast.append.mp last).1).2.2 ended
  refine ⟨empty, ?_⟩
  rw [synced, empty, stamp_nil]
  show (s.commitSyncPositions isLeader (positionSeq []) captured.positions).readSnapshot = _
  cases entry : captured.positions with
  | none => rfl
  | some q =>
    have pending := ((h.captured captured writing).entry (Ended.append.mpr (.inl ended)) q entry).1
    simp [commitSyncPositions, pending]

/-- **A committed tombstone stays committed and shown.** -/
theorem ShowsDeleted.step {e} (shown : s.ShowsDeleted e) (mem : e ∈ s.wal)
    (final : e.block.isFinal = true) (inv : s.TombstoneInv) (bounded : s.Bounded) {a}
    (safe : s.KeepsTombstone a) (hstep : s.step a = some t) : e ∈ t.wal ∧ t.ShowsDeleted e := by
  obtain ⟨committed, deleted⟩ := shown
  have same {u : WritePath γ} (log : SameLog s u)
      (read : ∀ m ∈ u.readSnapshot, m.status = .deleted) :
      e ∈ u.wal ∧ u.ShowsDeleted e :=
    ⟨log.wal.symm ▸ mem, log.readCursor.symm ▸ committed, read⟩
  cases ReadStep.of_step hstep with
  | same a t log read => exact same log (read ▸ deleted)
  | loaded i bound op t path scan log read =>
    -- the scan sees the committed tombstone
    have safe : s.seesTombstone op bound := safe (op, bound) scan
    have sees := safe.1 e mem final
    rw [path] at sees
    obtain ⟨-, d, -, loaded⟩ := inv.scan_tombstone mem final (sees committed)
    refine same log ?_
    rw [read, loaded]
    rintro m ⟨⟩
    rfl
  | passed j e' b t visited below absent log read =>
    have cached : s.readSnapshot.isSome = true := safe ⟨e, mem, final, committed⟩
    rw [absent] at cached
    cases cached
  | evicted t log read => exact same log (by simp [read])
  | synced target isLeader gaps rest captured writing =>
    obtain ⟨-, unread⟩ := inv.commitSync_idle ⟨_, mem_map_of_mem mem, final⟩ writing target isLeader
      gaps rest
    obtain ⟨-, core⟩ := s.synced_fields target isLeader captured gaps rest
    obtain ⟨-, -, grows⟩ := stamp_ordered s.tip gaps captured.blocks
    obtain ⟨wal, -, -, -, -, -, readCursor⟩ := core_fields core
    have cursor := bounded.cursor
    unfold ShowsDeleted
    rw [wal, readCursor, unread]
    exact ⟨mem_append_left _ mem, by split <;> omega, deleted⟩
  | committed batch rest deferred =>
    have safe : s.commitKeepsTombstone batch := safe batch (by rw [deferred]; rfl)
    obtain ⟨empty, grows⟩ := safe.1 (tombstoneCommitted_iff.mpr ⟨e, mem, final, committed⟩)
    rw [WritePath.commitPcd, empty]
    exact ⟨mem, le_trans committed grows, deleted⟩

theorem ReadsTombstone.commitSync (h : s.ReadsTombstone) (inv : s.TombstoneInv)
    (bounded : s.Bounded) (writing : s.fsync = some captured) {target}
    (safe : s.syncKeepsTombstone target captured) {isLeader gaps rest}
    (synced : t = s.synced target isLeader captured gaps rest)
    (shown : ∀ e ∈ s.wal, e.block.isFinal = true → s.ShowsDeleted e → t.ShowsDeleted e) :
    t.ReadsTombstone := by
  obtain ⟨-, core⟩ := s.synced_fields target isLeader captured gaps rest
  rw [← synced] at core
  obtain ⟨-, bounds, grows⟩ := stamp_ordered s.tip gaps captured.blocks
  obtain ⟨wal, -, -, -, deferred, -, readCursor⟩ := core_fields core
  intro e mem final
  rw [wal] at mem
  have cursor := bounded.cursor
  rcases mem_append.mp mem with old | new
  · refine (h e old final).imp ?_ (shown e old final)
    rintro ⟨uncommitted, before, batch, after, split, last, below, earlier⟩
    -- a full commit does not pass a tombstone that waits
    have deferring : target ≠ .fullCommit := by
      intro full
      have waiting : batch ∈ s.deferred := split ▸ mem_append_right _ mem_cons_self
      rw [safe.2 full batch waiting e (mem_of_getLast? last)] at final
      cases final
    unfold Waits
    rw [readCursor, deferred, if_neg deferring, if_neg deferring, split]
    exact ⟨uncommitted, before, batch, after ++ [_],
      by rw [append_assoc, cons_append], last, below, earlier⟩
  · have durable : FinalLast captured.blocks := by
      have last := inv.last
      rw [pipeline, WritePath.inflight, writing] at last
      exact (FinalLast.append.mp (FinalLast.append.mp last).2.1).1
    obtain ⟨older, stamped⟩ :=
      durable_last ((stamp_blocks s.tip gaps captured.blocks).symm ▸ durable)
      new final
    have last : (stamp s.tip gaps captured.blocks).getLast? = some e := by
      rw [stamped, List.getLast?_concat]
    obtain ⟨above, below⟩ := bounds e new
    unfold Waits ShowsDeleted
    rw [readCursor, deferred]
    by_cases full : target = .fullCommit
    · subst full
      obtain ⟨d, tombstone, -⟩ := AggregateBlock.eq_softDelete final
      refine .inr ⟨?_, ?_⟩
      · rw [if_pos rfl]
        omega
      · have shown : t.readSnapshot = some (.deleted d) :=
          synced ▸ commitSyncBlocks_read _ last tombstone
        rw [shown]
        rintro m ⟨⟩
        rfl
    · rw [if_neg full, if_neg full]
      refine .inl ⟨by omega, s.deferred, _, [], rfl, last, ?_, fun batch waiting => ?_⟩
      · show e.walSeq ≤ lastSeq s.tip (stamp s.tip gaps captured.blocks) + rest
        omega
      · have := bounded.deferred batch waiting
        omega

omit [DecidableEq γ] in
theorem ReadsTombstone.commitPcd (h : s.ReadsTombstone) {batch}
    {rest} (deferred : s.deferred = batch :: rest)
    (done : t = { s with deferred := rest }.commitPcd batch)
    (shown : ∀ e ∈ s.wal, e.block.isFinal = true → s.ShowsDeleted e → t.ShowsDeleted e) :
    t.ReadsTombstone := by
  obtain ⟨core, -⟩ := commitPcdBlocks { s with deferred := rest } batch.blocks
  obtain ⟨wal, -, -, -, left, -, -⟩ := core_fields core
  intro e mem final
  have mem : e ∈ s.wal := by
    rw [done] at mem
    exact wal ▸ mem
  rcases h e mem final with ⟨-, before, waiting, after, split, last, below, earlier⟩ | committed
  · subst done
    rw [deferred] at split
    cases before with
    | nil =>
      -- its own batch is committed
      obtain ⟨rfl, -⟩ := List.cons.inj split
      obtain ⟨d, tombstone, -⟩ := AggregateBlock.eq_softDelete final
      refine .inr ⟨below, fun m mem => ?_⟩
      cases (commitPcdBlocks_read last tombstone).symm.trans mem
      rfl
    | cons first before =>
      obtain ⟨rfl, rfl⟩ := List.cons.inj split
      exact .inl ⟨earlier _ mem_cons_self, before, waiting, after, left, last, below,
        fun b mem => earlier b (mem_cons_of_mem _ mem)⟩
  · exact .inr (shown e mem final committed)

theorem ReadsTombstone.step (h : s.ReadsTombstone) (inv : s.TombstoneInv) (bounded : s.Bounded)
    {a} (safe : s.KeepsTombstone a) (hstep : s.step a = some t) :
    t.ReadsTombstone := by
  have shown (e : DurableBlock γ) (mem : e ∈ s.wal) (final : e.block.isFinal = true)
      (shows : s.ShowsDeleted e) : t.ShowsDeleted e :=
      (shows.step mem final inv bounded safe hstep).2
  have same (log : SameLog s t) : t.ReadsTombstone := by
    intro e mem final
    rw [log.wal] at mem
    refine (h e mem final).imp ?_ (shown e mem final)
    unfold Waits
    rw [log.readCursor, log.deferred]
    exact id
  cases ReadStep.of_step hstep with
  | same a t log read => exact same log
  | loaded i bound op t path scan log read => exact same log
  | passed j e b t visited below absent log read => exact same log
  | evicted t log read => exact same log
  | synced target isLeader gaps rest captured writing =>
    exact h.commitSync inv bounded writing (safe captured writing) rfl shown
  | committed batch rest deferred => exact h.commitPcd deferred rfl shown

end Reads

end WritePath

/-! ## Runs -/

namespace DeletePath

variable [DecidableEq γ] {s t : DeletePath γ}

structure Inv (s : DeletePath γ) : Prop where
  tombstone : s.path.TombstoneInv
  bounded : s.path.Bounded
  reads : s.waiting = true ∨ s.acked = true → s.path.ReadsTombstone
  shown : s.acked = true → ∃ e ∈ s.path.wal, e.block.isFinal = true ∧ s.path.ShowsDeleted e

omit [DecidableEq γ] in
theorem Inv.init : (init : DeletePath γ).Inv where
  tombstone := .init
  bounded := ⟨Nat.le_refl 0, fun batch mem => absurd mem not_mem_nil⟩
  reads := fun called => by rcases called with waiting | acked <;> contradiction
  shown := fun acked => by contradiction

variable {a : WriteAction γ}

omit [DecidableEq γ] in
theorem waitingAfter_cases (waiting : s.waitingAfter a = true) :
    s.waiting = true ∨ ∃ i, a = .prepareDelete i ∧ s.path.deletesFinally i = true := by
  cases a with
  | prepareDelete i =>
    rcases Bool.or_eq_true_iff.mp waiting with before | now
    · exact .inl before
    · exact .inr ⟨i, rfl, now⟩
  | syncFailed => cases waiting
  | fsyncAbandoned => exact .inl (Bool.and_eq_true_iff.mp waiting).1
  | _ => exact .inl waiting

theorem Inv.write (h : s.Inv) (safe : s.path.KeepsTombstone a)
    {path} (hstep : s.path.step a = some path) :
    Inv ⟨path, s.waitingAfter a, s.acked⟩ where
  tombstone := h.tombstone.step safe hstep
  bounded := h.bounded.step hstep
  reads called := by
    have before : (s.waiting = true ∨ s.acked = true) ∨
        ∃ i, a = .prepareDelete i ∧ s.path.deletesFinally i = true := by
      rcases called with waiting | acked
      · exact (waitingAfter_cases waiting).imp_left .inl
      · exact .inl (.inr acked)
    rcases before with called | ⟨i, rfl, deletes⟩
    · exact (h.reads called).step h.tombstone h.bounded safe hstep
    · -- a call that begins to wait finds no tombstone in the log
      have living := h.tombstone.deletesFinally_living deletes
      have wal : path.wal = s.path.wal := by
        cases WritePath.ReadStep.of_step hstep with
        | same a t log read => exact log.wal
      intro e mem final
      refine absurd (Ended.append.mpr (.inl ⟨e.block, ?_, final⟩)) living
      exact mem_map_of_mem (wal ▸ mem)
  shown acked := by
    obtain ⟨e, mem, final, shown⟩ := h.shown acked
    obtain ⟨stays, shown⟩ := shown.step mem final h.tombstone h.bounded safe hstep
    exact ⟨e, stays, final, shown⟩

theorem Inv.restart (h : s.Inv) (visits : ℕ) {readCursor : ℕ} (below : readCursor ≤ s.path.tip)
    (safe : s.acked = true → ∀ e ∈ s.path.wal, e.block.isFinal = true → e.walSeq ≤ readCursor) :
    Inv { s with path := s.path.restart visits readCursor, waiting := false } := by
  have tombstone := h.tombstone.restart visits readCursor
  obtain ⟨core, read, -⟩ := s.path.restart_snapshots visits readCursor
  obtain ⟨wal, -, -, -, deferred, tip, cursor⟩ := WritePath.core_fields core
  have reads (acked : s.acked = true) (e : DurableBlock γ) (mem : e ∈ s.path.wal)
      (final : e.block.isFinal = true) : (s.path.restart visits readCursor).ShowsDeleted e := by
    refine ⟨?_, fun m cached => ?_⟩
    · rw [cursor]
      exact safe acked e mem final
    · rw [read] at cached
      cases cached
  refine ⟨tombstone, ⟨?_, ?_⟩, fun called e mem final => ?_, fun acked => ?_⟩
  · show (s.path.restart visits readCursor).readCursor ≤ (s.path.restart visits readCursor).tip
    rwa [cursor, tip]
  · show ∀ batch ∈ (s.path.restart visits readCursor).deferred, _
    rw [deferred]
    exact fun batch mem => absurd mem not_mem_nil
  · exact .inr (reads (called.resolve_left (by simp)) e (wal ▸ mem) final)
  · obtain ⟨e, mem, final, -⟩ := h.shown acked
    exact ⟨e, wal.symm ▸ mem, final, reads acked e mem final⟩

theorem Inv.step (h : s.Inv) {a : DeletePathAction γ} (safe : s.KeepsTombstone a)
    (hstep : s.step a = some t) : t.Inv ∧ (s.acked = true → t.acked = true) := by
  cases a with
  | write a =>
    obtain ⟨path, written, rfl⟩ := Option.map_eq_some_iff.mp hstep
    exact ⟨h.write safe written, fun acked => acked⟩
  | acknowledge =>
    simp only [DeletePath.step] at hstep
    split at hstep
    next returns =>
      cases hstep
      obtain ⟨e, mem, final, below⟩ := WritePath.tombstoneCommitted_iff.mp returns.2
      have reads := h.reads (.inl returns.1)
      have shown := (reads e mem final).resolve_left fun waits => Nat.not_lt.mpr below waits.1
      exact ⟨⟨h.tombstone, h.bounded, fun _ => reads, fun _ => ⟨e, mem, final, shown⟩⟩,
        fun _ => rfl⟩
    next => cases hstep
  | restart visits readCursor =>
    simp only [DeletePath.step] at hstep
    split at hstep
    next below =>
      cases hstep
      exact ⟨h.restart visits below safe, fun acked => acked⟩
    next => cases hstep

omit [DecidableEq γ] in
/-- Every write is turned away. -/
theorem Inv.rejects (h : s.Inv) (acked : s.acked = true)
    (safe : s.path.KeepsTombstone a) : s.path.acceptsWrite a = false := by
  obtain ⟨e, mem, final, -⟩ := h.shown acked
  have ended : Ended s.path.pipeline :=
    Ended.append.mpr (.inl ⟨e.block, mem_map_of_mem mem, final⟩)
  cases a with
  | prepare i schemaOk =>
    obtain ⟨deleted, recreate⟩ := h.tombstone.view_ended ended (safe ended)
    simp only [WritePath.acceptsWrite]
    split
    next req task =>
      have refused : s.path.view.check req = .error .aggregateRecreateNotAllowed := by
        simp [EventIndexes.check, deleted, recreate]
      rw [WritePath.validateWrite, refused]
      rfl
    next => rfl
  | _ => rfl

omit [DecidableEq γ] in
/-- Every read finds the tombstone. -/
theorem Inv.answers (h : s.Inv) (acked : s.acked = true)
    (safe : s.path.KeepsTombstone a) : ∀ status ∈ s.path.answersRead a, status = .deleted := by
  obtain ⟨e, mem, final, committed, shown⟩ := h.shown acked
  intro status answer
  cases a with
  | start op =>
    cases op with
    | read =>
      obtain ⟨m, cached, rfl⟩ := Option.map_eq_some_iff.mp answer
      exact shown m cached
    | write req => cases answer
    | delete req => cases answer
    | trim keepFrom => cases answer
  | finishScan i =>
    simp only [WritePath.answersRead] at answer
    split at answer
    next bound task =>
      have seen : s.path.seesTombstone .read bound :=
        safe (.read, bound) (by rw [WritePath.scanAt, task]; rfl)
      obtain ⟨-, d, -, loaded⟩ :=
        h.tombstone.scan_tombstone mem final (seen.1 e mem final committed)
      cases answer
      rw [loaded]
      rfl
    next => cases answer
  | _ => cases answer

end DeletePath

open Transition in
/-- **An acknowledged delete is permanent**: once the call of a delete without recreation has
returned Ok, no later step enqueues a write of the aggregate, and every read or `exists` that ends
later finds it deleted, in every run whose steps keep the tombstone. -/
theorem acknowledged_delete_is_permanent {γ : Type} [DecidableEq γ] {s t : DeletePath γ}
    (run : Reaches DeletePath.step DeletePath.KeepsTombstone .init s) (acked : s.acked = true)
    (later : Reaches DeletePath.step DeletePath.KeepsTombstone s t) {a : WriteAction γ}
    (safe : t.path.KeepsTombstone a) :
    t.path.acceptsWrite a = false ∧ ∀ status ∈ t.path.answersRead a, status = .deleted := by
  have inv : s.Inv := run.invariant (fun _ _ _ h safe hstep => (h.step safe hstep).1) .init
  obtain ⟨inv, acked⟩ : t.Inv ∧ t.acked = true :=
    Reaches.invariant (I := fun u => u.Inv ∧ u.acked = true)
      (fun _ _ _ h safe hstep => ⟨(h.1.step safe hstep).1, (h.1.step safe hstep).2 h.2⟩) later
      ⟨inv, acked⟩
  exact ⟨inv.rejects acked safe, inv.answers acked safe⟩

/-- Two writes of an aggregate, committed at once. -/
def twoWrites : List (WriteAction Unit) :=
  let req : WriteRequest Unit := ⟨(), [1], true, none, false⟩
  [.start (.write req), .beginScan 0, .finishScan 0, .clientCheck 0, .validate 0 true,
    .prepare 0 true,
    .start (.write req), .clientCheck 0, .validate 0 true, .prepare 0 true, .capture,
    .syncSucceeded .fullCommit false [] 0]

open Transition in
/-- A delete that is replicated and acknowledged, evictions and a restart: a read finds it deleted,
and so does one that scans the log. -/
theorem acknowledged_delete_is_permanent_restarted :
    ∃ s t : DeletePath Unit, Reaches DeletePath.step DeletePath.KeepsTombstone .init s ∧
      s.acked = true ∧ Reaches DeletePath.step DeletePath.KeepsTombstone s t ∧
      t.path.readSnapshot = none ∧ t.path.answersRead (.finishScan 0) = some .deleted := by
  let delete : List (WriteAction Unit) :=
    [.start (.delete ⟨none, false, false⟩), .prepareDelete 0, .capture,
      .syncSucceeded .deferToReplicationAck true [] 0, .commitPcd]
  let deleted : List (DeletePathAction Unit) := (twoWrites ++ delete).map .write ++ [.acknowledge]
  let reloaded : List (DeletePathAction Unit) :=
    [.write .evictWrite, .write .evictRead, .restart 0 3, .write (.start .read),
      .write (.beginScan 0)]
  obtain ⟨s, run, acked, computed⟩ : ∃ s : DeletePath Unit,
      Reaches DeletePath.step DeletePath.KeepsTombstone .init s ∧ s.acked = true ∧
      (exec DeletePath.step DeletePath.KeepsTombstone s reloaded).any (fun t => decide
        (t.path.readSnapshot = none ∧ t.path.KeepsTombstone (.finishScan 0) ∧
          (t.path.answersRead (.finishScan 0)).isSome = true)) = true :=
    exists_of_exec deleted (by decide +kernel)
  obtain ⟨t, later, evicted, safe, answered⟩ := exists_of_exec reloaded computed
  obtain ⟨status, answer⟩ := Option.isSome_iff_exists.mp answered
  have permanent := acknowledged_delete_is_permanent run acked later safe
  exact ⟨s, t, run, acked, later, evicted, permanent.2 status answer ▸ answer⟩

/-- A trim waits for its scan while the aggregate is loaded by a delete and deleted; the trim is
enqueued behind the tombstone, and the delete is acknowledged. -/
def trimBehindTombstone : List (DeletePathAction Unit) :=
  let race : List (WriteAction Unit) :=
    [.evictWrite, .start (.trim 2), .beginScan 0, .start (.delete ⟨none, false, false⟩),
      .beginScan 1,
      .finishScan 1, .prepareDelete 1, .finishScan 0, .capture,
        .syncSucceeded .fullCommit false [] 0]
  (twoWrites ++ race).map .write ++ [.acknowledge]

open Transition in
/-- The delete is acknowledged; then a read that finds the snapshot evicted takes the aggregate for
a living one, and after a restart a write is accepted. -/
theorem trim_behind_tombstone_revives :
    ∃ s : DeletePath Unit, Reaches DeletePath.step Always .init s ∧ s.acked = true ∧
      (∃ t, Reaches DeletePath.step Always s t ∧
        t.path.answersRead (.finishScan 0) = some .found) ∧
      ∃ t, Reaches DeletePath.step Always s t ∧ t.path.acceptsWrite (.prepare 0 true) = true := by
  let req : WriteRequest Unit := ⟨(), [1], true, none, false⟩
  let reading : List (DeletePathAction Unit) :=
    [.write .evictRead, .write (.start .read), .write (.beginScan 0)]
  let writing : List (DeletePathAction Unit) :=
    [.restart 1 4, .write (.start (.write req)), .write (.clientCheck 0), .write (.validate 0 true)]
  obtain ⟨s, run, acked, read, written⟩ : ∃ s : DeletePath Unit,
      Reaches DeletePath.step Always .init s ∧ s.acked = true ∧
      (exec DeletePath.step Always s reading).any (fun t => decide
        (t.path.answersRead (.finishScan 0) = some .found)) = true ∧
      (exec DeletePath.step Always s writing).any (fun t => decide
        (t.path.acceptsWrite (.prepare 0 true) = true)) = true :=
    exists_of_exec trimBehindTombstone (by decide +kernel)
  exact ⟨s, run, acked, exists_of_exec reading read, exists_of_exec writing written⟩

end Celeriant
