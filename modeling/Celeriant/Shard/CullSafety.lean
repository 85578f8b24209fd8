import Celeriant.Shard.Queue

/-!
# Culled entries are not committed

A cull or a truncation removes the end of the local chain. The batches whose entries it removes may
still be queued, parked, or on the stack of a replication cycle that is suspended while it sends.
The cull drops the queues, but only after an await, and nothing drops the snapshot of a suspended
cycle: when that cycle resumes, it commits or requeues entries that have left the chain
(`culled_snapshot_committed`).

Under `CullSafe` no removed entry is ever committed or requeued, no read cursor passes its write
cursor, and batches wait in the order of their tips.

## Main results

* `culled_never_committed`
* `culled_snapshot_committed`: without it, a cycle suspended across a demotion commits a culled
  entry and pushes the read cursor past the write cursor
-/

namespace Celeriant

open Transition LogSegmentsCache

/-- What the gate holder may rely on while it is suspended: a data fsync has a batch and writes to
the active segment, copies have bounded read cursors, and a segment it refers to exists. -/
def GateTask.Fits (active : ℕ) : GateTask → Prop
  | .sealing entries => entries ≠ []
  | .rotating _ entries _ => entries ≠ []
  | .writing _ entries g clone => entries ≠ [] ∧ g = active ∧ clone.ReadBounded
  | .headerOnly g clone => g ≤ active ∧ clone.ReadBounded
  | .unwinding g _ => g ≤ active
  | .idle => True
  | .unwound _ => True
  | .rewound => True

namespace Shard

/-! ## The invariant -/

/-- The batch is still on the chain: nothing of it was removed, and from its segment on it lies
below every write cursor in memory, on disk and in the copy the gate holder may be about to
write. -/
structure OnChain (s : Shard) (p : PendingCommitData) : Prop where
  unmarked : p.culled = false
  logId : p.logId ≤ s.segments.activeLogId
  record : ∀ g m, s.Record g m → p.logId ≤ g → g ≤ s.segments.activeLogId → p.tip ≤ m.write
  source : ∀ m, s.gate.sourceOf = some m → p.tip ≤ m.write

/-- The invariant of runs under `CullSafe`. -/
structure CullInv (s : Shard) : Prop where
  metadata : ∀ g, (s.segments.metadata g).ReadBounded
  header : ∀ g, (s.segments.header g).ReadBounded
  gate : s.gate.Fits s.segments.activeLogId
  live : ∀ p, s.Live p → s.OnChain p
  committed : ∀ p ∈ s.history.committed, p.culled = false
  requeued : ∀ p ∈ s.history.requeued, p.culled = false

theorem cullInv_initial : CullInv initial where
  metadata := fun _ => Nat.le_refl 0
  header := fun _ => Nat.le_refl 0
  gate := trivial
  live := by
    rintro p (h | ⟨-, h | h⟩) <;> cases h
  committed := by
    intro p h
    cases h
  requeued := by
    intro p h
    cases h

variable {s t : Shard} {a : ShardAction} {p : PendingCommitData} {g : ℕ}
  {m : LogSegmentFileMetadata}

/-! ## Records -/

theorem fits_clone {task : GateTask} {active} (fits : task.Fits active)
    (held : task.cloneOf = some (g, m)) : g ≤ active ∧ m.ReadBounded := by
  cases task with
  | writing target entries k clone =>
    cases held
    exact ⟨le_of_eq fits.2.1, fits.2.2⟩
  | headerOnly k clone =>
    cases held
    exact fits
  | _ => cases held

theorem CullInv.writing (h : s.CullInv) {target entries}
    (gate : s.gate = .writing target entries g m) : s.Record g m ∧ g = s.segments.activeLogId := by
  have fits := h.gate
  rw [gate] at fits
  exact ⟨.clone m (by rw [gate]; rfl), fits.2.1⟩

theorem CullInv.unwindsBack (h : s.CullInv) : s.UnwindsBack := by
  intro k d gate
  have fits := h.gate
  rwa [gate] at fits

theorem CullInv.readBounded (h : s.CullInv) (record : s.Record g m) : m.ReadBounded := by
  cases record with
  | memory => exact h.metadata g
  | header => exact h.header g
  | clone m held => exact (fits_clone h.gate held).2

theorem OnChain.active (h : s.OnChain p) : p.tip ≤ s.segments.active.write :=
  h.record _ _ .memory h.logId le_rfl

theorem OnChain.tip_le (h : s.OnChain p) : p.tip ≤ (s.segments.metadata p.logId).write :=
  h.record p.logId _ .memory le_rfl h.logId

/-! ## What a step hands on -/

/-- A step commits batches a cycle holds, or parked batches that no cull is about to drop. -/
theorem live_of_committed (safe : s.CullSafe a) (hstep : s.step a = some t) :
    t.history.committed = s.history.committed ++ s.newlyCommitted t ∧
      ∀ p ∈ s.newlyCommitted t, s.Live p := by
  obtain ⟨-, parked, -⟩ := safe
  have of_append : ∀ ps, t.history.committed = s.history.committed ++ ps → (∀ p ∈ ps, s.Live p) →
      t.history.committed = s.history.committed ++ s.newlyCommitted t ∧
        ∀ p ∈ s.newlyCommitted t, s.Live p := by
    intro ps eq live
    rw [newlyCommitted_eq ps eq]
    exact ⟨eq, live⟩
  have intact : s.commitsParked a = true → ∀ ps ⊆ s.cache.parkedCommits, ∀ p ∈ ps, s.Live p := by
    intro commits ps sub p hp
    rcases parked commits with out | empty
    · exact .inr ⟨out, .inr (sub hp)⟩
    · cases empty ▸ sub hp
  cases Step.of_step hstep with
  | replicationPublished ps repl =>
    exact of_append ps rfl fun p hp => .inl (by rw [repl]; exact hp)
  | drained | truncateInPlace | truncateUnwind | truncateRefused =>
    exact of_append _ rfl (intact rfl _ (List.takeWhile_sublist _).subset)
  | commitParked | reconcileCommit => exact of_append _ rfl (intact rfl _ (List.Subset.refl _))
  | tailCommit i mode read task promotion =>
    subst promotion
    exact of_append _ rfl (intact (commitsParked_tail task) _ (List.Subset.refl _))
  | _ => exact of_append [] (List.append_nil _).symm nofun

theorem live_of_requeued (hstep : s.step a = some t) (hp : p ∈ t.history.requeued) :
    p ∈ s.history.requeued ∨ s.Live p := by
  cases Step.of_step hstep with
  | replicationFailed ps repl =>
    exact (List.mem_append.mp hp).imp_right fun hp => .inl (by rw [repl]; exact hp)
  | _ => exact .inl hp

/-! ## Rewinds -/

theorem NoneWaiting.of_live {n} (none : s.NoneWaiting g n) (live : s.Live p) :
    ¬ p.RemovedBy g n := by
  refine none p ?_
  simp only [List.mem_append]
  rcases live with hp | ⟨-, hp | hp⟩ <;> tauto

/-- What waits after a truncation was not removed by it. -/
theorem tip_le_of_cutsTo (safe : s.CullSafe a) (hstep : s.step a = some t) (live : t.Live p)
    (before : s.Live p) {n} (cuts : s.cutsTo n a) : p.tip ≤ n := by
  obtain ⟨-, -, queue⟩ := safe
  cases a with
  | truncateGate i =>
    obtain ⟨d, task, rfl⟩ := cuts
    have none : s.NoneInFlight s.segments.activeLogId (d - 1) := queue _ task rfl
    have held : p ∈ s.repl.snapshot := by
      cases Step.of_step hstep with
      | truncateInPlace _ e idle other =>
        cases Option.some.inj (task.symm.trans other)
        rcases live with hp | ⟨-, hp | hp⟩
        · change p ∈ (s.repl.mapSnapshot _).snapshot at hp
          rwa [ReplTask.snapshot_mapSnapshot, activeLogId_clearForTruncate,
            PendingCommitData.map_markRemoved none] at hp
        · cases hp
        · cases hp
      | truncateUnwind | truncateRefused =>
        rcases live with hp | ⟨-, hp | hp⟩
        · exact hp
        · cases hp
        · cases hp
    exact (le_of_not_removedBy (none p held)).2
  | unwindClosed =>
    obtain ⟨d, gate, rfl⟩ := cuts
    have none : s.NoneWaiting s.segments.activeLogId (d - 1) := queue d (by rw [gate]; rfl)
    exact (le_of_not_removedBy (none.of_live before)).2
  | _ => cases cuts

/-- What waits after a cull was not removed by it. -/
theorem tip_le_of_cull {target} (safe : s.RewindSafe target) (window : t.InCullWindow)
    (snapshot : t.repl.snapshot =
      s.repl.snapshot.map (·.markRemoved s.segments.activeLogId target.walSeq))
    (live : t.Live p) : p.tip ≤ target.walSeq := by
  have held : p ∈ t.repl.snapshot := live.resolve_right fun k => k.1 window
  rw [snapshot, PendingCommitData.map_markRemoved safe.1] at held
  exact (le_of_not_removedBy (safe.1 p held)).2

/-! ## Steps and runs -/

/-- A rotation copies the active record. -/
theorem source_step (hstep : s.step a = some t) (held : t.gate.sourceOf = some m) :
    s.gate.sourceOf = some m ∨ m = s.segments.active := by
  cases Step.of_step hstep with
  | fsyncRotates | sidecarWritten => exact .inr (Option.some.inj held).symm
  | fsyncWrites | fsyncSeals | sidecarFailed | rotated | rotateFailed | syncSucceeded | syncFailed
  | headerSync | headerSyncDone | truncateInPlace | truncateUnwind | unwindOpened | unwindClosed
  | truncateHeader | truncateFailed | restart => cases held
  | _ => exact .inl held

section Step

variable (h : s.CullInv) (safe : s.CullSafe a) (hstep : s.step a = some t)
include h safe hstep

theorem CullInv.readBounded_step (record : t.Record g m) : m.ReadBounded := by
  cases record_step hstep record with
  | old record => exact h.readBounded record
  | rotated target entries source gate rotates eq =>
    rw [eq]
    exact LogSegmentFileMetadata.readBounded_rotated
  | synced target entries clone gate sync eq =>
    rw [eq]
    exact (h.readBounded (.clone clone (by rw [gate]; rfl))).synced _ _
  | touched active write read =>
    have bounded := h.readBounded (s := s) .memory (g := s.segments.activeLogId)
    unfold LogSegmentFileMetadata.ReadBounded LogSegmentFileMetadata.readWalSeq at bounded ⊢
    rw [write, read]
    exact bounded
  | committed p commits logId same eq =>
    subst logId
    rw [eq]
    exact (h.live p ((live_of_committed safe hstep).2 p commits)).tip_le
  | advanced active advances eq =>
    rw [eq]
    exact LogSegmentFileMetadata.readBounded_advanceVisiblePosition
  | culled active target cull window snapshot eq =>
    rw [eq]
    cases target with
    | writeToRead read => exact (safe.1 _ cull).2 rfl
    | bothToAckBarrier cursor => exact Nat.le_refl cursor
  | truncated active rewinds n cuts write read =>
    rw [LogSegmentFileMetadata.ReadBounded, write]
    rcases read with eq | ⟨-, eq⟩
    · exact le_of_eq eq
    · exact eq ▸ Nat.zero_le n

/-- The gate holder has what it relies on. -/
theorem CullInv.fits_step : t.gate.Fits t.segments.activeLogId := by
  have fits := h.gate
  have same : a ≠ .rotated true → a ≠ .unwindOpened → s.gate.Fits t.segments.activeLogId := by
    intro rotates unwinds
    rcases activeLogId_step hstep with eq | ⟨rotation, -⟩ | ⟨k, d, -, unwinding, -⟩
    · exact eq ▸ fits
    · exact absurd rotation rotates
    · exact absurd unwinding unwinds
  cases Step.of_step hstep with
  | fsyncWrites target ready => exact ⟨ready.2.2, rfl, h.metadata _⟩
  | fsyncSeals ready => exact ready.2.2
  | fsyncRotates target ready => exact ready.2.2
  | sidecarWritten entries gate =>
    rw [gate] at fits
    exact fits
  | rotated target entries source gate =>
    rw [gate] at fits
    exact ⟨fits, rfl, LogSegmentFileMetadata.readBounded_rotated⟩
  | headerSync g idle le => exact ⟨le, h.metadata g⟩
  | truncateHeader => exact ⟨le_rfl, h.metadata _⟩
  | truncateUnwind i g d idle task older =>
    exact le_of_lt ((activeLogId_clearForTruncate d).symm ▸ older)
  | sidecarFailed | rotateFailed | syncSucceeded | syncFailed | headerSyncDone | truncateInPlace
  | unwindOpened | unwindClosed | truncateFailed | restart => trivial
  | _ => exact same (by rintro ⟨⟩) (by rintro ⟨⟩)

/-- A batch that waited before stays on the chain. -/
theorem CullInv.onChain_step (live : t.Live p) (before : s.Live p) : t.OnChain p := by
  have old := h.live p before
  have logId : p.logId ≤ t.segments.activeLogId := by
    rcases activeLogId_step hstep with eq | ⟨-, eq⟩ | ⟨k, d, gate, rfl, active⟩
    · exact eq ▸ old.logId
    · exact eq ▸ Nat.le_succ_of_le old.logId
    · have none : s.NoneWaiting k (d - 1) := safe.2.2 (k, d) (by rw [gate]; rfl)
      rw [active]
      exact (le_of_not_removedBy (none.of_live before)).1
  refine ⟨old.unmarked, logId, fun g m record lower upper => ?_, fun m source => ?_⟩
  · cases record_step hstep record with
    | old record le => exact old.record g m record lower (le h.unwindsBack upper)
    | rotated target entries source gate rotates eq =>
      rw [eq]
      exact old.source source (by rw [gate]; rfl)
    | synced target entries clone gate sync eq =>
      obtain ⟨record, active⟩ := h.writing gate
      rw [eq, LogSegmentFileMetadata.synced_write]
      exact Nat.le_add_right_of_le (old.record g clone record lower (le_of_eq active))
    | touched active write => exact write ▸ old.active
    | committed q commits logId same eq =>
      rw [eq]
      exact old.record g (s.segments.metadata g) .memory lower (same ▸ upper)
    | advanced active advances eq =>
      rw [eq]
      exact old.active
    | culled active target cull window snapshot eq =>
      rw [eq, CullTarget.rewind_write]
      exact tip_le_of_cull (safe.1 _ cull) window snapshot live
    | truncated active rewinds n cuts write =>
      rw [write]
      exact tip_le_of_cutsTo safe hstep live before cuts
  · rcases source_step hstep source with held | rfl
    · exact old.source m held
    · exact old.active

end Step

/-- An fsync writes to the segment that stays active, and is done. -/
theorem CullInv.active_synced (h : s.CullInv) (hstep : s.step .syncSucceeded = some t)
    {target entries clone} (gate : s.gate = .writing target entries g clone) :
    g = t.segments.activeLogId ∧ t.gate = .idle := by
  have fits := h.gate
  rw [gate] at fits
  simp only [step, gate, Option.some.injEq] at hstep
  subst hstep
  exact ⟨fits.2.1, rfl⟩

/-- The batch of an fsync is on the chain: its segment is the active one, and there the new record
is everywhere. -/
theorem CullInv.onChain_synced (h : s.CullInv)
    (hstep : s.step .syncSucceeded = some t) {target entries}
    {clone} (gate : s.gate = .writing target entries g clone) :
    t.OnChain ⟨g, clone.synced target entries.length, entries, false⟩ := by
  obtain ⟨active, eq⟩ := h.active_synced hstep gate
  refine ⟨rfl, le_of_eq active, fun k m record lower upper => ?_, fun m source => ?_⟩
  · obtain rfl : g = k := le_antisymm lower (active ▸ upper)
    rw [record_synced hstep gate record]
    exact le_rfl
  · rw [eq] at source
    cases source

theorem CullInv.step (h : s.CullInv) (safe : s.CullSafe a) (hstep : s.step a = some t) :
    t.CullInv where
  metadata := fun _ => h.readBounded_step safe hstep .memory
  header := fun _ => h.readBounded_step safe hstep .header
  gate := h.fits_step safe hstep
  live := by
    intro p live
    rcases live_step safe hstep live with before | ⟨target, entries, g, clone, rfl, gate, rfl⟩
    · exact h.onChain_step safe hstep live before
    · exact h.onChain_synced hstep gate
  committed := by
    obtain ⟨eq, new⟩ := live_of_committed safe hstep
    intro p hp
    rw [eq] at hp
    rcases List.mem_append.mp hp with hp | hp
    · exact h.committed p hp
    · exact (h.live p (new p hp)).unmarked
  requeued := by
    intro p hp
    rcases live_of_requeued hstep hp with hp | hp
    · exact h.requeued p hp
    · exact (h.live p hp).unmarked

/-! ## Order -/

/-- Batches wait in the order of their tips. -/
def Ascending : List PendingCommitData → Prop := List.Pairwise fun p q => p.tip < q.tip

/-- `CullInv`, and the waiting batches are ascending. -/
structure QueueInv (s : Shard) : Prop where
  cull : s.CullInv
  queue : Ascending s.liveQueue
  parked : Ascending s.liveParked

theorem queueInv_initial : QueueInv initial :=
  ⟨cullInv_initial, List.Pairwise.nil, List.Pairwise.nil⟩

/-- What waits is below the write cursor that a suspended fsync has copied. -/
theorem CullInv.tip_le_clone (h : s.CullInv) {target}
    {g} (gate : s.gate = .writing target entries g clone) (live : s.Live p) :
    p.tip ≤ clone.write := by
  obtain ⟨record, active⟩ := h.writing gate
  have onChain := h.live p live
  exact onChain.record g clone record (active ▸ onChain.logId) (le_of_eq active)

/-- The batch of an fsync lies above everything that waits. -/
theorem CullInv.tip_lt_synced (h : s.CullInv) {target}
    {g} (gate : s.gate = .writing target entries g clone) (live : s.Live p) :
    p.tip < (clone.synced target entries.length).write := by
  have nonempty : entries ≠ [] := by
    have fits := h.gate
    rw [gate] at fits
    exact fits.1
  have below := h.tip_le_clone gate live
  have positive := List.length_pos_of_ne_nil nonempty
  rw [LogSegmentFileMetadata.synced_write]
  omega

/-- The waiting batches stay related pairwise if each is related to the batch of a later fsync. -/
theorem pairwise_step {R}
    (queue : s.liveQueue.Pairwise R) (parked : s.liveParked.Pairwise R) (safe : s.CullSafe a)
    (hstep : s.step a = some t)
    (new : ∀ {target entries g clone}, s.gate = .writing target entries g clone →
      ∀ p, s.Live p → R p ⟨g, clone.synced target entries.length, entries, false⟩) :
    t.liveQueue.Pairwise R ∧ t.liveParked.Pairwise R := by
  have concat : ∀ {ps : List PendingCommitData} {q : PendingCommitData}, ps.Pairwise R →
      (∀ p ∈ ps, R p q) → (ps ++ [q]).Pairwise R := by
    intro ps q h below
    refine List.pairwise_append.mpr ⟨h, List.pairwise_singleton _ _, fun p hp r hr => ?_⟩
    obtain rfl := List.mem_singleton.mp hr
    exact below p hp
  by_cases fsync : a = .syncSucceeded
  · subst fsync
    cases Step.of_step hstep with
    | syncSucceeded target entries g clone gate =>
      constructor
      · rcases (live_commitSync (s := s) target entries g clone).1 with eq | eq
        · rw [eq]
          exact queue
        · rw [eq]
          exact concat queue fun p hp => new gate p (live_of_mem_liveQueue hp)
      · rcases (live_commitSync (s := s) target entries g clone).2 with eq | eq
        · rw [eq]
          exact parked
        · rw [eq]
          exact concat parked fun p hp => new gate p (live_of_mem_liveParked hp)
  · have shrinks := shrinks_step safe hstep fsync
    exact ⟨queue.sublist shrinks.queue, parked.sublist shrinks.parked⟩

theorem QueueInv.step (h : s.QueueInv) (safe : s.CullSafe a)
    (hstep : s.step a = some t) : t.QueueInv := by
  obtain ⟨queue, parked⟩ := pairwise_step h.queue h.parked safe hstep
    fun gate _ live => h.cull.tip_lt_synced gate live
  exact ⟨h.cull.step safe hstep, queue, parked⟩

end Shard

/-! ## The result -/

/-- **Culled entries are never committed.** In every state of every run whose steps meet the
condition, no batch was committed or put back into the queue after a cull or a truncation had
removed one of its entries, and no read cursor is beyond its write cursor. -/
theorem culled_never_committed {s : Shard} (h : Reaches Shard.step Shard.CullSafe Shard.initial s) :
    (∀ p ∈ s.history.committed, p.culled = false) ∧
      (∀ p ∈ s.history.requeued, p.culled = false) ∧
      ∀ g, (s.segments.metadata g).ReadBounded := by
  have inv : s.CullInv :=
    h.invariant (fun _ _ _ inv safe hstep => inv.step safe hstep) Shard.cullInv_initial
  exact ⟨inv.committed, inv.requeued, inv.metadata⟩

/-- A demotion after the cycle has ended: one entry is committed, the next is culled and its
batch dropped from the queue. -/
def demotedBetweenCycles : List ShardAction :=
  [.enqueue [7], .fsyncCapture .deferToReplicationAck .fits, .syncSucceeded,
    .replicationCapture .write, .replicationPublished, .selfAck, .barrierPersisted,
    .enqueue [8], .fsyncCapture .deferToReplicationAck .fits, .syncSucceeded,
    .reconcileDurableTail .rewindToAckBarrier, .chainTipsRebuilt 0]

theorem culled_never_committed_demotion :
    ∃ s, exec Shard.step Shard.CullSafe Shard.initial demotedBetweenCycles = some s ∧
      s.history.committed.length = 1 ∧ 8 ∈ s.history.discarded ∧
      ((∀ p ∈ s.history.committed, p.culled = false) ∧
        (∀ p ∈ s.history.requeued, p.culled = false) ∧
        ∀ g, (s.segments.metadata g).ReadBounded) :=
  ⟨_, rfl, by decide, by decide, culled_never_committed (reaches_of_exec demotedBetweenCycles rfl)⟩

/-- A leader is demoted while a cycle is suspended with its one entry; the cycle then hears that
the entry was accepted. -/
def demotedMidCycle : List ShardAction :=
  [.enqueue [7], .fsyncCapture .deferToReplicationAck .fits, .syncSucceeded,
    .replicationCapture .write, .reconcileDurableTail .rewindToAckBarrier, .chainTipsRebuilt 0,
    .replicationPublished]

theorem culled_snapshot_committed :
    ∃ s, Reaches Shard.step Always Shard.initial s ∧
      (∃ p ∈ s.history.committed, p.culled = true) ∧
      s.segments.active.write < s.segments.active.readWalSeq :=
  exists_of_exec demotedMidCycle (by decide)

end Celeriant
