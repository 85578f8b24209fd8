import Celeriant.Shard.Steps
import Mathlib.Data.Nat.Basic

/-!
# What a step does to the segments

Most paths of `Shard.Step` leave the records of the segments alone, and those that do not fall into
a few kinds: a copy is taken or written back, a batch is committed, the active record is touched,
the cursors are rewound, the segments themselves change. `SegmentStep` lists the kinds.

The record of a segment is in three places: in memory, in the header on disk, and in the copy a
gate holder is about to write. Invariants speak of all three, because each replaces the others in
time. `RecordOrigin` says what a record may be after a step, wherever it is, so that such an
invariant is one case analysis.

## Main results

* `Shard.SegmentStep.of_step`: every step is of one of the kinds
* `Shard.record_step`: every record after a step has one of the origins
-/

namespace Celeriant

namespace ShardAction

/-- The action writes metablocks or makes a new file. -/
def writesLog : ShardAction → Bool
  | .syncSucceeded => true
  | .syncFailed _ => true
  | .rotated ok => ok
  | _ => false

/-- The action may rewind the log for a truncation. -/
def rewindsLog : ShardAction → Bool
  | .truncateGate _ => true
  | .unwindClosed => true
  | _ => false

/-- The action may advance the active read cursor to the write cursor. -/
def advancesRead : ShardAction → Bool
  | .drainParkedCommits _ => true
  | .reconcileDurableTail .commitForPromotion => true
  | .tailProvenance _ true => true
  | _ => false

theorem writesLog_of_rewindsLog {a : ShardAction} (h : a.rewindsLog = true) :
    a.writesLog = false := by
  cases a <;> first | rfl | cases h

end ShardAction

namespace Shard

variable (s : Shard)

/-- The cull an action begins. -/
def cullOf : ShardAction → Option CullTarget
  | .reconcileDurableTail .rewindToAckBarrier =>
    match s.segments.active.read with
    | some read => if read < s.segments.active.write then some (.writeToRead read) else none
    | none => none
  | .tailProvenance i false =>
    match s.culls[i]? with
    | some (.provenance _ (some read) _ _) => some (.writeToRead read)
    | _ => none
  | .ackBarrierCursor i =>
    match s.culls[i]? with
    | some (.locating barrier) => some (.bothToAckBarrier barrier)
    | _ => none
  | _ => none

/-- The truncation that rewinds the active segment to `n`. -/
def cutsTo (n : ℕ) : ShardAction → Prop
  | .truncateGate i => ∃ d, s.truncations[i]? = some (s.segments.activeLogId, d) ∧ n = d - 1
  | .unwindClosed => ∃ d, s.gate = .unwound d ∧ n = d - 1
  | _ => False

open LogSegmentFileMetadata LogSegmentsCache

/-- The batches that the step from `s` to `t` passed to `commit_pcd`. -/
def newlyCommitted (t : Shard) : List PendingCommitData :=
  t.history.committed.drop s.history.committed.length

variable {s} {t : Shard}

section Paths

variable {i read barrier : ℕ} {mode : TailReconciliation}

theorem cullOf_rewind (isRead : s.segments.active.read = some read)
    (behind : read < s.segments.active.write) :
    s.cullOf (.reconcileDurableTail .rewindToAckBarrier) = some (.writeToRead read) := by
  simp only [cullOf, isRead, behind, if_true]

theorem cullOf_tail {g n} (task : s.culls[i]? = some (.provenance mode (some read) g n)) :
    s.cullOf (.tailProvenance i false) = some (.writeToRead read) := by
  simp only [cullOf, task]

theorem cullOf_barrier (task : s.culls[i]? = some (.locating barrier)) :
    s.cullOf (.ackBarrierCursor i) = some (.bothToAckBarrier barrier) := by
  simp only [cullOf, task]

/-- Only one cull moves the read cursor. -/
theorem exists_of_barrier {a} (h : s.cullOf a = some (.bothToAckBarrier barrier)) :
    ∃ i, a = .ackBarrierCursor i := by
  cases a with
  | ackBarrierCursor i => exact ⟨i, rfl⟩
  | reconcileDurableTail mode =>
    cases mode with
    | rewindToAckBarrier =>
      simp only [cullOf] at h
      split at h
      next =>
        split at h
        · cases h
        · cases h
      next => cases h
    | commitForPromotion | reconcileAsFollower => cases h
  | tailProvenance i isPeer =>
    cases isPeer with
    | true => cases h
    | false =>
      simp only [cullOf] at h
      split at h <;> cases h
  | _ => cases h

end Paths

theorem newlyCommitted_eq_nil (h : t.history.committed = s.history.committed) :
    s.newlyCommitted t = [] := by
  rw [newlyCommitted, h, List.drop_length]

theorem newlyCommitted_eq (ps : List PendingCommitData)
    (h : t.history.committed = s.history.committed ++ ps) : s.newlyCommitted t = ps := by
  rw [newlyCommitted, h, List.drop_left]

/-- The gate holder has no copy of a record that it did not have before. -/
def ClonesKept (s t : Shard) : Prop := ∀ c, t.gate.cloneOf = some c → s.gate.cloneOf = some c

/-- What a step does to the records in memory, to the headers and to the gate holder's copy. -/
inductive SegmentStep (s : Shard) : ShardAction → Shard → Prop
  | kept {a} {t : Shard} (log : a.writesLog = false)
      (segments : t.segments = s.segments) (clones : ClonesKept s t) : SegmentStep s a t
  | cloned {a t} (log : a.writesLog = false) (g)
      (le : g ≤ s.segments.activeLogId) (segments : t.segments = s.segments)
      (clone : t.gate.cloneOf = some (g, s.segments.metadata g)) : SegmentStep s a t
  | rotated (target entries source)
      (gate : s.gate = .rotating target entries source) :
      SegmentStep s (.rotated true) (s.finishRotation target entries source)
  | synced (target entries g)
      (clone) (gate : s.gate = .writing target entries g clone) :
      SegmentStep s .syncSucceeded (s.commitSync target entries g clone)
  | syncFailed (landed target entries g)
      (clone) (gate : s.gate = .writing target entries g clone) :
      SegmentStep s (.syncFailed landed) (s.rollbackSync landed target entries g clone)
  | headerWritten (landed g clone)
      (gate : s.gate = .headerOnly g clone) :
      SegmentStep s (.headerSyncDone landed) (s.finishHeaderSync landed g clone)
  /-- the promotion floor or the ack barrier of the active record moves -/
  | touched {a t} (log : a.writesLog = false)
      (f)
      (write : (f s.segments.active).write = s.segments.active.write)
      (read : (f s.segments.active).read = s.segments.active.read)
      (acked : s.segments.active.lastSelfAckedWalSeq ≤ (f s.segments.active).lastSelfAckedWalSeq)
      (floor : a = .clearPromotionFloor ∨ s.segments.active.lastReceivedReplicationWalSeq ≤
        (f s.segments.active).lastReceivedReplicationWalSeq)
      (segments : t.segments = s.segments.updateActive f) (gate : t.gate = s.gate) :
      SegmentStep s a t
  /-- batches are committed, and the active read cursor may go to the write cursor after that -/
  | committed {a t} (log : a.writesLog = false)
      (ps) (commits : s.newlyCommitted t = ps)
      (segments : t.segments = s.segments.commitPcds ps ∨ a.advancesRead = true ∧
        t.segments = (s.segments.commitPcds ps).updateActive advanceVisiblePosition)
      (clones : ClonesKept s t) : SegmentStep s a t
  | culled {a t} (log : a.writesLog = false) (target)
      (cull : s.cullOf a = some target)
      (segments : t.segments = s.segments.updateActive target.rewind) (gate : t.gate = s.gate)
      (window : t.InCullWindow) (snapshot : t.repl.snapshot =
        s.repl.snapshot.map (·.markRemoved s.segments.activeLogId target.walSeq)) :
      SegmentStep s a t
  /-- `truncate_wal` rewinds the active segment, after committing what it keeps -/
  | truncated {a t} (rewinds : a.rewindsLog = true)
      (ps) (commits : s.newlyCommitted t = ps) (n)
      (cuts : s.cutsTo n a)
      (segments : t.segments = (s.segments.commitPcds ps).updateActive (·.truncatedTo n))
      (free : t.gate.cloneOf = none) : SegmentStep s a t
  | unwound (g d) (gate : s.gate = .unwinding g d) : SegmentStep s .unwindOpened (s.unwind g d)
  | evicted (g) :
      SegmentStep s (.evictFromLru g) { s with segments := s.segments.evictFromLru g }
  | loaded (g) (le : g ≤ s.segments.activeLogId) :
      SegmentStep s (.load g) { s with segments := s.segments.load g }
  | restarted : SegmentStep s .restart s.restart

theorem inCullWindow_beginCull (target : CullTarget) : (s.beginCull target).InCullWindow :=
  ⟨.rewound target.isBarrier, List.mem_append.mpr (.inr List.mem_cons_self), rfl⟩

/-- A drain commits what was parked. -/
theorem SegmentStep.of_advances {a} {u : Shard} {segments : LogSegmentsCache}
    {ps : List PendingCommitData} (log : a.writesLog = false) (advances : a.advancesRead = true)
    (moved : u.Advances segments) (before : u.segments = s.segments.commitPcds ps)
    (gate : u.gate = s.gate) (history : u.history.committed = s.history.committed ++ ps) :
    SegmentStep s a { u with segments } := by
  have clones : ClonesKept s { u with segments } := fun _ h => gate ▸ h
  refine .committed log ps (newlyCommitted_eq _ history) ?_ clones
  rw [← before]
  exact moved.imp_right fun h => ⟨advances, h.2⟩

/-- Every step is of one of the kinds. -/
theorem SegmentStep.of_step {a} (hstep : s.step a = some t) : SegmentStep s a t := by
  cases Step.of_step hstep with
  | fsyncWrites => exact .cloned rfl _ le_rfl rfl rfl
  | fsyncSeals | fsyncRotates | sidecarWritten | sidecarFailed | rotateFailed | truncateFailed =>
    exact .kept rfl rfl (by rintro _ ⟨⟩)
  | rotated target entries source gate => exact .rotated target entries source gate
  | syncSucceeded target entries g clone gate => exact .synced target entries g clone gate
  | syncFailed landed target entries g clone gate =>
    exact .syncFailed landed target entries g clone gate
  | headerSync g _ le => exact .cloned rfl g le rfl rfl
  | headerSyncDone landed g clone gate => exact .headerWritten landed g clone gate
  | replicationPublished ps =>
    exact .committed rfl ps (newlyCommitted_eq _ rfl) (.inl rfl) fun _ h => h
  | barrierRaised ps repl raised =>
    exact .touched rfl (·.selfAckedTo s.segments.active.readWalSeq) rfl rfl raised.le
      (.inr le_rfl) rfl rfl
  | updatePromotionFloor n =>
    exact .touched rfl (·.raiseFloor n) rfl rfl le_rfl (.inr (Nat.le_max_left _ _)) rfl rfl
  | clearPromotionFloor => exact .touched rfl (·.clearFloor) rfl rfl le_rfl (.inl rfl) rfl rfl
  | drained _ _ _ moved => exact .of_advances rfl rfl moved rfl rfl rfl
  | commitParked => exact .committed rfl _ (newlyCommitted_eq _ rfl) (.inl rfl) fun _ h => h
  | reconcileRewind read isRead behind =>
    exact .culled rfl (.writeToRead read) (cullOf_rewind isRead behind) rfl rfl
      (inCullWindow_beginCull _) (ReplTask.snapshot_mapSnapshot _ _)
  | reconcileCommit _ _ _ moved => exact .of_advances rfl rfl moved rfl rfl rfl
  | tailCommit _ _ _ _ _ _ moved => exact .of_advances rfl rfl moved rfl rfl rfl
  | tailCulled i mode read task =>
    exact .culled rfl (.writeToRead read) (cullOf_tail task) rfl rfl (inCullWindow_beginCull _)
      (ReplTask.snapshot_mapSnapshot _ _)
  | ackBarrierCursor i barrier task =>
    exact .culled rfl (.bothToAckBarrier barrier) (cullOf_barrier task) rfl rfl
      (inCullWindow_beginCull _) (ReplTask.snapshot_mapSnapshot _ _)
  | truncateInPlace i d idle task =>
    exact .truncated rfl _ (newlyCommitted_eq (s.cache.parkedUpTo (d - 1)) rfl) (d - 1)
      ⟨d, task, rfl⟩ rfl rfl
  | truncateUnwind i g d =>
    exact .committed rfl _ (newlyCommitted_eq (s.cache.parkedUpTo (d - 1)) rfl) (.inl rfl)
      (by rintro _ ⟨⟩)
  | truncateRefused i g d =>
    exact .committed rfl _ (newlyCommitted_eq (s.cache.parkedUpTo (d - 1)) rfl) (.inl rfl)
      fun _ h => h
  | unwindOpened g d gate => exact .unwound g d gate
  | unwindClosed d gate =>
    exact .truncated rfl [] (newlyCommitted_eq_nil rfl) (d - 1) ⟨d, gate, rfl⟩ rfl rfl
  | truncateHeader => exact .cloned rfl _ le_rfl rfl rfl
  | evictFromLru g => exact .evicted g
  | load g le => exact .loaded g le
  | restart => exact .restarted
  | _ => exact .kept rfl rfl fun _ h => h

/-! ## Records -/

/-- The records of a segment: in memory, in the header and in the gate holder's copy. -/
inductive Record (s : Shard) (g : ℕ) : LogSegmentFileMetadata → Prop
  | memory : Record s g (s.segments.metadata g)
  | header : Record s g (s.segments.header g)
  | clone (m) (held : s.gate.cloneOf = some (g, m)) : Record s g m

/-- A truncation that opens a sealed segment goes back to it. -/
def UnwindsBack (s : Shard) : Prop :=
  ∀ k d, s.gate = .unwinding k d → k ≤ s.segments.activeLogId

/-- The record is the new one of a segment that stays active. -/
structure ActiveRecord (s t : Shard) (g : ℕ) (m : LogSegmentFileMetadata) : Prop where
  here : g = s.segments.activeLogId
  same : t.segments.activeLogId = s.segments.activeLogId
  now : m = t.segments.active

/-- Where a record `m` of segment `g` after a step comes from. -/
inductive RecordOrigin (s : Shard) (a : ShardAction) (t : Shard) (g : ℕ)
    (m : LogSegmentFileMetadata) : Prop
  | old (record : s.Record g m)
      (le : s.UnwindsBack → g ≤ t.segments.activeLogId → g ≤ s.segments.activeLogId)
  | rotated (target entries source)
      (gate : s.gate = .rotating target entries source) (rotates : a = .rotated true)
      (eq : m = source.rotated)
  | synced (target entries clone)
      (gate : s.gate = .writing target entries g clone)
      (sync : a = .syncSucceeded ∨ a = .syncFailed true)
      (eq : m = clone.synced target entries.length)
  | touched (active : ActiveRecord s t g m) (write : m.write = s.segments.active.write)
      (read : m.read = s.segments.active.read)
  | committed (p) (commits : p ∈ s.newlyCommitted t) (logId : p.logId = g)
      (same : t.segments.activeLogId = s.segments.activeLogId)
      (eq : m = { s.segments.metadata g with read := some p.tip })
  | advanced (active : ActiveRecord s t g m) (advances : a.advancesRead = true)
      (eq : m = s.segments.active.advanceVisiblePosition)
  | culled (active : ActiveRecord s t g m) (target) (cull : s.cullOf a = some target)
      (window : t.InCullWindow) (snapshot : t.repl.snapshot =
        s.repl.snapshot.map (·.markRemoved s.segments.activeLogId target.walSeq))
      (eq : m = target.rewind s.segments.active)
  | truncated (active : ActiveRecord s t g m) (rewinds : a.rewindsLog = true) (n)
      (cuts : s.cutsTo n a) (write : m.write = n)
      (read : m.readWalSeq = n ∨ s.segments.active.readWalSeq = 0 ∧ m.readWalSeq = 0)

section Origin

variable {a g m ps}

/-- The records are where they were, apart from the one in memory. -/
theorem RecordOrigin.of_memory (record : t.Record g m)
    (active : t.segments.activeLogId = s.segments.activeLogId)
    (header : ∀ g, t.segments.header g = s.segments.header g) (clones : ClonesKept s t)
    (memory : RecordOrigin s a t g (t.segments.metadata g)) : RecordOrigin s a t g m := by
  cases record with
  | memory => exact memory
  | header =>
    rw [header]
    exact .old .header fun _ le => active ▸ le
  | clone m held => exact .old (.clone m (clones _ held)) fun _ le => active ▸ le

/-- Only the active record changes. -/
theorem RecordOrigin.of_updateActive (record : t.Record g m) {c : LogSegmentsCache}
    {f : LogSegmentFileMetadata → LogSegmentFileMetadata} (tips : SameTips s.segments c)
    (segments : t.segments = c.updateActive f) (clones : ClonesKept s t)
    (other : t.segments.activeLogId = s.segments.activeLogId → RecordOrigin s a t g (c.metadata g))
    (active : ActiveRecord s t g (f c.active) → RecordOrigin s a t g (f c.active)) :
    RecordOrigin s a t g m := by
  have same : t.segments.activeLogId = s.segments.activeLogId := by
    rw [segments]
    exact tips.activeLogId
  refine .of_memory record same (fun k => ?_) clones ?_
  · rw [segments, updateActive_header, tips.header]
  · have now : f c.active = t.segments.active := by rw [segments, updateActive_active]
    rw [segments, updateActive_metadata]
    split
    next here => exact active ⟨here.trans tips.activeLogId, same, now⟩
    next => exact other same

theorem RecordOrigin.of_commitPcds (commits : s.newlyCommitted t = ps)
    (active : t.segments.activeLogId = s.segments.activeLogId) :
    RecordOrigin s a t g ((s.segments.commitPcds ps).metadata g) := by
  rcases commitPcds_metadata (c := s.segments) ps g with eq | ⟨p, hp, logId, eq⟩
  · rw [eq]
    exact .old .memory fun _ le => active ▸ le
  · exact .committed p (commits ▸ hp) logId active eq

/-- A read cursor that goes to the write cursor does not depend on earlier commits; a truncation
leaves a missing one missing and takes any other where the write cursor goes. -/
theorem active_commitPcds (ps : List PendingCommitData) (n : ℕ) :
    (s.segments.commitPcds ps).active.advanceVisiblePosition =
      s.segments.active.advanceVisiblePosition ∧
    (((s.segments.commitPcds ps).active.truncatedTo n).readWalSeq = n ∨
      s.segments.active.readWalSeq = 0 ∧
        ((s.segments.commitPcds ps).active.truncatedTo n).readWalSeq = 0) := by
  rw [LogSegmentsCache.active, (commitPcds_sameTips ps).activeLogId]
  rcases commitPcds_metadata (c := s.segments) ps s.segments.activeLogId with eq | ⟨p, -, -, eq⟩
  · rw [eq]
    refine ⟨rfl, ?_⟩
    cases read : (s.segments.metadata s.segments.activeLogId).read with
    | none => simp [LogSegmentsCache.active, readWalSeq, truncatedTo, read]
    | some r => simp [readWalSeq, truncatedTo, read]
  · rw [eq]
    exact ⟨rfl, .inl rfl⟩

/-- The gate holder writes a header, or fails to, and is done. -/
theorem record_setHeader (record : t.Record g m) {landed : Bool} {k : ℕ} {written}
    (segments : t.segments = if landed then s.segments.setHeader k written else s.segments)
    (free : t.gate.cloneOf = none) : s.Record g m ∨ landed = true ∧ g = k ∧ m = written := by
  cases record with
  | memory =>
    have same : t.segments.metadata g = s.segments.metadata g := by
      rw [segments]
      split
      · rw [setHeader_metadata]
      · rfl
    rw [same]
    exact .inl .memory
  | header =>
    cases landed with
    | false =>
      rw [segments]
      exact .inl .header
    | true =>
      rw [segments, if_pos rfl, setHeader_header]
      split
      next here => exact .inr ⟨rfl, here, rfl⟩
      next => exact .inl .header
  | clone m held =>
    rw [free] at held
    cases held

/-- A sealed segment may be reloaded from its header. -/
theorem RecordOrigin.of_load (k : ℕ)
    (le : s.UnwindsBack → g ≤ t.segments.activeLogId → g ≤ s.segments.activeLogId) :
    RecordOrigin s a t g ((s.segments.load k).metadata g) := by
  rcases s.segments.load_metadata k g with eq | eq
  · rw [eq]
    exact .old .memory le
  · rw [eq]
    exact .old .header le

theorem metadata_commitSync (target : CommitTarget) (entries : List EntryId) (g : ℕ)
    (clone : LogSegmentFileMetadata) (k : ℕ) :
    (s.commitSync target entries g clone).segments.metadata k =
      if k = g then clone.synced target entries.length else s.segments.metadata k := by
  change ((s.segments.setHeader g _).setMetadata g _).metadata k = _
  rw [setMetadata_metadata, setHeader_metadata]

theorem record_commitSync {target} {entries : List EntryId} {k} {clone}
    (record : (s.commitSync target entries k clone).Record g m) :
    g = k ∧ m = clone.synced target entries.length ∨ g ≠ k ∧ s.Record g m := by
  cases record with
  | memory =>
    rw [metadata_commitSync]
    split
    next here => exact .inl ⟨here, rfl⟩
    next other => exact .inr ⟨other, .memory⟩
  | header =>
    change g = k ∧ ((s.segments.setHeader k _).setMetadata k _).header g = _ ∨
      g ≠ k ∧ s.Record g (((s.segments.setHeader k _).setMetadata k _).header g)
    rw [setMetadata_header, setHeader_header]
    split
    next here => exact .inl ⟨here, rfl⟩
    next other => exact .inr ⟨other, .header⟩
  | clone m held => cases held

/-- After a successful sync the record of its segment is the new one everywhere. -/
theorem record_synced (hstep : s.step .syncSucceeded = some t) {target}
    {entries : List EntryId} {clone}
    (gate : s.gate = .writing target entries g clone) (record : t.Record g m) :
    m = clone.synced target entries.length := by
  simp only [step, gate, Option.some.injEq] at hstep
  subst hstep
  rcases record_commitSync record with ⟨-, eq⟩ | ⟨ne, -⟩
  · exact eq
  · exact absurd rfl ne

/-- **Every record after a step has one of the origins.** -/
theorem record_step (hstep : s.step a = some t) (record : t.Record g m) :
    RecordOrigin s a t g m := by
  cases SegmentStep.of_step hstep with
  | kept log segments clones =>
    refine .of_memory record (by rw [segments]) (fun k => by rw [segments]) clones ?_
    rw [segments]
    exact .old .memory fun _ le => segments ▸ le
  | cloned log k le segments clone =>
    have upper : s.UnwindsBack → g ≤ t.segments.activeLogId → g ≤ s.segments.activeLogId :=
      fun _ le => segments ▸ le
    cases record with
    | memory =>
      rw [segments]
      exact .old .memory upper
    | header =>
      rw [segments]
      exact .old .header upper
    | clone m held =>
      obtain ⟨rfl, rfl⟩ := Prod.mk.inj (Option.some.inj (clone.symm.trans held))
      exact .old .memory upper
  | rotated target entries source gate =>
    have older : g ≠ s.segments.activeLogId + 1 → s.UnwindsBack →
        g ≤ s.segments.activeLogId + 1 → g ≤ s.segments.activeLogId := by omega
    cases record with
    | memory =>
      rw [finishRotation, rotateToNextLog_metadata]
      split
      · exact .rotated target entries source gate rfl rfl
      next ne => exact .old .memory (older ne)
    | header =>
      rw [finishRotation, rotateToNextLog_header]
      split
      · exact .rotated target entries source gate rfl rfl
      next ne => exact .old .header (older ne)
    | clone m held =>
      obtain ⟨-, rfl⟩ := Prod.mk.inj (Option.some.inj held)
      exact .rotated target entries source gate rfl rfl
  | synced target entries k clone gate =>
    rcases record_commitSync record with ⟨rfl, eq⟩ | ⟨-, record⟩
    · exact .synced target entries clone gate (.inl rfl) eq
    · exact .old record fun _ le => le
  | syncFailed landed target entries k clone gate =>
    rcases record_setHeader record rfl rfl with record | ⟨rfl, rfl, eq⟩
    · exact .old record fun _ le => by cases landed <;> exact le
    · exact .synced target entries clone gate (.inr rfl) eq
  | headerWritten landed k clone gate =>
    have le : s.UnwindsBack → g ≤ (s.finishHeaderSync landed k clone).segments.activeLogId →
        g ≤ s.segments.activeLogId := fun _ le => by cases landed <;> exact le
    rcases record_setHeader record rfl rfl with record | ⟨-, rfl, rfl⟩
    · exact .old record le
    · exact .old (.clone m (by rw [gate]; rfl)) le
  | touched log f write read acked floor segments gate =>
    exact .of_updateActive record (.refl _) segments (fun _ held => gate ▸ held)
      (fun same => .old .memory fun _ le => same ▸ le) fun active => .touched active write read
  | committed log ps commits segments clones =>
    have tips := commitPcds_sameTips (c := s.segments) ps
    rcases segments with segments | ⟨advances, segments⟩
    · have same : t.segments.activeLogId = s.segments.activeLogId := by
        rw [segments]
        exact tips.activeLogId
      refine .of_memory record same (fun k => by rw [segments, tips.header]) clones ?_
      rw [segments]
      exact .of_commitPcds commits same
    · exact .of_updateActive record tips segments clones (.of_commitPcds commits)
        fun active => .advanced active advances (active_commitPcds ps 0).1
  | culled log target cull segments gate window snapshot =>
    exact .of_updateActive record (.refl _) segments (fun _ held => gate ▸ held)
      (fun same => .old .memory fun _ le => same ▸ le)
      fun active => .culled active target cull window snapshot rfl
  | truncated rewinds ps commits n cuts segments free =>
    refine .of_updateActive record (commitPcds_sameTips ps) segments (fun _ held => ?_)
      (.of_commitPcds commits) fun active => .truncated active rewinds n cuts rfl ?_
    · rw [free] at held
      cases held
    · exact (active_commitPcds ps n).2
  | unwound k d gate =>
    have back : s.UnwindsBack → g ≤ k → g ≤ s.segments.activeLogId :=
      fun back le => le_trans le (back k d gate)
    cases record with
    | memory =>
      show RecordOrigin _ _ _ g (((s.segments.load k).unwindActiveToSealed k).metadata g)
      rw [unwindActiveToSealed_metadata]
      exact .of_load k back
    | header =>
      show RecordOrigin _ _ _ g (((s.segments.load k).unwindActiveToSealed k).header g)
      rw [unwindActiveToSealed_header, load_header]
      exact .old .header back
    | clone m held => cases held
  | evicted k =>
    refine .of_memory record ?_ (fun k => ?_) (fun _ held => held) ?_
    · simp
    · simp
    · simpa using .old .memory fun _ le => by simpa using le
  | loaded k le =>
    refine .of_memory record ?_ (fun k => ?_) (fun _ held => held) (.of_load k fun _ le => ?_)
    · simp
    · simp
    · simpa using le
  | restarted =>
    cases record with
    | memory | header => exact .old .header fun _ le => le
    | clone m held => cases held

/-- Only a rotation and a truncation that unwinds make another segment active. -/
theorem activeLogId_step (hstep : s.step a = some t) :
    t.segments.activeLogId = s.segments.activeLogId ∨
      a = .rotated true ∧ t.segments.activeLogId = s.segments.activeLogId + 1 ∨
      ∃ k d, s.gate = .unwinding k d ∧ a = .unwindOpened ∧ t.segments.activeLogId = k := by
  cases SegmentStep.of_step hstep with
  | kept _ segments | cloned _ _ _ segments => exact .inl (by rw [segments])
  | rotated => exact .inr (.inl ⟨rfl, rfl⟩)
  | synced | restarted => exact .inl rfl
  | syncFailed landed | headerWritten landed => cases landed <;> exact .inl rfl
  | touched _ _ _ _ _ _ segments | culled _ _ _ segments => exact .inl (by rw [segments]; rfl)
  | committed _ ps _ segments =>
    have tips := commitPcds_sameTips (c := s.segments) ps
    rcases segments with segments | ⟨-, segments⟩ <;>
      exact .inl (by rw [segments]; exact tips.activeLogId)
  | truncated _ ps _ _ _ segments =>
    exact .inl (by rw [segments]; exact (commitPcds_sameTips ps).activeLogId)
  | unwound k d gate => exact .inr (.inr ⟨k, d, gate, rfl, rfl⟩)
  | evicted k => exact .inl (evictFromLru_activeLogId _ k)
  | loaded k => exact .inl (load_activeLogId _ k)

end Origin

/-- An action that culls rewinds the active record at once. -/
theorem segments_of_cull {a target} (isCull : s.cullOf a = some target)
    (hstep : s.step a = some t) : t.segments = s.segments.updateActive target.rewind := by
  cases a with
  | reconcileDurableTail mode =>
    cases mode with
    | rewindToAckBarrier =>
      cases hstep
      simp only [cullOf] at isCull
      split at isCull
      next read isRead =>
        split at isCull
        next behind =>
          cases isCull
          simp only [reconcileDurableTail, isRead, behind, if_true]
          rfl
        next => cases isCull
      next => cases isCull
    | commitForPromotion => cases isCull
    | reconcileAsFollower => cases isCull
  | tailProvenance i isPeer =>
    cases isPeer with
    | true => cases isCull
    | false =>
      simp only [cullOf] at isCull
      split at isCull
      next mode read task =>
        cases isCull
        simp only [step, task] at hstep
        cases hstep
        rfl
      next => cases isCull
  | ackBarrierCursor i =>
    simp only [cullOf] at isCull
    split at isCull
    next barrier task =>
      cases isCull
      simp only [step, task] at hstep
      cases hstep
      rfl
    next => cases isCull
  | _ => cases isCull

end Shard

end Celeriant
