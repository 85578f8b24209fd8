import Celeriant.Shard.Machine

/-!
# What one step of a shard can do

`Shard.Step` lists the outcomes of an action, one constructor for each path through the code
between two awaits, with what that path has checked. Every invariant of the shard is proved by
cases on it.

## Main results

* `Shard.Step.of_step`: the step function takes no other path
-/

namespace Celeriant

namespace Shard

/-- The gate is free and there is a batch to capture. -/
def CaptureReady (s : Shard) : Prop :=
  s.gate = .idle ∧ s.cache.fsyncRollbackOccurred = false ∧ s.cache.pendingAppendQueue ≠ []

/-- The segments after a drain: the active read cursor may go to the write cursor, once nothing is
parked. -/
def Advances (s : Shard) (segments : LogSegmentsCache) : Prop :=
  segments = s.segments ∨ s.cache.parkedCommits = [] ∧
    segments = s.segments.updateActive (·.advanceVisiblePosition)

/-- The paths from one suspension point to the next. -/
inductive Step (s : Shard) : ShardAction → Shard → Prop
  | enqueue (entries) :
      Step s (.enqueue entries) { s with cache := s.cache.addToPendingQueue entries }
  | fsyncFlag (target space) (idle : s.gate = .idle)
      (flag : s.cache.fsyncRollbackOccurred = true) :
      Step s (.fsyncCapture target space)
        { s with cache := { s.cache with fsyncRollbackOccurred := false } }
  | fsyncEmpty (target space) (idle : s.gate = .idle)
      (flag : s.cache.fsyncRollbackOccurred = false) (empty : s.cache.pendingAppendQueue = []) :
      Step s (.fsyncCapture target space) s
  | fsyncWrites (target) (ready : s.CaptureReady) :
      Step s (.fsyncCapture target .fits)
        { s with
          cache := { s.cache with pendingAppendQueue := [] }
          gate := .writing target s.cache.pendingAppendQueue s.segments.activeLogId
            s.segments.active }
  | fsyncSeals (ready : s.CaptureReady) :
      Step s (.fsyncCapture .fullCommit .rotate)
        { s with
          cache := { s.cache with pendingAppendQueue := [] }
          gate := .sealing s.cache.pendingAppendQueue }
  | fsyncRotates (target) (ready : s.CaptureReady) (deferred : target ≠ .fullCommit) :
      Step s (.fsyncCapture target .rotate)
        { s with
          cache := { s.cache with pendingAppendQueue := [] }
          gate := .rotating target s.cache.pendingAppendQueue s.segments.active }
  | fsyncTooLarge (target) (ready : s.CaptureReady) :
      Step s (.fsyncCapture target .tooLarge)
        { s with
          cache := { s.cache with pendingAppendQueue := [] }
          history :=
            { s.history with
              discarded := s.history.discarded ++ s.cache.pendingAppendQueue } }
  | sidecarWritten (entries) (gate : s.gate = .sealing entries) :
      Step s (.sidecarWritten true)
        { s with gate := .rotating .fullCommit entries s.segments.active }
  | sidecarFailed (entries) (gate : s.gate = .sealing entries) :
      Step s (.sidecarWritten false) (s.abandonFsync entries)
  | rotated (target entries source)
      (gate : s.gate = .rotating target entries source) :
      Step s (.rotated true) (s.finishRotation target entries source)
  | rotateFailed (target entries)
      (source) (gate : s.gate = .rotating target entries source) :
      Step s (.rotated false) (s.abandonFsync entries)
  | syncSucceeded (target entries logId)
      (clone) (gate : s.gate = .writing target entries logId clone) :
      Step s .syncSucceeded (s.commitSync target entries logId clone)
  | syncFailed (headerLanded target entries)
      (logId) (clone)
      (gate : s.gate = .writing target entries logId clone) :
      Step s (.syncFailed headerLanded) (s.rollbackSync headerLanded target entries logId clone)
  | headerSync (logId) (idle : s.gate = .idle) (le : logId ≤ s.segments.activeLogId) :
      Step s (.headerSync logId) (s.beginHeaderSync logId)
  | headerSyncDone (landed logId clone)
      (gate : s.gate = .headerOnly logId clone) :
      Step s (.headerSyncDone landed) (s.finishHeaderSync landed logId clone)
  | replicationFlag (trigger) (idle : s.repl = .idle)
      (flag : s.cache.replicationRollbackOccurred = true) :
      Step s (.replicationCapture trigger)
        { s with cache := { s.cache with replicationRollbackOccurred := false } }
  | replicationYield (trigger) (idle : s.repl = .idle)
      (flag : s.cache.replicationRollbackOccurred = false)
      (yield : (trigger = .commitNotify ∧ s.cache.pendingReplicationBatches ≠ []) ∨
        (trigger = .write ∧ s.cache.pendingReplicationBatches = [])) :
      Step s (.replicationCapture trigger) s
  | replicationCaptured (trigger) (idle : s.repl = .idle)
      (flag : s.cache.replicationRollbackOccurred = false)
      (notify : trigger = .commitNotify → s.cache.pendingReplicationBatches = [])
      (write : trigger = .write → s.cache.pendingReplicationBatches ≠ []) :
      Step s (.replicationCapture trigger)
        { s with
          cache := { s.cache with pendingReplicationBatches := [] }
          repl := .sending s.cache.pendingReplicationBatches }
  | replicationPublished (ps) (repl : s.repl = .sending ps) :
      Step s .replicationPublished (s.publish ps)
  | replicationFailed (ps) (repl : s.repl = .sending ps) :
      Step s .replicationFailed (s.returnSnapshot ps)
  | barrierRaised (ps) (repl : s.repl = .published ps)
      (raised : s.segments.active.lastSelfAckedWalSeq < s.segments.active.readWalSeq) :
      Step s .selfAck
        { s with
          segments := s.segments.updateActive (·.selfAckedTo s.segments.active.readWalSeq)
          repl := .persisting ps }
  | barrierKept (ps) (repl : s.repl = .published ps)
      (kept : s.segments.active.readWalSeq ≤ s.segments.active.lastSelfAckedWalSeq) :
      Step s .selfAck (s.acknowledge ps)
  | leaseLost (ps) (repl : s.repl = .published ps) :
      Step s .leaseLost { s with repl := .idle }
  | barrierPersisted (ps) (repl : s.repl = .persisting ps) :
      Step s .barrierPersisted (s.acknowledge ps)
  | updatePromotionFloor (n) : Step s (.updatePromotionFloor n) (s.updatePromotionFloor n)
  | clearPromotionFloor : Step s .clearPromotionFloor s.clearPromotionFloor
  | drainNothing (n) (reached : min n s.segments.active.write ≤ s.segments.active.readWalSeq) :
      Step s (.drainParkedCommits n) s
  | drained (n segments)
      (ahead : s.segments.active.readWalSeq < min n s.segments.active.write)
      (moved : (s.commitParkedUpTo (min n s.segments.active.write)).Advances segments) :
      Step s (.drainParkedCommits n)
        { s.commitParkedUpTo (min n s.segments.active.write) with segments }
  | commitParked : Step s .commitParkedBeforeCatchup s.commitParked
  | reconcileNothing (mode armed) :
      Step s (.reconcileDurableTail mode) { s with ackBarrierRewindArmed := armed }
  | reconcileRewind (read) (isRead : s.segments.active.read = some read)
      (behind : read < s.segments.active.write) :
      Step s (.reconcileDurableTail .rewindToAckBarrier)
        ({ s with ackBarrierRewindArmed := false }.beginCull (.writeToRead read))
  | reconcileSuspend (mode armed task)
      (notRewound : task.isRewound = false) :
      Step s (.reconcileDurableTail mode)
        { s with ackBarrierRewindArmed := armed, culls := s.culls ++ [task] }
  | reconcileCommit (parked : s.cache.parkedCommits ≠ [])
      (behind : s.segments.active.readWalSeq < s.segments.active.write)
      (segments) (moved : s.commitParked.Advances segments) :
      Step s (.reconcileDurableTail .commitForPromotion) { s.commitParked with segments }
  | tailCommit (i mode read) {g n}
      (task : s.culls[i]? = some (.provenance mode read g n))
      (promotion : mode = .commitForPromotion)
      (segments) (moved : (s.dropCull i).commitParked.Advances segments) :
      Step s (.tailProvenance i true) { (s.dropCull i).commitParked with segments }
  | tailKept (i isPeer mode read) {g n} (task : s.culls[i]? = some (.provenance mode read g n)) :
      Step s (.tailProvenance i isPeer) (s.dropCull i)
  | tailCulled (i mode read) {g n}
      (task : s.culls[i]? = some (.provenance mode (some read) g n)) :
      Step s (.tailProvenance i false) ((s.dropCull i).beginCull (.writeToRead read))
  | ackBarrierCursor (i barrier) (task : s.culls[i]? = some (.locating barrier)) :
      Step s (.ackBarrierCursor i) ((s.dropCull i).beginCull (.bothToAckBarrier barrier))
  | cullFinished (i) (task : s.culls[i]? = some (.rewound false)) :
      Step s (.chainTipsRebuilt i) ((s.dropCull i).finishCull false)
  | demotionFinished (i) (task : s.culls[i]? = some (.rewound true)) :
      Step s (.chainTipsRebuilt i) ((s.dropCull i).finishCull true)
  | reconcileFailed (i task) (found : s.culls[i]? = some task) :
      Step s (.reconcileFailed i) (s.dropCull i)
  | armAckBarrierRewind : Step s .armAckBarrierRewind { s with ackBarrierRewindArmed := true }
  | truncateWal (divergentLogId divergentWalSeq)
      (barrier : s.segments.active.lastSelfAckedWalSeq < divergentWalSeq) :
      Step s (.truncateWal divergentLogId divergentWalSeq)
        { s with truncations := s.truncations ++ [(divergentLogId, divergentWalSeq)] }
  | truncateInPlace (i divergentWalSeq) (idle : s.gate = .idle)
      (task : s.truncations[i]? = some (s.segments.activeLogId, divergentWalSeq)) :
      Step s (.truncateGate i)
        ((clearForTruncate { s with truncations := s.truncations.eraseIdx i }
          divergentWalSeq).rewindActive (divergentWalSeq - 1))
  | truncateUnwind (i divergentLogId divergentWalSeq) (idle : s.gate = .idle)
      (task : s.truncations[i]? = some (divergentLogId, divergentWalSeq))
      (older : divergentLogId < s.segments.activeLogId) :
      Step s (.truncateGate i)
        { clearForTruncate { s with truncations := s.truncations.eraseIdx i } divergentWalSeq with
          gate := .unwinding divergentLogId divergentWalSeq }
  | truncateRefused (i divergentLogId divergentWalSeq) (idle : s.gate = .idle)
      (task : s.truncations[i]? = some (divergentLogId, divergentWalSeq)) :
      Step s (.truncateGate i)
        (clearForTruncate { s with truncations := s.truncations.eraseIdx i } divergentWalSeq)
  | truncateTimeout (i) :
      Step s (.truncateTimeout i) { s with truncations := s.truncations.eraseIdx i }
  | unwindOpened (divergentLogId divergentWalSeq)
      (gate : s.gate = .unwinding divergentLogId divergentWalSeq) :
      Step s .unwindOpened (s.unwind divergentLogId divergentWalSeq)
  | unwindClosed (divergentWalSeq) (gate : s.gate = .unwound divergentWalSeq) :
      Step s .unwindClosed (s.rewindActive (divergentWalSeq - 1))
  | truncateHeader (gate : s.gate = .rewound) :
      Step s .truncateHeader (s.beginHeaderSync s.segments.activeLogId)
  | truncateFailed (gate : s.gate.isTruncation = true) :
      Step s .truncateFailed { s with gate := .idle }
  | evictFromLru (logId) :
      Step s (.evictFromLru logId) { s with segments := s.segments.evictFromLru logId }
  | load (logId) (le : logId ≤ s.segments.activeLogId) :
      Step s (.load logId) { s with segments := s.segments.load logId }
  | restart : Step s .restart s.restart

variable {s t}

theorem Step.of_fsyncCapture {target space}
    (h : s.step (.fsyncCapture target space) = some t) : Step s (.fsyncCapture target space) t := by
  simp only [step] at h
  split at h
  next idle =>
    cases flag : s.cache.fsyncRollbackOccurred with
    | true =>
      rw [ShardMemCache.captureFsyncSnapshot_flag flag] at h
      cases h
      exact .fsyncFlag target space idle flag
    | false =>
      by_cases empty : s.cache.pendingAppendQueue = []
      · rw [ShardMemCache.captureFsyncSnapshot_empty flag empty] at h
        cases h
        exact .fsyncEmpty target space idle flag empty
      · rw [ShardMemCache.captureFsyncSnapshot_captured flag empty] at h
        cases h
        have ready : s.CaptureReady := ⟨idle, flag, empty⟩
        cases space with
        | fits => exact .fsyncWrites target ready
        | rotate =>
          simp only [beginFsync]
          split
          next full =>
            subst full
            exact .fsyncSeals ready
          next deferred => exact .fsyncRotates target ready deferred
        | tooLarge => exact .fsyncTooLarge target ready
  next => cases h

theorem Step.of_replicationCapture {trigger} (h : s.step (.replicationCapture trigger) = some t) :
    Step s (.replicationCapture trigger) t := by
  simp only [step] at h
  split at h
  next idle =>
    cases flag : s.cache.replicationRollbackOccurred with
    | true =>
      rw [ShardMemCache.captureReplicationSnapshot_flag flag] at h
      cases h
      exact .replicationFlag trigger idle flag
    | false =>
      rcases ShardMemCache.captureReplicationSnapshot_cases flag with
        ⟨yield, eq⟩ | ⟨notify, write, eq⟩
      · rw [eq] at h
        cases h
        exact .replicationYield trigger idle flag yield
      · rw [eq] at h
        cases h
        exact .replicationCaptured trigger idle flag notify write
  next => cases h

theorem Step.of_drainParkedCommits (n : ℕ) :
    Step s (.drainParkedCommits n) (s.drainParkedCommits n) := by
  simp only [drainParkedCommits]
  split
  next reached => exact .drainNothing n reached
  next ahead =>
    split
    next cold => exact .drained n _ (Nat.lt_of_not_le ahead) (.inr ⟨cold.2.2, rfl⟩)
    next => exact .drained n _ (Nat.lt_of_not_le ahead) (.inl rfl)

theorem exists_commitDurableTail (s : Shard) : ∃ segments, s.commitParked.Advances segments ∧
    s.commitDurableTail = { s.commitParked with segments } := by
  simp only [commitDurableTail]
  split
  · exact ⟨_, .inr ⟨rfl, rfl⟩, rfl⟩
  · exact ⟨_, .inl rfl, rfl⟩

theorem Step.of_reconcileDurableTail (mode : TailReconciliation) :
    Step s (.reconcileDurableTail mode) (s.reconcileDurableTail mode) := by
  have unchanged : Step s (.reconcileDurableTail mode) s :=
    .reconcileNothing mode s.ackBarrierRewindArmed
  cases mode with
  | rewindToAckBarrier =>
    simp only [reconcileDurableTail]
    split
    next => exact .reconcileNothing _ false
    next read hread =>
      split
      next behind => exact .reconcileRewind read hread behind
      next =>
        split
        next => exact .reconcileSuspend _ false (.locating _) rfl
        next => exact .reconcileNothing _ false
  | commitForPromotion =>
    simp only [reconcileDurableTail]
    split
    next => exact unchanged
    next behind =>
      split
      next => exact .reconcileSuspend _ s.ackBarrierRewindArmed (.provenance _ _ _ _) rfl
      next parked =>
        obtain ⟨segments, moved, eq⟩ := s.exists_commitDurableTail
        rw [eq]
        exact .reconcileCommit (by simpa using parked) (Nat.lt_of_not_le behind) segments moved
  | reconcileAsFollower =>
    simp only [reconcileDurableTail]
    split
    next => exact unchanged
    next =>
      split
      next => exact .reconcileSuspend _ s.ackBarrierRewindArmed (.provenance _ _ _ _) rfl
      next => exact unchanged

theorem Step.of_tailProvenance {i isPeer}
    (h : s.step (.tailProvenance i isPeer) = some t) : Step s (.tailProvenance i isPeer) t := by
  simp only [step] at h
  split at h
  next mode read _ _ task =>
    cases h
    cases isPeer with
    | true =>
      simp only [decideTail, if_true]
      split
      next promotion =>
        obtain ⟨segments, moved, eq⟩ := (s.dropCull i).exists_commitDurableTail
        rw [eq]
        exact .tailCommit i mode read task promotion segments moved
      next => exact .tailKept i true mode read task
    | false =>
      cases read with
      | none => exact .tailKept i false mode none task
      | some read => exact .tailCulled i mode read task
  next => cases h

theorem Step.of_truncateGate {i} (h : s.step (.truncateGate i) = some t) :
    Step s (.truncateGate i) t := by
  simp only [step] at h
  split at h
  next g d task idle =>
    cases h
    simp only [beginTruncate]
    split
    next hg =>
      subst hg
      exact .truncateInPlace i d idle task
    next =>
      split
      next older => exact .truncateUnwind i g d idle task older
      next => exact .truncateRefused i g d idle task
  next => cases h

/-- Every step is one of the listed paths. -/
theorem Step.of_step {a} (h : s.step a = some t) : Step s a t := by
  cases a
  all_goals simp only [step] at h
  case fsyncCapture target space => exact .of_fsyncCapture h
  case replicationCapture trigger => exact .of_replicationCapture h
  case tailProvenance i isPeer => exact .of_tailProvenance h
  case truncateGate i => exact .of_truncateGate h
  case drainParkedCommits n =>
    cases h
    exact .of_drainParkedCommits n
  case reconcileDurableTail mode =>
    cases h
    exact .of_reconcileDurableTail mode
  case enqueue | updatePromotionFloor | clearPromotionFloor | commitParkedBeforeCatchup |
      armAckBarrierRewind | evictFromLru | restart =>
    cases h
    constructor
  -- what the task is suspended at, or the check of the action, is what the path has checked
  case syncSucceeded | syncFailed | headerSyncDone | replicationPublished | replicationFailed |
      leaseLost | barrierPersisted | ackBarrierCursor | truncateWal | unwindOpened | unwindClosed |
      truncateHeader | truncateFailed | load =>
    split at h
    · cases h
      constructor
      assumption
    · cases h
  case sidecarWritten ok | rotated ok =>
    split at h
    · cases h
      cases ok <;> constructor <;> assumption
    · cases h
  case headerSync logId =>
    split at h
    next enabled =>
      cases h
      exact .headerSync logId enabled.1 enabled.2
    next => cases h
  case selfAck =>
    split at h
    next ps repl =>
      cases h
      simp only [selfAck]
      split
      next raised => exact .barrierRaised ps repl raised.2
      next kept => exact .barrierKept ps repl (by omega)
    next => cases h
  case chainTipsRebuilt i =>
    split at h
    next demotion task =>
      cases h
      cases demotion with
      | false => exact .cullFinished i task
      | true => exact .demotionFinished i task
    next => cases h
  case reconcileFailed i =>
    split at h
    next found =>
      cases h
      exact .reconcileFailed i s.culls[i] (List.getElem?_eq_getElem found)
    next => cases h
  case truncateTimeout i =>
    split at h
    next =>
      cases h
      exact .truncateTimeout i
    next => cases h

end Shard

end Celeriant
