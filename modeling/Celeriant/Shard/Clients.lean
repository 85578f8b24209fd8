import Celeriant.Shard.Confirm

/-!
# Acknowledged operations

Client operations on top of the shard. An operation is admitted, enqueues its metablocks and joins
the fsync cycle that will capture them, waits for that cycle, enters `replicate_durable`, and
returns. The fsync coordinator has one cycle that has not captured yet; its commit target is the one
its first caller derived from the raw status, and everyone who joins it gets the result of the
capture. `replicate_durable` re-enters the replication coordinator until the read cursor has reached
the write cursor of its entry, whichever cycle it is attached to, so a result may arrive at any
time.

The node's raw status changes at any time. An operation that was admitted by a leader but calls
`sync_durable` after a demotion has its batch parked, and then returns Ok because a node that is no
leader and has no pending bytes does not replicate (`demoted_operation_acknowledged`). Under
`ClientSafe` an acknowledged operation of a leader was fsynced and then accepted by the follower or
uploaded, and none of its metablocks was discarded.

## Main results

* `no_false_acknowledgement`: in every state of every run whose steps meet the condition
* `demoted_operation_acknowledged`: without it, an operation is acknowledged that nobody replicated
-/

namespace Celeriant

open Transition List

/-! ## Operations -/

/-- The raw status as far as the write path asks for it. -/
inductive RawRole
  | leader
  | follower
  | other
  deriving DecidableEq, Repr

/-- The commit target `sync_durable` derives from the raw status. -/
def RawRole.commitTarget : RawRole → CommitTarget
  | leader => .deferToReplicationAck
  | follower => .deferToLeaderConfirmed
  | other => .fullCommit

/-- What a client asks for. -/
inductive OperationKind
  | write
  | delete
  | trimStart
  | registerSchema
  deriving DecidableEq, Repr

/-- Whether the operation compares the rollback generation with the one at its submission. -/
def OperationKind.checksGeneration : OperationKind → Bool
  | write => true
  | delete => true
  | trimStart => true
  | registerSchema => false

/-- Where an operation is suspended. -/
inductive OperationPhase
  | admitted
  /-- attached to the fsync cycle that has not captured yet -/
  | awaitingCapture
  /-- attached to the fsync cycle that holds the gate -/
  | awaitingFsync
  /-- the cycle's Ok is delivered, the operation has not resumed -/
  | fsynced
  /-- in `replicate_durable`, with the write cursor of its entry -/
  | replicating (writeTarget : ℕ)
  | failed
  deriving DecidableEq, Repr

/-- A client operation and where it is. -/
structure Operation where
  kind : OperationKind
  /-- history: the effective status was Leader at admission -/
  asLeader : Bool
  phase : OperationPhase
  items : List EntryId
  rollbackGenAtSubmit : ℕ
  deriving DecidableEq, Repr

/-- An operation in one phase is moved to another. -/
def Operation.settle (before after : OperationPhase) (op : Operation) : Operation :=
  if op.phase = before then { op with phase := after } else op

/-- The data fsync fails, so those who wait for it do. -/
def ShardAction.failsFsync : ShardAction → Bool
  | .sidecarWritten ok => !ok
  | .rotated ok => !ok
  | .syncFailed _ => true
  | _ => false

/-- What a capture makes of the operations attached to its cycle. -/
def Shard.captureOutcome (s : Shard) (space : Shard.SpaceCheck) : OperationPhase :=
  match s.cache.captureFsyncSnapshot.1 with
  | .failed => .failed
  | .noCaptureRaceButOk => .fsynced
  | .captured _ => if space = .tooLarge then .failed else .awaitingFsync

/-- The shard with its client calls. -/
structure ShardClients where
  shard : Shard
  role : RawRole
  operations : List Operation
  /-- the commit target of the fsync cycle that has not captured yet -/
  fsyncCycle : Option CommitTarget
  /-- the identity of the next metablock -/
  nextItem : ℕ
  /-- history: the operations that returned Ok -/
  acked : List Operation

/-- A call or the shard takes a step. -/
inductive ClientAction
  | setRole (role : RawRole)
  | accept (kind : OperationKind) (asLeader : Bool)
  | submit (i n : ℕ)
  | requestSync
  | gateTimeout
  | resume (i : ℕ)
  | replicationResult (i : ℕ) (ok expired : Bool)
  | shard (action : ShardAction)
  deriving DecidableEq, Repr

namespace ShardClients

def initial : ShardClients where
  shard := .initial
  role := .other
  operations := []
  fsyncCycle := none
  nextItem := 0
  acked := []

variable (s : ShardClients)

/-- The first caller of a cycle decides its commit target. -/
def joinFsyncCycle : CommitTarget := s.fsyncCycle.getD s.role.commitTarget

/-- The metablocks are enqueued and the fsync cycle is joined, without an await in between. -/
def submit (i : ℕ) (op : Operation) (n : ℕ) : ShardClients :=
  let items := List.range' s.nextItem n
  { s with
    shard := { s.shard with cache := s.shard.cache.addToPendingQueue items }
    operations := s.operations.set i
      { op with
        phase := .awaitingCapture
        items := items
        rollbackGenAtSubmit := s.shard.cache.rollbackGeneration }
    fsyncCycle := some s.joinFsyncCycle
    nextItem := s.nextItem + n }

def fail (i : ℕ) (op : Operation) : ShardClients :=
  { s with operations := s.operations.set i { op with phase := .failed } }

/-- The generation has moved since the submission, and the operation notices. -/
def RolledBack (op : Operation) : Prop :=
  op.kind.checksGeneration = true ∧ s.shard.cache.rollbackGeneration ≠ op.rollbackGenAtSubmit
  deriving Decidable

/-- `replicate_durable` has returned Ok. -/
def finish (i : ℕ) (op : Operation) : ShardClients :=
  if s.RolledBack op then s.fail i op
  else { s with operations := s.operations.eraseIdx i, acked := s.acked ++ [op] }

/-- `replicate_durable` returns without replicating. -/
def SkipsReplication : Prop :=
  s.role ≠ .leader ∧ s.shard.cache.pendingReplicationBatches = []
  deriving Decidable

/-- The operation resumes after `sync_durable` and enters `replicate_durable`. -/
def resume (i : ℕ) (op : Operation) : ShardClients :=
  if s.RolledBack op then s.fail i op
  else if s.SkipsReplication then s.finish i op
  else
    { s with
      operations := s.operations.set i
        { op with phase := .replicating s.shard.segments.active.write } }

/-- A replication cycle has returned to the operation: the confirmation gate. -/
def confirm (i : ℕ) (op : Operation) (writeTarget : ℕ) (ok expired : Bool) : ShardClients :=
  if ok = false then s.fail i op
  else if writeTarget ≤ s.shard.segments.active.readWalSeq then s.finish i op
  else if s.role ≠ .leader ∨ expired = true then s.fail i op
  else s

/-- What a shard step does to those who wait for it. -/
def observe (a : ShardAction) (shard : Shard) : Option ShardClients :=
  match a with
  | .enqueue _ => none
  | .fsyncCapture target space =>
    if s.fsyncCycle = some target then
      some { s with
        shard
        fsyncCycle := none
        operations := s.operations.map (·.settle .awaitingCapture (s.shard.captureOutcome space)) }
    else none
  | .syncSucceeded =>
    some { s with shard, operations := s.operations.map (·.settle .awaitingFsync .fsynced) }
  | .restart => some { s with shard, operations := [], fsyncCycle := none }
  | _ =>
    some { s with
      shard
      operations :=
        if a.failsFsync then s.operations.map (·.settle .awaitingFsync .failed)
        else s.operations }

/-- One task runs to its next suspension point. -/
def step : ClientAction → Option ShardClients
  | .setRole role => some { s with role }
  | .accept kind asLeader =>
    if asLeader = true → s.role = .leader then
      some { s with operations := s.operations ++ [⟨kind, asLeader, .admitted, [], 0⟩] }
    else none
  | .submit i n =>
    match s.operations[i]? with
    | some op => if op.phase = .admitted then some (s.submit i op n) else none
    | none => none
  | .requestSync => some { s with fsyncCycle := some s.joinFsyncCycle }
  | .gateTimeout =>
    some { s with
      fsyncCycle := none
      operations := s.operations.map (·.settle .awaitingCapture .failed) }
  | .resume i =>
    match s.operations[i]? with
    | some op => if op.phase = .fsynced then some (s.resume i op) else none
    | none => none
  | .replicationResult i ok expired =>
    match s.operations[i]? with
    | some op =>
      match op.phase with
      | .replicating writeTarget => some (s.confirm i op writeTarget ok expired)
      | _ => none
    | none => none
  | .shard a => (s.shard.step a).bind fun shard => s.observe a shard

/-! ## The condition -/

/-- A fsync cycle that captures an operation of a leader defers to the replication ack: its first
caller still found the raw status Leader. -/
def captureSafe : ShardAction → Prop
  | .fsyncCapture target _ => target = .deferToReplicationAck ∨
      ∀ op ∈ s.operations, op.asLeader = true → op.phase ≠ .awaitingCapture
  | _ => True

instance (a : ShardAction) : Decidable (s.captureSafe a) := by
  induction a using ShardAction.casesOn <;> dsimp only [captureSafe] <;> infer_instance

/-- An operation that does not compare the generation finds it unchanged. -/
def GenerationKept (op : Operation) : Prop :=
  op.kind.checksGeneration = false →
    s.shard.cache.rollbackGeneration = op.rollbackGenAtSubmit

/-- **The condition on a step.** Shard steps are `ConfirmSafe`; an operation of a leader is captured
for replication, enters `replicate_durable` outside the window between a cull's rewind and its queue
drop, does not skip replication while a cycle holds a snapshot, and returns from
`register_schema` only if the generation has not moved. -/
def ClientSafe (s : ShardClients) : ClientAction → Prop
  | .shard a => s.shard.ConfirmSafe a ∧ s.captureSafe a
  | .resume i => ∀ op ∈ s.operations[i]?, op.asLeader = true →
      s.shard.PendingIntact ∧ (s.SkipsReplication → s.shard.repl.snapshot = []) ∧
        s.GenerationKept op
  | .replicationResult i _ _ => ∀ op ∈ s.operations[i]?, op.asLeader = true → s.GenerationKept op
  | _ => True

instance : DecidableRel ClientSafe := fun s a => by
  induction a using ClientAction.casesOn <;>
    dsimp only [ClientSafe, GenerationKept, Shard.PendingIntact] <;>
    infer_instance

end ShardClients

/-! ## What an operation may rely on -/

/-- The entries the operation enqueued were accepted or are in a waiting batch with `bound`, as long
as the generation has not moved. -/
def Operation.Tracked (s : Shard) (op : Operation) (bound : PendingCommitData → Prop) : Prop :=
  s.cache.rollbackGeneration = op.rollbackGenAtSubmit → ∀ e ∈ op.items,
    e ∈ s.history.accepted ∨ ∃ p ∈ s.waiting, e ∈ p.pendingQueue ∧ bound p

/-- Its entries are still in the append queue, or the capture is going to fail. -/
def Operation.Queued (s : Shard) (op : Operation) : Prop :=
  s.cache.fsyncRollbackOccurred = true ∨ ∀ e ∈ op.items, e ∈ s.cache.pendingAppendQueue

/-- Its entries are in the batch that holds the gate, to be queued for replication. -/
def Operation.Written (s : Shard) (op : Operation) : Prop :=
  ∃ entries, s.gate.fsync = some (.deferToReplicationAck, entries) ∧ ∀ e ∈ op.items, e ∈ entries

/-- Where the entries of an operation are, phase by phase. -/
def Operation.Sound (s : Shard) (op : Operation) : Prop :=
  match op.phase with
  | .admitted => True
  | .awaitingCapture => op.Queued s
  | .awaitingFsync => op.Written s
  | .fsynced => op.Tracked s fun _ => True
  | .replicating writeTarget => op.Tracked s fun p => p.tip ≤ writeTarget
  | .failed => True

section OperationSteps

variable {s t : Shard} {op : Operation} {a : ShardAction} {bound : PendingCommitData → Prop}

theorem Operation.Tracked.mono {bound' : PendingCommitData → Prop}
    (h : op.Tracked s bound) (weaker : ∀ p ∈ s.waiting, bound p → bound' p) :
    op.Tracked s bound' := by
  intro generation e he
  rcases h generation e he with accepted | ⟨p, hp, inBatch, bounded⟩
  · exact .inl accepted
  · exact .inr ⟨p, hp, inBatch, weaker p hp bounded⟩

/-- The generation never goes down while the process runs. -/
theorem generation_step (hstep : s.step a = some t) (running : a ≠ .restart) :
    s.cache.rollbackGeneration ≤ t.cache.rollbackGeneration := by
  cases Shard.Step.of_step hstep with
  | syncSucceeded target => cases target <;> exact le_rfl
  | syncFailed | demotionFinished | truncateInPlace | truncateUnwind | truncateRefused =>
    exact Nat.le_succ _
  | cullFinished =>
    change _ ≤ if s.cache.pendingReplicationBatches.isEmpty = true then _ else _
    split
    · exact le_rfl
    · exact Nat.le_succ _
  | restart => exact absurd rfl running
  | _ => exact le_rfl

theorem accepted_step (hstep : s.step a = some t) {e : EntryId} (h : e ∈ s.history.accepted) :
    e ∈ t.history.accepted := by
  rcases (Shard.history_step hstep).accepted with same | ⟨more, -⟩
  · exact same ▸ h
  · exact more ▸ mem_append_left _ h

theorem Operation.Tracked.step (h : op.Tracked s bound)
    (byTip : ∀ p q : PendingCommitData, q.tip = p.tip → bound p → bound q)
    (submitted : op.rollbackGenAtSubmit ≤ s.cache.rollbackGeneration)
    (hstep : s.step a = some t) (running : a ≠ .restart) : op.Tracked t bound := by
  intro generation e he
  have monotone := generation_step hstep running
  have before : s.cache.rollbackGeneration = op.rollbackGenAtSubmit := by omega
  rcases h before e he with accepted | ⟨p, hp, inBatch, bounded⟩
  · exact .inl (accepted_step hstep accepted)
  · rcases Shard.carried_step hstep running p hp with ⟨q, hq, same, tip⟩ | accepted | moved
    · exact .inr ⟨q, hq, same ▸ inBatch, byTip p q tip bounded⟩
    · exact .inl (accepted e inBatch)
    · omega

/-- A rollback that empties the append queue leaves the flag behind. -/
theorem Operation.Queued.rollback {mc : ShardMemCache} (h : op.Queued s)
    (flag : mc.fsyncRollbackOccurred =
      (s.cache.fsyncRollbackOccurred || !s.cache.pendingAppendQueue.isEmpty))
    (cache : t.cache = mc) : op.Queued t := by
  rcases h with raised | queued
  · left
    rw [cache, flag, raised]
    rfl
  · by_cases empty : s.cache.pendingAppendQueue = []
    · right
      intro e he
      have inEmpty := queued e he
      rw [empty] at inEmpty
      cases inEmpty
    · left
      rw [cache, flag]
      simp [empty]

theorem Operation.Queued.step (h : op.Queued s) (hstep : s.step a = some t)
    (noCapture : ∀ target space, a ≠ .fsyncCapture target space) (running : a ≠ .restart) :
    op.Queued t := by
  cases Shard.Step.of_step hstep with
  | fsyncFlag | fsyncEmpty | fsyncWrites | fsyncSeals | fsyncRotates | fsyncTooLarge =>
    exact absurd rfl (noCapture _ _)
  | enqueue entries => exact h.imp_right fun queued e he => mem_append_left _ (queued e he)
  | syncSucceeded target => cases target <;> exact h
  | syncFailed | demotionFinished | truncateInPlace | truncateUnwind | truncateRefused =>
    exact h.rollback rfl rfl
  | restart => exact absurd rfl running
  | _ => exact h

/-- The batch stays with the gate holder until the fsync ends. -/
theorem Operation.Written.step (h : op.Written s) (hstep : s.step a = some t)
    (unfinished : a ≠ .syncSucceeded) (noFailure : a.failsFsync = false)
    (running : a ≠ .restart) : op.Written t := by
  obtain ⟨entries, fsync, written⟩ := h
  refine ⟨entries, ?_, written⟩
  cases Shard.Step.of_step hstep with
  | fsyncFlag | fsyncEmpty => exact fsync
  | fsyncWrites _ ready | fsyncSeals ready | fsyncRotates _ ready | fsyncTooLarge _ ready =>
    rw [ready.1] at fsync
    cases fsync
  | headerSync g idle | truncateInPlace i d idle | truncateUnwind i g d idle
  | truncateRefused i g d idle =>
    rw [idle] at fsync
    cases fsync
  | sidecarWritten entries gate =>
    rw [gate] at fsync
    cases fsync
  | rotated target entries source gate =>
    rw [gate] at fsync
    exact fsync
  | headerSyncDone landed g clone gate | unwindOpened g d gate | unwindClosed d gate
  | truncateHeader gate =>
    rw [gate] at fsync
    cases fsync
  | truncateFailed truncation =>
    cases gate : s.gate <;> simp_all [GateTask.isTruncation, GateTask.fsync]
  | sidecarFailed | rotateFailed | syncFailed => cases noFailure
  | syncSucceeded => exact absurd rfl unfinished
  | restart => exact absurd rfl running
  | _ => exact fsync

/-- The two phases that only a shard step of the gate ends. -/
theorem Operation.Sound.step (h : op.Sound s)
    (submitted : op.rollbackGenAtSubmit ≤ s.cache.rollbackGeneration)
    (hstep : s.step a = some t) (running : a ≠ .restart)
    (queued : op.phase = .awaitingCapture → ∀ target space, a ≠ .fsyncCapture target space)
    (written : op.phase = .awaitingFsync → a ≠ .syncSucceeded ∧ a.failsFsync = false) :
    op.Sound t := by
  unfold Operation.Sound at h ⊢
  cases phase : op.phase with
  | admitted | failed => trivial
  | awaitingCapture =>
    rw [phase] at h
    exact Operation.Queued.step h hstep (queued phase) running
  | awaitingFsync =>
    rw [phase] at h
    exact Operation.Written.step h hstep (written phase).1 (written phase).2 running
  | fsynced =>
    rw [phase] at h
    exact Operation.Tracked.step h (fun _ _ _ _ => trivial) submitted hstep running
  | replicating writeTarget =>
    rw [phase] at h
    exact Operation.Tracked.step h (fun p q tip bounded => tip ▸ bounded) submitted hstep running

/-- The capture ends the wait of the operations attached to its cycle. -/
theorem Operation.Queued.captured {target : CommitTarget} {space}
    (h : op.Queued s) (replicated : target = .deferToReplicationAck)
    (hstep : s.step (.fsyncCapture target space) = some t) :
    ({ op with phase := s.captureOutcome space } : Operation).Sound t := by
  subst replicated
  cases Shard.Step.of_step hstep with
  | fsyncFlag _ _ idle flag =>
    have outcome : s.captureOutcome space = .failed := by
      rw [Shard.captureOutcome, ShardMemCache.captureFsyncSnapshot_flag flag]
    rw [outcome]
    trivial
  | fsyncEmpty _ _ idle flag empty =>
    have outcome : s.captureOutcome space = .fsynced := by
      rw [Shard.captureOutcome, ShardMemCache.captureFsyncSnapshot_empty flag empty]
    rw [outcome]
    intro _ e he
    rcases h with raised | queued
    · rw [flag] at raised
      cases raised
    · have inEmpty := queued e he
      rw [empty] at inEmpty
      cases inEmpty
  | fsyncWrites _ ready | fsyncRotates _ ready =>
    obtain ⟨-, flag, nonempty⟩ := ready
    rw [Shard.captureOutcome, ShardMemCache.captureFsyncSnapshot_captured flag nonempty]
    refine ⟨s.cache.pendingAppendQueue, rfl, h.resolve_left fun raised => ?_⟩
    rw [flag] at raised
    cases raised
  | fsyncTooLarge _ ready =>
    rw [Shard.captureOutcome, ShardMemCache.captureFsyncSnapshot_captured ready.2.1 ready.2.2]
    trivial

/-- A successful fsync queues the batch for replication. -/
theorem Operation.Written.synced (h : op.Written s) (hstep : s.step .syncSucceeded = some t) :
    ({ op with phase := .fsynced } : Operation).Sound t := by
  obtain ⟨entries, fsync, written⟩ := h
  cases Shard.Step.of_step hstep with
  | syncSucceeded target entries' g clone gate =>
    rw [gate] at fsync
    obtain ⟨rfl, rfl⟩ : target = .deferToReplicationAck ∧ entries' = entries := by
      injection fsync with fsync
      injection fsync with target entries
      exact ⟨target, entries⟩
    intro _ e he
    refine .inr ⟨⟨g, clone.synced .deferToReplicationAck entries'.length, entries', false⟩, ?_,
      written e he, trivial⟩
    exact mem_append_right _ (mem_append_right _ mem_cons_self)

/-- An operation was submitted under a past generation, and one of a leader is sound. -/
structure Operation.Fits (s : Shard) (op : Operation) : Prop where
  submitted : op.rollbackGenAtSubmit ≤ s.cache.rollbackGeneration
  sound : op.asLeader = true → op.Sound s

/-- An operation is moved to another phase, or keeps the one it has. -/
theorem Operation.Fits.settle {before after : OperationPhase}
    (submitted : op.rollbackGenAtSubmit ≤ t.cache.rollbackGeneration)
    (ends : op.asLeader = true → op.phase = before →
      ({ op with phase := after } : Operation).Sound t)
    (others : op.asLeader = true → op.phase ≠ before → op.Sound t) :
    (op.settle before after).Fits t := by
  unfold Operation.settle
  split
  next phase => exact ⟨submitted, fun leader => ends leader phase⟩
  next phase => exact ⟨submitted, fun leader => others leader phase⟩

end OperationSteps

/-! ## The invariant -/

namespace ShardClients

/-- The shard's invariants, the whereabouts of every operation of a leader, and what was accepted of
those that returned. -/
structure ClientInv (s : ShardClients) : Prop where
  confirm : s.shard.ConfirmInv
  entries : s.shard.EntryInv s.nextItem
  operations : ∀ op ∈ s.operations, op.Fits s.shard
  acked : ∀ op ∈ s.acked, op.asLeader = true → ∀ e ∈ op.items, e ∈ s.shard.history.accepted

theorem clientInv_initial : ClientInv initial where
  confirm := Shard.confirmInv_initial
  entries := Shard.entryInv_initial
  operations := nofun
  acked := nofun

variable {s t : ShardClients} {op : Operation} {shard : Shard} {i : ℕ} {a : ShardAction}

/-- Nothing waits, so what is tracked was accepted. -/
theorem accepted_of_nothing {bound : PendingCommitData → Prop}
    (tracked : op.Tracked shard bound) (nothing : shard.waiting = []) :
    shard.cache.rollbackGeneration = op.rollbackGenAtSubmit →
      ∀ e ∈ op.items, e ∈ shard.history.accepted := by
  intro generation e he
  rcases tracked generation e he with accepted | ⟨p, hp, -⟩
  · exact accepted
  · rw [nothing] at hp
    cases hp

namespace ClientInv

variable (h : s.ClientInv)
include h

/-- Only the operations change. -/
theorem setOperations {operations : List Operation}
    (fits : ∀ op ∈ operations, op.Fits s.shard) (role : RawRole)
    (fsyncCycle : Option CommitTarget) : ClientInv { s with operations, role, fsyncCycle } :=
  ⟨h.confirm, h.entries, fits, h.acked⟩

/-- One operation goes to its next phase. -/
theorem setPhase (found : s.operations[i]? = some op) (phase : OperationPhase)
    (sound : op.asLeader = true → ({ op with phase } : Operation).Sound s.shard) :
    ClientInv { s with operations := s.operations.set i { op with phase } } := by
  refine h.setOperations (fun other hother => ?_) s.role s.fsyncCycle
  rcases mem_or_eq_of_mem_set hother with old | rfl
  · exact h.operations other old
  · exact ⟨(h.operations op (mem_of_getElem? found)).submitted, sound⟩

theorem fail (found : s.operations[i]? = some op) : (s.fail i op).ClientInv :=
  h.setPhase found .failed fun _ => trivial

/-! ## Returning -/

theorem finish (found : s.operations[i]? = some op)
    (generation : op.asLeader = true → s.GenerationKept op) (accepted : op.asLeader = true →
      s.shard.cache.rollbackGeneration = op.rollbackGenAtSubmit →
        ∀ e ∈ op.items, e ∈ s.shard.history.accepted) : (s.finish i op).ClientInv := by
  unfold ShardClients.finish
  split
  · exact h.fail found
  next kept =>
    refine ⟨h.confirm, h.entries, fun other hother =>
      h.operations other (mem_of_mem_eraseIdx hother), fun other hother leader => ?_⟩
    rcases mem_append.mp hother with old | new
    · exact h.acked other old leader
    · obtain rfl := mem_singleton.mp new
      refine accepted leader ?_
      by_cases checks : other.kind.checksGeneration = true
      · by_contra moved
        exact kept ⟨checks, moved⟩
      · exact generation leader (by simpa using checks)

theorem resume (found : s.operations[i]? = some op) (phase : op.phase = .fsynced)
    (safe : op.asLeader = true → s.shard.PendingIntact ∧
      (s.SkipsReplication → s.shard.repl.snapshot = []) ∧ s.GenerationKept op) :
    (s.resume i op).ClientInv := by
  have tracked : op.asLeader = true → op.Tracked s.shard fun _ => True := by
    intro leader
    have sound := (h.operations op (mem_of_getElem? found)).sound leader
    rwa [Operation.Sound, phase] at sound
  unfold ShardClients.resume
  split
  · exact h.fail found
  split
  next skips =>
    refine h.finish found (fun leader => (safe leader).2.2) fun leader => ?_
    exact accepted_of_nothing (tracked leader)
      (Shard.waiting_eq_nil ⟨(safe leader).2.1 skips, skips.2⟩)
  next =>
    refine h.setPhase found _ fun leader => ?_
    refine (tracked leader).mono fun p hp _ => ?_
    -- outside a cull's window every waiting batch is on the chain
    have live : s.shard.Live p := by
      rcases mem_append.mp hp with hp | hp
      · exact .inl hp
      · rcases (safe leader).1 with out | empty
        · exact .inr ⟨out, .inl hp⟩
        · rw [empty] at hp
          cases hp
    exact (h.confirm.queue.cull.live p live).active

/-- The confirmation gate: a batch below the target is not waiting any more. -/
theorem confirmGate (found : s.operations[i]? = some op) {writeTarget : ℕ}
    (phase : op.phase = .replicating writeTarget) (ok expired : Bool)
    (generation : op.asLeader = true → s.GenerationKept op) :
    (s.confirm i op writeTarget ok expired).ClientInv := by
  unfold ShardClients.confirm
  split
  · exact h.fail found
  split
  next reached =>
    refine h.finish found generation fun leader generation e he => ?_
    have sound := (h.operations op (mem_of_getElem? found)).sound leader
    rw [Operation.Sound, phase] at sound
    rcases sound generation e he with accepted | ⟨p, hp, -, below⟩
    · exact accepted
    · have behind := (h.confirm.behind p hp).active
      omega
  next =>
    split
    · exact h.fail found
    · exact h

/-! ## Steps -/

theorem submit (i : ℕ) (op : Operation) (n : ℕ) : (s.submit i op n).ClientInv := by
  have enqueued : s.shard.step (.enqueue (List.range' s.nextItem n)) =
      some { s.shard with cache := s.shard.cache.addToPendingQueue (List.range' s.nextItem n) } :=
    rfl
  have safe : s.shard.ConfirmSafe (.enqueue (List.range' s.nextItem n)) :=
    ⟨⟨nofun, nofun, trivial⟩, trivial, nofun⟩
  refine ⟨h.confirm.step safe enqueued, h.entries.step h.confirm.queue.cull rfl enqueued,
    ?_, h.acked⟩
  intro other hother
  rcases mem_or_eq_of_mem_set hother with old | rfl
  · obtain ⟨submitted, sound⟩ := h.operations other old
    exact ⟨submitted, fun leader => (sound leader).step submitted enqueued nofun (fun _ => nofun)
      fun _ => ⟨nofun, rfl⟩⟩
  · exact ⟨le_rfl, fun _ => .inr fun e he => mem_append_right _ he⟩

/-- The shard makes a step; operations whose phase it does not end keep theirs. -/
theorem shardStep (safe : s.shard.ConfirmSafe a) (noEnqueue : ∀ entries, a ≠ .enqueue entries)
    (hstep : s.shard.step a = some shard) (operations : List Operation)
    (fits : ∀ op ∈ operations, op.Fits shard) (fsyncCycle : Option CommitTarget) :
    ClientInv { s with shard, operations, fsyncCycle } where
  confirm := h.confirm.step safe hstep
  entries := h.entries.step (n := 0) h.confirm.queue.cull (Shard.enqueued_eq_nil noEnqueue) hstep
  operations := fits
  acked := fun op hop leader e he => accepted_step hstep (h.acked op hop leader e he)

/-- The shard makes a step that moves the operations of one phase to another. -/
theorem shardSettle (safe : s.shard.ConfirmSafe a) (noEnqueue : ∀ entries, a ≠ .enqueue entries)
    (hstep : s.shard.step a = some shard) (running : a ≠ .restart) (before after : OperationPhase)
    (ends : ∀ op ∈ s.operations, op.asLeader = true → op.phase = before → op.Sound s.shard →
      ({ op with phase := after } : Operation).Sound shard)
    (others : ∀ op ∈ s.operations, op.asLeader = true → op.phase ≠ before → op.Sound shard)
    (fsyncCycle : Option CommitTarget) :
    ClientInv { s with
      shard, operations := s.operations.map (·.settle before after), fsyncCycle } := by
  have monotone := generation_step hstep running
  refine h.shardStep safe noEnqueue hstep _ (forall_mem_map.mpr fun op hop => ?_) fsyncCycle
  obtain ⟨submitted, sound⟩ := h.operations op hop
  exact .settle (le_trans submitted monotone)
    (fun leader phase => ends op hop leader phase (sound leader)) (others op hop)

theorem observe (safe : s.shard.ConfirmSafe a) (capture : s.captureSafe a)
    (hstep : s.shard.step a = some shard) (hobserve : s.observe a shard = some t) :
    t.ClientInv := by
  -- an operation whose wait the step does not end
  have unaffected : a ≠ .restart → ∀ op ∈ s.operations, op.asLeader = true →
      (op.phase = .awaitingCapture → ∀ target space, a ≠ .fsyncCapture target space) →
      (op.phase = .awaitingFsync → a ≠ .syncSucceeded ∧ a.failsFsync = false) →
      op.Sound shard := fun running op hop leader queued written =>
    ((h.operations op hop).sound leader).step
    (h.operations op hop).submitted hstep running queued written
  have plain : (∀ entries, a ≠ .enqueue entries) → a ≠ .restart → a ≠ .syncSucceeded →
      (∀ target space, a ≠ .fsyncCapture target space) →
      ClientInv { s with
        shard
        operations :=
          if a.failsFsync then s.operations.map (·.settle .awaitingFsync .failed)
          else s.operations } := by
    intro noEnqueue running unfinished noCapture
    split
    next fails =>
      exact h.shardSettle safe noEnqueue hstep running .awaitingFsync .failed
        (fun _ _ _ _ _ => trivial)
        (fun op hop leader phase => unaffected running op hop leader (fun _ => noCapture)
          fun k => absurd k phase) s.fsyncCycle
    next keeps =>
      have keeps : a.failsFsync = false := by simpa using keeps
      have monotone := generation_step hstep running
      exact h.shardStep safe noEnqueue hstep _
        (fun op hop => ⟨le_trans (h.operations op hop).submitted monotone, fun leader =>
          unaffected running op hop leader (fun _ => noCapture) fun _ => ⟨unfinished, keeps⟩⟩)
        s.fsyncCycle
  cases a with
  | enqueue entries => cases hobserve
  | restart =>
    cases hobserve
    exact h.shardStep safe nofun hstep [] nofun none
  | syncSucceeded =>
    cases hobserve
    refine h.shardSettle safe nofun hstep nofun _ _ (fun op hop leader phase sound => ?_)
      (fun op hop leader phase => ?_) s.fsyncCycle
    · rw [Operation.Sound, phase] at sound
      exact Operation.Written.synced sound hstep
    · exact unaffected nofun op hop leader (fun _ => nofun) fun k => absurd k phase
  | fsyncCapture target space =>
    simp only [observe] at hobserve
    split at hobserve
    case isFalse => cases hobserve
    case isTrue =>
      cases hobserve
      refine h.shardSettle safe nofun hstep nofun _ _ (fun op hop leader phase sound => ?_)
        (fun op hop leader phase => ?_) none
      · rw [Operation.Sound, phase] at sound
        refine Operation.Queued.captured sound ?_ hstep
        exact capture.resolve_right fun nobody => nobody op hop leader phase
      · exact unaffected nofun op hop leader (fun k => absurd k phase) fun _ => ⟨nofun, rfl⟩
  | _ =>
    cases hobserve
    exact plain nofun nofun nofun nofun

theorem step {a : ClientAction} (safe : s.ClientSafe a)
    (hstep : s.step a = some t) : t.ClientInv := by
  cases a
  all_goals simp only [ShardClients.step] at hstep
  case setRole role =>
    cases hstep
    exact h.setOperations h.operations role s.fsyncCycle
  case accept kind asLeader =>
    split at hstep
    case isFalse => cases hstep
    case isTrue =>
      cases hstep
      refine h.setOperations (forall_mem_append.mpr ⟨h.operations, ?_⟩) s.role s.fsyncCycle
      exact forall_mem_singleton.mpr ⟨Nat.zero_le _, fun _ => trivial⟩
  case submit i n =>
    split at hstep
    case h_2 => cases hstep
    case h_1 op found =>
      split at hstep
      case isFalse => cases hstep
      case isTrue =>
        cases hstep
        exact h.submit i op n
  case requestSync =>
    cases hstep
    exact h.setOperations h.operations s.role _
  case gateTimeout =>
    cases hstep
    refine h.setOperations (forall_mem_map.mpr fun op hop => ?_) s.role none
    obtain ⟨submitted, sound⟩ := h.operations op hop
    exact .settle submitted (fun _ _ => trivial) fun leader _ => sound leader
  case resume i =>
    split at hstep
    case h_2 => cases hstep
    case h_1 op found =>
      split at hstep
      case isFalse => cases hstep
      case isTrue phase =>
        cases hstep
        exact h.resume found phase (safe op found)
  case replicationResult i ok expired =>
    split at hstep
    case h_2 => cases hstep
    case h_1 op found =>
      split at hstep
      case h_1 writeTarget phase =>
        cases hstep
        exact h.confirmGate found phase ok expired (safe op found)
      case h_2 => cases hstep
  case shard a =>
    obtain ⟨shard, hshard, hobserve⟩ := Option.bind_eq_some_iff.mp hstep
    exact h.observe safe.1 safe.2 hshard hobserve

end ClientInv

end ShardClients

/-! ## The result -/

/-- **No false acknowledgement.** In every state of every run whose steps meet the condition, every
metablock of an operation that was admitted by a leader and returned Ok was in an fsync cycle that
succeeded and in a replication cycle that was accepted, and was not discarded. Nothing is accepted
before it is fsynced. -/
theorem no_false_acknowledgement {s : ShardClients}
    (h : Reaches ShardClients.step ShardClients.ClientSafe ShardClients.initial s) :
    (∀ op ∈ s.acked, op.asLeader = true → ∀ e ∈ op.items,
      e ∈ s.shard.history.fsynced ∧ e ∈ s.shard.history.accepted ∧
        e ∉ s.shard.history.discarded) ∧
      ∀ e ∈ s.shard.history.accepted, e ∈ s.shard.history.fsynced := by
  have inv : s.ClientInv :=
    h.invariant (fun _ _ _ inv safe hstep => inv.step safe hstep) ShardClients.clientInv_initial
  refine ⟨fun op hop leader e he => ?_, inv.entries.accepted⟩
  have accepted := inv.acked op hop leader e he
  exact ⟨inv.entries.accepted e accepted, accepted,
    fun discarded => (inv.entries.gone e discarded).accepted accepted⟩

/-- A leader's write: one metablock, one fsync cycle, one replication cycle. -/
def leaderWrite : List ClientAction :=
  [.setRole .leader, .accept .write true, .submit 0 1,
    .shard (.fsyncCapture .deferToReplicationAck .fits), .shard .syncSucceeded, .resume 0,
    .shard (.replicationCapture .write), .shard .replicationPublished, .shard .selfAck,
    .shard .barrierPersisted, .replicationResult 0 true false]

theorem no_false_acknowledgement_leaderWrite :
    ∃ s, exec ShardClients.step ShardClients.ClientSafe ShardClients.initial leaderWrite = some s ∧
      s.acked.length = 1 ∧
      ((∀ op ∈ s.acked, op.asLeader = true → ∀ e ∈ op.items,
        e ∈ s.shard.history.fsynced ∧ e ∈ s.shard.history.accepted ∧
          e ∉ s.shard.history.discarded) ∧
        ∀ e ∈ s.shard.history.accepted, e ∈ s.shard.history.fsynced) :=
  ⟨_, rfl, by decide, no_false_acknowledgement (reaches_of_exec leaderWrite rfl)⟩

/-- The node is demoted between a write's admission and its submission. -/
def demotedBeforeSubmit : List ClientAction :=
  [.setRole .leader, .accept .write true, .setRole .follower, .submit 0 1,
    .shard (.fsyncCapture .deferToLeaderConfirmed .fits), .shard .syncSucceeded, .resume 0]

theorem demoted_operation_acknowledged :
    ∃ s, Reaches ShardClients.step Always ShardClients.initial s ∧
      ∃ op ∈ s.acked, op.asLeader = true ∧ ∃ e ∈ op.items, e ∉ s.shard.history.accepted :=
  exists_of_exec demotedBeforeSubmit (by decide)

end Celeriant
