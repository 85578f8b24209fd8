import Celeriant.Cache.LogOrder

/-!
# Stored client sequences come from the log

What the caches say of a client is made from the batches it wrote: its entry is merged from the
captured queue position and from the batches of an fsync, or put by a load. A trim or a tombstone
changes neither. As long as no write carries a sequence below an earlier batch of its client, and no
batch is dropped without a rollback, every stored sequence is that of a durable batch, or zero, and
the newest durable batch of a client has the largest. A load that sees the newest batch lowers
nothing.

## Main results

* `WritePath.synced_merges`: where an entry comes from after an fsync and what it is not below
* `WritePath.SeqInv.step`, `WritePath.SeqInv.stored_le_newest`
-/

namespace Celeriant

open List

variable {γ : Type}

section Batches

variable [DecidableEq γ]

/-- The largest sequence of a batch of the client. -/
def AggregateBlock.clientSeq (c : γ) : AggregateBlock γ → Option ℕ
  | .eventBatch b => if b.clientId = c then some b.maxClientSeq else none
  | .softTrim _ => none
  | .softDelete _ => none

/-- The sequences of the batches of a client, oldest first. -/
def batchSeqs (c : γ) (log : List (AggregateBlock γ)) : List ℕ := log.filterMap (·.clientSeq c)

@[simp]
theorem batchSeqs_append (c : γ) (log rest : List (AggregateBlock γ)) :
    batchSeqs c (log ++ rest) = batchSeqs c log ++ batchSeqs c rest := filterMap_append

theorem batchSeqs_other (c : γ) {b} (other : b.isEventBatch = false) :
    batchSeqs c [b] = [] := by
  cases b with
  | eventBatch b => cases other
  | softTrim t => rfl
  | softDelete d => rfl

theorem batchSeqs_batch (c : γ) (b : EventBatch γ) :
    batchSeqs c [.eventBatch b] = if b.clientId = c then [b.maxClientSeq] else [] := by
  by_cases own : b.clientId = c
  · simp [batchSeqs, AggregateBlock.clientSeq, own]
  · simp [batchSeqs, AggregateBlock.clientSeq, own]

theorem mem_batchSeqs {c x} {log : List (AggregateBlock γ)} :
    x ∈ batchSeqs c log ↔ ∃ b, .eventBatch b ∈ log ∧ b.clientId = c ∧ b.maxClientSeq = x := by
  rw [batchSeqs, mem_filterMap]
  constructor
  · rintro ⟨block, mem, seq⟩
    cases block with
    | eventBatch b =>
      simp only [AggregateBlock.clientSeq, Option.ite_none_right_eq_some, Option.some.injEq] at seq
      exact ⟨b, mem, seq⟩
    | softTrim t => cases seq
    | softDelete d => cases seq
  · rintro ⟨b, mem, own, seq⟩
    exact ⟨_, mem, by simp [AggregateBlock.clientSeq, own, seq]⟩

/-- What a client scan finds is the newest of the sequences. -/
theorem newestClientSeq_eq (c : γ) (blocks : List (DurableBlock γ)) :
    WritePath.newestClientSeq c blocks = (batchSeqs c (blocks.map (·.block))).getLast? := by
  rw [batchSeqs, filterMap_map, List.getLast?_filterMap]
  unfold WritePath.newestClientSeq
  congr 1
  funext e
  simp only [Function.comp_apply]
  cases e.block with
  | eventBatch b => rfl
  | softTrim t => rfl
  | softDelete d => rfl

/-- The newest of increasing sequences is the largest. -/
theorem le_newest {seqs : List ℕ} (sorted : seqs.Pairwise (· ≤ ·)) {x} (mem : x ∈ seqs) :
    x ≤ seqs.getLast?.getD 0 := by
  obtain ⟨older, y, rfl⟩ := (eq_nil_or_concat' seqs).resolve_left (ne_nil_of_mem mem)
  rw [List.getLast?_concat, Option.getD_some]
  rcases mem_append.mp mem with older | newest
  · exact (pairwise_append.mp sorted).2.2 x older y (mem_singleton_self y)
  · exact le_of_eq (mem_singleton.mp newest)

end Batches

namespace WritePath

variable {s t : WritePath γ}

/-! ## Merges -/

theorem mergeClientSeqMax_some (clientSeq walSeq : ℕ) (existing : ℕ × ℕ) :
    mergeClientSeqMax clientSeq walSeq (some existing) =
      if existing.1 < clientSeq then (clientSeq, walSeq) else existing := rfl

/-- The entry of a client is at least this. -/
def AtLeast (entry : Option (ℕ × ℕ)) (x : ℕ) : Prop := ∃ p ∈ entry, x ≤ p.1

/-- An entry after merges: the old one or one of the sequences, and not below the old one nor below
the sequences that must be merged. -/
structure Merges (seqs : List ℕ) (must : ℕ → Prop) (old new : Option (ℕ × ℕ)) : Prop where
  source : ∀ p ∈ new, p ∈ old ∨ p.1 ∈ seqs
  bound : ∀ x, AtLeast old x ∨ x ∈ seqs ∧ must x → AtLeast new x

namespace Merges

variable {seqs seqs' : List ℕ} {must : ℕ → Prop} {old mid new : Option (ℕ × ℕ)}

theorem skip (none : ∀ x ∈ seqs, ¬ must x) : Merges seqs must old old :=
  ⟨fun _ mem => .inl mem, fun x least => least.elim id fun h => absurd h.2 (none x h.1)⟩

theorem single (x walSeq : ℕ) : Merges [x] must old (some (mergeClientSeqMax x walSeq old)) := by
  cases old with
  | none =>
    constructor
    · rintro p ⟨⟩
      exact .inr (mem_singleton_self x)
    · rintro y (⟨p, ⟨⟩, -⟩ | ⟨mem, -⟩)
      exact ⟨_, rfl, le_of_eq (mem_singleton.mp mem)⟩
  | some existing =>
    rw [mergeClientSeqMax_some]
    constructor
    · rintro p ⟨⟩
      split
      · exact .inr (mem_singleton_self x)
      · exact .inl rfl
    · intro y least
      refine ⟨_, rfl, ?_⟩
      have below : y ≤ existing.1 ∨ y = x := by
        rcases least with ⟨p, ⟨⟩, le⟩ | ⟨mem, -⟩
        · exact .inl le
        · exact .inr (mem_singleton.mp mem)
      split <;> omega

theorem trans (first : Merges seqs must old mid) (second : Merges seqs' must mid new) :
    Merges (seqs ++ seqs') must old new := by
  constructor
  · intro p mem
    rw [mem_append, ← or_assoc]
    exact (second.source p mem).imp_left (first.source p)
  · rintro x (least | ⟨mem, merged⟩)
    · exact second.bound x (.inl (first.bound x (.inl least)))
    · refine second.bound x ((mem_append.mp mem).imp (fun mem => ?_) fun mem => ⟨mem, merged⟩)
      exact first.bound x (.inr ⟨mem, merged⟩)

end Merges

section Commits

variable [DecidableEq γ]

/-- Unless it defers to replication, the commit of a metablock merges a batch with a sequence. -/
theorem commitSyncBlock_merges (s : WritePath γ) (target : CommitTarget) (position : Option ℕ)
    (e : DurableBlock γ) (c : γ) :
    Merges (batchSeqs c [e.block]) (fun x => target ≠ .deferToReplicationAck ∧ 0 < x) (s.clients c)
      ((s.commitSyncBlock target position e).clients c) := by
  unfold commitSyncBlock
  cases e.block with
  | softTrim t => exact .skip nofun
  | softDelete d => exact .skip nofun
  | eventBatch b =>
    rw [batchSeqs_batch]
    cases target with
    | deferToReplicationAck => exact .skip (by simp)
    | deferToLeaderConfirmed | fullCommit =>
      by_cases own : b.clientId = c
      · by_cases positive : 0 < b.maxClientSeq
        · simp only [mergeClient, own, positive, if_true]
          exact .single ..
        · simp only [own, positive, if_true, if_false]
          exact .skip (by simpa using positive)
      · by_cases positive : 0 < b.maxClientSeq <;>
          simp only [mergeClient, own, Ne.symm own, positive, if_true, if_false] <;>
            exact .skip nofun

theorem commitSyncBlocks_merges (s : WritePath γ) (target : CommitTarget) (position : Option ℕ)
    (blocks : List (DurableBlock γ)) (c : γ) :
    Merges (batchSeqs c (blocks.map (·.block)))
      (fun x => target ≠ .deferToReplicationAck ∧ 0 < x) (s.clients c)
      ((blocks.foldl (commitSyncBlock · target position) s).clients c) := by
  induction blocks generalizing s with
  | nil => exact .skip nofun
  | cons e blocks ih =>
    rw [map_cons, ← singleton_append, batchSeqs_append]
    exact (s.commitSyncBlock_merges target position e c).trans (ih _)

/-- **The entries after an fsync**: the captured queue position of a living aggregate is merged,
then the batches. -/
theorem synced_merges (s : WritePath γ) (target : CommitTarget) (isLeader : Bool)
    (captured : SyncPositionsSnapshot γ) (gaps : List ℕ) (rest : ℕ) (c : γ) :
    ∃ mid, Merges (captured.positions.bind (·.clientSeqes c)).toList
        (fun _ => ∀ q ∈ captured.positions, q.pendingDelete = false) (s.clients c) mid ∧
      Merges (batchSeqs c ((stamp s.tip gaps captured.blocks).map (·.block)))
        (fun x => target ≠ .deferToReplicationAck ∧ 0 < x) mid
        ((s.synced target isLeader captured gaps rest).clients c) := by
  refine ⟨_, ?_, commitSyncBlocks_merges _ target _ _ c⟩
  generalize stamp s.tip gaps captured.blocks = blocks
  cases captured.positions with
  | none => exact .skip nofun
  | some q =>
    cases deleted : q.pendingDelete with
    | true =>
      simp only [commitSyncPositions, deleted, if_true]
      exact .skip (by simp [deleted])
    | false =>
      cases seq : q.clientSeqes c with
      | none =>
        have entry : (s.commitSyncPositions isLeader (positionSeq blocks) (some q)).clients c =
            s.clients c := by
          by_cases batch : q.hadEventBatch = true <;>
            simp [commitSyncPositions, deleted, batch, seq]
        rw [entry, Option.bind_some, seq]
        exact .skip nofun
      | some x =>
        have entry : (s.commitSyncPositions isLeader (positionSeq blocks) (some q)).clients c =
            some (mergeClientSeqMax x (positionSeq blocks) (s.clients c)) := by
          by_cases batch : q.hadEventBatch = true <;>
            simp [commitSyncPositions, deleted, batch, seq]
        rw [entry, Option.bind_some, seq]
        exact .single ..

omit [DecidableEq γ] in
theorem commitPcdBlocks_clients (s : WritePath γ) (blocks : List (DurableBlock γ)) :
    (blocks.foldl commitPcdBlock s).clients = s.clients := by
  induction blocks generalizing s with
  | nil => rfl
  | cons e blocks ih =>
    rw [foldl_cons, ih]
    unfold commitPcdBlock
    cases e.block <;> rfl

end Commits

/-! ## What a step does to the queue -/

section Queue

variable [DecidableEq γ] (b : EventBatch γ) (entry : Option (QueueAggregatePositions γ)) (c : γ)

/-- The sequences of a queue position after a batch: the one before or that of the batch. -/
theorem addEventBatch_clientSeqes {x}
    (seq : (QueueAggregatePositions.addEventBatch b entry).clientSeqes c = some x) :
    (∃ q ∈ entry, q.clientSeqes c = some x) ∨ c = b.clientId ∧ x = b.maxClientSeq := by
  simp only [QueueAggregatePositions.addEventBatch] at seq
  cases entry with
  | none =>
    by_cases own : c = b.clientId
    · simp only [own, if_true, Option.some.injEq] at seq
      exact .inr ⟨own, seq.symm⟩
    · simp only [own, if_false] at seq
      cases seq
  | some q =>
    by_cases own : c = b.clientId
    · simp only [own, if_true, Option.some.injEq, Option.getD_some] at seq
      cases existing : q.clientSeqes b.clientId with
      | none =>
        rw [existing] at seq
        exact .inr ⟨own, seq.symm⟩
      | some y =>
        rw [existing] at seq
        simp only at seq
        rcases Nat.le_total y b.maxClientSeq with le | le
        · exact .inr ⟨own, by omega⟩
        · exact .inl ⟨q, rfl, by rw [own, existing, ← seq, Nat.max_eq_left le]⟩
    · simp only [own, if_false, Option.getD_some] at seq
      exact .inl ⟨q, rfl, seq⟩

/-- A batch puts its client into the queue position, not below its own sequence nor the one
before. -/
theorem addEventBatch_own :
    ∃ x, (QueueAggregatePositions.addEventBatch b entry).clientSeqes b.clientId = some x ∧
      b.maxClientSeq ≤ x ∧ ∀ q ∈ entry, ∀ y, q.clientSeqes b.clientId = some y → y ≤ x := by
  simp only [QueueAggregatePositions.addEventBatch, if_true]
  refine ⟨_, rfl, ?_, ?_⟩
  · split
    next => exact Nat.le_max_right ..
    next => exact le_rfl
  · rintro q ⟨⟩ y existing
    simp only [Option.getD_some, existing]
    exact Nat.le_max_left ..

theorem addEventBatch_other (other : c ≠ b.clientId) :
    (QueueAggregatePositions.addEventBatch b entry).clientSeqes c =
      (entry.getD .empty).clientSeqes c := by
  simp only [QueueAggregatePositions.addEventBatch, other, if_false]

end Queue

/-- A step without an event batch: queue and entries stay, or a trim or tombstone is queued and the
queue position keeps the sequences of its clients. -/
inductive Quiet (s t : WritePath γ) : Prop
  | same (core : t.core = s.core) (clients : t.clients = s.clients)
  | queued (b q) (other : b.isEventBatch = false)
      (core : t.core =
        (s.wal, s.queue ++ [b], some q, s.fsync, s.deferred, s.tip, s.readCursor))
      (clients : t.clients = s.clients)
      (seqes : q.clientSeqes = (s.positions.getD .empty).clientSeqes)

theorem quiet_enter (s : WritePath γ) (op : AggregateOperation γ) (found : Bool) :
    Quiet s (s.enter op found) := by
  rcases s.enter_cases op found with ⟨tasks, same⟩ | ⟨keepFrom, -, -, -, -, trimmed⟩
  · rw [same]
    exact .same rfl rfl
  · rw [trimmed]
    exact .queued (.softTrim _) _ rfl rfl rfl rfl

theorem quiet_deleteStep (s : WritePath γ) (i : ℕ) (req : DeleteRequest) :
    Quiet s (s.deleteStep i req) := by
  rcases s.deleteStep_cases i req with ⟨tasks, same⟩ | ⟨-, -, deleted⟩
  · rw [same]
    exact .same rfl rfl
  · rw [deleted]
    exact .queued (.softDelete _) _ rfl rfl rfl rfl

end WritePath

namespace WritePath

variable [DecidableEq γ]

/-- The batches of every client are in the order of their sequences. -/
def SortedSeqs (blocks : List (AggregateBlock γ)) : Prop :=
  ∀ c, (batchSeqs c blocks).Pairwise (· ≤ ·)

/-- The sequences of a queue position are those of batches it stands for. -/
def SeqsFrom (log rest : List (AggregateBlock γ)) (entry : Option (QueueAggregatePositions γ)) :
    Prop :=
  ∀ q ∈ entry, ∀ c x, q.clientSeqes c = some x → x ∈ batchSeqs c (log ++ rest)

structure SeqInv (s : WritePath γ) : Prop extends Carries SortedSeqs SeqsFrom s where
  stored : ∀ c p, s.clients c = some p → p.1 = 0 ∨ p.1 ∈ batchSeqs c s.log

/-- A write does not carry a sequence below an earlier batch of its client, and a batch that is
dropped before its fsync has no metablock of the aggregate. -/
def keepsSeqs (s : WritePath γ) : WriteAction γ → Prop
  | .prepare i schemaOk =>
    ∀ req ∈ s.writeAt i .validated, (s.validateWrite req schemaOk).isOk = true →
      ∀ x ∈ batchSeqs req.clientId s.pipeline, x ≤ (s.view.prepare req).maxClientSeq
  | .fsyncAbandoned => ∀ captured ∈ s.fsync, captured.blocks = []
  | _ => True

instance : DecidableRel (keepsSeqs : WritePath γ → WriteAction γ → Prop) := fun s a => by
  induction a using WriteAction.casesOn <;> dsimp only [keepsSeqs] <;> infer_instance

/-! ## What loads put -/

/-- The client scan of a task. -/
def clientScanAt (s : WritePath γ) (i : ℕ) : Option (γ × ℕ) :=
  match s.tasks[i]? with
  | some ⟨.write req, .clientScanning bound⟩ => some (req.clientId, bound)
  | _ => none

section Puts

variable {s t : WritePath γ} {bound : ℕ}

omit [DecidableEq γ] in
theorem scanAt_task {i op}
    (task : s.tasks[i]? = some ⟨op, .scanning bound⟩) : s.scanAt i = some (op, bound) := by
  rw [scanAt, task]

omit [DecidableEq γ] in
theorem clientScanAt_task {i req} (task : s.tasks[i]? = some ⟨.write req, .clientScanning bound⟩) :
    s.clientScanAt i = some (req.clientId, bound) := by
  rw [clientScanAt, task]

/-- An aggregate load leaves the entries, or puts the newest metablock it sees. -/
theorem loadAggregate_clients (s : WritePath γ) (path : CachePath) (bound : ℕ) :
    (s.loadAggregate path bound).clients = s.clients ∨
      path = .write ∧ ∃ e b, (s.upTo bound).getLast? = some e ∧ e.block = .eventBatch b ∧
        (s.loadAggregate path bound).clients = (s.putClient b.clientId b.maxClientSeq).clients := by
  unfold loadAggregate
  cases newest : (s.upTo bound).getLast? with
  | none => cases path <;> exact .inl rfl
  | some e =>
    obtain ⟨walSeq, block⟩ := e
    cases path with
    | read => cases block <;> exact .inl rfl
    | write =>
      cases block with
      | eventBatch b => exact .inr ⟨rfl, _, b, rfl, rfl, rfl⟩
      | softTrim t => exact .inl rfl
      | softDelete d => exact .inl rfl

theorem putClientIfAbsent_clients (s : WritePath γ) (c : γ) (x : ℕ) :
    (s.putClientIfAbsent c x).clients = s.clients ∨
      s.clients c = none ∧ (s.putClientIfAbsent c x).clients = (s.putClient c x).clients := by
  unfold putClientIfAbsent
  by_cases there : (s.clients c).isSome = true
  · rw [if_pos there]
    exact .inl rfl
  · rw [if_neg there]
    exact .inr ⟨by simpa using there, rfl⟩

theorem passAggregate_clients (s : WritePath γ) (path : CachePath) (e : DurableBlock γ)
    (b : EventBatch γ) :
    (s.passAggregate path e b).clients = s.clients ∨
      path = .write ∧ s.writeSnapshot = none ∧ s.clients b.clientId = none ∧
        (s.passAggregate path e b).clients = (s.putClient b.clientId b.maxClientSeq).clients := by
  unfold passAggregate
  cases path with
  | read =>
    by_cases cached : s.readSnapshot.isSome = true
    · simp only [cached, if_true]
      exact .inl trivial
    · simp only [cached, Bool.false_eq_true, if_false]
      exact .inl rfl
  | write =>
    by_cases cached : s.writeSnapshot.isSome = true
    · simp only [cached, if_true]
      exact .inl trivial
    · simp only [cached, Bool.false_eq_true, if_false]
      have absent : s.writeSnapshot = none := by simpa using cached
      refine ((s.putSnapshot .write (.ofBlock e.block) e.walSeq).putClientIfAbsent_clients
        b.clientId b.maxClientSeq).imp_right fun put => ?_
      exact ⟨trivial, absent, put⟩

theorem putClient_clients {d x c p} (entry : (s.putClient d x).clients c = some p) :
    s.clients c = some p ∨ c = d ∧ p.1 = x := by
  unfold putClient at entry
  by_cases own : c = d
  · simp only [own, if_true, Option.some.injEq] at entry
    exact .inr ⟨own, by rw [← entry]⟩
  · simp only [own, if_false] at entry
    exact .inl entry

omit [DecidableEq γ] in
/-- A metablock that a scan sees is durable. -/
theorem mem_wal_of_newest {e}
    (newest : (s.upTo bound).getLast? = some e) : e ∈ s.wal ∧ e.walSeq ≤ bound := by
  have seen := mem_filter.mp (mem_of_getLast? newest)
  exact ⟨seen.1, by simpa using seen.2⟩

theorem batch_mem_log {e} (mem : e ∈ s.wal) {b}
    (block : e.block = .eventBatch b) : b.maxClientSeq ∈ batchSeqs b.clientId s.log :=
  mem_batchSeqs.mpr ⟨b, mem_map.mpr ⟨e, mem, block⟩, rfl, rfl⟩

/-- What a client scan finds is zero or durable. -/
theorem newest_durable (s : WritePath γ) (c : γ) (bound : ℕ) :
    (newestClientSeq c (s.upTo bound)).getD 0 = 0 ∨
      (newestClientSeq c (s.upTo bound)).getD 0 ∈ batchSeqs c s.log := by
  rw [newestClientSeq_eq]
  cases newest : (batchSeqs c ((s.upTo bound).map (·.block))).getLast? with
  | none => exact .inl rfl
  | some x =>
    obtain ⟨b, mem, rfl, rfl⟩ := mem_batchSeqs.mp (mem_of_getLast? newest)
    obtain ⟨e, seen, block⟩ := mem_map.mp mem
    exact .inr (batch_mem_log (mem_filter.mp seen).1 block)

/-- What a client scan finds when it saw every durable batch of its client. -/
theorem newest_seen (ordered : s.Ordered) {c}
    (seen : ∀ e ∈ s.wal, (e.block.clientSeq c).isSome = true → e.walSeq ≤ bound) :
    newestClientSeq c (s.upTo bound) = newestClientSeq c s.wal := by
  have none : batchSeqs c ((s.wal.filter (bound < ·.walSeq)).map (·.block)) = [] := by
    refine filterMap_eq_nil_iff.mpr fun b mem => ?_
    obtain ⟨e, above, rfl⟩ := mem_map.mp mem
    obtain ⟨durable, above⟩ := mem_filter.mp above
    by_contra batch
    have := seen e durable (Option.isSome_iff_ne_none.mpr batch)
    simp only [decide_eq_true_eq] at above
    omega
  have split := ordered.log_append bound
  rw [newestClientSeq_eq, newestClientSeq_eq]
  show _ = (batchSeqs c s.log).getLast?
  rw [split, batchSeqs_append, none, append_nil]

end Puts

/-! ## Sorted batches -/

namespace SortedSeqs

variable {older newer : List (AggregateBlock γ)}

theorem of_append (h : SortedSeqs (older ++ newer)) : SortedSeqs older := by
  intro c
  have sorted := h c
  rw [batchSeqs_append] at sorted
  exact (pairwise_append.mp sorted).1

variable (h : SortedSeqs older)
include h

theorem concat_other {b} (other : b.isEventBatch = false) :
    SortedSeqs (older ++ [b]) := by
  intro c
  rw [batchSeqs_append, batchSeqs_other c other, append_nil]
  exact h c

theorem concat_batch {b} (above : ∀ x ∈ batchSeqs b.clientId older, x ≤ b.maxClientSeq) :
    SortedSeqs (older ++ [.eventBatch b]) := by
  intro c
  rw [batchSeqs_append, batchSeqs_batch]
  by_cases own : b.clientId = c
  · rw [if_pos own]
    refine pairwise_append.mpr ⟨h c, pairwise_singleton .., fun x mem y new => ?_⟩
    rw [mem_singleton.mp new]
    exact above x (by rwa [own])
  · rw [if_neg own, append_nil]
    exact h c

end SortedSeqs

/-! ## The steps -/

namespace SeqInv

variable {s t : WritePath γ} (h : s.SeqInv)
include h

/-- Entries may go, or come from the log. -/
theorem of_core (core : t.core = s.core) (clients : ∀ c p, t.clients c = some p →
      s.clients c = some p ∨ p.1 = 0 ∨ p.1 ∈ batchSeqs c s.log) : t.SeqInv := by
  refine ⟨h.toCarries.of_core core, fun c p entry => ?_⟩
  rw [log, (core_fields core).1]
  exact (clients c p entry).elim (h.stored c p) id

theorem of_same (core : t.core = s.core) (clients : t.clients = s.clients) : t.SeqInv :=
  h.of_core core fun _ _ entry => .inl (clients ▸ entry)

theorem of_put (core : t.core = s.core) {d x}
    (clients : t.clients = s.clients ∨ t.clients = (s.putClient d x).clients)
    (source : x = 0 ∨ x ∈ batchSeqs d s.log) : t.SeqInv := by
  refine h.of_core core fun c p entry => ?_
  rcases clients with same | put
  · exact .inl (same ▸ entry)
  · rcases putClient_clients (put ▸ entry) with old | ⟨rfl, rfl⟩
    · exact .inl old
    · exact .inr source

theorem quiet (step : Quiet s t) : t.SeqInv := by
  cases step with
  | same core clients => exact h.of_same core clients
  | queued b q other core clients seqes =>
    have queued : SeqsFrom s.log (s.inflight ++ s.queue ++ [b]) (some q) := by
      rintro q' ⟨⟩ c x seq
      rw [seqes] at seq
      cases entry : s.positions with
      | none => rw [entry] at seq; cases seq
      | some q =>
        rw [entry] at seq
        rw [← append_assoc, batchSeqs_append, batchSeqs_other c other, append_nil]
        exact h.positions q entry c x seq
    refine ⟨(h.toCarries.enqueue (h.whole.concat_other other) queued).of_core core, ?_⟩
    rw [log, (core_fields core).1, clients]
    exact h.stored

theorem appendWrite {req}
    (above : ∀ x ∈ batchSeqs req.clientId s.pipeline, x ≤ (s.view.prepare req).maxClientSeq) :
    (s.appendWrite req).SeqInv := by
  refine ⟨h.toCarries.enqueue (h.whole.concat_batch above) ?_, h.stored⟩
  rintro q ⟨⟩ c x seq
  rw [← append_assoc, batchSeqs_append, batchSeqs_batch]
  rcases addEventBatch_clientSeqes _ _ c seq with ⟨q, entry, old⟩ | ⟨rfl, rfl⟩
  · exact mem_append_left _ (h.positions q entry c x old)
  · rw [if_pos rfl]
    exact mem_append_right _ (mem_singleton_self _)

variable {captured : SyncPositionsSnapshot γ}

theorem commitSync (writing : s.fsync = some captured)
    (target : CommitTarget) (isLeader : Bool) (gaps : List ℕ) (rest : ℕ) :
    (s.synced target isLeader captured gaps rest).SeqInv := by
  obtain ⟨log, -⟩ := commitSync_pipeline writing target isLeader gaps rest rfl
  refine ⟨h.toCarries.commitSync writing (fun from_ => ?_)
    (fun q _ _ current _ _ q' mem => ?_) target
    isLeader gaps rest, ?_⟩
  · rw [SeqsFrom, append_assoc]
    exact from_
  · cases mem
  · intro c p entry
    rw [log]
    obtain ⟨mid, positions, blocks⟩ := s.synced_merges target isLeader captured gaps rest c
    rw [stamp_blocks] at blocks
    rcases blocks.source p entry with merged | new
    · rcases positions.source p merged with old | queued
      · refine (h.stored c p old).imp_right fun durable => ?_
        rw [batchSeqs_append]
        exact mem_append_left _ durable
      · obtain ⟨q, mem, seq⟩ := Option.bind_eq_some_iff.mp (Option.mem_toList.mp queued)
        exact .inr (h.captured captured writing q mem c p.1 seq)
    · rw [batchSeqs_append]
      exact .inr (mem_append_right _ new)

theorem step {a : WriteAction γ} (keeps : s.keepsSeqs a) (hstep : s.step a = some t) :
    t.SeqInv := by
  cases Step.of_step hstep with
  | refused op _ => exact h
  | entered op status _ loaded => exact h.quiet (s.quiet_enter op _)
  | scanned i op bound task =>
    have dropped : (s.dropTask i).SeqInv := h.of_same rfl rfl
    have loaded : ((s.dropTask i).loadAggregate op.cachePath bound).SeqInv := by
      rcases (s.dropTask i).loadAggregate_clients op.cachePath bound with
        same | ⟨-, e, b, newest, block, put⟩
      · exact dropped.of_same (loadAggregate_core ..) same
      · exact dropped.of_put (loadAggregate_core ..) (.inr put)
          (.inr (batch_mem_log (mem_wal_of_newest newest).1 block))
    exact loaded.quiet (quiet_enter ..)
  | clientAbsent i req task _ => exact h.of_put rfl (.inr rfl) (.inl rfl)
  | clientScanned i req bound task =>
    exact h.of_put rfl (.inr rfl) (s.newest_durable req.clientId bound)
  | prepared i schemaOk req task ok =>
    have dropped : (s.dropTask i).SeqInv := h.of_same rfl rfl
    exact dropped.appendWrite (keeps req task (by rw [ok]; rfl))
  | deleting i req task => exact h.quiet (s.quiet_deleteStep i req)
  | passed path j e b visited _ =>
    obtain ⟨at_, block⟩ := eventBatchAt_wal visited
    refine h.of_put (passAggregate_core ..) ((passAggregate_clients ..).imp_right (·.2.2.2))
      (.inr (batch_mem_log (mem_of_getElem? at_) block))
  | clientPassedBy j e b visited =>
    obtain ⟨at_, block⟩ := eventBatchAt_wal visited
    refine h.of_put (putClientIfAbsent_fields ..).1 ((putClientIfAbsent_clients ..).imp_right (·.2))
      (.inr (batch_mem_log (mem_of_getElem? at_) block))
  | clientEvicted c =>
    refine h.of_core rfl fun d p entry => .inl ?_
    by_cases own : d = c
    · simp [own] at entry
    · simpa [own] using entry
  | captured idle => exact ⟨h.toCarries.capture idle, h.stored⟩
  | synced target isLeader gaps rest captured writing =>
    exact h.commitSync writing target isLeader gaps _
  | rolledBack captured writing =>
    exact ⟨.settled h.whole.of_append (fun _ mem => by cases mem) rfl rfl rfl, h.stored⟩
  | dropped captured writing =>
    exact ⟨h.toCarries.drop writing (keeps captured writing), h.stored⟩
  | committed batch rest deferred =>
    have popped : SeqInv { s with deferred := rest } :=
      ⟨h.toCarries.of_fields rfl rfl rfl rfl, h.stored⟩
    have committed := popped.of_same (commitPcdBlocks _ batch.blocks).1
      (commitPcdBlocks_clients _ batch.blocks)
    exact ⟨committed.toCarries.of_fields rfl rfl rfl rfl, committed.stored⟩
  | _ => exact h.of_same rfl rfl

/-- A stored sequence is not above that of the newest durable batch. -/
theorem stored_le_newest {c : γ} {p} (entry : s.clients c = some p) :
    p.1 ≤ (newestClientSeq c s.wal).getD 0 := by
  rw [newestClientSeq_eq]
  rcases h.stored c p entry with zero | durable
  · omega
  · exact le_newest (h.whole.of_append c) durable

end SeqInv

theorem SeqInv.init : (init : WritePath γ).SeqInv where
  toCarries := .settled (fun _ => .nil) (fun _ mem => by cases mem) rfl rfl rfl
  stored _ _ entry := by cases entry

end WritePath

end Celeriant
