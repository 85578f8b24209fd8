import Celeriant.Cache.Idempotency

/-!
# A sequence is accepted once

What the caches of the write path say of a client is never below what became durable of it, as long
as its batches are durable in the order of their sequences and every load brings the newest. The
invariant says so of the stored entries, of the queue position, which covers what is queued and in
flight, and of the negative lookup, which answers absent for no client with a durable batch. A write
that repeats a sequence is then refused.

## Main results

* `Idempotency.Inv.step`
* `duplicate_write_rejected`, `unenforced_write_forgets_sequence`
-/

namespace Celeriant

open WritePath List

namespace WritePath

variable {γ : Type} [DecidableEq γ]

/-- A queue position shows the clients of the batches it stands for, none below what was
accepted. -/
structure Shows (entry : Option (QueueAggregatePositions γ)) (accepted : γ → ℕ)
    (blocks : List (AggregateBlock γ)) : Prop where
  accepted_le : ∀ q ∈ entry, ∀ c z, q.clientSeqes c = some z → accepted c ≤ z
  batches : ∀ c, ∀ y ∈ batchSeqs c blocks, ∃ q ∈ entry, ∃ z, q.clientSeqes c = some z ∧ y ≤ z

/-- What is accepted is the newest durable sequence, and no stored one is below. -/
structure AcceptedInv (accepted : γ → ℕ) (s : WritePath γ) : Prop extends
    Carries SortedSeqs (fun _ rest entry => Shows entry accepted rest) s where
  bounded : ∀ c, ∀ y ∈ batchSeqs c s.log, y ≤ accepted c
  logged : ∀ c, 0 < accepted c → accepted c ∈ batchSeqs c s.log
  stored : ∀ c p, s.clients c = some p → accepted c ≤ p.1

/-- No later batch of its client is durable. -/
def isNewest (s : WritePath γ) (e : DurableBlock γ) : Prop :=
  ∀ c ∈ e.block.client, ∀ e' ∈ s.wal, e'.block.client = some c → e'.walSeq ≤ e.walSeq

theorem clientSeq_isSome {c} {b : AggregateBlock γ} :
    (b.clientSeq c).isSome = true ↔ b.client = some c := by
  cases b with
  | eventBatch b =>
    by_cases own : b.clientId = c
    · simp [AggregateBlock.clientSeq, AggregateBlock.client, own]
    · simp [AggregateBlock.clientSeq, AggregateBlock.client, own]
  | softTrim | softDelete => simp [AggregateBlock.clientSeq, AggregateBlock.client]

/-- The newest batch of a client is what a scan for it finds. -/
theorem newest_of_isNewest {s : WritePath γ} (ordered : s.Ordered) {e : DurableBlock γ}
    (durable : e ∈ s.wal) {b} (block : e.block = .eventBatch b)
    (newest : s.isNewest e) : newestClientSeq b.clientId s.wal = some b.maxClientSeq := by
  obtain ⟨older, later, wal⟩ := append_of_mem durable
  have sorted := ordered.sorted
  rw [wal, pairwise_append, pairwise_cons] at sorted
  have none : batchSeqs b.clientId (later.map (·.block)) = [] := by
    refine filterMap_eq_nil_iff.mpr fun block' mem => ?_
    obtain ⟨e', after, rfl⟩ := mem_map.mp mem
    by_contra batch
    have le := newest b.clientId (by rw [block]; rfl) e' (by rw [wal]; simp [after])
      (clientSeq_isSome.mp (Option.isSome_iff_ne_none.mpr batch))
    have := sorted.2.1.1 e' after
    omega
  rw [newestClientSeq_eq, wal, map_append, map_cons, batchSeqs_append,
    ← singleton_append, batchSeqs_append, none, append_nil, block, batchSeqs_batch,
    if_pos rfl, List.getLast?_concat]

/-! ## The entries that a restart warms -/

section PreWarm

variable (s : WritePath γ)

/-- A visit keeps the entries that are there; the first visit finds none. -/
theorem preWarmVisit_clients (e : DurableBlock γ)
    (fresh : s.writeSnapshot.isSome = true ∨ ∀ c, s.clients c = none) (c : γ) :
    ((s.preWarmVisit e).clients c).map (·.1) =
      ((s.clients c).map (·.1)).or (e.block.clientSeq c) := by
  obtain ⟨walSeq, block⟩ := e
  unfold preWarmVisit
  cases cached : s.writeSnapshot.isSome with
  | true =>
    cases block with
    | softTrim t => simp [AggregateBlock.clientSeq]
    | softDelete d => simp [AggregateBlock.clientSeq]
    | eventBatch b =>
      simp only [if_true, AggregateBlock.clientSeq]
      unfold putClientIfAbsent
      by_cases own : b.clientId = c
      · subst own
        cases entry : s.clients b.clientId with
        | some p => simp [entry]
        | none => simp [putClient]
      · have other : c ≠ b.clientId := fun eq => own eq.symm
        cases entry : (s.clients b.clientId).isSome with
        | true => simp [own]
        | false => simp [putClient, own, other]
  | false =>
    have empty := fresh.resolve_left (by simp [cached])
    cases block with
    | softTrim t => simp [AggregateBlock.clientSeq, putSnapshot]
    | softDelete d => simp [AggregateBlock.clientSeq, putSnapshot]
    | eventBatch b =>
      by_cases own : b.clientId = c
      · simp [AggregateBlock.clientSeq, putSnapshot, putClient, own, empty]
      · have other : c ≠ b.clientId := fun eq => own eq.symm
        simp [AggregateBlock.clientSeq, putSnapshot, putClient, own, other, empty]

theorem preWarmVisits (blocks : List (DurableBlock γ))
    (fresh : s.writeSnapshot.isSome = true ∨ ∀ c, s.clients c = none) :
    (blocks.foldl preWarmVisit s).core = s.core ∧ ∀ c,
      ((blocks.foldl preWarmVisit s).clients c).map (·.1) =
        ((s.clients c).map (·.1)).or (blocks.findSome? (·.block.clientSeq c)) := by
  induction blocks generalizing s with
  | nil => exact ⟨rfl, fun c => by simp⟩
  | cons e blocks ih =>
    have cached : (s.preWarmVisit e).writeSnapshot.isSome = true := by
      rw [preWarmVisit_snapshot]
      cases s.writeSnapshot <;> rfl
    obtain ⟨core, clients⟩ := ih (s.preWarmVisit e) (.inl cached)
    refine ⟨core.trans (s.preWarmVisit_fields e).1, fun c => ?_⟩
    rw [foldl_cons, clients, s.preWarmVisit_clients e fresh, Option.or_assoc]
    congr 1
    rw [List.findSome?_cons]
    cases e.block.clientSeq c <;> rfl

/-- After a restart the entry of a client is its newest batch. -/
theorem restart_fields (visits readCursor : ℕ) :
    (s.restart visits readCursor).core = (s.wal, [], none, none, [], s.tip, readCursor) ∧
      ∀ c p, (s.restart visits readCursor).clients c = some p →
        newestClientSeq c s.wal = some p.1 := by
  obtain ⟨core, clients⟩ := preWarmVisits { init with wal := s.wal, tip := s.tip, readCursor }
    (s.wal.reverse.take visits) (.inr fun _ => rfl)
  refine ⟨core, fun c p entry => ?_⟩
  have found := clients c
  have warmed : ((s.wal.reverse.take visits).foldl preWarmVisit
      { init with wal := s.wal, tip := s.tip, readCursor }).clients c = some p := entry
  rw [warmed] at found
  have newest : (s.wal.reverse.take visits).findSome? (·.block.clientSeq c) = some p.1 := found.symm
  have taken := take_prefix visits s.wal.reverse
  have all := taken.findSome?_eq_some newest
  rw [newestClientSeq_eq, batchSeqs, filterMap_map, List.getLast?_filterMap]
  exact all

end PreWarm

/-! ## The steps of the write path -/

section Largest

variable {seqs : List ℕ} {n : ℕ}

theorem foldr_max_le : n ≤ seqs.foldr max n ∧ ∀ x ∈ seqs, x ≤ seqs.foldr max n := by
  induction seqs with
  | nil => exact ⟨Nat.le_refl n, fun x mem => absurd mem not_mem_nil⟩
  | cons y seqs ih =>
    rw [foldr_cons]
    refine ⟨le_trans ih.1 (Nat.le_max_right ..), ?_⟩
    rintro x (_ | ⟨_, mem⟩)
    · exact Nat.le_max_left ..
    · exact le_trans (ih.2 x mem) (Nat.le_max_right ..)

theorem foldr_max_cases (seqs : List ℕ) (n : ℕ) :
    seqs.foldr max n = n ∨ seqs.foldr max n ∈ seqs := by
  induction seqs with
  | nil => exact .inl rfl
  | cons y seqs ih =>
    rw [foldr_cons]
    rcases Nat.le_total y (seqs.foldr max n) with le | le
    · rw [Nat.max_eq_right le]
      exact ih.imp_right (mem_cons_of_mem y)
    · rw [Nat.max_eq_left le]
      exact .inr (mem_cons_self ..)

end Largest

theorem Shows.none (accepted : γ → ℕ) : Shows none accepted [] :=
  ⟨fun _ mem => (by cases mem), fun _ _ mem => absurd mem not_mem_nil⟩

theorem Shows.of_entry {entry accepted} {blocks} (h : Shows entry accepted blocks) {q}
    (present : q ∈ entry) {c : γ} {z} (seq : q.clientSeqes c = some z) :
    ∀ y ∈ batchSeqs c blocks, y ≤ z := by
  intro y mem
  obtain ⟨q', present', z', seq', le⟩ := h.batches c y mem
  cases Option.mem_unique present present'
  rw [seq] at seq'
  cases seq'
  exact le

namespace AcceptedInv

variable {accepted : γ → ℕ} {s t : WritePath γ} (h : AcceptedInv accepted s)
include h

/-- What was accepted of a client is not above its newest durable batch. -/
theorem accepted_le_newest (c : γ) : accepted c ≤ (newestClientSeq c s.wal).getD 0 := by
  rcases Nat.eq_zero_or_pos (accepted c) with zero | positive
  · omega
  · rw [newestClientSeq_eq]
    exact le_newest (h.whole.of_append c) (h.logged c positive)

/-- Entries may go, or come with a sequence that is not below what was accepted. -/
theorem of_core (core : t.core = s.core)
    (clients : ∀ c p, t.clients c = some p → s.clients c = some p ∨ accepted c ≤ p.1) :
    AcceptedInv accepted t := by
  have log : t.log = s.log := by rw [log, log, (core_fields core).1]
  exact ⟨h.toCarries.of_core core, log ▸ h.bounded, log ▸ h.logged,
    fun c p entry => (clients c p entry).elim (h.stored c p) id⟩

theorem of_same (core : t.core = s.core) (clients : t.clients = s.clients) :
    AcceptedInv accepted t :=
  h.of_core core fun _ _ entry => .inl (clients ▸ entry)

theorem of_put (core : t.core = s.core) {d x} (le : accepted d ≤ x)
    (put : t.clients = (s.putClient d x).clients) : AcceptedInv accepted t := by
  refine h.of_core core fun c p entry => ?_
  rcases putClient_clients (put ▸ entry) with old | ⟨rfl, rfl⟩
  · exact .inl old
  · exact .inr le

/-- Putting the newest batch of a client is safe. -/
theorem newest_le (ordered : s.Ordered) {e : DurableBlock γ} (durable : e ∈ s.wal)
    {b} (block : e.block = .eventBatch b) (newest : s.isNewest e) :
    accepted b.clientId ≤ b.maxClientSeq := by
  have le := h.accepted_le_newest b.clientId
  rwa [newest_of_isNewest ordered durable block newest] at le

theorem quiet (step : Quiet s t) : AcceptedInv accepted t := by
  cases step with
  | same core clients => exact h.of_same core clients
  | queued b q other core clients seqes =>
    have unsynced (c : γ) : batchSeqs c (s.inflight ++ s.queue ++ [b]) =
        batchSeqs c (s.inflight ++ s.queue) := by
      rw [batchSeqs_append, batchSeqs_other c other, append_nil]
    have queued : Shows (some q) accepted (s.inflight ++ s.queue ++ [b]) := by
      constructor
      · rintro q' ⟨⟩ c z seq
        rw [seqes] at seq
        cases entry : s.positions with
        | none => rw [entry] at seq; cases seq
        | some q =>
          rw [entry] at seq
          exact h.positions.accepted_le q entry c z seq
      · intro c y mem
        rw [unsynced] at mem
        obtain ⟨q', entry, z, seq, le⟩ := h.positions.batches c y mem
        have entry : s.positions = some q' := entry
        refine ⟨q, rfl, z, ?_, le⟩
        rw [seqes, entry]
        exact seq
    have enqueued : AcceptedInv accepted { s with queue := s.queue ++ [b], positions := some q } :=
      ⟨h.toCarries.enqueue (h.whole.concat_other other) queued, h.bounded, h.logged, h.stored⟩
    exact enqueued.of_same core clients

variable {req : WriteRequest γ}

theorem appendWrite
    (above : ∀ x ∈ batchSeqs req.clientId s.pipeline, x ≤ (s.view.prepare req).maxClientSeq) :
    AcceptedInv accepted (s.appendWrite req) := by
  have accepted_le : accepted req.clientId ≤ (s.view.prepare req).maxClientSeq := by
    rcases Nat.eq_zero_or_pos (accepted req.clientId) with zero | positive
    · omega
    · refine above _ ?_
      rw [pipeline, batchSeqs_append]
      exact mem_append_left _ (h.logged _ positive)
  obtain ⟨x, own, batch_le, before_le⟩ := addEventBatch_own (s.view.prepare req) s.positions
  refine ⟨h.toCarries.enqueue (h.whole.concat_batch above) ⟨?_, ?_⟩, h.bounded, h.logged, h.stored⟩
  · rintro q ⟨⟩ c z seq
    rcases addEventBatch_clientSeqes _ _ c seq with ⟨q, entry, old⟩ | ⟨rfl, rfl⟩
    · exact h.positions.accepted_le q entry c z old
    · exact accepted_le
  · intro c y mem
    rw [batchSeqs_append, batchSeqs_batch] at mem
    refine ⟨_, rfl, ?_⟩
    rcases mem_append.mp mem with old | new
    · obtain ⟨q, entry, z, seq, le⟩ := h.positions.batches c y old
      have entry : s.positions = some q := entry
      by_cases same : c = (s.view.prepare req).clientId
      · subst same
        exact ⟨x, own, le_trans le (before_le q entry z seq)⟩
      · refine ⟨z, ?_, le⟩
        rw [addEventBatch_other _ _ _ same, entry]
        exact seq
    · by_cases same : (s.view.prepare req).clientId = c
      · rw [if_pos same] at new
        rw [mem_singleton.mp new, ← same]
        exact ⟨x, own, batch_le⟩
      · rw [if_neg same] at new
        cases new

theorem drop : AcceptedInv accepted { s with fsync := none } := by
  refine ⟨⟨fun c => ?_, ⟨h.positions.accepted_le, fun c y mem => ?_⟩, by simp⟩, h.bounded, h.logged,
    h.stored⟩
  · have sorted := h.whole c
    rw [pipeline, batchSeqs_append, batchSeqs_append] at sorted
    show (batchSeqs c (s.log ++ ([] ++ s.queue))).Pairwise _
    rw [nil_append, batchSeqs_append]
    exact sorted.sublist ((List.Sublist.refl _).append (sublist_append_right ..))
  · refine h.positions.batches c y ?_
    rw [batchSeqs_append]
    exact mem_append_right _ mem

/-- What was accepted after an fsync. -/
theorem commitSync {captured} (writing : s.fsync = some captured) {target}
    (merged : target = .deferToReplicationAck → ∀ q ∈ captured.positions, q.pendingDelete = true →
      ∀ b ∈ captured.blocks, b.isEventBatch = false)
    (kept : ∀ q ∈ captured.positions, q.pendingDelete = false → ∀ current ∈ s.positions,
      current.aggregateVersion = q.aggregateVersion → ∀ b ∈ s.queue, b.isEventBatch = false)
    (isLeader : Bool) (gaps : List ℕ) (rest : ℕ) :
    AcceptedInv (fun c => (batchSeqs c captured.blocks).foldr max (accepted c))
      (s.synced target isLeader captured gaps rest) := by
  obtain ⟨log, inflight, queue, positions, fsync, -, whole, split⟩ :=
    commitSync_pipeline writing target isLeader gaps rest rfl
  have before : s.inflight = captured.blocks := by rw [WritePath.inflight, writing]
  have shown := h.captured captured writing
  have queued := h.positions
  rw [before] at queued
  constructor
  · constructor
    · rw [whole]
      exact h.whole
    · rw [positions, inflight, queue, nil_append]
      rcases remaining_cases s.positions captured.positions with stays | ⟨gone, q, current, facts⟩
      · rw [stays]
        constructor
        · intro q present c z seq
          rcases foldr_max_cases (batchSeqs c captured.blocks) (accepted c) with same | new
          · rw [same]
            exact queued.accepted_le q present c z seq
          · refine queued.of_entry present seq _ ?_
            rw [batchSeqs_append]
            exact mem_append_left _ new
        · intro c y mem
          refine queued.batches c y ?_
          rw [batchSeqs_append]
          exact mem_append_right _ mem
      · obtain ⟨position, living, entry, same⟩ := facts
        rw [gone]
        refine ⟨fun q mem => absurd mem (by simp), fun c y mem => ?_⟩
        obtain ⟨b, block, -⟩ := mem_batchSeqs.mp mem
        cases kept q position living current entry same _ block
    · simp [fsync]
  · intro c y mem
    rw [log, batchSeqs_append] at mem
    rcases mem_append.mp mem with old | new
    · exact le_trans (h.bounded c y old) foldr_max_le.1
    · exact foldr_max_le.2 y new
  · intro c positive
    rw [log, batchSeqs_append]
    rcases foldr_max_cases (batchSeqs c captured.blocks) (accepted c) with same | new
    · rw [same] at positive ⊢
      exact mem_append_left _ (h.logged c positive)
    · exact mem_append_right _ new
  · intro c p entry
    obtain ⟨mid, merges, blocks⟩ := s.synced_merges target isLeader captured gaps rest c
    rw [stamp_blocks] at blocks
    -- nothing stored is below what was accepted before
    have old : accepted c ≤ p.1 := by
      rcases blocks.source p entry with merged | new
      · rcases merges.source p merged with old | queued
        · exact h.stored c p old
        · obtain ⟨q, mem, seq⟩ := Option.bind_eq_some_iff.mp (Option.mem_toList.mp queued)
          exact shown.accepted_le q mem c p.1 seq
      · rcases Nat.eq_zero_or_pos (accepted c) with zero | positive
        · omega
        · have sorted := h.whole c
          rw [split, append_assoc, batchSeqs_append, batchSeqs_append] at sorted
          exact (pairwise_append.mp sorted).2.2 _ (h.logged c positive) _
            (mem_append_left _ new)
    -- nor below what the fsync wrote
    have batch (y : ℕ) (mem : y ∈ batchSeqs c captured.blocks) : y ≤ p.1 := by
      obtain ⟨q, present, z, seq, le⟩ := shown.batches c y mem
      have least : 0 < y → AtLeast _ y := fun positive => by
        cases deleted : q.pendingDelete with
        | false =>
          refine blocks.bound y (.inl ?_)
          have queued : z ∈ (captured.positions.bind (·.clientSeqes c)).toList :=
            Option.mem_toList.mpr (Option.bind_eq_some_iff.mpr ⟨q, present, seq⟩)
          obtain ⟨p', mem', le'⟩ := merges.bound z (.inr ⟨queued, fun q' present' =>
            Option.mem_unique present present' ▸ deleted⟩)
          exact ⟨p', mem', le_trans le le'⟩
        | true =>
          refine blocks.bound y (.inr ⟨mem, fun defers => ?_, positive⟩)
          obtain ⟨b, block, -⟩ := mem_batchSeqs.mp mem
          cases merged defers q present deleted _ block
      rcases Nat.eq_zero_or_pos y with zero | positive
      · omega
      · obtain ⟨p', mem', le'⟩ := least positive
        exact Option.mem_unique (Option.mem_def.mpr entry) mem' ▸ le'
    rcases foldr_max_cases (batchSeqs c captured.blocks) (accepted c) with same | new
    · rw [same]
      exact old
    · exact batch _ new

/-- A compaction that leaves every client a batch that is not below those it drops. -/
theorem compact (state : CompactionState) (lo hi : ℕ) (left : ∀ c, ∀ x ∈ batchSeqs c s.log,
      ∃ y ∈ batchSeqs c ((s.compactedWal state lo hi).map (·.block)), x ≤ y) :
    AcceptedInv accepted (s.compact state lo hi) := by
  obtain ⟨wal, -, queue, positions, fsync, clients⟩ := s.compact_fields state lo hi
  have log : (s.compact state lo hi).log = (s.compactedWal state lo hi).map (·.block) := by
    rw [log, wal]
  have inflight : (s.compact state lo hi).inflight = s.inflight := by
    rw [inflight, inflight, fsync]
  have fewer (c : γ) : (batchSeqs c (s.compact state lo hi).log).Sublist (batchSeqs c s.log) := by
    rw [log]
    exact (filter_sublist.map _).filterMap _
  constructor
  · refine ⟨fun c => ?_, ?_, ?_⟩
    · have sorted := h.whole c
      rw [pipeline, batchSeqs_append] at sorted ⊢
      rw [inflight, queue]
      exact sorted.sublist ((fewer c).append (List.Sublist.refl _))
    · rw [positions, inflight, queue]
      exact h.positions
    · rw [fsync]
      exact h.captured
  · exact fun c y mem => h.bounded c y ((fewer c).subset mem)
  · intro c positive
    obtain ⟨y, mem, le⟩ := left c _ (h.logged c positive)
    rw [← log] at mem
    have same : y = accepted c := le_antisymm (h.bounded c y ((fewer c).subset mem)) le
    exact same ▸ mem
  · rw [clients]
    exact h.stored

theorem restart (visits readCursor : ℕ) : AcceptedInv accepted (s.restart visits readCursor) := by
  obtain ⟨core, clients⟩ := s.restart_fields visits readCursor
  obtain ⟨wal, queue, positions, fsync, -⟩ := core_fields core
  have log : (s.restart visits readCursor).log = s.log := by rw [WritePath.log, WritePath.log, wal]
  refine ⟨.settled (log ▸ h.whole.of_append) (.none accepted) queue positions fsync,
    log ▸ h.bounded, log ▸ h.logged, fun c p entry => ?_⟩
  have le := h.accepted_le_newest c
  rwa [clients c p entry] at le

/-! ## The idempotency check -/

/-- A loaded client of which something was accepted has an entry that is not below it. -/
theorem entry_of_loaded {c} (loaded : s.clientLoaded c = true) (positive : 0 < accepted c) :
    ∃ status, s.clientSeqEntry c = some status ∧ accepted c ≤ status.clientSeq := by
  unfold clientSeqEntry
  cases position : s.positions.bind (·.clientSeqes c) with
  | some x =>
    obtain ⟨q, present, seq⟩ := Option.bind_eq_some_iff.mp position
    exact ⟨_, rfl, h.positions.accepted_le q present c x seq⟩
  | none =>
    have stored : (s.clients c).isSome = true := by simpa [clientLoaded, position] using loaded
    obtain ⟨⟨x, w⟩, entry⟩ := Option.isSome_iff_exists.mp stored
    have le : accepted c ≤ x := h.stored c _ entry
    simp only [entry]
    rw [if_pos (lt_of_lt_of_le positive le)]
    exact ⟨_, rfl, le⟩

/-- A write that passes the check carries no sequence below an earlier batch of its client. -/
theorem check_above (enforced : req.enforceClientIdempotency = true)
    (loaded : s.clientLoaded req.clientId = true) (ok : s.checkClient req = .ok ()) :
    ∀ x ∈ batchSeqs req.clientId s.pipeline, x ≤ req.clientSeqs.foldr max 0 := by
  have attempted_le : req.clientSeqs.min?.getD 0 ≤ req.clientSeqs.foldr max 0 := by
    cases least : req.clientSeqs.min? with
    | none => exact Nat.zero_le _
    | some x => exact foldr_max_le.2 x (List.min?_mem least)
  have above (status : ClientSeqStatus) (entry : s.clientSeqEntry req.clientId = some status) :
      status.clientSeq < req.clientSeqs.min?.getD 0 := by
    simp only [checkClient, enforced, if_true, entry] at ok
    split at ok
    next => split at ok <;> cases ok
    next new => omega
  intro x mem
  rw [pipeline, batchSeqs_append] at mem
  rcases Nat.eq_zero_or_pos x with zero | positive
  · omega
  cases position : s.positions.bind (·.clientSeqes req.clientId) with
  | some z =>
    obtain ⟨q, present, seq⟩ := Option.bind_eq_some_iff.mp position
    have new : z < req.clientSeqs.min?.getD 0 :=
      above (.inflightInQueue z) (by simp only [clientSeqEntry, position])
    have le : x ≤ z := by
      rcases mem_append.mp mem with durable | unsynced
      · exact le_trans (h.bounded _ x durable) (h.positions.accepted_le q present _ z seq)
      · exact h.positions.of_entry present seq x unsynced
    omega
  | none =>
    rcases mem_append.mp mem with durable | unsynced
    · have le := h.bounded _ x durable
      obtain ⟨status, entry, stored⟩ := h.entry_of_loaded loaded (lt_of_lt_of_le positive le)
      have := above status entry
      omega
    · obtain ⟨q, present, z, seq, -⟩ := h.positions.batches _ x unsynced
      have there : s.positions.bind (·.clientSeqes req.clientId) = some z :=
        Option.bind_eq_some_iff.mpr ⟨q, present, seq⟩
      rw [position] at there
      cases there

end AcceptedInv

end WritePath

namespace Idempotency

variable {γ : Type} [DecidableEq γ]

/-! ## The steps that keep the invariant -/

/-- An fsync that defers to replication carries no event batch before a tombstone; a queue position
goes with an fsync only when no batch was queued meanwhile; and while a complete lookup answers, a
deferred fsync has no batch of a client that it does not know. -/
def safeSync (s : Idempotency γ) (target : CommitTarget) (captured : SyncPositionsSnapshot γ) :
    Prop :=
  (target = .deferToReplicationAck → ∀ q ∈ captured.positions, q.pendingDelete = true →
    ∀ b ∈ captured.blocks, b.isEventBatch = false) ∧
  (∀ q ∈ captured.positions, q.pendingDelete = false → ∀ current ∈ s.path.positions,
    current.aggregateVersion = q.aggregateVersion → ∀ b ∈ s.path.queue, b.isEventBatch = false) ∧
  (target ≠ .fullCommit → ∀ bloom ∈ s.bloom, bloom.complete = true →
    ∀ c ∈ batchClients captured.blocks, c ∈ bloom.members)

instance (s : Idempotency γ) (target : CommitTarget) (captured : SyncPositionsSnapshot γ) :
    Decidable (s.safeSync target captured) :=
  inferInstanceAs (Decidable (_ ∧ _ ∧ _))

/-- What a load puts is the newest durable batch of its client; the client of an enforced write is
loaded when it is prepared; another write carries no sequence below an earlier batch of its
client. -/
def safeWrite (s : Idempotency γ) : WriteAction γ → Prop
  | .finishScan i =>
    ∀ scan ∈ s.path.scanAt i, scan.1.cachePath = .write →
      ∀ e ∈ (s.path.upTo scan.2).getLast?, s.path.isNewest e
  | .finishClientScan i =>
    ∀ scan ∈ s.path.clientScanAt i, ∀ e ∈ s.path.wal, e.block.client = some scan.1 →
      e.walSeq ≤ scan.2
  | .passAggregate path j =>
    ∀ visit ∈ s.path.eventBatchAt j, path = .write → s.path.writeSnapshot.isNone = true →
      (s.path.clients visit.2.clientId).isNone = true → s.path.isNewest visit.1
  | .passClient j =>
    ∀ visit ∈ s.path.eventBatchAt j,
      (s.path.clients visit.2.clientId).isNone = true → s.path.isNewest visit.1
  | .prepare i schemaOk =>
    ∀ req ∈ s.path.writeAt i .validated, (s.path.validateWrite req schemaOk).isOk = true →
      (req.enforceClientIdempotency = true → s.path.clientLoaded req.clientId = true) ∧
      (req.enforceClientIdempotency = false → ∀ x ∈ batchSeqs req.clientId s.path.pipeline,
        x ≤ req.clientSeqs.foldr max 0)
  | .syncSucceeded target _ _ _ => ∀ captured ∈ s.path.fsync, s.safeSync target captured
  | _ => True

instance : DecidableRel (safeWrite : Idempotency γ → WriteAction γ → Prop) := fun s a => by
  induction a using WriteAction.casesOn <;> dsimp only [safeWrite, isNewest] <;>
    infer_instance

/-- A build ends complete only when every durable batch lies below its bound or its client is a
member; a compaction leaves every client a batch that is not below those it drops. -/
def Safe (s : Idempotency γ) : IdempotencyAction γ → Prop
  | .write a => s.safeWrite a
  | .finishBuild complete =>
    complete = true → ∀ bloom ∈ s.bloom, ∀ scan ∈ bloom.builder, ∀ bound ∈ scan, ∀ e ∈ s.path.wal,
      ∀ c ∈ e.block.client, e.walSeq ≤ bound ∨ c ∈ bloom.members
  | .compact lo hi bound =>
    ∀ state ∈ s.compactionState lo bound, ∀ e ∈ s.path.wal, ∀ c ∈ e.block.client,
      ∀ x ∈ e.block.clientSeq c,
        ∃ e' ∈ s.path.compactedWal state lo hi, ∃ y ∈ e'.block.clientSeq c, x ≤ y
  | _ => True

instance : DecidableRel (Safe : Idempotency γ → IdempotencyAction γ → Prop) := fun s a => by
  induction a using IdempotencyAction.casesOn <;> dsimp only [Safe] <;> infer_instance

/-! ## The invariant -/

/-- A complete lookup knows every client of which something was accepted. -/
def Knows (accepted : γ → ℕ) (bloom : Option (NegativeClientBloom γ)) : Prop :=
  ∀ b ∈ bloom, b.complete = true → ∀ c, 0 < accepted c → c ∈ b.members

structure Inv (s : Idempotency γ) : Prop where
  ordered : s.path.Ordered
  path : AcceptedInv s.accepted s.path
  bloom : Knows s.accepted s.bloom

variable {s t : Idempotency γ} {c : γ} {captured : SyncPositionsSnapshot γ}

/-- A client that the lookup calls absent has nothing accepted. -/
theorem Inv.absent (h : s.Inv) (absent : s.definitelyAbsent c = true) : s.accepted c = 0 := by
  unfold definitelyAbsent at absent
  cases entry : s.bloom with
  | none => simp [entry] at absent
  | some bloom =>
    rw [entry] at absent
    simp only [Bool.and_eq_true, Bool.not_eq_true', contains_eq_mem,
      decide_eq_false_iff_not] at absent
    by_contra positive
    exact absent.2 (h.bloom bloom entry absent.1 c (Nat.pos_of_ne_zero positive))

theorem acceptedAfter_synced (s : Idempotency γ)
    (writing : s.path.fsync = some captured) (target : CommitTarget) (isLeader : Bool)
    (gaps : List ℕ) (rest : ℕ) :
    s.acceptedAfter (.syncSucceeded target isLeader gaps rest) =
      fun c => (batchSeqs c captured.blocks).foldr max (s.accepted c) := by
  funext c
  simp only [acceptedAfter, writing]

/-- An action other than a successful fsync accepts nothing, and keeps caches and queue position. -/
theorem Inv.path_step (h : s.Inv) {a} (allowed : s.lookupAllows a = true)
    (safe : s.safeWrite a) {path : WritePath γ} (hstep : s.path.step a = some path) :
    AcceptedInv (s.acceptedAfter a) path := by
  have inv := h.path
  cases WritePath.Step.of_step hstep with
  | refused op _ => exact inv
  | entered op status _ loaded => exact inv.quiet (s.path.quiet_enter op _)
  | scanned i op bound task =>
    have dropped : AcceptedInv s.accepted (s.path.dropTask i) := inv.of_same rfl rfl
    have loaded : AcceptedInv s.accepted
        ((s.path.dropTask i).loadAggregate op.cachePath bound) := by
      rcases (s.path.dropTask i).loadAggregate_clients op.cachePath bound with
        same | ⟨write, e, b, newest, block, put⟩
      · exact dropped.of_same (loadAggregate_core ..) same
      · have safe := safe (op, bound) (scanAt_task task) write e newest
        have durable := (mem_wal_of_newest (s := s.path) newest).1
        exact dropped.of_put (loadAggregate_core ..)
          (inv.newest_le h.ordered durable block safe) put
    exact loaded.quiet (quiet_enter ..)
  | clientAbsent i req task absent =>
    have sure : s.definitelyAbsent req.clientId = true := by
      simpa [lookupAllows, task, absent] using allowed
    exact inv.of_put rfl (le_of_eq (h.absent sure)) rfl
  | clientScanned i req bound task =>
    have seen := newest_seen h.ordered fun e mem batch =>
      safe _ (clientScanAt_task task) e mem (clientSeq_isSome.mp batch)
    have le := inv.accepted_le_newest req.clientId
    rw [← seen] at le
    exact inv.of_put rfl le rfl
  | prepared i schemaOk req task ok =>
    obtain ⟨loaded, above⟩ := safe req task (by rw [ok]; rfl)
    have dropped : AcceptedInv s.accepted (s.path.dropTask i) := inv.of_same rfl rfl
    refine dropped.appendWrite ?_
    cases enforced : req.enforceClientIdempotency with
    | true => exact inv.check_above enforced (loaded enforced) (validateWrite_ok ok).2
    | false => exact above enforced
  | deleting i req task => exact inv.quiet (s.path.quiet_deleteStep i req)
  | passed path j e b visited _ =>
    obtain ⟨visit, block⟩ := eventBatchAt_wal visited
    rcases s.path.passAggregate_clients path e b with same | ⟨write, cold, absent, put⟩
    · exact inv.of_same (passAggregate_core ..) same
    · have newest := safe _ visited write (by rw [cold]; rfl) (by rw [absent]; rfl)
      exact inv.of_put (passAggregate_core ..)
        (inv.newest_le h.ordered (mem_of_getElem? visit) block newest) put
  | clientPassedBy j e b visited =>
    obtain ⟨visit, block⟩ := eventBatchAt_wal visited
    rcases s.path.putClientIfAbsent_clients b.clientId b.maxClientSeq with same | ⟨absent, put⟩
    · exact inv.of_same (putClientIfAbsent_fields ..).1 same
    · have newest := safe _ visited (by rw [absent]; rfl)
      exact inv.of_put (putClientIfAbsent_fields ..).1
        (inv.newest_le h.ordered (mem_of_getElem? visit) block newest) put
  | clientEvicted c =>
    refine inv.of_core rfl fun d p entry => .inl ?_
    by_cases own : d = c
    · simp [own] at entry
    · simpa [own] using entry
  | captured idle => exact ⟨inv.toCarries.capture idle, inv.bounded, inv.logged, inv.stored⟩
  | synced target isLeader gaps rest captured writing =>
    obtain ⟨merged, kept, -⟩ := safe captured writing
    rw [s.acceptedAfter_synced writing]
    exact inv.commitSync writing merged kept isLeader gaps _
  | rolledBack captured writing =>
    exact ⟨.settled inv.whole.of_append (.none _) rfl rfl rfl, inv.bounded, inv.logged, inv.stored⟩
  | dropped captured writing => exact inv.drop
  | committed batch rest deferred =>
    have popped : AcceptedInv s.accepted { s.path with deferred := rest } :=
      ⟨inv.toCarries.of_fields rfl rfl rfl rfl, inv.bounded, inv.logged, inv.stored⟩
    have committed := popped.of_same (commitPcdBlocks _ batch.blocks).1
      (commitPcdBlocks_clients _ batch.blocks)
    exact ⟨committed.toCarries.of_fields rfl rfl rfl rfl, committed.bounded, committed.logged,
      committed.stored⟩
  | _ => exact inv.of_same rfl rfl

omit [DecidableEq γ] in
theorem Knows.insert {accepted} (h : Knows accepted s.bloom) (clients : List γ) :
    Knows accepted (s.insertClients clients) := by
  intro b mem complete c positive
  obtain ⟨bloom, entry, rfl⟩ := Option.map_eq_some_iff.mp mem
  exact mem_append_right _ (h bloom entry complete c positive)

theorem mem_batchClients {blocks x} (batch : x ∈ batchSeqs c blocks) :
    c ∈ batchClients blocks := by
  obtain ⟨b, mem, rfl, -⟩ := mem_batchSeqs.mp batch
  exact mem_filterMap.mpr ⟨_, mem, rfl⟩

/-- What an fsync writes is known: a full commit inserts it, another has nothing unknown. -/
theorem Inv.lookup_synced (h : s.Inv)
    (writing : s.path.fsync = some captured) {target} (safe : s.safeSync target captured)
    (isLeader : Bool) (gaps : List ℕ) (rest : ℕ) :
    Knows (s.acceptedAfter (.syncSucceeded target isLeader gaps rest))
      (s.lookupAfter (.syncSucceeded target isLeader gaps rest)) := by
  have known {members : List γ} (old : ∀ c, 0 < s.accepted c → c ∈ members)
      (new : ∀ c ∈ batchClients captured.blocks, c ∈ members) (c : γ)
      (positive : 0 < s.acceptedAfter (.syncSucceeded target isLeader gaps rest) c) :
      c ∈ members := by
    rw [s.acceptedAfter_synced writing] at positive
    simp only at positive
    rcases foldr_max_cases (batchSeqs c captured.blocks) (s.accepted c) with
      same | batch
    · rw [same] at positive
      exact old c positive
    · exact new c (mem_batchClients batch)
  intro b mem complete
  by_cases full : target = .fullCommit
  · subst full
    simp only [lookupAfter, writing] at mem
    obtain ⟨bloom, entry, rfl⟩ := Option.map_eq_some_iff.mp mem
    exact known (fun c positive => mem_append_right _ (h.bloom bloom entry complete c positive))
      fun c new => mem_append_left _ new
  · have same : s.lookupAfter (.syncSucceeded target isLeader gaps rest) = s.bloom := by
      cases target with
      | fullCommit => exact absurd rfl full
      | deferToReplicationAck => rfl
      | deferToLeaderConfirmed => rfl
    rw [same] at mem
    exact known (h.bloom b mem complete) (safe.2.2 full b mem complete)

theorem Inv.lookup_step (h : s.Inv) {a} (safe : s.safeWrite a) {path}
    (hstep : s.path.step a = some path) : Knows (s.acceptedAfter a) (s.lookupAfter a) := by
  cases a with
  | clientAbsent | finishClientScan =>
    show Knows s.accepted _
    simp only [lookupAfter]
    split
    next =>
      split
      next => exact h.bloom
      next => exact h.bloom.insert _
    next => exact h.bloom
  | syncSucceeded target isLeader gaps rest =>
    cases writing : s.path.fsync with
    | none => simp [WritePath.step, writing] at hstep
    | some captured => exact h.lookup_synced writing (safe captured writing) isLeader gaps rest
  | commitPcd =>
    show Knows s.accepted _
    simp only [lookupAfter]
    split
    next => exact h.bloom.insert _
    next => exact h.bloom
  | _ => exact h.bloom

/-- A client of which something was accepted has a durable batch. -/
theorem Inv.durable_of_accepted (h : s.Inv) (positive : 0 < s.accepted c) :
    ∃ e ∈ s.path.wal, e.block.client = some c := by
  obtain ⟨b, mem, rfl, -⟩ := mem_batchSeqs.mp (h.path.logged c positive)
  obtain ⟨e, durable, block⟩ := mem_map.mp mem
  exact ⟨e, durable, by rw [block]; rfl⟩

omit [DecidableEq γ] in
theorem mem_batchClients_of_wal {blocks : List (DurableBlock γ)} {e}
    (mem : e ∈ blocks) (client : e.block.client = some c) :
    c ∈ batchClients (blocks.map (·.block)) :=
  mem_filterMap.mpr ⟨_, mem_map_of_mem mem, client⟩

theorem Inv.finishBuild (h : s.Inv) (complete : Bool) (safe : s.Safe (.finishBuild complete))
    (hstep : s.step (.finishBuild complete) = some t) : t.Inv := by
  simp only [step] at hstep
  split at hstep
  next members before bound entry =>
    cases complete with
    | false =>
      simp only [Bool.false_eq_true, if_false, Option.some.injEq] at hstep
      subst hstep
      refine ⟨h.ordered, h.path, ?_⟩
      rintro b ⟨⟩ complete c positive
      exact h.bloom _ entry complete c positive
    | true =>
      simp only [if_true] at hstep
      cases bound with
      | none => cases hstep
      | some bound =>
        simp only [Option.some.injEq] at hstep
        subst hstep
        refine ⟨h.ordered, h.path, ?_⟩
        rintro b ⟨⟩ - c positive
        obtain ⟨e, durable, client⟩ := h.durable_of_accepted positive
        have seen := safe rfl _ entry _ rfl _ rfl e durable c client
        refine mem_append.mpr (seen.imp (fun below => ?_) id)
        exact mem_batchClients_of_wal
          (mem_filter.mpr ⟨durable, decide_eq_true below⟩) client
  next => cases hstep

theorem Inv.compact (h : s.Inv) (lo hi : ℕ) (bound : Option ℕ)
    (safe : s.Safe (.compact lo hi bound))
    (hstep : s.step (.compact lo hi bound) = some t) : t.Inv := by
  simp only [step] at hstep
  split at hstep
  next => cases hstep
  next =>
    obtain ⟨state, resolved, rfl⟩ := Option.map_eq_some_iff.mp hstep
    obtain ⟨wal, tip, -⟩ := s.path.compact_fields state lo hi
    refine ⟨⟨?_, ?_⟩, h.path.compact state lo hi fun c x batch => ?_, h.bloom⟩
    · show ((s.path.compact state lo hi).wal).Pairwise _
      rw [wal]
      exact h.ordered.sorted.sublist filter_sublist
    · intro e mem
      have mem : e ∈ (s.path.compact state lo hi).wal := mem
      show e.walSeq ≤ (s.path.compact state lo hi).tip
      rw [wal] at mem
      rw [tip]
      exact h.ordered.below e (mem_filter.mp mem).1
    · obtain ⟨block, mem, seq⟩ := mem_filterMap.mp batch
      obtain ⟨e, durable, rfl⟩ := mem_map.mp mem
      have client := clientSeq_isSome.mp (Option.isSome_iff_exists.mpr ⟨x, seq⟩)
      obtain ⟨e', kept, y, seq', le⟩ := safe state resolved e durable c client x seq
      exact ⟨y, mem_filterMap.mpr ⟨_, mem_map_of_mem kept, seq'⟩, le⟩

theorem Inv.restart (h : s.Inv) (visits : ℕ) (sealedEnd : Option ℕ) (readCursor : ℕ) (seeded : Bool)
    (hstep : s.step (.restart visits sealedEnd readCursor seeded) = some t) : t.Inv := by
  cases hstep
  obtain ⟨core, -⟩ := s.path.restart_fields visits readCursor
  obtain ⟨wal, -, -, -, -, tip, -⟩ := core_fields core
  refine ⟨⟨?_, ?_⟩, h.path.restart visits readCursor, ?_⟩
  · show (s.path.restart visits readCursor).wal.Pairwise _
    rw [wal]
    exact h.ordered.sorted
  · show ∀ e ∈ (s.path.restart visits readCursor).wal,
      e.walSeq ≤ (s.path.restart visits readCursor).tip
    rw [wal, tip]
    exact h.ordered.below
  · intro b mem complete c positive
    cases seeded with
    | false => cases mem
    | true =>
      cases mem
      cases sealedEnd with
      | some sealedEnd => cases complete
      | none =>
        obtain ⟨e, durable, client⟩ := h.durable_of_accepted positive
        exact mem_batchClients_of_wal durable client

theorem Inv.init : (init : Idempotency γ).Inv where
  ordered := .init
  path :=
    { toCarries := .settled (fun _ => .nil) (.none _) rfl rfl rfl
      bounded := fun _ _ mem => absurd mem not_mem_nil
      logged := fun _ positive => absurd positive (Nat.lt_irrefl 0)
      stored := fun _ _ entry => by cases entry }
  bloom := fun _ mem => by cases mem

theorem Inv.step (h : s.Inv) {a} (safe : s.Safe a) (hstep : s.step a = some t) :
    t.Inv := by
  cases a
  all_goals simp only [Idempotency.step] at hstep
  case write a =>
    split at hstep
    next allowed =>
      obtain ⟨path, moved, rfl⟩ := Option.map_eq_some_iff.mp hstep
      exact ⟨h.ordered.step moved, h.path_step allowed safe moved, h.lookup_step safe moved⟩
    next => cases hstep
  case beginBuild =>
    split at hstep
    next =>
      cases hstep
      refine ⟨h.ordered, h.path, ?_⟩
      rintro b ⟨⟩ complete
      cases complete
    next bloom entry =>
      split at hstep
      next => cases hstep
      next =>
        cases hstep
        refine ⟨h.ordered, h.path, ?_⟩
        rintro b ⟨⟩ complete
        exact h.bloom bloom entry complete
  case beginBuildScan =>
    split at hstep
    next members complete entry =>
      cases hstep
      refine ⟨h.ordered, h.path, ?_⟩
      rintro b ⟨⟩ isComplete
      exact h.bloom ⟨members, complete, some none⟩ entry isComplete
    next => cases hstep
  case finishBuild complete => exact h.finishBuild complete safe hstep
  case evictBloom =>
    split at hstep
    next =>
      split at hstep
      next => cases hstep
      next =>
        cases hstep
        exact ⟨h.ordered, h.path, fun b mem => by cases mem⟩
    next => cases hstep
  case compact lo hi bound => exact h.compact lo hi bound safe hstep
  case restart visits sealedEnd readCursor seeded =>
    exact h.restart visits sealedEnd readCursor seeded hstep

end Idempotency

open Transition Idempotency in
/-- **A sequence is accepted once**: in every safe run, an enforced write with a sequence that is
not above the largest accepted one of its client is never queued, and where the client is loaded,
nothing of it is in flight and the concurrency checks pass, the answer is
ClientIdempotencyViolation. -/
theorem duplicate_write_rejected {γ : Type} [DecidableEq γ] {s : Idempotency γ}
    (run : Reaches Idempotency.step Safe .init s) {req : WriteRequest γ}
    (enforced : req.enforceClientIdempotency = true) (some_accepted : 0 < s.accepted req.clientId)
    (duplicate : ∃ x ∈ req.clientSeqs, x ≤ s.accepted req.clientId) (schemaOk : Bool) :
    (∀ i t, s.path.writeAt i .validated = some req → s.Safe (.write (.prepare i schemaOk)) →
      s.step (.write (.prepare i schemaOk)) = some t → t.path = s.path.dropTask i) ∧
    (s.path.clientLoaded req.clientId = true → s.path.view.check req = .ok () →
      (∀ status ∈ s.path.clientSeqEntry req.clientId, status.inflight s.path.readCursor = false) →
      ∃ last, s.accepted req.clientId ≤ last ∧ s.path.validateWrite req schemaOk =
        .error (.clientIdempotencyViolation last (req.clientSeqs.min?.getD 0))) := by
  have h : s.Inv := Reaches.invariant (fun _ _ _ h safe hstep => Inv.step h safe hstep) run .init
  have attempted : req.clientSeqs.min?.getD 0 ≤ s.accepted req.clientId := by
    obtain ⟨x, mem, le⟩ := duplicate
    cases least : req.clientSeqs.min? with
    | none => exact Nat.zero_le _
    | some y => exact le_trans ((List.min?_eq_some_iff.mp least).2 x mem) le
  constructor
  · intro i t task safe hstep
    cases valid : s.path.validateWrite req schemaOk with
    | error e =>
      simp only [Idempotency.step, lookupAllows, if_true, WritePath.step, task, valid,
        Option.map_some, Option.some.injEq] at hstep
      rw [← hstep]
    | ok _ =>
      have loaded := (safe req task (by rw [valid]; rfl)).1 enforced
      obtain ⟨status, entry, le⟩ := h.path.entry_of_loaded loaded some_accepted
      have passed := (validateWrite_ok valid).2
      simp only [checkClient, enforced, if_true, entry] at passed
      rw [if_pos (le_trans attempted le)] at passed
      split at passed <;> cases passed
  · intro loaded checked settled
    obtain ⟨status, entry, le⟩ := h.path.entry_of_loaded loaded some_accepted
    refine ⟨status.clientSeq, le, ?_⟩
    have refused : s.path.checkClient req =
        .error (.clientIdempotencyViolation status.clientSeq (req.clientSeqs.min?.getD 0)) := by
      simp only [checkClient, enforced, if_true, entry, settled status entry,
        Bool.false_eq_true, if_false]
      exact if_pos (le_trans attempted le)
    simp only [validateWrite, checked, refused]

open Transition Idempotency in
/-- Two writes with the same sequence that both pass validation, the first of them durable, a
complete lookup and a restart before them: the second is refused when it is prepared. -/
theorem duplicate_write_rejected_retried :
    ∃ (s : Idempotency Unit) (req : WriteRequest Unit), Reaches Idempotency.step Safe .init s ∧
      s.path.writeAt 0 .validated = some req ∧ req.clientSeqs = [7, 8] ∧ s.accepted () = 8 ∧
      (∃ last, 8 ≤ last ∧ s.path.validateWrite req true =
        .error (.clientIdempotencyViolation last 7)) ∧
      ∀ t, s.step (.write (.prepare 0 true)) = some t → t.path = s.path.dropTask 0 := by
  let first : WriteRequest Unit := ⟨(), [5], true, none, true⟩
  let req : WriteRequest Unit := ⟨(), [7, 8], true, none, true⟩
  let actions : List (IdempotencyAction Unit) :=
    [.write (.start (.write first)), .write (.beginScan 0), .write (.finishScan 0),
      .write (.clientCheck 0), .beginBuild, .beginBuildScan, .write (.beginClientScan 0),
      .write (.finishClientScan 0), .finishBuild true, .write (.validate 0 true),
      .write (.prepare 0 true), .write .capture, .write (.syncSucceeded .fullCommit false [2] 0),
      .restart 3 none 3 true, .compact 0 3 (some 3),
      .write (.start (.write req)), .write (.start (.write req)), .write (.clientCheck 0),
      .write (.clientCheck 1), .write (.validate 0 true), .write (.validate 1 true),
      .write (.prepare 1 true), .write .capture,
      .write (.syncSucceeded .deferToReplicationAck true [] 1), .write .commitPcd]
  obtain ⟨s, run, task, accepted, loaded, settled, safe⟩ : ∃ s,
      Reaches Idempotency.step Safe .init s ∧
      (s.path.writeAt 0 .validated).map (fun r => (r.clientSeqs, r.enforceClientIdempotency,
        (s.path.view.check r).isOk)) = some ([7, 8], true, true) ∧
      s.accepted () = 8 ∧ s.path.clientLoaded () = true ∧
      (s.path.clientSeqEntry ()).map (·.inflight s.path.readCursor) = some false ∧
      s.Safe (.write (.prepare 0 true)) := exists_of_exec actions (by decide +kernel)
  obtain ⟨r, task, facts⟩ := Option.map_eq_some_iff.mp task
  simp only [Prod.mk.injEq] at facts
  obtain ⟨seqs, enforced, checked⟩ := facts
  have seqsLe : ∃ x ∈ r.clientSeqs, x ≤ s.accepted r.clientId := ⟨7, by rw [seqs]; decide, by
    rw [show s.accepted r.clientId = s.accepted () from rfl, accepted]
    decide⟩
  have rejected := duplicate_write_rejected run enforced
    (by rw [show s.accepted r.clientId = s.accepted () from rfl, accepted]; decide) seqsLe true
  have passes : s.path.view.check r = .ok () := by
    cases check : s.path.view.check r with
    | ok _ => rfl
    | error e => rw [check] at checked; cases checked
  obtain ⟨last, le, answer⟩ := rejected.2 loaded passes fun status entry => by
    have entry : s.path.clientSeqEntry () = some status := entry
    rw [entry] at settled
    exact Option.some.inj settled
  rw [seqs] at answer
  exact ⟨s, r, run, task, seqs, accepted, ⟨last, accepted ▸ le, answer⟩,
    fun t hstep => rejected.1 0 t task safe hstep⟩

open Transition Idempotency in
/-- A write that does not enforce idempotency carries a lower sequence of the same client. After an
eviction the scan finds only its batch, and the sequence that was accepted before is accepted
again. -/
theorem unenforced_write_forgets_sequence :
    ∃ (s t : Idempotency Unit) (req : WriteRequest Unit), Reaches Idempotency.step Always .init s ∧
      s.accepted () = 5 ∧ s.path.writeAt 0 .validated = some req ∧
      req.enforceClientIdempotency = true ∧ req.clientSeqs = [5] ∧
      s.step (.write (.prepare 0 true)) = some t ∧
        s.path.queue.length + 1 = t.path.queue.length := by
  let req : WriteRequest Unit := ⟨(), [5], true, none, true⟩
  let other : WriteRequest Unit := ⟨(), [1], true, none, false⟩
  let actions : List (WriteAction Unit) :=
    [.start (.write req), .beginScan 0, .finishScan 0, .clientCheck 0, .beginClientScan 0,
      .finishClientScan 0, .validate 0 true, .prepare 0 true, .capture,
      .syncSucceeded .fullCommit false [] 0] ++ warmWrite other ++ [.capture,
      .syncSucceeded .fullCommit false [] 0, .evictClient (), .start (.write req), .clientCheck 0,
      .beginClientScan 0, .finishClientScan 0, .validate 0 true]
  obtain ⟨s, t, run, hstep, accepted, task, longer⟩ : ∃ s t,
      Reaches Idempotency.step Always .init s ∧ s.step (.write (.prepare 0 true)) = some t ∧
      s.accepted () = 5 ∧ (s.path.writeAt 0 .validated).map (fun r =>
        (r.enforceClientIdempotency, r.clientSeqs)) = some (true, [5]) ∧
      s.path.queue.length + 1 = t.path.queue.length :=
    exists_step_of_exec (actions.map .write) (by decide +kernel)
  obtain ⟨r, task, facts⟩ := Option.map_eq_some_iff.mp task
  obtain ⟨enforced, seqs⟩ := Prod.mk.inj facts
  exact ⟨s, t, r, run, accepted, task, enforced, seqs, hstep, longer⟩

end Celeriant
