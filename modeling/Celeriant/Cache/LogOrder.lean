import Celeriant.Cache.Versions

/-!
# The order of the log

The durable metablocks of the aggregate have increasing sequence numbers, none above the write
cursor. What a scan sees below its bound is therefore the beginning of the log.

## Main results

* `WritePath.Ordered.step`: every step keeps it, whatever it is
* `WritePath.Ordered.upTo_append`: the log is what lies at or below a bound, then the rest
-/

namespace Celeriant

open List

namespace WritePath

variable {γ : Type}

/-! ## Stamps -/

theorem lastSeq_cons (n : ℕ) (e : DurableBlock γ) (blocks : List (DurableBlock γ)) :
    lastSeq n (e :: blocks) = lastSeq e.walSeq blocks := by
  unfold lastSeq
  cases blocks with
  | nil => rfl
  | cons e' blocks =>
    rw [List.getLast?_cons_cons]
    cases last : (e' :: blocks).getLast? with
    | none => exact absurd (List.getLast?_eq_none_iff.mp last) (by simp)
    | some _ => rfl

/-- One step of a stamp. -/
theorem stamp_cons (n : ℕ) (gaps : List ℕ) (b : AggregateBlock γ)
    (blocks : List (AggregateBlock γ)) :
    ∃ m rest, n < m ∧ stamp n gaps (b :: blocks) = ⟨m, b⟩ :: stamp m rest blocks := by
  cases gaps with
  | nil => exact ⟨n + 1, [], by omega, rfl⟩
  | cons g gaps => exact ⟨n + g + 1, gaps, by omega, rfl⟩

theorem stamp_nil (n : ℕ) (gaps : List ℕ) : stamp n gaps ([] : List (AggregateBlock γ)) = [] := by
  cases gaps <;> rfl

/-- A stamp increases, above where it starts and up to its last number. -/
theorem stamp_ordered (n : ℕ) (gaps : List ℕ) (blocks : List (AggregateBlock γ)) :
    (stamp n gaps blocks).Pairwise (fun a b => a.walSeq < b.walSeq) ∧
      (∀ e ∈ stamp n gaps blocks, n < e.walSeq ∧ e.walSeq ≤ lastSeq n (stamp n gaps blocks)) ∧
      n ≤ lastSeq n (stamp n gaps blocks) := by
  induction blocks generalizing n gaps with
  | nil =>
    exact ⟨.nil, fun e mem => absurd mem not_mem_nil, Nat.le_refl n⟩
  | cons b blocks ih =>
    obtain ⟨m, rest, above, eq⟩ := stamp_cons n gaps b blocks
    obtain ⟨sorted, bounds, last⟩ := ih m rest
    rw [eq, lastSeq_cons]
    refine ⟨.cons (fun e mem => (bounds e mem).1) sorted, ?_, le_trans (le_of_lt above) last⟩
    rintro e (_ | ⟨_, mem⟩)
    · exact ⟨above, last⟩
    · obtain ⟨lower, upper⟩ := bounds e mem
      exact ⟨by omega, upper⟩

/-! ## The invariant -/

/-- Sequences ascend along the log, up to the tip. -/
structure Ordered (s : WritePath γ) : Prop where
  sorted : s.wal.Pairwise fun a b => a.walSeq < b.walSeq
  below : ∀ e ∈ s.wal, e.walSeq ≤ s.tip

variable {s t : WritePath γ}

theorem Ordered.of_core (h : s.Ordered) (core : t.core = s.core) : t.Ordered := by
  have wal : t.wal = s.wal := congrArg (·.1) core
  have tip : t.tip = s.tip := congrArg (·.2.2.2.2.2.1) core
  exact ⟨wal ▸ h.sorted, wal ▸ tip ▸ h.below⟩

theorem Ordered.commitSync [DecidableEq γ] (h : s.Ordered) (target : CommitTarget) (isLeader : Bool)
    (captured : SyncPositionsSnapshot γ) (gaps : List ℕ) (rest : ℕ) :
    (s.synced target isLeader captured gaps rest).Ordered := by
  obtain ⟨-, core⟩ := s.synced_fields target isLeader captured gaps rest
  obtain ⟨sorted, bounds, last⟩ := stamp_ordered s.tip gaps captured.blocks
  obtain ⟨wal, -, -, -, -, tip, -⟩ := core_fields core
  constructor
  · rw [wal]
    refine pairwise_append.mpr ⟨h.sorted, sorted, fun a old b new => ?_⟩
    exact lt_of_le_of_lt (h.below a old) (bounds b new).1
  · rw [wal, tip]
    intro e mem
    rcases mem_append.mp mem with old | new
    · have := h.below e old
      omega
    · have := (bounds e new).2
      omega

theorem Ordered.init : (init : WritePath γ).Ordered := ⟨.nil, fun _ mem => absurd mem not_mem_nil⟩

theorem Ordered.step [DecidableEq γ] (h : s.Ordered) {a} (hstep : s.step a = some t) :
    t.Ordered := by
  cases PathStep.of_step hstep with
  | quiet _ _ core | evicted _ core | passed _ _ _ _ _ core | loaded _ _ _ _ _ _ core =>
    exact h.of_core core
  | loadedTrim i bound keepFrom u scan found core =>
    have loaded := h.of_core core
    exact ⟨loaded.sorted, loaded.below⟩
  | synced target isLeader gaps rest captured writing =>
    exact h.commitSync target isLeader captured gaps rest
  | committed batch rest deferred =>
    have popped : Ordered { s with deferred := rest } := ⟨h.sorted, h.below⟩
    have committed := popped.of_core (commitPcdBlocks _ batch.blocks).1
    exact ⟨committed.sorted, committed.below⟩
  | _ => exact ⟨h.sorted, h.below⟩

/-- An increasing list is what lies at or below a bound, then the rest. -/
theorem filter_append_of_sorted {blocks : List (DurableBlock γ)}
    (sorted : blocks.Pairwise fun a b => a.walSeq < b.walSeq) (bound : ℕ) :
    blocks = blocks.filter (·.walSeq ≤ bound) ++ blocks.filter (bound < ·.walSeq) := by
  induction blocks with
  | nil => rfl
  | cons e blocks ih =>
    obtain ⟨above, sorted⟩ := pairwise_cons.mp sorted
    by_cases seen : e.walSeq ≤ bound
    · have unseen : ¬ bound < e.walSeq := by omega
      rw [filter_cons_of_pos (by simpa using seen),
        filter_cons_of_neg (by simpa using unseen), cons_append, ← ih sorted]
    · -- nothing after an unseen metablock is seen
      have none : blocks.filter (·.walSeq ≤ bound) = [] := by
        refine filter_eq_nil_iff.mpr fun e' mem => ?_
        have := above e' mem
        simp only [decide_eq_true_eq]
        omega
      have rest := ih sorted
      rw [none, nil_append] at rest
      rw [filter_cons_of_neg (by simpa using seen), none, nil_append,
        filter_cons_of_pos (by simpa using seen), ← rest]

theorem Ordered.upTo_append (h : s.Ordered) (bound : ℕ) :
    s.wal = s.upTo bound ++ s.wal.filter (bound < ·.walSeq) :=
      filter_append_of_sorted h.sorted bound

/-- What a scan sees is the beginning of the log. -/
theorem Ordered.log_append (h : s.Ordered) (bound : ℕ) :
    s.log = (s.upTo bound).map (·.block) ++ (s.wal.filter (bound < ·.walSeq)).map (·.block) := by
  rw [log, ← map_append, ← h.upTo_append bound]

/-! ## What a scan caches -/

section Scans

variable (s : WritePath γ)

/-- The cached snapshot of a path. -/
def snapshotOn : CachePath → Option MemSnapshotAggregate
  | .write => s.writeSnapshot
  | .read => s.readSnapshot

/-- The metablocks at or below a bound. -/
def logUpTo (bound : ℕ) : List (AggregateBlock γ) := (s.upTo bound).map (·.block)

variable [DecidableEq γ]

/-- What a load puts into its cache. -/
theorem loadAggregate_snapshotOn (path : CachePath) (bound : ℕ) :
    (s.loadAggregate path bound).snapshotOn path = some (.coldLoad (s.logUpTo bound)) := by
  cases path with
  | write => exact (s.loadAggregate_snapshots bound).1.1
  | read => exact (s.loadAggregate_snapshots bound).2.1

/-- What a passing scan puts into a cache that has no snapshot. -/
theorem passAggregate_snapshotOn (path : CachePath) (e : DurableBlock γ) (b : EventBatch γ)
    (absent : s.snapshotOn path = none) :
    (s.passAggregate path e b).snapshotOn path = some (.ofBlock e.block) := by
  cases path with
  | write =>
    have absent : s.writeSnapshot = none := absent
    show (s.passAggregate .write e b).writeSnapshot = _
    rw [s.passAggregate_write e b, absent]
    rfl
  | read =>
    have absent : s.readSnapshot = none := absent
    show (s.passAggregate .read e b).readSnapshot = _
    simp only [passAggregate, absent, Option.isSome_none, Bool.false_eq_true, if_false]
    rfl

end Scans

end WritePath

end Celeriant
