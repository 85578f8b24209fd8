import Celeriant.Shard.SegmentSteps
import Mathlib.Data.List.MinMax

/-!
# The metablocks on disk

`Shard` knows cursors; which metablock lies where it leaves open. `LoggedShard` runs a shard with
the metablocks in its segment files. A sync stamps its batch from the write cursor of the copy it
took and overwrites what was there; a failed sync leaves any part of that behind; a rotation starts
an empty file. Rewinding a cursor removes nothing from the disk.

With the metablocks at hand `durable_tail_is_peer` is no longer an outside answer: it compares the
author of the newest metablock below the write cursor. The scan takes the active segment and its
write cursor when it is called and reads the disk later, so its answer may be about a tail that has
changed since. Who authored an entry is a parameter `own` of the model.

## Main results

* `LoggedShard.mem_log_of_step`: a metablock was there before or belongs to the batch of a sync
* `LoggedShard.exists_tip`: a segment with a metablock below the cursor decides the answer
-/

namespace Celeriant

open List

/-- A metablock: its segment, its `wal_seq`, and the entry it is of. -/
structure LogRecord where
  logId : ℕ
  walSeq : ℕ
  entry : EntryId
  deriving DecidableEq, Repr

/-- The metablocks of a batch that is written to segment `g` from the cursor `n` on. -/
def stamped (g : ℕ) : ℕ → List EntryId → List LogRecord
  | _, [] => []
  | n, e :: es => ⟨g, n + 1, e⟩ :: stamped g (n + 1) es

/-- Metablocks in the same place are overwritten. -/
def overwrite (log new : List LogRecord) : List LogRecord :=
  log.filter (fun r => new.all fun w => w.logId ≠ r.logId || w.walSeq ≠ r.walSeq) ++ new

theorem mem_stamped {g n es r} (h : r ∈ stamped g n es) :
    r.logId = g ∧ n < r.walSeq ∧ r.walSeq ≤ n + es.length ∧ r.entry ∈ es := by
  induction es generalizing n with
  | nil => cases h
  | cons e es ih =>
    rcases mem_cons.mp h with rfl | h
    · exact ⟨rfl, Nat.lt_succ_self n, by simp, mem_cons_self⟩
    · obtain ⟨logId, low, high, entry⟩ := ih h
      refine ⟨logId, by omega, ?_, mem_cons_of_mem e entry⟩
      rw [length_cons]
      omega

theorem mem_overwrite {log new r} (h : r ∈ overwrite log new) :
    r ∈ log ∨ r ∈ new := by
  rcases mem_append.mp h with h | h
  · exact .inl (mem_of_mem_filter h)
  · exact .inr h

/-- A shard with the metablocks of its files. -/
structure LoggedShard where
  shard : Shard
  log : List LogRecord

/-- An action of the shard; `landed` says which metablocks of a sync that fails reach the disk. -/
structure LoggedAction where
  action : ShardAction
  landed : List ℕ
  deriving DecidableEq, Repr

/-- An action of the shard other than a failing sync. -/
def ShardAction.logged (a : ShardAction) : LoggedAction := ⟨a, []⟩

namespace LoggedShard

def initial : LoggedShard := ⟨.initial, []⟩

variable (own : EntryId → Bool) (w : LoggedShard)

/-- The batch that the gate holder is writing, where it writes it. -/
def batchRecords : List LogRecord :=
  match w.shard.gate with
  | .writing _ entries g clone => stamped g clone.write entries
  | _ => []

/-- The metablocks after an action. -/
def logAfter (a : LoggedAction) : List LogRecord :=
  match a.action with
  | .syncSucceeded => overwrite w.log w.batchRecords
  | .syncFailed _ => overwrite w.log (w.batchRecords.filter fun r => r.walSeq ∈ a.landed)
  | .rotated true => w.log.filter fun r => r.logId ≠ w.shard.segments.activeLogId + 1
  | _ => w.log

/-- The metablock is in a segment of the log, below the segment's write cursor. -/
def InChain (r : LogRecord) : Prop :=
  r.logId ≤ w.shard.segments.activeLogId ∧ r.walSeq ≤ (w.shard.segments.metadata r.logId).write
  deriving Decidable

/-- The newest metablock of segment `g` up to the cursor `n`. -/
def lastRecord (g n : ℕ) : Option LogRecord :=
  (w.log.filter fun r => r.logId = g ∧ r.walSeq ≤ n).argmax (·.walSeq)

/-- A reverse scan of segment `g` below the cursor `n`. It goes on to older segments while it finds
nothing; their write cursors are read when it gets there. -/
def tipBelow : ℕ → ℕ → Option LogRecord
  | 0, n => w.lastRecord 0 n
  | g + 1, n =>
    match w.lastRecord (g + 1) n with
    | some r => some r
    | none => tipBelow g (w.shard.segments.metadata g).write

/-- `durable_tail_is_peer` once nothing is parked, for a scan that was started at segment `g` and
the write cursor `n`; without any metablock the tail counts as own. -/
def tailIsPeerBelow (g n : ℕ) : Bool :=
  match w.tipBelow g n with
  | some r => !own r.entry
  | none => false

/-- What the newest metablock says of the tail as it is now. -/
def tailIsPeer : Bool :=
  w.tailIsPeerBelow own w.shard.segments.activeLogId w.shard.segments.active.write

/-- The answers that the disk gives to a task: the scan looks below the cursor of its call. -/
def answers (i : ℕ) (isPeer : Bool) : Bool :=
  match w.shard.culls[i]? with
  | some (.provenance _ _ g n) => isPeer == w.tailIsPeerBelow own g n
  | _ => false

/-- A step of the shard, in which the provenance of a tail is what the disk says. -/
def step (a : LoggedAction) : Option LoggedShard :=
  match a.action with
  | .tailProvenance i isPeer =>
    if w.answers own i isPeer then
      (w.shard.step (.tailProvenance i isPeer)).map fun t => ⟨t, w.logAfter a⟩
    else none
  | action => (w.shard.step action).map fun t => ⟨t, w.logAfter a⟩

variable {own w} {w' : LoggedShard} {a : LoggedAction}

theorem step_shard (h : w.step own a = some w') :
    w.shard.step a.action = some w'.shard ∧ w'.log = w.logAfter a := by
  have mapped : (w.shard.step a.action).map (fun t => (⟨t, w.logAfter a⟩ : LoggedShard)) =
      some w' := by
    unfold step at h
    split at h
    next i isPeer eq =>
      split at h
      · rw [eq]
        exact h
      · cases h
    next => exact h
  obtain ⟨t, ht, rfl⟩ := Option.map_eq_some_iff.mp mapped
  exact ⟨ht, rfl⟩

/-- The provenance that a task is resumed with is the one on disk, below the cursor of its call. -/
theorem step_provenance {i isPeer mode read g n} (h : w.step own a = some w')
    (action : a.action = .tailProvenance i isPeer)
    (task : w.shard.culls[i]? = some (.provenance mode read g n)) :
    isPeer = w.tailIsPeerBelow own g n := by
  unfold step at h
  rw [action] at h
  dsimp only at h
  split at h
  next answers =>
    simp only [LoggedShard.answers, task] at answers
    exact eq_of_beq answers
  next => cases h

theorem logAfter_of_not_writesLog (h : a.action.writesLog = false) : w.logAfter a = w.log := by
  unfold logAfter
  split
  next eq =>
    rw [eq] at h
    cases h
  next eq =>
    rw [eq] at h
    cases h
  next eq =>
    rw [eq] at h
    cases h
  next => rfl

variable {r : LogRecord} {g n : ℕ}

/-- A metablock was there before, or belongs to the batch of a sync. -/
theorem mem_log_of_step (h : w.step own a = some w') (hr : r ∈ w'.log) :
    r ∈ w.log ∨ r ∈ w.batchRecords ∧
      (a.action = .syncSucceeded ∨ ∃ landed, a.action = .syncFailed landed) := by
  rw [(step_shard h).2, logAfter] at hr
  split at hr
  next eq => exact (mem_overwrite hr).imp_right fun hr => ⟨hr, .inl eq⟩
  next landed eq =>
    exact (mem_overwrite hr).imp_right fun hr => ⟨mem_of_mem_filter hr, .inr ⟨landed, eq⟩⟩
  next => exact .inl (mem_of_mem_filter hr)
  next => exact .inl hr

theorem batchRecords_writing {target entries}
    {clone} (gate : w.shard.gate = .writing target entries g clone) :
    w.batchRecords = stamped g clone.write entries := by
  rw [batchRecords, gate]

/-! ## The newest metablock -/

theorem mem_lastRecord (h : w.lastRecord g n = some r) :
    r ∈ w.log ∧ r.logId = g ∧ r.walSeq ≤ n := by
  have mem := argmax_mem h
  obtain ⟨hr, at_g⟩ := mem_filter.mp mem
  exact ⟨hr, of_decide_eq_true at_g⟩

/-- A segment with a metablock below the cursor has a newest one. -/
theorem exists_lastRecord (hr : r ∈ w.log) (logId : r.logId = g) (below : r.walSeq ≤ n) :
    ∃ last, w.lastRecord g n = some last ∧ r.walSeq ≤ last.walSeq := by
  have mem : r ∈ w.log.filter fun r => r.logId = g ∧ r.walSeq ≤ n :=
    mem_filter.mpr ⟨hr, decide_eq_true ⟨logId, below⟩⟩
  cases hlast : w.lastRecord g n with
  | none =>
    have := argmax_eq_none.mp hlast
    rw [this] at mem
    cases mem
  | some last => exact ⟨last, rfl, le_of_mem_argmax mem hlast⟩

theorem tipBelow_of_lastRecord (h : w.lastRecord g n = some r) : w.tipBelow g n = some r := by
  cases g with
  | zero => exact h
  | succ g => rw [tipBelow, h]

/-- A metablock of the active segment below the write cursor makes the tip one of them. -/
theorem exists_tip (own : EntryId → Bool) (hr : r ∈ w.log)
    (logId : r.logId = w.shard.segments.activeLogId)
    (below : r.walSeq ≤ w.shard.segments.active.write) :
    ∃ tip ∈ w.log, w.tailIsPeer own = !own tip.entry ∧
      tip.logId = w.shard.segments.activeLogId ∧ r.walSeq ≤ tip.walSeq ∧
      tip.walSeq ≤ w.shard.segments.active.write := by
  obtain ⟨tip, last, le⟩ := exists_lastRecord hr logId below
  obtain ⟨mem, tipLogId, tipBelow⟩ := mem_lastRecord last
  refine ⟨tip, mem, ?_, tipLogId, le, tipBelow⟩
  rw [tailIsPeer, tailIsPeerBelow, tipBelow_of_lastRecord last]

end LoggedShard

end Celeriant
