import Celeriant.Cache.Snapshots
import Mathlib.Data.List.Induction

/-!
# The life of an aggregate

What the metablocks of an aggregate say it is: unborn, alive at a version and event sequence, or
deleted. The version and the first event sequence of an event batch follow from the life before it,
and this module states what it means that a log is numbered that way, and when a snapshot or a queue
position describes a life.

`Continued` is the stronger property that the write path keeps: trims and tombstones repeat the
version and sequence of the living aggregate, and only a tombstone with sequence continuation is
followed by another batch.

## Main results

* `Continued.numbered`
* `Continued.le`: along such a log the numbers never fall
* `Continued.all_trims`: a living aggregate whose version stayed was only trimmed
-/

namespace Celeriant

variable {γ : Type}

/-- What the metablocks so far make of the aggregate. -/
inductive Life
  | unborn
  | alive (version eventSeq : ℕ)
  | deleted (version eventSeq : ℕ) (allowRecreate allowSequenceContinuation : Bool)
  deriving DecidableEq, Repr

namespace Life

/-- The life after a metablock; a trim says nothing about it. -/
def next (l : Life) : AggregateBlock γ → Life
  | .eventBatch b => alive b.aggregateVersion b.maxEventSeq
  | .softTrim _ => l
  | .softDelete d =>
    deleted d.aggregateVersion d.eventSeq d.allowRecreate d.allowSequenceContinuation

def after (l : Life) (log : List (AggregateBlock γ)) : Life := log.foldl next l

/-- The version and the first event sequence of the batch that comes next: a first or fresh
incarnation starts at one, and a continued one goes on from the tombstone. -/
def expects : Life → ℕ × ℕ
  | unborn => (1, 1)
  | alive v n => (v + 1, n + 1)
  | deleted v n _ continued => if continued then (v + 1, n + 1) else (1, 1)

def version : Life → ℕ
  | unborn => 0
  | alive v _ => v
  | deleted v _ _ _ => v

def eventSeq : Life → ℕ
  | unborn => 0
  | alive _ n => n
  | deleted _ n _ _ => n

def isDeleted : Life → Bool
  | unborn => false
  | alive _ _ => false
  | deleted _ _ _ _ => true

@[simp] theorem after_cons (l : Life) (b : AggregateBlock γ) (log : List (AggregateBlock γ)) :
    l.after (b :: log) = (l.next b).after log := rfl

theorem after_append (l : Life) (log more : List (AggregateBlock γ)) :
    l.after (log ++ more) = (l.after log).after more := List.foldl_append

/-- Trims leave the life as it is. -/
theorem after_trims (l : Life) {log : List (AggregateBlock γ)}
    (trims : ∀ b ∈ log, b.isTrim = true) :
    l.after log = l := by
  induction log with
  | nil => rfl
  | cons b log ih =>
    have isTrim : b.isTrim = true := trims b (List.mem_cons_self ..)
    cases b with
    | softTrim t => exact ih fun c hc => trims c (List.mem_cons_of_mem _ hc)
    | eventBatch b => cases isTrim
    | softDelete d => cases isTrim

end Life

/-! ## Numbered logs -/

/-- Every event batch has the version and the first event sequence that the life before it asks
for. -/
def Numbered : Life → List (AggregateBlock γ) → Prop
  | _, [] => True
  | l, b :: log =>
    (match b with
      | .eventBatch batch => (batch.aggregateVersion, batch.minEventSeq) = l.expects
      | _ => True) ∧ Numbered (l.next b) log

instance Numbered.decidable : ∀ (l : Life) (log : List (AggregateBlock γ)),
    Decidable (Numbered l log)
  | _, [] => isTrue trivial
  | l, .eventBatch b :: log =>
    have := Numbered.decidable (l.next (.eventBatch b)) log
    inferInstanceAs (Decidable ((b.aggregateVersion, b.minEventSeq) = l.expects ∧ _))
  | l, .softTrim t :: log =>
    have := Numbered.decidable (l.next (.softTrim t : AggregateBlock γ)) log
    inferInstanceAs (Decidable (True ∧ _))
  | l, .softDelete d :: log =>
    have := Numbered.decidable (l.next (.softDelete d : AggregateBlock γ)) log
    inferInstanceAs (Decidable (True ∧ _))

/-- What the write path lets follow a life. -/
def Follows (l : Life) : AggregateBlock γ → Prop
  | .eventBatch b =>
    (match l with
      | .deleted _ _ allowRecreate continued => allowRecreate = true ∧ continued = true
      | _ => True) ∧
      (b.aggregateVersion, b.minEventSeq) = l.expects ∧ b.minEventSeq ≤ b.maxEventSeq + 1
  | .softTrim t => l = .alive t.aggregateVersion t.eventSeq
  | .softDelete d => l = .alive d.aggregateVersion d.eventSeq

/-- Every metablock follows the life before it. -/
def Continued : Life → List (AggregateBlock γ) → Prop
  | _, [] => True
  | l, b :: log => Follows l b ∧ Continued (l.next b) log

section Follows

variable {l : Life} {b : AggregateBlock γ} {batch : EventBatch γ}

/-- An event batch raises the version, and its events come after the last sequence before it. -/
theorem Follows.raises (h : Follows l (.eventBatch batch)) :
    l.version < batch.aggregateVersion ∧ l.eventSeq ≤ batch.maxEventSeq := by
  obtain ⟨again, number, ordered⟩ := h
  obtain ⟨version, first⟩ := Prod.mk.inj number
  rw [first] at ordered
  rw [version]
  cases l with
  | unborn => exact ⟨Nat.one_pos, Nat.zero_le _⟩
  | alive v n => exact ⟨Nat.lt_succ_self v, Nat.le_of_succ_le_succ ordered⟩
  | deleted v n allowRecreate continued =>
    obtain ⟨-, rfl⟩ := again
    exact ⟨Nat.lt_succ_self v, Nat.le_of_succ_le_succ ordered⟩

theorem Follows.le (h : Follows l b) :
    l.version ≤ (l.next b).version ∧ l.eventSeq ≤ (l.next b).eventSeq := by
  cases b with
  | eventBatch b => exact h.raises.imp_left le_of_lt
  | softTrim t => exact ⟨le_rfl, le_rfl⟩
  | softDelete d =>
    rw [show l = .alive d.aggregateVersion d.eventSeq from h]
    exact ⟨le_rfl, le_rfl⟩

end Follows

namespace Continued

variable {l : Life} {log more : List (AggregateBlock γ)}

theorem numbered (h : Continued l log) : Numbered l log := by
  induction log generalizing l with
  | nil => trivial
  | cons b log ih =>
    refine ⟨?_, ih h.2⟩
    cases b with
    | eventBatch batch => exact h.1.2.1
    | softTrim t => trivial
    | softDelete d => trivial

theorem append : Continued l (log ++ more) ↔ Continued l log ∧ Continued (l.after log) more := by
  induction log generalizing l with
  | nil => exact (iff_of_eq (true_and _)).symm
  | cons b log ih => exact (and_congr_right fun _ => ih).trans and_assoc.symm

variable {b : AggregateBlock γ}

theorem concat :
    Continued l (log ++ [b]) ↔ Continued l log ∧ Follows (l.after log) b := by
  rw [append]
  exact and_congr_right fun _ => and_iff_left trivial

theorem le (h : Continued l log) :
    l.version ≤ (l.after log).version ∧ l.eventSeq ≤ (l.after log).eventSeq := by
  induction log generalizing l with
  | nil => exact ⟨le_rfl, le_rfl⟩
  | cons b log ih => exact h.1.le.imp (le_trans · (ih h.2).1) (le_trans · (ih h.2).2)

/-- A log that leaves the version as it was and the aggregate alive only trims it. -/
theorem all_trims (h : Continued l log) (same : (l.after log).version = l.version)
    (living : (l.after log).isDeleted = false) (start : l.isDeleted = false) :
    ∀ b ∈ log, b.isTrim = true := by
  induction log generalizing l with
  | nil => exact fun b hb => absurd hb List.not_mem_nil
  | cons b log ih =>
    cases b with
    | eventBatch batch =>
      -- the batch raises the version, and nothing after it lowers it
      have raised := h.1.raises.1
      have kept : batch.aggregateVersion ≤ _ := h.2.le.1
      rw [Life.after_cons] at same
      omega
    | softTrim t =>
      rintro c (_ | ⟨_, hc⟩)
      · rfl
      · exact ih h.2 same living start c hc
    | softDelete d =>
      -- a recreation raises the version; without one the aggregate stays deleted
      exfalso
      have alive : l = .alive d.aggregateVersion d.eventSeq := h.1
      subst alive
      cases log with
      | nil => cases living
      | cons c log =>
        cases c with
        | eventBatch batch =>
          have raised : d.aggregateVersion < batch.aggregateVersion := h.2.1.raises.1
          have kept : batch.aggregateVersion ≤ _ := h.2.2.le.1
          have same : (Life.after (.alive batch.aggregateVersion batch.maxEventSeq) log).version =
            d.aggregateVersion := same
          have kept : batch.aggregateVersion ≤
            (Life.after (.alive batch.aggregateVersion batch.maxEventSeq) log).version := kept
          omega
        | softTrim | softDelete => exact absurd h.2.1 (by simp [Follows, Life.next])

/-- A log that ends with the aggregate deleted ends with the tombstone. -/
theorem last_tombstone (h : Continued l log) (deleted : (l.after log).isDeleted = true)
    (nonempty : log ≠ []) : ∃ d, log.getLast? = some (.softDelete d) := by
  obtain ⟨before, b, rfl⟩ := (List.eq_nil_or_concat' log).resolve_left nonempty
  obtain ⟨-, follows⟩ := concat.mp h
  rw [Life.after_append] at deleted
  cases b with
  | eventBatch batch => cases deleted
  | softTrim t =>
    have alive : l.after before = .alive t.aggregateVersion t.eventSeq := follows
    rw [alive] at deleted
    cases deleted
  | softDelete d => exact ⟨d, by simp⟩

/-- A metablock of the log carries no more than the life it leads to. -/
theorem follows_of_mem (h : Continued l log) (mem : b ∈ log) :
    ∃ before, Follows before b ∧ (before.next b).version ≤ (l.after log).version ∧
      (before.next b).eventSeq ≤ (l.after log).eventSeq := by
  obtain ⟨older, newer, rfl⟩ := List.append_of_mem mem
  obtain ⟨-, follows, rest⟩ := append.mp h
  rw [Life.after_append, Life.after_cons]
  exact ⟨l.after older, follows, rest.le⟩

/-- A living aggregate has a version. -/
theorem alive_pos (h : Continued .unborn log) {v n : ℕ}
    (alive : Life.after .unborn log = .alive v n) : 0 < v := by
  induction log using List.reverseRecOn generalizing v n with
  | nil => cases alive
  | append_singleton log b ih =>
    obtain ⟨before, follows⟩ := concat.mp h
    rw [Life.after_append] at alive
    cases b with
    | eventBatch batch =>
      obtain ⟨rfl, -⟩ := Life.alive.inj alive
      exact lt_of_le_of_lt (Nat.zero_le _) follows.raises.1
    | softTrim t => exact ih before alive
    | softDelete d => cases alive

end Continued

/-! ## Caches that describe a life -/

/-- The indexes say what the life is. -/
def EventIndexes.Describes (ix : EventIndexes) : Life → Prop
  | .unborn => ix.pendingDeleteOrDeleted = false ∧ ix.aggregateVersion = 0 ∧ ix.eventSeq = 0
  | .alive v n => ix.pendingDeleteOrDeleted = false ∧ ix.aggregateVersion = v ∧ ix.eventSeq = n
  | .deleted v n allowRecreate continued =>
    ix.pendingDeleteOrDeleted = true ∧ ix.aggregateVersion = v ∧ ix.eventSeq = n ∧
      ix.allowRecreate = allowRecreate ∧ ix.allowSequenceContinuation = continued

def MemSnapshotAggregate.Describes (m : MemSnapshotAggregate) (l : Life) : Prop :=
  m.indexes.Describes l

def QueueAggregatePositions.Describes (q : QueueAggregatePositions γ) (l : Life) : Prop :=
  q.indexes.Describes l

namespace EventIndexes.Describes

variable {ix : EventIndexes} {l : Life}

theorem version (h : ix.Describes l) : ix.aggregateVersion = l.version := by
  cases l with
  | unborn | alive | deleted => exact h.2.1

theorem eventSeq (h : ix.Describes l) : ix.eventSeq = l.eventSeq := by
  cases l with
  | unborn => exact h.2.2
  | alive v n => exact h.2.2
  | deleted v n allowRecreate continued => exact h.2.2.1

theorem isDeleted (h : ix.Describes l) : ix.pendingDeleteOrDeleted = l.isDeleted := by
  cases l with
  | unborn | alive | deleted => exact h.1

/-- A life that is not deleted is described by its numbers. -/
theorem of_living (living : l.isDeleted = false) (status : ix.pendingDeleteOrDeleted = false)
    (version : ix.aggregateVersion = l.version) (eventSeq : ix.eventSeq = l.eventSeq) :
    ix.Describes l := by
  cases l with
  | unborn => exact ⟨status, version, eventSeq⟩
  | alive v n => exact ⟨status, version, eventSeq⟩
  | deleted v n allowRecreate continued => cases living

/-- What the delete and the trim check: the aggregate is alive. -/
theorem alive (h : ix.Describes l) (living : ix.pendingDeleteOrDeleted = false)
    (version : ix.aggregateVersion ≠ 0) : l = .alive ix.aggregateVersion ix.eventSeq := by
  cases l with
  | unborn => exact absurd h.2.1 version
  | alive v n => rw [h.2.1, h.2.2]
  | deleted v n allowRecreate continued => exact absurd h.1 (by simp [living])

/-- The batch that a write becomes follows the life it sees. -/
theorem prepare_follows (h : ix.Describes l) {req : WriteRequest γ} (ok : ix.check req = .ok ())
    (living : ∀ v n, l = .alive v n → 0 < v)
    (continued : ix.pendingDeleteOrDeleted = true → ix.allowSequenceContinuation = true)
    (versions : ix.aggregateVersion + 1 ≤ u64Max) (first : ix.eventSeq + 1 ≤ u64Max)
    (sequences : ix.eventSeq + req.clientSeqs.length ≤ u64Max) :
    Follows l (.eventBatch (ix.prepare req)) := by
  -- the start of the batch, whichever branch computes it
  have start : ix.start.2.1 = l.version + 1 ∧ ix.start.1 = l.eventSeq := by
    unfold EventIndexes.start
    split
    next fresh =>
      rw [Bool.and_eq_true, Bool.not_eq_true', isRecreate, Bool.or_eq_true] at fresh
      cases l with
      | unborn => exact ⟨rfl, rfl⟩
      | alive v n =>
        have zero : ix.aggregateVersion = 0 := by simpa [h.1] using fresh.1
        exact absurd (h.2.1.symm.trans zero) (Nat.pos_iff_ne_zero.mp (living v n rfl))
      | deleted v n allowRecreate cont => exact absurd (continued h.1) (by simp [fresh.2])
    next => exact ⟨(satAdd_eq versions).trans (congrArg (· + 1) h.version), h.eventSeq⟩
  have first : (ix.prepare req).minEventSeq = l.eventSeq + 1 := by
    show satAdd ix.start.1 1 = _
    rw [start.2]
    exact satAdd_eq (h.eventSeq ▸ first)
  have last : (ix.prepare req).maxEventSeq = l.eventSeq + req.clientSeqs.length := by
    show satAdd ix.start.1 _ = _
    rw [start.2]
    exact satAdd_eq (h.eventSeq ▸ sequences)
  have version : (ix.prepare req).aggregateVersion = l.version + 1 := start.1
  refine ⟨?_, ?_, by omega⟩
  · cases l with
    | unborn => trivial
    | alive v n => trivial
    | deleted v n allowRecreate cont =>
      refine ⟨?_, h.2.2.2.2 ▸ continued h.1⟩
      by_contra refused
      have refused : ix.allowRecreate = false := by simpa [h.2.2.2.1] using refused
      simp [check, h.1, refused] at ok
  · rw [version, first]
    cases l with
    | unborn => rfl
    | alive v n => rfl
    | deleted v n allowRecreate cont =>
      have cont : cont = true := h.2.2.2.2 ▸ continued h.1
      subst cont
      rfl

end EventIndexes.Describes

/-! ## What the merges keep -/

namespace QueueAggregatePositions

variable [DecidableEq γ] {entry : Option (QueueAggregatePositions γ)} {l : Life}

omit [DecidableEq γ] in
/-- An entry that describes a life, and the empty one, carry no more than the life. -/
theorem getD_le (h : ∀ q ∈ entry, q.Describes l) :
    (entry.getD empty).aggregateVersion ≤ l.version ∧ (entry.getD empty).eventSeq ≤ l.eventSeq := by
  cases entry with
  | none => exact ⟨Nat.zero_le _, Nat.zero_le _⟩
  | some q =>
    have described : q.Describes l := h q rfl
    exact ⟨le_of_eq described.version, le_of_eq described.eventSeq⟩

theorem addEventBatch_describes (h : ∀ q ∈ entry, q.Describes l) {b : EventBatch γ}
    (follows : Follows l (.eventBatch b)) :
    (addEventBatch b entry).Describes (l.next (.eventBatch b)) := by
  obtain ⟨versions, sequences⟩ := follows.raises
  obtain ⟨version, eventSeq⟩ := getD_le h
  refine ⟨rfl, ?_, ?_⟩
  · exact Nat.max_eq_right (by omega)
  · exact Nat.max_eq_right (by omega)

omit [DecidableEq γ] in
theorem addPendingDelete_describes (d : SoftDelete) :
    (addPendingDelete d entry).Describes (l.next (.softDelete d : AggregateBlock γ)) :=
  ⟨rfl, rfl, rfl, rfl, rfl⟩

omit [DecidableEq γ] in
theorem addPendingTrim_describes (h : ∀ q ∈ entry, q.Describes l) {t : SoftTrim}
    (follows : Follows l (.softTrim t : AggregateBlock γ)) :
    (addPendingTrim t entry).Describes l := by
  obtain ⟨version, eventSeq⟩ := getD_le h
  have alive : l = .alive t.aggregateVersion t.eventSeq := follows
  subst alive
  refine ⟨?_, Nat.max_eq_right version, Nat.max_eq_right eventSeq⟩
  cases entry with
  | none => rfl
  | some q => exact (h q rfl).1

end QueueAggregatePositions

namespace MemSnapshotAggregate

variable {l : Life} {m : Option MemSnapshotAggregate}

theorem Describes.version {m : MemSnapshotAggregate} (h : m.Describes l) :
    m.aggregateVersion = l.version := EventIndexes.Describes.version h

theorem Describes.eventSeq {m : MemSnapshotAggregate} (h : m.Describes l) :
    m.eventSeq = l.eventSeq := EventIndexes.Describes.eventSeq h

variable {b : AggregateBlock γ} {log : List (AggregateBlock γ)}

/-- A commit takes a snapshot from the life before the metablock to the life after it. -/
theorem commitBlock_describes (h : ∀ k ∈ m, k.Describes l)
    (follows : Follows l b) : ∀ k ∈ commitBlock m b, k.Describes (l.next b) := by
  intro k hk
  cases b with
  | eventBatch b =>
    cases hk
    cases m with
    | none => exact ⟨rfl, rfl, rfl⟩
    | some m =>
      have described : m.Describes l := h m rfl
      obtain ⟨versions, sequences⟩ := follows.raises
      have version := described.version
      have eventSeq := described.eventSeq
      rw [commitPosition_some]
      split
      next => exact ⟨rfl, rfl, rfl⟩
      next =>
        refine ⟨rfl, ?_, ?_⟩
        · exact Nat.max_eq_right (by omega)
        · exact Nat.max_eq_right (by omega)
  | softTrim t =>
    cases hk
    have alive : l = .alive t.aggregateVersion t.eventSeq := follows
    subst alive
    cases m with
    | none => exact ⟨rfl, rfl, rfl⟩
    | some m =>
      obtain ⟨living, version, eventSeq⟩ : m.Describes _ := h m rfl
      refine ⟨living, ?_, ?_⟩
      · exact Nat.max_eq_right (le_of_eq version)
      · exact Nat.max_eq_right (le_of_eq eventSeq)
  | softDelete d =>
    cases hk
    exact ⟨rfl, rfl, rfl, rfl, rfl⟩

/-- A trim that carries no more than a life leaves a snapshot of that life alone. -/
theorem commitTrim_describes {m : MemSnapshotAggregate} (h : m.Describes l) {t : SoftTrim}
    (version : t.aggregateVersion ≤ l.version) (eventSeq : t.eventSeq ≤ l.eventSeq) :
    (commitTrim t (some m)).Describes l := by
  have keptVersion : max m.aggregateVersion t.aggregateVersion = m.aggregateVersion :=
    Nat.max_eq_left (h.version.symm ▸ version)
  have keptSeq : max m.eventSeq t.eventSeq = m.eventSeq :=
    Nat.max_eq_left (h.eventSeq.symm ▸ eventSeq)
  rw [commitTrim_some, keptVersion, keptSeq]
  cases l with
  | unborn | alive | deleted => exact h

/-- A batch that a life has passed leaves a snapshot of that life alone, unless it says NotFound. -/
theorem commitPosition_describes {m : MemSnapshotAggregate} (h : m.Describes l)
    (living : l.isDeleted = false) {b : EventBatch γ} (version : b.aggregateVersion ≤ l.version)
    (eventSeq : b.maxEventSeq ≤ l.eventSeq) :
    (commitPosition b (some m)).Describes l ∨
      (commitPosition b (some m)).Describes (.alive b.aggregateVersion b.maxEventSeq) := by
  rw [commitPosition_some]
  split
  next => exact .inr ⟨rfl, rfl, rfl⟩
  next =>
    refine .inl (EventIndexes.Describes.of_living living rfl ?_ ?_)
    · exact (Nat.max_eq_left (h.version.symm ▸ version)).trans h.version
    · exact (Nat.max_eq_left (h.eventSeq.symm ▸ eventSeq)).trans h.eventSeq

/-- The queue position of a living aggregate takes an older snapshot to its own life. -/
theorem commitQueuePositions_describes (h : ∀ k ∈ m, k.Describes l)
    {q : QueueAggregatePositions γ} {later : Life} (described : q.Describes later)
    (living : later.isDeleted = false) (version : l.version ≤ later.version)
    (eventSeq : l.eventSeq ≤ later.eventSeq) : (commitQueuePositions q m).Describes later := by
  have queuedVersion : q.aggregateVersion = later.version :=
    EventIndexes.Describes.version described
  have queuedSeq : q.eventSeq = later.eventSeq := EventIndexes.Describes.eventSeq described
  cases m with
  | none => exact .of_living living rfl queuedVersion queuedSeq
  | some m =>
    have older : m.Describes l := h m rfl
    have olderVersion := older.version
    have olderSeq := older.eventSeq
    rw [commitQueuePositions_some]
    split
    next => exact .of_living living rfl queuedVersion queuedSeq
    next =>
      refine .of_living living rfl ?_ ?_
      · exact (Nat.max_eq_right (by omega)).trans queuedVersion
      · exact (Nat.max_eq_right (by omega)).trans queuedSeq

/-- The newest metablock describes the life of a log. -/
theorem ofBlock_describes (h : Continued l log) (newest : log.getLast? = some b) :
    (ofBlock b).Describes (l.after log) := by
  obtain ⟨older, rfl⟩ := List.getLast?_eq_some_iff.mp newest
  obtain ⟨-, follows⟩ := Continued.concat.mp h
  rw [Life.after_append]
  cases b with
  | eventBatch b => exact ⟨rfl, rfl, rfl⟩
  | softTrim t =>
    have alive : l.after older = .alive t.aggregateVersion t.eventSeq := follows
    show (found _ _ _).Describes (l.after older)
    rw [alive]
    exact ⟨rfl, rfl, rfl⟩
  | softDelete d => exact ⟨rfl, rfl, rfl, rfl, rfl⟩

theorem notFound_describes : notFound.Describes .unborn := ⟨rfl, rfl, rfl⟩

/-- What a scan makes of a log describes its life. -/
theorem coldLoad_describes (h : Continued .unborn log) :
    (coldLoad log).Describes (Life.after .unborn log) := by
  unfold coldLoad
  split
  next b newest => exact ofBlock_describes h newest
  next empty =>
    rw [List.getLast?_eq_none_iff.mp empty]
    exact notFound_describes

end MemSnapshotAggregate

end Celeriant
