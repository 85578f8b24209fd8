import Mathlib.Data.Finset.Union

/-!
# The summary of a segment

Every commit folds its metablock into the summary of its segment: one entry for each aggregate with
an event batch or a tombstone in the segment, the organisations, types, clients and schemas, and the
hashes of trims that meet no entry. When a rotation fails after the summary was drained, the segment
is sealed once more, and `SealedSegmentSummary::merge` puts what was folded since behind what was
drained before.

The merge sees only the two results. A trim that the later part holds in front of its aggregate's
first batch does not reach the earlier entry, and neither does a tombstone: it replaces the earlier
entry, or is forgotten when a batch follows it (`merge_differs_from_fold`).

## Main results

* `merge_eq_fold`: such a later part is merged as if it had been folded in
-/

namespace Celeriant.Listing

/-- Organisation, type and id. -/
structure AggregateKey where
  orgId : ℕ
  aggregateTypeId : ℕ
  aggregateId : ℕ
  deriving DecidableEq, Repr

/-- What a metablock does to its aggregate. -/
inductive MetablockKind
  | eventBatch (aggregateVersion trimmedBelowVersion : ℕ)
  | softDelete
  | softTrim (keepFromAggregateVersion : ℕ)
  deriving DecidableEq, Repr

/-- A metablock of an aggregate with its place in the segment, which is behind the header. -/
structure AggregateMetablock where
  key : AggregateKey
  clientId : ℕ
  kind : MetablockKind
  serverTimestamp : ℕ
  compressedSize : ℕ
  uncompressedSize : ℕ
  position : ℕ
  position_pos : 0 < position

/-- A metablock, as the summary reads it. -/
inductive Metablock
  | ofAggregate (m : AggregateMetablock)
  | schemaRegistration (schemaHash : ℕ)

/-- What a summary keeps of one aggregate. -/
structure SegmentAggregateEntry where
  isDeleted : Bool
  eventBatchCount : ℕ
  lastAggregateVersion : ℕ
  minAggregateVersion : ℕ
  lastServerTimestamp : ℕ
  compressedSize : ℕ
  uncompressedSize : ℕ
  newestMetablockPos : ℕ
  deriving DecidableEq, Repr

def SegmentAggregateEntry.new : SegmentAggregateEntry := ⟨false, 0, 0, 0, 0, 0, 0, 0⟩

/-- The part of `fold_segment_summary` for the entry of the metablock's aggregate: an event batch or
a tombstone makes one, a trim does not; a tombstone leaves version, floor and time. -/
def AggregateMetablock.entryAfter (m : AggregateMetablock) (entry : Option SegmentAggregateEntry) :
    Option SegmentAggregateEntry :=
  match m.kind with
  | .eventBatch version floor =>
    let e := entry.getD { SegmentAggregateEntry.new with minAggregateVersion := floor }
    some { e with
      isDeleted := false
      eventBatchCount := e.eventBatchCount + 1
      lastAggregateVersion := max e.lastAggregateVersion version
      lastServerTimestamp := max e.lastServerTimestamp m.serverTimestamp
      compressedSize := e.compressedSize + m.compressedSize
      uncompressedSize := e.uncompressedSize + m.uncompressedSize
      newestMetablockPos := m.position }
  | .softDelete =>
    some { entry.getD .new with
      isDeleted := true
      eventBatchCount := 0
      compressedSize := 0
      uncompressedSize := 0
      newestMetablockPos := m.position }
  | .softTrim keepFrom =>
    entry.map fun e =>
      { e with
        minAggregateVersion := max e.minAggregateVersion keepFrom
        newestMetablockPos := m.position }

/-- A later tombstone replaces the entry. -/
def mergeEntryLaterEra (e later : SegmentAggregateEntry) : SegmentAggregateEntry :=
  if later.isDeleted then later
  else
    { isDeleted := false
      eventBatchCount := e.eventBatchCount + later.eventBatchCount
      lastAggregateVersion := max e.lastAggregateVersion later.lastAggregateVersion
      minAggregateVersion := max e.minAggregateVersion later.minAggregateVersion
      lastServerTimestamp := max e.lastServerTimestamp later.lastServerTimestamp
      compressedSize := e.compressedSize + later.compressedSize
      uncompressedSize := e.uncompressedSize + later.uncompressedSize
      newestMetablockPos :=
        if later.newestMetablockPos ≠ 0 then later.newestMetablockPos else e.newestMetablockPos }

/-- What the merge makes of the two entries of an aggregate. -/
def mergeEntries : Option SegmentAggregateEntry → Option SegmentAggregateEntry →
    Option SegmentAggregateEntry
  | some e, some later => some (mergeEntryLaterEra e later)
  | some e, none => some e
  | none, later => later

/-- `bloom_hash` of an aggregate key and `client_id_bloom_hash`. -/
structure ChainHashes where
  key : AggregateKey → ℕ
  client : ℕ → ℕ

/-- The summary of one segment. -/
structure SealedSegmentSummary where
  aggregates : AggregateKey → Option SegmentAggregateEntry
  orgs : Finset ℕ
  aggregateTypes : Finset (ℕ × ℕ)
  clients : AggregateKey → Finset ℕ
  /-- the hashes in the accumulator of `SetSketches`, which answers for all of them after a merge -/
  schemas : Finset ℕ
  looseKeys : Finset ℕ
  looseClients : Finset ℕ

namespace SealedSegmentSummary

def empty : SealedSegmentSummary := ⟨fun _ => none, ∅, ∅, fun _ => ∅, ∅, ∅, ∅⟩

/-- Part by part, the later one behind. -/
def merge (a b : SealedSegmentSummary) : SealedSegmentSummary where
  aggregates key := mergeEntries (a.aggregates key) (b.aggregates key)
  orgs := a.orgs ∪ b.orgs
  aggregateTypes := a.aggregateTypes ∪ b.aggregateTypes
  clients key := a.clients key ∪ b.clients key
  schemas := a.schemas ∪ b.schemas
  looseKeys := a.looseKeys ∪ b.looseKeys
  looseClients := a.looseClients ∪ b.looseClients

variable (hashes : ChainHashes)

/-- A metablock that meets or makes an entry; a trim does not note organisation and type. -/
def put (s : SealedSegmentSummary) (m : AggregateMetablock) (e : SegmentAggregateEntry) :
    SealedSegmentSummary :=
  let trims := m.kind matches .softTrim _
  { s with
    aggregates := Function.update s.aggregates m.key (some e)
    orgs := if trims then s.orgs else insert m.key.orgId s.orgs
    aggregateTypes :=
      if trims then s.aggregateTypes
      else insert (m.key.orgId, m.key.aggregateTypeId) s.aggregateTypes
    clients :=
      Function.update s.clients m.key (insert (hashes.client m.clientId) (s.clients m.key)) }

/-- A metablock is added to the summary. -/
def foldSegmentSummary (s : SealedSegmentSummary) : Metablock → SealedSegmentSummary
  | .ofAggregate m =>
    match m.entryAfter (s.aggregates m.key) with
    | some e => s.put hashes m e
    | none =>
      { s with
        looseKeys := insert (hashes.key m.key) s.looseKeys
        looseClients := insert (hashes.client m.clientId) s.looseClients }
  | .schemaRegistration schemaHash => { s with schemas := insert schemaHash s.schemas }

def ofMetablocks (ms : List Metablock) : SealedSegmentSummary :=
  ms.foldl (foldSegmentSummary hashes) empty

end SealedSegmentSummary

/-! ## Merging -/

/-- A metablock of the later part that keeps the entry `e` of the earlier part, where `later` is the
entry of the later part so far: the first one is an event batch that does not raise the floor, and
none is a tombstone. -/
def AggregateMetablock.Keeps (m : AggregateMetablock) (e : SegmentAggregateEntry) :
    Option SegmentAggregateEntry → Prop
  | none => ∃ version floor, m.kind = .eventBatch version floor ∧ floor ≤ e.minAggregateVersion
  | some later => m.kind ≠ .softDelete ∧ later.isDeleted = false

/-- Such a metablock makes the same of the merged entry as of the later one. -/
theorem mergeEntries_entryAfter {m : AggregateMetablock} {e : SegmentAggregateEntry}
    {later} (keeps : m.Keeps e later) :
    ∃ l, m.entryAfter later = some l ∧
      m.entryAfter (mergeEntries (some e) later) = some (mergeEntryLaterEra e l) := by
  have placed : m.position ≠ 0 := Nat.ne_of_gt m.position_pos
  unfold AggregateMetablock.entryAfter
  cases later with
  | none =>
    obtain ⟨version, floor, kind, floors⟩ := keeps
    rw [kind]
    refine ⟨_, rfl, ?_⟩
    simp [mergeEntries, mergeEntryLaterEra, SegmentAggregateEntry.new, placed, floors]
  | some later =>
    obtain ⟨remains, alive⟩ := keeps
    cases kind : m.kind with
    | eventBatch version floor =>
      refine ⟨_, rfl, ?_⟩
      simp [mergeEntries, mergeEntryLaterEra, placed, alive, Nat.add_assoc, max_assoc]
    | softDelete => exact absurd kind remains
    | softTrim keepFrom =>
      refine ⟨_, rfl, ?_⟩
      simp [mergeEntries, mergeEntryLaterEra, placed, alive, max_assoc]

namespace SealedSegmentSummary

variable {a b : SealedSegmentSummary}

/-- Every metablock of the later part keeps the entries of the earlier part. -/
def Continues (hashes : ChainHashes) (a : SealedSegmentSummary) :
    SealedSegmentSummary → List Metablock → Prop
  | _, [] => True
  | b, .schemaRegistration schemaHash :: ms =>
    Continues hashes a (foldSegmentSummary hashes b (.schemaRegistration schemaHash)) ms
  | b, .ofAggregate m :: ms =>
    (∀ e ∈ a.aggregates m.key, m.Keeps e (b.aggregates m.key)) ∧
      Continues hashes a (foldSegmentSummary hashes b (.ofAggregate m)) ms

variable (hashes : ChainHashes)

theorem merge_put {m : AggregateMetablock} {e f : SegmentAggregateEntry}
    (merged : mergeEntries (a.aggregates m.key) (some e) = some f) :
    a.merge (b.put hashes m e) = (a.merge b).put hashes m f := by
  unfold merge put
  congr 1
  · funext k
    by_cases same : k = m.key
    · subst same
      simp only [Function.update_self, merged]
    · simp only [Function.update_of_ne same]
  · cases m.kind <;> simp
  · cases m.kind <;> simp
  · funext k
    by_cases same : k = m.key
    · subst same
      simp only [Function.update_self, Finset.union_insert]
    · simp only [Function.update_of_ne same]

/-- **One metablock of the later part**: merging what it makes of the later part is folding it into
what the merge makes. -/
theorem merge_foldSegmentSummary {m : AggregateMetablock}
    (keeps : ∀ e ∈ a.aggregates m.key, m.Keeps e (b.aggregates m.key)) :
    a.merge (foldSegmentSummary hashes b (.ofAggregate m)) =
      foldSegmentSummary hashes (a.merge b) (.ofAggregate m) := by
  simp only [foldSegmentSummary]
  show _ = match m.entryAfter (mergeEntries (a.aggregates m.key) (b.aggregates m.key)) with
    | some e => _ | none => _
  cases earlier : a.aggregates m.key with
  | none =>
    cases after : m.entryAfter (b.aggregates m.key) with
    | none => simp only [mergeEntries, after, merge, Finset.union_insert]
    | some l =>
      simp only [mergeEntries, after]
      exact merge_put hashes (by rw [earlier]; rfl)
  | some e =>
    obtain ⟨l, after, merged⟩ := mergeEntries_entryAfter (keeps e earlier)
    rw [after, merged]
    exact merge_put hashes (by rw [earlier]; rfl)

theorem merge_foldl (ms : List Metablock) (continues : Continues hashes a b ms) :
    a.merge (ms.foldl (foldSegmentSummary hashes) b) =
      ms.foldl (foldSegmentSummary hashes) (a.merge b) := by
  induction ms generalizing b with
  | nil => rfl
  | cons m ms ih =>
    rw [List.foldl_cons, List.foldl_cons]
    cases m with
    | schemaRegistration schemaHash =>
      rw [ih continues]
      simp only [foldSegmentSummary, merge, Finset.union_insert]
    | ofAggregate m => rw [ih continues.2, merge_foldSegmentSummary hashes continues.1]

theorem merge_empty (a : SealedSegmentSummary) : a.merge empty = a := by
  have entries : (fun key => mergeEntries (a.aggregates key) none) = a.aggregates := by
    funext key
    cases a.aggregates key <;> rfl
  simp [merge, empty, entries]

end SealedSegmentSummary

open SealedSegmentSummary

/-- **Merging is folding**, for a later part that continues the earlier one. -/
theorem merge_eq_fold (hashes : ChainHashes) (earlier later : List Metablock)
    (continues : Continues hashes (ofMetablocks hashes earlier) empty later) :
    (ofMetablocks hashes earlier).merge (ofMetablocks hashes later) =
      ofMetablocks hashes (earlier ++ later) := by
  rw [ofMetablocks, ofMetablocks, ofMetablocks, List.foldl_append, ← ofMetablocks,
    merge_foldl hashes later continues, merge_empty]

/-- A metablock of one byte of an aggregate. -/
def sampleBlock (kind : MetablockKind) : Metablock :=
  .ofAggregate ⟨⟨1, 2, 3⟩, 1, kind, 0, 1, 1, 4096, by decide⟩

/-- The entry of the aggregate when the metablocks are folded behind a batch, and when they are
merged. -/
def foldedAndMerged (later : List MetablockKind) :
    Option SegmentAggregateEntry × Option SegmentAggregateEntry :=
  let hashes : ChainHashes := ⟨(·.aggregateId), id⟩
  let first := [sampleBlock (.eventBatch 5 0)]
  ((ofMetablocks hashes (first ++ later.map sampleBlock)).aggregates ⟨1, 2, 3⟩,
    ((ofMetablocks hashes first).merge (ofMetablocks hashes (later.map sampleBlock))).aggregates
      ⟨1, 2, 3⟩)

theorem merge_eq_fold_trimmed :
    (foldedAndMerged [.eventBatch 6 0, .softTrim 4]).2 =
      (foldedAndMerged [.eventBatch 6 0, .softTrim 4]).1 :=
  congrFun (congrArg aggregates (merge_eq_fold _ [sampleBlock (.eventBatch 5 0)]
    [sampleBlock (.eventBatch 6 0), sampleBlock (.softTrim 4)]
    ⟨fun _ _ => ⟨6, 0, rfl, Nat.zero_le _⟩, fun _ _ => ⟨by decide, rfl⟩, trivial⟩)) ⟨1, 2, 3⟩

/-- A trim at the start of the later part is lost, a tombstone takes the version with it, and behind
a tombstone and a new batch the old batches are counted again. -/
theorem merge_differs_from_fold :
    (foldedAndMerged [.softTrim 4]).map (Option.map (·.minAggregateVersion))
      (Option.map (·.minAggregateVersion)) = (some 4, some 0) ∧
    (foldedAndMerged [.softDelete]).map (Option.map (·.lastAggregateVersion))
      (Option.map (·.lastAggregateVersion)) = (some 5, some 0) ∧
    (foldedAndMerged [.softDelete, .eventBatch 1 0]).map (Option.map (·.eventBatchCount))
      (Option.map (·.eventBatchCount)) = (some 1, some 2) := by
  decide

end Celeriant.Listing
