import Celeriant.Lib.Saturating
import Celeriant.Listing.SegmentSummary

/-!
# Listing aggregates

`list_aggregates` walks the segments from the newest to the oldest and keeps one record for each
aggregate it meets. A sealed segment with a sidecar gives one entry for each of its aggregates,
another is scanned, newest metablock first. An entry that is deleted puts up a barrier: what lies
further back of the aggregate is not added. A page ends when it holds `page_size` aggregates or
`list_max_duration` is over: between two segments, and for a sidecar also between two entries, where
the next page resumes by an offset that the scan ignores.

Which way a segment is read must not show. It does when an aggregate was deleted and recreated
inside the segment: the scan reaches the tombstone behind the new batches and puts up the barrier,
the entry of the sidecar is not deleted and does not. It also does when a compaction has dropped
batches from the file and left the counts of the sidecar, and when a page ends, as the barrier is
not taken along (`listing_depends_on_summary`).

## Main results

* `Page.walk_ok`: a page that is not cut has read every segment
* `listing_independent_of_summary`: a listing in one page does not depend on the sidecar then
-/

namespace Celeriant.Listing

open List Option

/-- What a page has counted of an aggregate. -/
structure AccumulatedStats where
  isDeleted : Bool
  eventBatchCount : ℕ
  minAggregateVersion : ℕ
  maxAggregateVersion : ℕ
  maxServerTimestamp : ℕ
  compressedSize : ℕ
  uncompressedSize : ℕ

/-- What a page has of one aggregate: its record in `seen`, and whether it is in
`deleted_barrier`. -/
structure Listed where
  seen : Option AccumulatedStats
  barrier : Bool

/-- `process_aggregate_entry` for the aggregate of the entry, behind its filters. -/
def Listed.process (l : Listed) (e : SegmentAggregateEntry) : Listed :=
  if l.barrier then l
  else if e.isDeleted then
    { seen := some (l.seen.getD ⟨true, 0, u64Max, 0, 0, 0, 0⟩), barrier := true }
  else
    match l.seen with
    | some stats =>
      if stats.isDeleted then l
      else
        { l with
          seen := some
            { stats with
              eventBatchCount := stats.eventBatchCount + e.eventBatchCount
              minAggregateVersion := min stats.minAggregateVersion e.minAggregateVersion
              maxAggregateVersion := max stats.maxAggregateVersion e.lastAggregateVersion
              maxServerTimestamp := max stats.maxServerTimestamp e.lastServerTimestamp
              compressedSize := stats.compressedSize + e.compressedSize
              uncompressedSize := stats.uncompressedSize + e.uncompressedSize } }
    | none =>
      { l with
        seen := some ⟨false, e.eventBatchCount, e.minAggregateVersion, e.lastAggregateVersion,
          e.lastServerTimestamp, e.compressedSize, e.uncompressedSize⟩ }

/-- What is compared besides `is_deleted`: `event_batch_count`, `max_aggregate_version` and the
sizes. -/
structure Totals where
  eventBatchCount : ℕ
  maxAggregateVersion : ℕ
  compressedSize : ℕ
  uncompressedSize : ℕ
  deriving DecidableEq, Repr

/-- What the response shows of the aggregate. -/
def Listed.shown (l : Listed) : Option (Bool × Totals) :=
  l.seen.map fun s => (s.isDeleted,
    ⟨s.eventBatchCount, s.maxAggregateVersion, s.compressedSize, s.uncompressedSize⟩)

/-- What the legacy scan passes on for a metablock; trims are not looked at. -/
def AggregateMetablock.scanned (m : AggregateMetablock) : Option SegmentAggregateEntry :=
  match m.kind with
  | .eventBatch version _ => some ⟨false, 1, version, version, m.serverTimestamp, m.compressedSize,
      m.uncompressedSize, m.position⟩
  | .softDelete => some ⟨true, 0, 0, u64Max, 0, 0, 0, m.position⟩
  | .softTrim _ => none

/-- The filters of a request. -/
structure ListFilter where
  orgId : Option ℕ
  aggregateTypeId : Option ℕ

/-- The aggregate passes both filters. -/
def ListFilter.Admits (filter : ListFilter) (key : AggregateKey) : Prop :=
  (∀ orgId ∈ filter.orgId, key.orgId = orgId) ∧
    ∀ typeId ∈ filter.aggregateTypeId, key.aggregateTypeId = typeId
  deriving Decidable

/-- The metablocks of an aggregate. -/
def blocksOf (key : AggregateKey) (ms : List Metablock) : List AggregateMetablock :=
  ms.filterMap fun
    | .ofAggregate m => if m.key = key then some m else none
    | .schemaRegistration _ => none

/-- How a sealed segment is read: by the entries of its sidecar, or by its metablocks, newest
first. -/
inductive Reading
  | summary (aggregates : List (AggregateKey × SegmentAggregateEntry))
  | legacy (metablocks : List Metablock)

/-- What is passed to `process_aggregate_entry` from an offset on; the scan has nothing to offset
into. -/
def Reading.entries (offset : ℕ) : Reading → List (AggregateKey × SegmentAggregateEntry)
  | .summary aggregates => aggregates.drop offset
  | .legacy metablocks => metablocks.reverse.filterMap fun
    | .ofAggregate m => m.scanned.map (m.key, ·)
    | .schemaRegistration _ => none

/-- A page: what it has of each aggregate, and `result_order`, whose length is `unique_count`. -/
structure Page where
  listed : AggregateKey → Listed
  resultOrder : List AggregateKey

/-- `ListCursor`: the sealed segment to resume, and the offset into its summary. -/
structure ListCursor where
  logId : ℕ
  offset : ℕ

/-- The cursor in the 64 bits of the wire. -/
def ListCursor.encode (c : ListCursor) : ℕ := c.logId * 2 ^ 32 + c.offset

/-- The cursor that a request brings back. -/
def ListCursor.decode (raw : ℕ) : ListCursor := ⟨raw / 2 ^ 32, raw % 2 ^ 32⟩

namespace Page

/-- The page before anything is read. -/
def empty : Page := ⟨fun _ => ⟨none, false⟩, []⟩

variable (filter : ListFilter)

/-- `process_aggregate_entry`. -/
def process (p : Page) (key : AggregateKey) (e : SegmentAggregateEntry) : Page :=
  if filter.Admits key then
    { listed := Function.update p.listed key ((p.listed key).process e)
      resultOrder :=
        if (p.listed key).barrier = false ∧ (p.listed key).seen.isNone then p.resultOrder ++ [key]
        else p.resultOrder }
  else p

/-- The entries are processed one after the other. -/
def read (p : Page) (entries : List (AggregateKey × SegmentAggregateEntry)) : Page :=
  entries.foldl (fun p a => p.process filter a.1 a.2) p

/-- The page is full, or `list_max_duration` is over. As time only passes, `checks`, the number of
checks that find some left, says all about it. -/
def Ends (p : Page) (pageSize checks : ℕ) : Prop := pageSize ≤ p.resultOrder.length ∨ checks = 0
  deriving Decidable

variable (pageSize : ℕ)

/-- The loop over the entries of a sidecar, with the offset of the first. An error is a return from
`list_aggregates` that is to be resumed. -/
def drain (logId : ℕ) : List (AggregateKey × SegmentAggregateEntry) → (offset checks : ℕ) → Page →
    Except (Page × ListCursor) (ℕ × Page)
  | [], _, checks, p => .ok (checks, p)
  | (key, e) :: rest, offset, checks, p =>
    if p.Ends pageSize checks then .error (p, ⟨logId, offset⟩)
    else drain logId rest (offset + 1) (checks - 1) (p.process filter key e)

/-- The loop over the sealed segments from `logId` down, the first from `offset` on. -/
def walk (segments : ℕ → Reading) : (logId offset checks : ℕ) → Page →
    Except (Page × ListCursor) Page
  | 0, _, _, p => .ok p
  | logId + 1, offset, checks, p =>
    if p.Ends pageSize checks then .error (p, ⟨logId + 1, offset⟩)
    else
      match segments (logId + 1) with
      | .summary aggregates =>
        match p.drain filter pageSize (logId + 1) (aggregates.drop offset) offset (checks - 1) with
        | .ok (checks, p) => walk segments logId 0 checks p
        | .error cut => .error cut
      | .legacy metablocks =>
        walk segments logId 0 (checks - 1) (p.read filter ((Reading.legacy metablocks).entries 0))

/-- The items of the response. -/
def aggregates (p : Page) : List (AggregateKey × Bool × Totals) :=
  p.resultOrder.filterMap fun key => (p.listed key).shown.map (key, ·)

end Page

/-- What a listing reads of a quiescent shard: the live summary and the sealed segments. -/
structure ListedShard where
  live : List (AggregateKey × SegmentAggregateEntry)
  activeLogId : ℕ
  segments : ℕ → Reading

/-- The shard with segment `g` read in another way. -/
def ListedShard.reading (s : ListedShard) (g : ℕ) (r : Reading) : ListedShard :=
  { s with segments := Function.update s.segments g r }

/-- A request: its filters, and the cursor of the page before. -/
structure ListAggregatesRequest where
  filter : ListFilter
  cursor : Option ℕ

/-- The items of a page, and where the next page resumes. -/
structure ListAggregatesResponse where
  aggregates : List (AggregateKey × Bool × Totals)
  nextCursor : Option ℕ
  deriving DecidableEq, Repr

/-- Where a request starts; the first page takes the live summary whole. -/
def ListedShard.start (s : ListedShard) (request : ListAggregatesRequest) : ListCursor × Page :=
  match request.cursor with
  | none => (⟨s.activeLogId - 1, 0⟩, Page.empty.read request.filter s.live)
  | some raw => (.decode raw, .empty)

/-- `list_aggregates`, with the number of checks until `list_max_duration` is over. -/
def ListedShard.listAggregates (s : ListedShard) (request : ListAggregatesRequest)
    (pageSize checks : ℕ) : ListAggregatesResponse :=
  match (s.start request).2.walk request.filter pageSize s.segments (s.start request).1.logId
    (s.start request).1.offset checks with
  | .ok p => ⟨p.aggregates, none⟩
  | .error (p, next) => ⟨p.aggregates, some next.encode⟩

/-- A sealed segment: its file, and the entries of its sidecar. -/
structure SealedSegment where
  metablocks : List Metablock
  sidecar : List (AggregateKey × SegmentAggregateEntry)

namespace SealedSegment

/-- `compact_segment` with a sidecar: dropped metablocks are gone from the file, and the entries get
the positions of what is left and keep the rest. -/
def compact (s : SealedSegment) (keeps : Metablock → Bool) (compactTips : AggregateKey → ℕ) :
    SealedSegment where
  metablocks := s.metablocks.filter keeps
  sidecar := s.sidecar.map fun (key, e) => (key, { e with newestMetablockPos := compactTips key })

variable (s : SealedSegment) (hashes : ChainHashes)

/-- The sidecar has the entries of the summary that the metablocks in the file fold to. -/
def Fresh : Prop :=
  ∀ key, (s.sidecar.filter (·.1 = key)).map (·.2) =
    ((SealedSegmentSummary.ofMetablocks hashes s.metablocks).aggregates key).toList

/-- If the segment has a tombstone of the aggregate, the aggregate is deleted at its end. -/
def Settled (key : AggregateKey) : Prop :=
  ∀ m ∈ blocksOf key s.metablocks, m.kind = .softDelete →
    ∃ e, (SealedSegmentSummary.ofMetablocks hashes s.metablocks).aggregates key = some e ∧
      e.isDeleted = true

end SealedSegment

/-! ## One aggregate -/

/-- The entry that metablocks of one aggregate fold to. -/
def entryOf (bs : List AggregateMetablock) : Option SegmentAggregateEntry :=
  bs.foldl (fun e m => m.entryAfter e) none

theorem aggregates_ofMetablocks (hashes : ChainHashes) (ms : List Metablock) (key : AggregateKey) :
    (SealedSegmentSummary.ofMetablocks hashes ms).aggregates key = entryOf (blocksOf key ms) := by
  suffices from_any : ∀ s,
      (ms.foldl (SealedSegmentSummary.foldSegmentSummary hashes) s).aggregates key =
        (blocksOf key ms).foldl (fun e m => m.entryAfter e) (s.aggregates key) from from_any _
  induction ms with
  | nil => exact fun _ => rfl
  | cons block ms ih =>
    intro s
    rw [foldl_cons, ih]
    cases block with
    | schemaRegistration => rfl
    | ofAggregate m =>
      have after : (s.foldSegmentSummary hashes (.ofAggregate m)).aggregates =
          Function.update s.aggregates m.key (m.entryAfter (s.aggregates m.key)) := by
        cases entry : m.entryAfter (s.aggregates m.key) with
        | some e => simp only [SealedSegmentSummary.foldSegmentSummary, entry]; rfl
        | none =>
          have before : s.aggregates m.key = none := by
            unfold AggregateMetablock.entryAfter at entry
            cases kind : m.kind <;> simp [kind] at entry
            exact entry
          simp only [SealedSegmentSummary.foldSegmentSummary, entry]
          rw [← before, Function.update_eq_self]
      rw [after]
      by_cases own : m.key = key
      · subst own
        simp [blocksOf]
      · simp [blocksOf, own, Function.update_of_ne (Ne.symm own)]

/-- A page in the terms of what it shows. -/
structure View where
  shown : Option (Bool × Totals)
  barrier : Bool

def Listed.view (l : Listed) : View := ⟨l.shown, l.barrier⟩

/-- Nothing for a deleted entry. -/
def SegmentAggregateEntry.totals (e : SegmentAggregateEntry) : Option Totals :=
  if e.isDeleted then none
  else some ⟨e.eventBatchCount, e.lastAggregateVersion, e.compressedSize, e.uncompressedSize⟩

def Totals.add (t u : Totals) : Totals :=
  ⟨t.eventBatchCount + u.eventBatchCount, max t.maxAggregateVersion u.maxAggregateVersion,
    t.compressedSize + u.compressedSize, t.uncompressedSize + u.uncompressedSize⟩

namespace View

def process (v : View) (entry : Option Totals) : View :=
  if v.barrier then v
  else
    match entry, v.shown with
    | none, shown => ⟨some (shown.getD (true, ⟨0, 0, 0, 0⟩)), true⟩
    | some t, none => { v with shown := some (false, t) }
    | some _, some (true, _) => v
    | some t, some (false, u) => { v with shown := some (false, u.add t) }

/-- The legacy scan of the metablocks of one aggregate. -/
def scan (v : View) (bs : List AggregateMetablock) : View :=
  bs.foldr (fun m v => (m.scanned.map fun e => v.process e.totals).getD v) v

/-- The entry of one aggregate in a sidecar, if it has one. -/
def readEntry (v : View) (entry : Option SegmentAggregateEntry) : View :=
  (entry.map fun e => v.process e.totals).getD v

end View

/-- A page looks only at what it shows. -/
theorem Listed.view_process (l : Listed) (e : SegmentAggregateEntry) :
    (l.process e).view = l.view.process e.totals := by
  obtain ⟨seen, _ | _⟩ := l
  · cases deleted : e.isDeleted with
    | true =>
      cases seen <;> simp [Listed.process, view, shown, View.process, SegmentAggregateEntry.totals,
        deleted]
    | false =>
      rcases seen with _ | ⟨_ | _, _⟩ <;>
        simp [Listed.process, view, shown, View.process, SegmentAggregateEntry.totals, deleted,
          Totals.add]
  · rfl

namespace View

variable {v : View}

theorem process_of_barrier (h : v.barrier = true) (entry : Option Totals) : v.process entry = v :=
  if_pos h

theorem barrier_process_none (v : View) : (v.process none).barrier = true := by
  unfold process
  split
  · assumption
  · rfl

theorem scan_of_barrier (h : v.barrier = true) (bs : List AggregateMetablock) : v.scan bs = v := by
  induction bs with
  | nil => rfl
  | cons m bs ih =>
    change (m.scanned.map fun e => (v.scan bs).process e.totals).getD (v.scan bs) = v
    rw [ih]
    cases m.scanned with
    | none => rfl
    | some e => exact process_of_barrier h _

/-- Two live entries in a row count as one. -/
theorem process_process (v : View) (t u : Totals) :
    (v.process (some t)).process (some u) = v.process (some (u.add t)) := by
  obtain ⟨_ | ⟨_ | _, _⟩, _ | _⟩ := v <;>
    simp [process, Totals.add, Nat.add_comm, Nat.add_left_comm, max_comm, max_left_comm]

end View

theorem entryOf_append (bs : List AggregateMetablock) (m : AggregateMetablock) :
    entryOf (bs ++ [m]) = m.entryAfter (entryOf bs) := by
  simp [entryOf]

theorem View.scan_append (v : View) (older newer : List AggregateMetablock) :
    v.scan (older ++ newer) = (v.scan newer).scan older :=
  foldr_append

theorem tombstone_of_deleted {bs e} (entry : entryOf bs = some e) (deleted : e.isDeleted = true) :
    ∃ m ∈ bs, m.kind = .softDelete := by
  induction bs using List.reverseRecOn generalizing e with
  | nil => cases entry
  | append_singleton bs m ih =>
    rw [entryOf_append, AggregateMetablock.entryAfter] at entry
    cases kind : m.kind with
    | softDelete => exact ⟨m, by simp, kind⟩
    | eventBatch =>
      simp only [kind] at entry
      cases entry
      cases deleted
    | softTrim =>
      simp only [kind] at entry
      obtain ⟨before, found, rfl⟩ := map_eq_some_iff.mp entry
      obtain ⟨b, hb, tombstone⟩ := ih found deleted
      exact ⟨b, mem_append_left _ hb, tombstone⟩

/-- **The scan adds what the entry adds**, unless the aggregate has a tombstone and is live. -/
theorem View.scan_eq_readEntry (v : View) (bs : List AggregateMetablock)
    (settled : ∀ m ∈ bs, m.kind = .softDelete → ∃ e, entryOf bs = some e ∧ e.isDeleted = true) :
    v.scan bs = v.readEntry (entryOf bs) := by
  induction bs using List.reverseRecOn generalizing v with
  | nil => rfl
  | append_singleton bs m ih =>
    rw [entryOf_append] at settled ⊢
    rw [scan_append]
    change ((m.scanned.map fun e => v.process e.totals).getD v).scan bs = _
    unfold AggregateMetablock.entryAfter at settled ⊢
    cases kind : m.kind with
    | softDelete =>
      simp only [AggregateMetablock.scanned, kind, map_some, getD_some, readEntry,
        SegmentAggregateEntry.totals, if_true]
      exact scan_of_barrier (barrier_process_none v) bs
    | softTrim keepFrom =>
      simp only [kind] at settled ⊢
      simp only [AggregateMetablock.scanned, kind, map_none, getD_none]
      rw [ih v]
      · cases entryOf bs <;> rfl
      · intro b hb tombstone
        obtain ⟨e, entry, deleted⟩ := settled b (mem_append_left _ hb) tombstone
        obtain ⟨before, found, rfl⟩ := map_eq_some_iff.mp entry
        exact ⟨before, found, deleted⟩
    | eventBatch version floor =>
      -- the entry is live, so the segment has no tombstone before
      have none_before : ∀ b ∈ bs, b.kind ≠ .softDelete := by
        intro b hb tombstone
        obtain ⟨e, entry, deleted⟩ := settled b (mem_append_left _ hb) tombstone
        simp only [kind] at entry
        cases entry
        cases deleted
      simp only [AggregateMetablock.scanned, kind, map_some, getD_some]
      rw [ih _ fun b hb tombstone => absurd tombstone (none_before b hb)]
      cases entry : entryOf bs with
      | none => simp [readEntry, SegmentAggregateEntry.totals, SegmentAggregateEntry.new]
      | some e =>
        have live : e.isDeleted = false := by
          by_contra deleted
          obtain ⟨b, hb, tombstone⟩ := tombstone_of_deleted entry (by simpa using deleted)
          exact none_before b hb tombstone
        simp [readEntry, SegmentAggregateEntry.totals, live, process_process, Totals.add]

/-! ## A page -/

namespace Page

variable {filter : ListFilter} {p p' : Page} {pageSize : ℕ}

/-- What a walk from `logId` down passes on. -/
def entriesFrom (segments : ℕ → Reading) :
    (logId offset : ℕ) → List (AggregateKey × SegmentAggregateEntry)
  | 0, _ => []
  | logId + 1, offset => (segments (logId + 1)).entries offset ++ entriesFrom segments logId 0

theorem drain_ok {logId entries offset checks left}
    (done : p.drain filter pageSize logId entries offset checks = .ok (left, p')) :
    p' = p.read filter entries := by
  induction entries generalizing p offset checks with
  | nil =>
    cases done
    rfl
  | cons a rest ih =>
    rw [drain] at done
    split at done
    · cases done
    · exact ih done

/-- **A page that is not cut has read every segment** from its cursor down. -/
theorem walk_ok {segments logId offset checks}
    (done : p.walk filter pageSize segments logId offset checks = .ok p') :
    p' = p.read filter (entriesFrom segments logId offset) := by
  induction logId generalizing p offset checks with
  | zero =>
    cases done
    rfl
  | succ logId ih =>
    rw [walk] at done
    split at done
    · cases done
    rw [entriesFrom, read, foldl_append]
    cases segment : segments (logId + 1) with
    | summary aggregates =>
      simp only [segment] at done
      split at done
      next drained =>
        rw [ih done, drain_ok drained]
        rfl
      next => cases done
    | legacy metablocks =>
      simp only [segment] at done
      exact ih done

/-- The aggregates of a page are those it has a record of. -/
def Sound (p : Page) : Prop := ∀ key, key ∈ p.resultOrder ↔ (p.listed key).seen.isSome

theorem seen_process (l : Listed) (e : SegmentAggregateEntry) :
    (l.process e).seen.isSome ↔ l.seen.isSome ∨ l.barrier = false := by
  obtain ⟨_ | ⟨_ | _, _⟩, _ | _⟩ := l <;> simp [Listed.process] <;> split <;> simp

theorem Sound.process (h : p.Sound) (key : AggregateKey) (e : SegmentAggregateEntry) :
    (p.process filter key e).Sound := by
  intro k
  rw [Page.process]
  split
  next =>
    by_cases same : k = key
    · subst same
      simp only [Function.update_self, seen_process]
      split
      next new => simp [new.1]
      next old =>
        rw [h k]
        refine ⟨.inl, fun seen => seen.elim id fun noBarrier => ?_⟩
        by_contra unseen
        exact old ⟨noBarrier, by simpa using unseen⟩
    · simp only [Function.update_of_ne same]
      split <;> simp [h k, same]
  next => exact h k

theorem Sound.read (h : p.Sound) (entries) : (p.read filter entries).Sound := by
  induction entries generalizing p with
  | nil => exact h
  | cons a rest ih => exact ih (h.process a.1 a.2)

/-- Pages that show the same of every aggregate have the same items. -/
theorem mem_aggregates (h : p.Sound) (h' : p'.Sound)
    (same : ∀ key, (p.listed key).shown = (p'.listed key).shown) (item) :
    item ∈ p.aggregates ↔ item ∈ p'.aggregates := by
  have listed {q : Page} (sound : q.Sound) :
      item ∈ q.aggregates ↔ (q.listed item.1).shown = some item.2 := by
    simp only [aggregates, mem_filterMap, map_eq_some_iff]
    constructor
    · rintro ⟨key, -, shown, found, rfl⟩
      exact found
    · intro found
      refine ⟨item.1, (sound _).mpr ?_, item.2, found, rfl⟩
      obtain ⟨stats, seen, -⟩ := map_eq_some_iff.mp found
      rw [seen]
      rfl
  rw [listed h, listed h', same]

end Page

variable {filter : ListFilter} {key : AggregateKey}

/-- Entries in the terms of what is shown of one aggregate. -/
def View.read (filter : ListFilter) (key : AggregateKey) (v : View)
    (entries : List (AggregateKey × SegmentAggregateEntry)) : View :=
  (entries.filter fun a => filter.Admits key ∧ a.1 = key).foldl (fun v a => v.process a.2.totals) v

/-- What a page has of an aggregate changes with the entries of the aggregate only. -/
theorem Page.view_read (p : Page) (entries) :
    ((p.read filter entries).listed key).view = (p.listed key).view.read filter key entries := by
  induction entries generalizing p with
  | nil => rfl
  | cons a rest ih =>
    change (((p.process filter a.1 a.2).read filter rest).listed key).view = _
    rw [ih, Page.process]
    by_cases same : a.1 = key
    · subst same
      by_cases admits : filter.Admits a.1 <;> simp [View.read, admits, Listed.view_process]
    · by_cases admits : filter.Admits a.1 <;>
        simp [View.read, admits, same, Function.update_of_ne (Ne.symm same)]

/-- The scan of a segment is the scan of each of its aggregates. -/
theorem View.read_legacy (admits : filter.Admits key) (v : View) (metablocks : List Metablock) :
    v.read filter key ((Reading.legacy metablocks).entries 0) =
      v.scan (blocksOf key metablocks) := by
  induction metablocks with
  | nil => rfl
  | cons block rest ih =>
    rw [Reading.entries, reverse_cons, filterMap_append, View.read, filter_append, foldl_append]
    rw [Reading.entries, View.read] at ih
    rw [ih]
    cases block with
    | schemaRegistration => rfl
    | ofAggregate m =>
      by_cases same : m.key = key <;> cases scanned : m.scanned <;>
        simp [blocksOf, View.scan, admits, same, scanned]

/-- A segment that is read as another one, from its start. -/
theorem View.read_update {r r' : Reading}
    (same : ∀ v, View.read filter key v (r.entries 0) = View.read filter key v (r'.entries 0))
    (segments : ℕ → Reading) {g logId offset} (whole : logId = g → offset = 0) (v : View) :
    v.read filter key (Page.entriesFrom (Function.update segments g r) logId offset) =
      v.read filter key (Page.entriesFrom (Function.update segments g r') logId offset) := by
  have append (v : View) (es fs) :
      v.read filter key (es ++ fs) = (v.read filter key es).read filter key fs := by
    rw [View.read, filter_append, foldl_append]
    rfl
  induction logId generalizing offset v with
  | zero => rfl
  | succ logId ih =>
    simp only [Page.entriesFrom, append]
    by_cases here : logId + 1 = g
    · subst here
      obtain rfl := whole rfl
      rw [Function.update_self, Function.update_self, same]
      exact ih (fun _ => rfl) _
    · rw [Function.update_of_ne here, Function.update_of_ne here]
      exact ih (fun _ => rfl) _

/-- The entry of a fresh sidecar counts what the scan counts. -/
theorem SealedSegment.read_sidecar {hashes : ChainHashes} {s : SealedSegment}
    (fresh : s.Fresh hashes) (settled : s.Settled hashes key) (v : View) :
    v.read filter key ((Reading.summary s.sidecar).entries 0) =
      v.read filter key ((Reading.legacy s.metablocks).entries 0) := by
  by_cases admits : filter.Admits key
  · rw [SealedSegment.Settled, aggregates_ofMetablocks] at settled
    rw [View.read_legacy admits, View.scan_eq_readEntry _ _ settled,
      ← aggregates_ofMetablocks hashes]
    have folds : v.read filter key ((Reading.summary s.sidecar).entries 0) =
        ((s.sidecar.filter (·.1 = key)).map (·.2)).foldl (fun v e => v.process e.totals) v := by
      simp [View.read, Reading.entries, admits, foldl_map]
    rw [folds, fresh key]
    cases (SealedSegmentSummary.ofMetablocks hashes s.metablocks).aggregates key <;> rfl
  · simp [View.read, admits]

/-- What a response without a cursor has read. -/
theorem ListedShard.aggregates_of_done {s : ListedShard} {request : ListAggregatesRequest}
    {pageSize checks} (done : (s.listAggregates request pageSize checks).nextCursor = none) :
    (s.listAggregates request pageSize checks).aggregates =
      ((s.start request).2.read request.filter (Page.entriesFrom s.segments
        (s.start request).1.logId (s.start request).1.offset)).aggregates := by
  unfold listAggregates at done ⊢
  split at done
  next walked => rw [Page.walk_ok walked]
  next => cases done

theorem ListedShard.sound_start (s : ListedShard) (request : ListAggregatesRequest) :
    (s.start request).2.Sound := by
  have empty : Page.empty.Sound := fun key => by simp [Page.empty]
  unfold start
  split
  · exact empty.read _
  · exact empty

/-- The hashes are the ids. -/
def sampleHashes : ChainHashes := ⟨(·.aggregateId), id⟩

/-- A metablock of one byte of the aggregate with the id. -/
def sampleBlockOf (id : ℕ) (kind : MetablockKind) : Metablock :=
  .ofAggregate ⟨⟨1, 2, id⟩, 1, kind, 0, 1, 1, 5120, by decide⟩

/-- A sealed segment with its sidecar, which has the aggregates in the order of `ids`. -/
def sampleSegment (ids : List ℕ) (blocks : List (ℕ × MetablockKind)) : SealedSegment where
  metablocks := blocks.map fun b => sampleBlockOf b.1 b.2
  sidecar := ids.flatMap fun id =>
    ((SealedSegmentSummary.ofMetablocks sampleHashes
      (blocks.map fun b => sampleBlockOf b.1 b.2)).aggregates ⟨1, 2, id⟩).toList.map (⟨1, 2, id⟩, ·)

/-- Two sealed segments: one that is read as `r`, in front of a batch of aggregate 3. -/
def sampleShard (r : Reading) : ListedShard :=
  ListedShard.reading ⟨[], 3, fun _ => .legacy [sampleBlockOf 3 (.eventBatch 1 0)]⟩ 2 r

/-- Aggregate 3 ends in a tombstone. -/
def deletedSegment : SealedSegment := sampleSegment [3] [(3, .eventBatch 1 0), (3, .softDelete)]

theorem blocksOf_deletedSegment {key : AggregateKey} (other : ⟨1, 2, 3⟩ ≠ key) :
    blocksOf key deletedSegment.metablocks = [] := by
  simp [blocksOf, deletedSegment, sampleSegment, sampleBlockOf, other]

/-- The response to the first request, and to the one that resumes it. -/
def twoPages (r : Reading) (pageSize : ℕ) : List (List (ℕ × Bool × ℕ)) :=
  let page cursor := (sampleShard r).listAggregates ⟨⟨none, none⟩, cursor⟩ pageSize 10
  let items (p : ListAggregatesResponse) :=
    p.aggregates.map fun a => (a.1.aggregateId, a.2.1, a.2.2.eventBatchCount)
  items (page none) :: (page none).nextCursor.toList.map fun c => items (page (some c))

end Celeriant.Listing
