import Celeriant.Shard.ReadSide

/-!
# Reads

`ReadPath` runs a shard with its log, the caches of `ReadSide` and the requests that are being
answered. A request that has to look at the disk is suspended before each segment and before each
chunk of it: its upper bound is the read cursor at the moment it enters a segment. Loads fill the
read snapshots on the way, for the aggregate they look for and for others.

A response is recorded with the entries it was computed from. It should never depend on an entry
whose batch is durable and still waits for its commit.

## Main results

* `reads_expose_only_committed`: under the condition no response depends on a waiting entry
* `follower_fsync_publishes_own_write`: without it, one does
-/

namespace Celeriant

open Transition Shard List Option

/-! ## Requests -/

/-- A reverse scan: about to enter a segment, from the given end if it is the first one, or inside
it with everything above `upTo` visited. -/
inductive Scan
  | enter (logId : ℕ) (overrideEnd : Option ℕ)
  | walk (logId upTo : ℕ)
  deriving DecidableEq, Repr

/-- A request that waits for the disk, with the entries its answer depends on so far. -/
inductive ReadTask (κ : Type)
  /-- `aggregate_exists_and_cache` on the read path -/
  | load (key : κ) (scan : Scan)
  | read (key : κ) (scan : Scan) (sources : List EntryId)
  /-- `list_orgs`, `list_aggregate_types`, `list_aggregates` -/
  | list (scan : Scan) (sources : List EntryId)
  /-- `exists` with the snapshot it took, before it reads the aggregate's last metablock -/
  | details (snapshot : ReadSnapshot)

namespace ReadTask

variable {κ}

def scan : ReadTask κ → Option Scan
  | load _ scan => some scan
  | read _ scan _ => some scan
  | list scan _ => some scan
  | details _ => none

def setScan (scan : Scan) : ReadTask κ → ReadTask κ
  | load k _ => load k scan
  | read k _ sources => read k scan sources
  | list _ sources => list scan sources
  | details snapshot => details snapshot

def sources : ReadTask κ → List EntryId
  | load _ _ => []
  | read _ _ sources => sources
  | list _ sources => sources
  | details snapshot => snapshot.sources

end ReadTask

/-- The system: `next` is the first entry identity that is still free. -/
structure ReadPath (κ : Type) where
  logged : LoggedShard
  next : ℕ
  side : ReadSide κ
  tasks : List (ReadTask κ)
  /-- the responses so far, by the entries they were computed from -/
  responses : List (List EntryId)

/-- A request, the caches or the shard move. -/
inductive ReadAction (κ : Type)
  | shard (a : LoggedAction)
  | evictSnapshot (key : κ)
  | evictRecentWrite (i : ℕ)
  | sweepSidecar (logId : ℕ)
  | startLoad (key : κ)
  | startRead (key : κ)
  | startList (cursor : Option ℕ)
  | startExists (key : κ)
  | enterSegment (i : ℕ)
  /-- the chunk above `downTo` is read; `full` says whether the snapshot cache has no room -/
  | readChunk (i downTo : ℕ) (full : Bool)
  | nextSegment (i : ℕ)
  | respond (i : ℕ)

namespace LogSegmentsCache

/-- `get_latest_read_cursor`: a fresh segment has no read cursor, and the cursor of the previous one
is used if that is cached, else the write cursor. -/
def latestReadCursor (c : LogSegmentsCache) : ℕ × ℕ :=
  match c.active.read with
  | some read => (c.activeLogId, read)
  | none =>
    if (c.files (c.activeLogId - 1)).cached then
      let previous := c.metadata (c.activeLogId - 1)
      (c.activeLogId - 1, previous.read.getD previous.write)
    else (c.activeLogId, c.active.write)

end LogSegmentsCache

namespace LoggedShard

/-- The metablock at a position. -/
def metablockAt (w : LoggedShard) (logId walSeq : ℕ) : Option LogRecord :=
  w.log.find? fun r => r.logId = logId ∧ r.walSeq = walSeq

/-- The metablocks of a chunk, newest first. -/
def chunk (w : LoggedShard) (logId downTo upTo : ℕ) : List LogRecord :=
  (List.range (upTo - downTo)).filterMap fun i => w.metablockAt logId (upTo - i)

theorem mem_of_metablockAt {w : LoggedShard} {g n r}
    (h : w.metablockAt g n = some r) : r ∈ w.log ∧ r.logId = g ∧ r.walSeq = n := by
  have place := List.find?_some h
  simp only [decide_eq_true_eq] at place
  exact ⟨mem_of_find?_eq_some h, place⟩

theorem mem_chunk {w : LoggedShard} {g m n r} (h : r ∈ w.chunk g m n) :
    r ∈ w.log ∧ r.logId = g ∧ r.walSeq ≤ n := by
  obtain ⟨i, -, found⟩ := mem_filterMap.mp h
  obtain ⟨mem, logId, walSeq⟩ := mem_of_metablockAt found
  exact ⟨mem, logId, by omega⟩

end LoggedShard

namespace ReadSide

variable {κ : Type} [DecidableEq κ] (M : Metablocks κ)

/-- The visitor of a load for `k`, over the metablocks of a chunk: whether the search is over. -/
def visit (k : κ) (full : Bool) : ReadSide κ → List LogRecord → ReadSide κ × Bool
  | rs, [] => (rs, false)
  | rs, r :: records =>
    match M.kind r.entry with
    | .softDelete =>
      if M.key r.entry = k then (rs.putDeleted M r, true) else visit k full rs records
    | .softTrim =>
      if M.key r.entry = k then (rs.putSnapshot k (.found r), true) else visit k full rs records
    | .schemaRegistration => visit k full rs records
    | .eventBatch =>
      if M.key r.entry = k then (rs.putSnapshot k (.found r), true)
      -- another aggregate is cached on the way if there is room and it is not cached yet
      else if full || (rs.aggregateReadSnapshots (M.key r.entry)).isSome then
        visit k full rs records
      else visit k full (rs.putSnapshot (M.key r.entry) (.found r)) records

variable {M} {P : EntryId → Prop}

theorem All.visit {rs : ReadSide κ} (h : rs.All P) (k : κ) (full : Bool) {records}
    (new : ∀ r ∈ records, P r.entry) : (rs.visit M k full records).1.All P := by
  induction records generalizing rs with
  | nil => exact h
  | cons r records ih =>
    have here : P r.entry := new r mem_cons_self
    have rest : ∀ r' ∈ records, P r'.entry := fun r' hr' => new r' (mem_cons_of_mem r hr')
    simp only [ReadSide.visit]
    cases M.kind r.entry with
    | softDelete =>
      dsimp only
      split
      · exact h.putDeleted here
      · exact ih h rest
    | softTrim =>
      dsimp only
      split
      · exact h.putSnapshot k (all_found here)
      · exact ih h rest
    | schemaRegistration => exact ih h rest
    | eventBatch =>
      dsimp only
      split
      · exact h.putSnapshot k (all_found here)
      · split
        · exact ih h rest
        · exact ih (h.putSnapshot _ (all_found here)) rest

end ReadSide

namespace ReadPath

variable {κ : Type} [DecidableEq κ] (M : Metablocks κ) (w : ReadPath κ)

def initial : ReadPath κ := ⟨.initial, 0, .empty, [], []⟩

def shard : Shard := w.logged.shard

/-! ## Steps -/

def push (task : ReadTask κ) : ReadPath κ := { w with tasks := w.tasks ++ [task] }

def setTask (i : ℕ) (task : ReadTask κ) : ReadPath κ := { w with tasks := w.tasks.set i task }

def dropTask (i : ℕ) : ReadPath κ := { w with tasks := w.tasks.eraseIdx i }

/-- New entries take the next free identities. -/
def fresh : ShardAction → Bool
  | .enqueue entries => entries = List.range' w.next entries.length
  | _ => true

/-- A step of the shard; a restart ends the requests. -/
def shardStep (a : LoggedAction) : Option (ReadPath κ) :=
  if w.fresh a.action then
    (w.logged.step M.own a).map fun logged =>
      { w with
        logged
        next := w.next + (enqueued a.action).length
        side := w.side.after M w.logged.log w.shard logged.shard a.action
        tasks := if a.action = .restart then [] else w.tasks }
  else none

/-- The recent writes of an aggregate that `collect_from_cache_bounded` uses. -/
def visibleWrites (k : κ) : List EntryId :=
  (w.side.aggregateRecentWrites.filter fun r =>
    M.key r.entry = k ∧ r.walSeq ≤ w.shard.segments.latestReadCursor.2).map (·.entry)

/-- Entering a segment: a listing takes its sidecar if there is one, a scan takes the read cursor as
its end and finds nothing without one. -/
def enterSegment (i : ℕ) (task : ReadTask κ) (logId : ℕ) (overrideEnd : Option ℕ) : ReadPath κ :=
  let upTo :=
    match (w.shard.segments.metadata logId).read with
    | some cursor => min (overrideEnd.getD cursor) cursor
    | none => 0
  match task with
  | .list _ sources =>
    match w.side.sidecars logId with
    | some payload => w.setTask i (.list (.walk logId 0) (sources ++ payload))
    | none => w.setTask i (.list (.walk logId upTo) sources)
  | task => w.setTask i (task.setScan (.walk logId upTo))

/-- The next chunk of a scan. -/
def readChunk (i : ℕ) (task : ReadTask κ) (logId downTo upTo : ℕ) (full : Bool) : ReadPath κ :=
  let records := w.logged.chunk logId downTo upTo
  match task with
  | .load k _ =>
    let (side, found) := w.side.visit M k full records
    if found then { w with side }.dropTask i
    else { w with side }.setTask i (.load k (.walk logId downTo))
  | .read k _ sources =>
    let found := records.filter fun r => M.kind r.entry = .eventBatch ∧ M.key r.entry = k
    w.setTask i (.read k (.walk logId downTo) (sources ++ found.map (·.entry)))
  | .list _ sources =>
    let found := records.filter fun r =>
      M.kind r.entry = .eventBatch ∨ M.kind r.entry = .softDelete
    w.setTask i (.list (.walk logId downTo) (sources ++ found.map (·.entry)))
  | .details _ => w

/-- A scan that is through with a segment goes to the one before; a load that is through with all
of them caches that there is no such aggregate. -/
def nextSegment (i : ℕ) (task : ReadTask κ) (logId : ℕ) : ReadPath κ :=
  if 1 < logId then w.setTask i (task.setScan (.enter (logId - 1) none))
  else
    match task with
    | .load k _ => { w with side := w.side.putSnapshot k .notFound }.dropTask i
    | _ => w

/-- The response of a request; limits and filters may end a scan at any point. -/
def respond (i : ℕ) (task : ReadTask κ) : Option (ReadPath κ) :=
  match task with
  | .load _ _ => none
  | .read _ _ sources => some { w.dropTask i with responses := w.responses ++ [sources] }
  | .list _ sources => some { w.dropTask i with responses := w.responses ++ [sources] }
  | .details snapshot =>
    let last := ((w.logged.metablockAt snapshot.logId snapshot.walSeq).map (·.entry)).toList
    some { w.dropTask i with responses := w.responses ++ [snapshot.sources ++ last] }

/-- One request, cache or shard moves. -/
def step : ReadAction κ → Option (ReadPath κ)
  | .shard a => w.shardStep M a
  | .evictSnapshot k =>
    some { w with
      side.aggregateReadSnapshots :=
        fun j => if j = k then none else w.side.aggregateReadSnapshots j }
  | .evictRecentWrite i =>
    some { w with side.aggregateRecentWrites := w.side.aggregateRecentWrites.eraseIdx i }
  | .sweepSidecar logId =>
    let m := w.shard.segments.metadata logId
    -- only a sealed segment that is not pending advance is swept
    if logId ≠ w.shard.segments.activeLogId ∧ m.read.isSome ∧ m.write ≤ m.readWalSeq then
      some { w with side := w.side.sweepSidecar logId }
    else none
  | .startLoad k =>
    match w.side.aggregateReadSnapshots k with
    | some _ => none
    | none =>
      let cursor := w.shard.segments.latestReadCursor
      some (w.push (.load k (.enter cursor.1 (some cursor.2))))
  | .startRead k =>
    match w.side.aggregateReadSnapshots k with
    | some snapshot =>
      if snapshot.status = .found then
        some (w.push (.read k (.enter snapshot.logId (some snapshot.walSeq))
          (snapshot.sources ++ w.visibleWrites M k)))
      else none
    | none => none
  | .startList none =>
    some (w.push (.list (.enter (w.shard.segments.activeLogId - 1) none) w.side.segmentSummary))
  | .startList (some logId) => some (w.push (.list (.enter logId none) []))
  | .startExists k =>
    match w.side.aggregateReadSnapshots k with
    | some snapshot =>
      if snapshot.status = .notFound then none else some (w.push (.details snapshot))
    | none => none
  | .enterSegment i =>
    match w.tasks[i]? with
    | some task =>
      match task.scan with
      | some (.enter logId overrideEnd) =>
        if w.shard.segments.IsCached logId then some (w.enterSegment i task logId overrideEnd)
        else none
      | _ => none
    | none => none
  | .readChunk i downTo full =>
    match w.tasks[i]? with
    | some task =>
      match task.scan with
      | some (.walk logId upTo) =>
        if downTo < upTo then some (w.readChunk M i task logId downTo upTo full) else none
      | _ => none
    | none => none
  | .nextSegment i =>
    match w.tasks[i]? with
    | some task =>
      match task.scan with
      | some (.walk logId 0) => some (w.nextSegment i task logId)
      | _ => none
    | none => none
  | .respond i =>
    match w.tasks[i]? with
    | some task => w.respond i task
    | none => none

/-! ## The condition -/

/-- A follower's fsync writes no entry of a client of this node. -/
def parksOnlyPeers : ShardAction → Prop
  | .syncSucceeded =>
    match w.shard.gate with
    | .writing .deferToLeaderConfirmed entries _ _ => ∀ e ∈ entries, M.own e = false
    | _ => True
  | _ => True

/-- The segment's read cursor is not below the end that the scan took from it. -/
def scanCurrent (i : ℕ) : Prop :=
  ∀ task ∈ w.tasks[i]?,
    match task.scan with
    | some (.walk logId upTo) => upTo ≤ (w.shard.segments.metadata logId).readWalSeq
    | _ => True

/-- `exists` finds at the place in its snapshot a metablock that the snapshot was made from. -/
def detailsCurrent (i : ℕ) : Prop :=
  ∀ task ∈ w.tasks[i]?,
    match task with
    | .details snapshot =>
      ∀ r ∈ w.logged.metablockAt snapshot.logId snapshot.walSeq, r.entry ∈ snapshot.sources
    | _ => True

/-- **The condition on a step**: no read cursor passes a batch that waits, a follower's fsync has no
entry of its own, and no read cursor has been rewound below a scan or a snapshot that still uses the
old one. -/
def Safe : ReadAction κ → Prop
  | .shard a => w.shard.readSafe a.action ∧ w.parksOnlyPeers M a.action
  | .readChunk i _ _ => w.scanCurrent i
  | .respond i => w.detailsCurrent i
  | _ => True

instance (a : ShardAction) : Decidable (w.parksOnlyPeers M a) := by
  unfold parksOnlyPeers
  split
  · split <;> infer_instance
  · infer_instance

instance (i : ℕ) : Decidable (w.scanCurrent i) := by
  unfold scanCurrent
  refine @Option.decidableForallMem _ _ (fun task => ?_) _
  split <;> infer_instance

instance (i : ℕ) : Decidable (w.detailsCurrent i) := by
  unfold detailsCurrent
  refine @Option.decidableForallMem _ _ (fun task => ?_) _
  split <;> infer_instance

instance : DecidableRel (Safe M) := fun w a => by
  induction a using ReadAction.casesOn <;> dsimp only [Safe] <;> infer_instance

/-! ## Everything served is settled -/

/-- Caches, requests and responses depend on settled entries only. -/
structure Inv (w : ReadPath κ) : Prop where
  bounds : w.logged.BoundInv w.next
  side : w.side.All (Settled w.next w.shard)
  tasks : ∀ task ∈ w.tasks, ∀ e ∈ task.sources, Settled w.next w.shard e
  responses : ∀ sources ∈ w.responses, ∀ e ∈ sources, Settled w.next w.shard e

variable {M} {w w' : ReadPath κ}

omit [DecidableEq κ] in
theorem inv_initial : Inv (initial : ReadPath κ) where
  bounds := LoggedShard.boundInv_initial
  side := ReadSide.all_empty
  tasks := nofun
  responses := nofun

omit [DecidableEq κ] in
theorem enqueued_of_fresh {a} (h : w.fresh a = true) :
    enqueued a = List.range' w.next (enqueued a).length := by
  cases a with
  | enqueue entries => exact of_decide_eq_true h
  | _ => rfl

/-- A step of the shard puts nothing into the caches that is not settled afterwards. -/
theorem Inv.side_step (h : w.Inv) {a : LoggedAction} {logged : LoggedShard}
    (fresh : w.fresh a.action = true) (peers : w.parksOnlyPeers M a.action)
    (hstep : w.logged.step M.own a = some logged) :
    (w.side.after M w.logged.log w.shard logged.shard a.action).All
      (Settled (w.next + (enqueued a.action).length) logged.shard) := by
  have shardStep := (LoggedShard.step_shard hstep).1
  have new := enqueued_of_fresh fresh
  have distinct := h.bounds.distinct
  have old := h.side.mono fun e he => he.step new shardStep
  refine old.after (fun e he => distinct.settled_of_committed new shardStep he) ?_ ?_ ?_ ?_
  · intro action entries g clone gate e he
    rw [action] at shardStep ⊢
    refine distinct.settled_of_written (by rfl) shardStep ?_ ?_
    · simp only [newBatch]
      rw [show w.logged.shard.gate = _ from gate]
    · show e ∈ w.logged.shard.gate.batch
      rw [show w.logged.shard.gate = _ from gate]
      exact he
  · intro action entries g clone gate e he isOwn
    rw [action, parksOnlyPeers, gate] at peers
    rw [peers e he] at isOwn
    cases isOwn
  · intro i action e he
    rw [action] at shardStep ⊢
    exact distinct.settled_of_truncated shardStep he
  · intro action r hr
    rw [action] at shardStep ⊢
    refine ⟨lt_of_lt_of_le (h.bounds.known r hr) (Nat.le_add_right _ _), ?_⟩
    rw [← some.inj shardStep]
    exact not_mem_nil

theorem Inv.shardStep (h : w.Inv) {a : LoggedAction} (safe : w.Safe M (.shard a))
    (hstep : w.shardStep M a = some w') : w'.Inv := by
  simp only [ReadPath.shardStep] at hstep
  split at hstep
  next fresh =>
    obtain ⟨logged, logStep, rfl⟩ := map_eq_some_iff.mp hstep
    have new := enqueued_of_fresh fresh
    have settled : ∀ e, Settled w.next w.shard e →
        Settled (w.next + (enqueued a.action).length) logged.shard e := fun e he =>
      he.step new (LoggedShard.step_shard logStep).1
    refine ⟨h.bounds.step logStep new safe.1, h.side_step fresh safe.2 logStep, ?_, ?_⟩
    · intro task htask e he
      split at htask
      · cases htask
      · exact settled e (h.tasks task htask e he)
    · exact fun sources hs e he => settled e (h.responses sources hs e he)
  next => cases hstep

/-! ## Requests -/

namespace Inv

variable (h : w.Inv)
include h

variable {task : ReadTask κ} {i : ℕ}

section

omit [DecidableEq κ]

theorem push (new : ∀ e ∈ task.sources, Settled w.next w.shard e) :
    (w.push task).Inv :=
  ⟨h.bounds, h.side, forall_mem_append.mpr ⟨h.tasks, forall_mem_singleton.mpr new⟩,
    h.responses⟩

theorem setTask (i : ℕ)
    (new : ∀ e ∈ task.sources, Settled w.next w.shard e) : (w.setTask i task).Inv := by
  refine ⟨h.bounds, h.side, fun task' mem => ?_, h.responses⟩
  rcases mem_or_eq_of_mem_set mem with old | rfl
  · exact h.tasks task' old
  · exact new

theorem dropTask (i : ℕ) : (w.dropTask i).Inv :=
  ⟨h.bounds, h.side, fun task mem => h.tasks task (mem_of_mem_eraseIdx mem), h.responses⟩

theorem setSide {side : ReadSide κ} (new : side.All (Settled w.next w.shard)) :
    Inv { w with side } :=
  ⟨h.bounds, new, h.tasks, h.responses⟩

theorem answer (i : ℕ) {sources : List EntryId}
    (new : ∀ e ∈ sources, Settled w.next w.shard e) :
    Inv { w.dropTask i with responses := w.responses ++ [sources] } :=
  ⟨h.bounds, h.side, (h.dropTask i).tasks,
    forall_mem_append.mpr ⟨h.responses, forall_mem_singleton.mpr new⟩⟩

theorem enterSegment (mem : task ∈ w.tasks) (logId : ℕ)
    (overrideEnd : Option ℕ) : (w.enterSegment i task logId overrideEnd).Inv := by
  have sources := h.tasks task mem
  cases task with
  | load k scan | read k scan collected | details snapshot => exact h.setTask i sources
  | list scan collected =>
    simp only [enterSegment]
    split
    next payload sidecar =>
      exact h.setTask i
        (forall_mem_append.mpr ⟨sources, h.side.sidecars logId payload sidecar⟩)
    next => exact h.setTask i sources

/-- What a chunk below the read cursor holds is settled. -/
theorem settled_of_chunk (downTo : ℕ) {logId upTo : ℕ}
    (current : upTo ≤ (w.shard.segments.metadata logId).readWalSeq) :
    ∀ r ∈ w.logged.chunk logId downTo upTo, Settled w.next w.shard r.entry := by
  intro r hr
  obtain ⟨mem, rfl, below⟩ := LoggedShard.mem_chunk hr
  exact h.bounds.settled_of_read mem (le_trans below current)

theorem respond (mem : w.tasks[i]? = some task)
    (current : w.detailsCurrent i) (hstep : w.respond i task = some w') : w'.Inv := by
  have sources := h.tasks task (mem_of_getElem? mem)
  cases task with
  | load k scan => cases hstep
  | read k scan collected | list scan collected =>
    cases hstep
    exact h.answer i sources
  | details snapshot =>
    cases hstep
    refine h.answer i fun e he => ?_
    rcases mem_append.mp he with old | last
    · exact sources e old
    · obtain ⟨r, hr, rfl⟩ := map_eq_some_iff.mp (mem_toList.mp last)
      exact sources _ (current _ mem r hr)

end

theorem readChunk (mem : task ∈ w.tasks) {logId downTo upTo : ℕ}
    (full : Bool) (current : upTo ≤ (w.shard.segments.metadata logId).readWalSeq) :
    (w.readChunk M i task logId downTo upTo full).Inv := by
  have sources := h.tasks task mem
  have chunk := h.settled_of_chunk downTo current
  -- a scan that collects adds part of the chunk to what it has
  have collects : ∀ collected : List EntryId, (∀ e ∈ collected, Settled w.next w.shard e) →
      ∀ p : LogRecord → Bool,
      ∀ e ∈ collected ++ ((w.logged.chunk logId downTo upTo).filter p).map (·.entry),
        Settled w.next w.shard e := by
    intro collected old p
    refine forall_mem_append.mpr ⟨old, forall_mem_map.mpr fun r hr => ?_⟩
    exact chunk r (mem_of_mem_filter hr)
  cases task with
  | load k scan =>
    have visited := h.setSide (h.side.visit (M := M) k full chunk)
    simp only [readChunk]
    split
    · exact visited.dropTask i
    · exact visited.setTask i nofun
  | read k scan collected => exact h.setTask i (collects collected sources _)
  | list scan collected => exact h.setTask i (collects collected sources _)
  | details snapshot => exact h

theorem nextSegment (mem : task ∈ w.tasks) (logId : ℕ) :
    (w.nextSegment i task logId).Inv := by
  have sources := h.tasks task mem
  simp only [ReadPath.nextSegment]
  split
  · refine h.setTask i ?_
    cases task <;> exact sources
  · cases task with
    | load k scan =>
      exact (h.setSide (h.side.putSnapshot k fun _ he => absurd he not_mem_nil)).dropTask i
    | _ => exact h

end Inv

/-- The invariant is kept by every step that meets the condition. -/
theorem Inv.step {a : ReadAction κ} (h : w.Inv) (safe : w.Safe M a)
    (hstep : w.step M a = some w') : w'.Inv := by
  cases a
  all_goals simp only [ReadPath.step] at hstep
  case shard a => exact h.shardStep safe hstep
  case evictSnapshot k =>
    cases hstep
    exact h.setSide { h.side with
      snapshots := fun j => ReadSide.forall_mem_ite nofun (h.side.snapshots j) }
  case evictRecentWrite i =>
    cases hstep
    exact h.setSide { h.side with
      recentWrites := fun r hr => h.side.recentWrites r (mem_of_mem_eraseIdx hr) }
  case sweepSidecar logId =>
    split at hstep
    · cases hstep
      exact h.setSide (h.side.sweepSidecar logId)
    · cases hstep
  case startLoad k =>
    split at hstep
    · cases hstep
    · cases hstep
      exact h.push nofun
  case startRead k =>
    split at hstep
    next snapshot cached =>
      split at hstep
      · cases hstep
        refine h.push (forall_mem_append.mpr ⟨h.side.snapshots k snapshot cached, ?_⟩)
        exact forall_mem_map.mpr fun r hr => h.side.recentWrites r (mem_of_mem_filter hr)
      · cases hstep
    next => cases hstep
  case startList cursor =>
    cases cursor with
    | none =>
      cases hstep
      exact h.push h.side.summary
    | some logId =>
      cases hstep
      exact h.push nofun
  case startExists k =>
    split at hstep
    next snapshot cached =>
      split at hstep
      · cases hstep
      · cases hstep
        exact h.push (h.side.snapshots k snapshot cached)
    next => cases hstep
  case enterSegment i =>
    split at hstep
    next task mem =>
      split at hstep
      next logId overrideEnd _ =>
        split at hstep
        · cases hstep
          exact h.enterSegment (mem_of_getElem? mem) logId overrideEnd
        · cases hstep
      next => cases hstep
    next => cases hstep
  case readChunk i downTo full =>
    split at hstep
    next task mem =>
      split at hstep
      next logId upTo scan =>
        split at hstep
        · cases hstep
          have current := safe task mem
          rw [scan] at current
          exact h.readChunk (mem_of_getElem? mem) full current
        · cases hstep
      next => cases hstep
    next => cases hstep
  case nextSegment i =>
    split at hstep
    next task mem =>
      split at hstep
      · cases hstep
        exact h.nextSegment (mem_of_getElem? mem) _
      · cases hstep
    next => cases hstep
  case respond i =>
    split at hstep
    next task mem => exact h.respond mem safe hstep
    next => cases hstep

end ReadPath

/-- **Reads never expose uncommitted entries.** In every run whose steps meet the condition, no
response of `read`, `exists` or a listing depends on an entry whose batch is pending, in flight or
parked. -/
theorem reads_expose_only_committed {κ : Type} [DecidableEq κ] {M : Metablocks κ} {w : ReadPath κ}
    (run : Reaches (ReadPath.step M) (ReadPath.Safe M) .initial w) :
    ∀ sources ∈ w.responses, ∀ e ∈ sources, e ∉ entriesOf w.shard.deferred := by
  have inv : w.Inv := Reaches.invariant (fun _ _ _ h safe hstep => h.step safe hstep) run
    ReadPath.inv_initial
  intro sources hs e he waits
  exact (inv.responses sources hs e he).2 (mem_append_right _ waits)

/-- One aggregate, event batches only, all of them written here. -/
def ownBatches : Metablocks Unit := ⟨fun _ => .eventBatch, fun _ => (), fun _ => true⟩

/-- One batch is replicated and committed, and another waits while the aggregate is loaded from disk
and read. -/
def readBesideWaiting : List (ReadAction Unit) :=
  [(.enqueue [0] : ShardAction), .fsyncCapture .deferToReplicationAck .fits, .syncSucceeded,
    .replicationCapture .write, .replicationPublished, .selfAck, .barrierPersisted, .enqueue [1],
    .fsyncCapture .deferToReplicationAck .fits, .syncSucceeded].map (.shard ·.logged) ++
  [.evictSnapshot (), .startLoad (), .enterSegment 0, .readChunk 0 0 false, .startRead (),
    .enterSegment 0, .readChunk 0 0 false, .respond 0, .startExists (), .respond 0,
    .startList none, .respond 0]

theorem reads_expose_only_committed_readBesideWaiting :
    ∃ w, exec (ReadPath.step ownBatches) (ReadPath.Safe ownBatches) .initial readBesideWaiting =
        some w ∧
      w.responses = [[0, 0, 0], [0, 0], [0]] ∧ entriesOf w.shard.deferred = [1] ∧
      ∀ sources ∈ w.responses, ∀ e ∈ sources, e ∉ entriesOf w.shard.deferred :=
  ⟨_, rfl, by decide, by decide,
    reads_expose_only_committed (M := ownBatches) (reaches_of_exec readBesideWaiting rfl)⟩

/-- A client's write is queued while the node leads and fsynced after the node became a follower. -/
def fsyncAfterDemotion : List (ReadAction Unit) :=
  [(.enqueue [0] : ShardAction), .fsyncCapture .deferToLeaderConfirmed .fits,
    .syncSucceeded].map (.shard ·.logged) ++ [.startExists (), .respond 0]

/-- The fsync puts the write into the read snapshot although its batch is parked, and `exists`
answers from it. -/
theorem follower_fsync_publishes_own_write :
    ∃ w, exec (ReadPath.step ownBatches) Always .initial fsyncAfterDemotion = some w ∧
      w.responses = [[0, 0]] ∧ w.shard.cache.parkedCommits.map (·.pendingQueue) = [[0]] ∧
      ¬ ∀ sources ∈ w.responses, ∀ e ∈ sources, e ∉ entriesOf w.shard.deferred :=
  ⟨_, rfl, by decide, by decide, by decide⟩

end Celeriant
