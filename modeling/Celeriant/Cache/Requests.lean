import Celeriant.Cache.Versions
import Mathlib.Data.List.Infix

/-!
# Requests that name several aggregates

A write or a delete may name any number of aggregates. It warms the caches and validates, with waits
in between; its end has none: every aggregate is validated again, and only when all of them pass are
the metablocks appended, one after the other. Between its waits a request meets loads, evictions,
commits, fsync cycles and the ends of other requests.

What the one-aggregate model says of an aggregate is said here of its fibre, the part of the shard
that belongs to one key. The names of a request are the keys of a map, so no metablock of a request
moves what the validation of another one saw. An aggregate whose queue entry went with the end of an
fsync although a metablock of it was queued meanwhile is validated without that metablock.

## Main results

* `requests_are_atomic`
* `write_validated_without_queued_tombstone`
-/

namespace Celeriant

open Function List

variable {κ γ : Type}

/-! ## The model -/

/-- What a write asks of one aggregate. -/
structure SingleAggregateWrite where
  clientSeqs : List ℕ
  allowCreate : Bool
  expectedVersion : Option ℕ
  enforceClientIdempotency : Bool

/-- What a request wants of one aggregate. -/
inductive RequestPart (γ : Type)
  | write (req : WriteRequest γ)
  | delete (req : DeleteRequest)

/-- The aggregates of a request are the keys of a map. -/
inductive Request (κ γ : Type)
  | write (clientId : γ) (writes : List (κ × SingleAggregateWrite))
    (distinct : (writes.map (·.1)).Nodup)
  | delete (deletes : List (κ × DeleteRequest)) (distinct : (deletes.map (·.1)).Nodup)

namespace Request

def parts : Request κ γ → List (κ × RequestPart γ)
  | write clientId writes _ => writes.map fun (key, w) =>
      (key, .write
        ⟨clientId, w.clientSeqs, w.allowCreate, w.expectedVersion, w.enforceClientIdempotency⟩)
  | delete deletes _ => deletes.map fun (key, d) => (key, .delete d)

/-- The checks that need no cache: some aggregate, and some event for each. -/
def isEmpty : Request κ γ → Bool
  | write _ writes _ => writes.isEmpty || writes.any fun (_, w) => w.clientSeqs.isEmpty
  | delete deletes _ => deletes.isEmpty

theorem keys_nodup (r : Request κ γ) : (r.parts.map (·.1)).Nodup := by
  cases r with
  | write clientId writes distinct => simpa [parts, comp_def] using distinct
  | delete deletes distinct => simpa [parts, comp_def] using distinct

end Request

/-- Why a delete is refused. -/
inductive ShardDeleteError
  | aggregateNotExists
  | optimisticConcurrencyViolation (expected current : ℕ)
  deriving DecidableEq, Repr

/-- A refusal of a write or a delete. -/
inductive RequestError
  | write (e : ShardWriteError)
  | delete (e : ShardDeleteError)
  deriving DecidableEq, Repr

/-- `validate_and_prepare_write` and the loop body of `validate_and_prepare_deletes`: the checks,
and the metablock that the request becomes. -/
def prepareBlock [DecidableEq γ] (s : WritePath γ) (schemaOk : Bool) :
    RequestPart γ → Except RequestError (AggregateBlock γ)
  | .write req =>
    match s.validateWrite req schemaOk with
    | .ok _ => .ok (.eventBatch (s.view.prepare req))
    | .error e => .error (.write e)
  | .delete req =>
    if s.view.pendingDeleteOrDeleted || s.view.aggregateVersion = 0 then
      .error (.delete .aggregateNotExists)
    else
      match req.expectedVersion with
      | some expected =>
        if expected = s.view.aggregateVersion then .ok (.softDelete (s.tombstone req))
        else .error (.delete (.optimisticConcurrencyViolation expected s.view.aggregateVersion))
      | none => .ok (.softDelete (s.tombstone req))

/-- An item of the pending append queue; a schema registration belongs to no aggregate. -/
structure QueueItem (κ γ : Type) where
  /-- history: the request that enqueued it -/
  request : ℕ
  metablock : Option (κ × AggregateBlock γ)
  deriving DecidableEq

/-- What one fsync cycle captured. -/
structure CapturedQueue (κ γ : Type) where
  positions : κ → Option (QueueAggregatePositions γ)
  items : List (QueueItem κ γ)

/-- A request between its waits. -/
structure RequestTask (κ γ : Type) where
  request : Request κ γ
  retriedForVisibilityGap : Bool

/-- A delete that loses the concurrency check replicates and tries again, once. -/
def RequestTask.retries (task : RequestTask κ γ) (e : RequestError) : Bool :=
  match task.request, e with
  | .delete _ _, .delete (.optimisticConcurrencyViolation _ _) => !task.retriedForVisibilityGap
  | _, _ => false

/-- The queue, positions and caches of all keys. -/
structure RequestShard (κ γ : Type) where
  queue : List (QueueItem κ γ)
  positions : κ → Option (QueueAggregatePositions γ)
  /-- the batch that an fsync is writing, with the queue positions of its capture -/
  fsync : Option (CapturedQueue κ γ)
  writeSnapshots : κ → Option MemSnapshotAggregate
  clients : κ → γ → Option (ℕ × ℕ)
  readCursor : ℕ
  tasks : List (RequestTask κ γ)
  nextRequest : ℕ
  /-- history: what each fsync cycle captured -/
  captures : List (List (QueueItem κ γ))
  /-- history: what each rollback found in the queue -/
  discarded : List (List (QueueItem κ γ))

/-- A request, or something its waits meet. -/
inductive RequestAction (κ γ : Type)
  | begin (request : Request κ γ)
  /-- a load or a validation between the waits fails -/
  | reject (i : ℕ)
  /-- the end of a request -/
  | finish (i : ℕ) (schemaOk : κ → Bool)
  /-- the end of a trim of one aggregate -/
  | trim (key : κ) (keepFrom : ℕ)
  | registerSchema
  /-- loads, evictions, commits: the caches are anything -/
  | cache (writeSnapshots : κ → Option MemSnapshotAggregate) (clients : κ → γ → Option (ℕ × ℕ))
      (readCursor : ℕ)
  | capture
  | syncSucceeded
  | syncFailed
  | fsyncAbandoned

/-- What enqueueing a metablock makes of the queue entry. -/
def addBlock [DecidableEq γ] (entry : Option (QueueAggregatePositions γ)) :
    AggregateBlock γ → QueueAggregatePositions γ
  | .eventBatch b => .addEventBatch b entry
  | .softTrim t => .addPendingTrim t entry
  | .softDelete d => .addPendingDelete d entry

section Items

variable [DecidableEq κ]

/-- The metablocks of one aggregate among the items. -/
def ofKey (key : κ) (items : List (QueueItem κ γ)) : List (AggregateBlock γ) :=
  items.filterMap fun item =>
    match item.metablock with
    | some (other, b) => if other = key then some b else none
    | none => none

@[simp] theorem ofKey_append (key : κ) (items more : List (QueueItem κ γ)) :
    ofKey key (items ++ more) = ofKey key items ++ ofKey key more := filterMap_append

@[simp] theorem ofKey_own (key : κ) (request : ℕ) (b : AggregateBlock γ) :
    ofKey key [⟨request, some (key, b)⟩] = [b] := by simp [ofKey]

@[simp] theorem ofKey_schema (key : κ) (request : ℕ) :
    ofKey key ([⟨request, none⟩] : List (QueueItem κ γ)) = [] := rfl

theorem ofKey_other {key other : κ} (distinct : other ≠ key) (request : ℕ) (b : AggregateBlock γ) :
    ofKey key [⟨request, some (other, b)⟩] = [] := by simp [ofKey, distinct]

end Items

namespace RequestShard

def init : RequestShard κ γ :=
  ⟨[], fun _ => none, none, fun _ => none, fun _ _ => none, 0, [], 0, [], []⟩

variable [DecidableEq κ] [DecidableEq γ] (s : RequestShard κ γ)

/-- The part of the shard that belongs to one aggregate. -/
def fibre (key : κ) : WritePath γ :=
  { WritePath.init with
    queue := ofKey key s.queue
    positions := s.positions key
    fsync := s.fsync.map fun c => ⟨c.positions key, ofKey key c.items⟩
    writeSnapshot := s.writeSnapshots key
    clients := s.clients key
    readCursor := s.readCursor }

def enqueue (request : ℕ) (key : κ) (b : AggregateBlock γ) : RequestShard κ γ :=
  { s with
    queue := s.queue ++ [⟨request, some (key, b)⟩]
    positions := update s.positions key (some (addBlock (s.positions key) b)) }

/-- The validation loop: the first error ends it. -/
def prepareParts (schemaOk : κ → Bool) :
    List (κ × RequestPart γ) → Except RequestError (List (κ × AggregateBlock γ))
  | [] => .ok []
  | (key, part) :: rest =>
    match prepareBlock (s.fibre key) (schemaOk key) part with
    | .error e => .error e
    | .ok b =>
      match prepareParts schemaOk rest with
      | .error e => .error e
      | .ok prepared => .ok ((key, b) :: prepared)

/-- `append_prepared_writes_to_queue`, and the loop of phase 2 of a delete. -/
def appendPrepared (request : ℕ) (prepared : List (κ × AggregateBlock γ)) : RequestShard κ γ :=
  prepared.foldl (fun s (key, b) => s.enqueue request key b) s

/-- The end of a request, free of waits. -/
def submit (request : Request κ γ) (schemaOk : κ → Bool) : Except RequestError (RequestShard κ γ) :=
  match s.prepareParts schemaOk request.parts with
  | .error e => .error e
  | .ok prepared =>
    .ok { s.appendPrepared s.nextRequest prepared with nextRequest := s.nextRequest + 1 }

def dropTask (i : ℕ) : RequestShard κ γ := { s with tasks := s.tasks.eraseIdx i }

/-- The end of a request: its metablocks are enqueued, or it tries again, or it fails. -/
def finish (i : ℕ) (task : RequestTask κ γ) (schemaOk : κ → Bool) : RequestShard κ γ :=
  match s.submit task.request schemaOk with
  | .ok t => t.dropTask i
  | .error e =>
    if task.retries e then
      { s with tasks := s.tasks.set i { task with retriedForVisibilityGap := true } }
    else s.dropTask i

/-- `trim_start` with its existence check, which the one-aggregate model makes before. -/
def trimStart (key : κ) (keepFrom : ℕ) : RequestShard κ γ :=
  let u := s.fibre key
  if u.loadStatus .write = some .found ∧ u.view.minAggregateVersion < keepFrom ∧
      keepFrom ≤ u.view.aggregateVersion then
    { s.enqueue s.nextRequest key (.softTrim (u.trimBlock keepFrom)) with
      nextRequest := s.nextRequest + 1 }
  else s

/-- One step; a request ends without a wait. -/
def step : RequestAction κ γ → Option (RequestShard κ γ)
  | .begin request =>
    some (if request.isEmpty then s else { s with tasks := s.tasks ++ [⟨request, false⟩] })
  | .reject i => if i < s.tasks.length then some (s.dropTask i) else none
  | .finish i schemaOk =>
    match s.tasks[i]? with
    | some task => some (s.finish i task schemaOk)
    | none => none
  | .trim key keepFrom => some (s.trimStart key keepFrom)
  | .registerSchema =>
    some { s with queue := s.queue ++ [⟨s.nextRequest, none⟩], nextRequest := s.nextRequest + 1 }
  | .cache writeSnapshots clients readCursor => some { s with writeSnapshots, clients, readCursor }
  | .capture =>
    match s.fsync with
    | some _ => none
    | none =>
      some { s with
        fsync := some ⟨s.positions, s.queue⟩
        queue := []
        captures := s.captures ++ [s.queue] }
  | .syncSucceeded =>
    match s.fsync with
    | some captured =>
      some { s with
        positions := fun key => WritePath.remaining (s.positions key) (captured.positions key)
        fsync := none }
    | none => none
  | .syncFailed =>
    match s.fsync with
    | some _ =>
      some { s with
        queue := []
        positions := fun _ => none
        fsync := none
        discarded := s.discarded ++ [s.queue] }
    | none => none
  | .fsyncAbandoned =>
    match s.fsync with
    | some _ => some { s with fsync := none }
    | none => none

/-! ## What holds -/

def inflight : List (QueueItem κ γ) :=
  match s.fsync with
  | some captured => captured.items
  | none => []

/-- The queue state includes every metablock that is queued or in flight: the entry of an aggregate
is what adding all of them makes of some entry. -/
def Includes : Prop :=
  ∀ key, ∃ base, s.positions key =
    (ofKey key (s.inflight ++ s.queue)).foldl (fun entry b => some (addBlock entry b)) base

/-- One aggregate after the other: its checks pass and its metablock is built in a state whose queue
includes everything before it, and the metablock is enqueued there. -/
def EnqueuedInOrder (schemaOk : κ → Bool) (request : ℕ) :
    RequestShard κ γ → List (κ × RequestPart γ) → RequestShard κ γ → Prop
  | s, [], t => t = s
  | s, (key, part) :: rest, t =>
    s.Includes ∧ ∃ b, prepareBlock (s.fibre key) (schemaOk key) part = .ok b ∧
      EnqueuedInOrder schemaOk request (s.enqueue request key b) rest t

/-- Where enqueued items can be. -/
def places : List (List (QueueItem κ γ)) := s.queue :: (s.captures ++ s.discarded)

/-- The end of an fsync takes no queue entry of an aggregate with a metablock that was queued
meanwhile. -/
def KeepsEntries : RequestAction κ γ → Prop
  | .syncSucceeded =>
    ∀ captured ∈ s.fsync, ∀ item ∈ s.queue, ∀ named ∈ item.metablock,
      ∀ q ∈ captured.positions named.1, q.pendingDelete = false →
        ∀ current ∈ s.positions named.1, current.aggregateVersion ≠ q.aggregateVersion
  | _ => True

instance : DecidableRel (KeepsEntries : RequestShard κ γ → RequestAction κ γ → Prop) :=
  fun s a => by
  induction a using RequestAction.casesOn <;> dsimp only [KeepsEntries] <;> infer_instance

/-! ## Enqueueing -/

section Enqueue

variable {s} {t : RequestShard κ γ}

theorem Includes.enqueue (h : s.Includes) (request : ℕ) (key : κ) (b : AggregateBlock γ) :
    (s.enqueue request key b).Includes := by
  intro other
  obtain ⟨base, entry⟩ := h other
  refine ⟨base, ?_⟩
  show update s.positions key (some (addBlock (s.positions key) b)) other =
    (ofKey other (s.inflight ++ (s.queue ++ [⟨request, some (key, b)⟩]))).foldl _ base
  rw [← append_assoc, ofKey_append, foldl_append, ← entry]
  by_cases same : other = key
  · subst same
    rw [update_self, ofKey_own]
    rfl
  · rw [update_of_ne same, ofKey_other (Ne.symm same)]
    rfl

/-- Enqueueing a metablock of another aggregate leaves the fibre alone. -/
theorem fibre_enqueue_other {key other : κ} (distinct : key ≠ other) (request : ℕ)
    (b : AggregateBlock γ) : (s.enqueue request key b).fibre other = s.fibre other := by
  have queue : ofKey other (s.enqueue request key b).queue = ofKey other s.queue := by
    show ofKey other (s.queue ++ [_]) = _
    rw [ofKey_append, ofKey_other distinct, append_nil]
  have positions : (s.enqueue request key b).positions other = s.positions other :=
    update_of_ne (Ne.symm distinct) ..
  unfold fibre
  rw [queue, positions]
  rfl

variable {schemaOk : κ → Bool}

theorem prepareParts_congr {parts : List (κ × RequestPart γ)}
    (same : ∀ part ∈ parts, t.fibre part.1 = s.fibre part.1) :
    t.prepareParts schemaOk parts = s.prepareParts schemaOk parts := by
  induction parts with
  | nil => rfl
  | cons part rest ih =>
    obtain ⟨key, part⟩ := part
    have first : t.fibre key = s.fibre key := same _ mem_cons_self
    simp only [prepareParts, first, ih fun p mem => same p (mem_cons_of_mem _ mem)]

/-- **Validation before the first enqueue is validation at its own turn**: the aggregates of a
request are distinct, so what was prepared against one state is what each would be in the state that
has all metablocks before it. -/
theorem Includes.enqueuedInOrder (h : s.Includes) (request : ℕ)
    {parts : List (κ × RequestPart γ)} (distinct : (parts.map (·.1)).Nodup)
    {prepared : List (κ × AggregateBlock γ)} (ok : s.prepareParts schemaOk parts = .ok prepared) :
    EnqueuedInOrder schemaOk request s parts (s.appendPrepared request prepared) ∧
      (s.appendPrepared request prepared).Includes ∧
      prepared.map (·.1) = parts.map (·.1) := by
  induction parts generalizing s prepared with
  | nil =>
    cases ok
    exact ⟨rfl, h, rfl⟩
  | cons part rest ih =>
    obtain ⟨key, part⟩ := part
    obtain ⟨fresh, distinct⟩ := nodup_cons.mp distinct
    simp only [prepareParts] at ok
    split at ok
    next => cases ok
    next b block =>
      split at ok
      next => cases ok
      next later rest' =>
        cases ok
        -- the later aggregates see the same fibres
        have same : ∀ p ∈ rest, (s.enqueue request key b).fibre p.1 = s.fibre p.1 := by
          intro p mem
          refine fibre_enqueue_other (fun eq => fresh ?_) request b
          exact mem_map.mpr ⟨p, mem, eq.symm⟩
        have moved := (prepareParts_congr same).trans rest'
        obtain ⟨ordered, includes, keys⟩ := ih (h.enqueue request key b) distinct moved
        exact ⟨⟨h, b, block, ordered⟩, includes, by rw [map_cons, keys]; rfl⟩

theorem appendPrepared_queue (request : ℕ) (prepared : List (κ × AggregateBlock γ)) :
    (s.appendPrepared request prepared).queue =
      s.queue ++ prepared.map fun named => ⟨request, some named⟩ := by
  induction prepared generalizing s with
  | nil => exact (append_nil _).symm
  | cons named rest ih =>
    obtain ⟨key, b⟩ := named
    have later : ((s.enqueue request key b).appendPrepared request rest).queue = _ := ih
    rw [map_cons, append_cons]
    exact later

/-- The other fields stay. -/
theorem appendPrepared_fields (request : ℕ) (prepared : List (κ × AggregateBlock γ)) :
    (s.appendPrepared request prepared).fsync = s.fsync ∧
      (s.appendPrepared request prepared).captures = s.captures ∧
      (s.appendPrepared request prepared).discarded = s.discarded ∧
      (s.appendPrepared request prepared).nextRequest = s.nextRequest := by
  induction prepared generalizing s with
  | nil => exact ⟨rfl, rfl, rfl, rfl⟩
  | cons named rest ih => exact ih (s := s.enqueue request named.1 named.2)

end Enqueue

/-! ## Steps -/

section Steps

variable {s} {t : RequestShard κ γ}

theorem submit_ok {request : Request κ γ} {schemaOk : κ → Bool} {u : RequestShard κ γ}
    (ok : s.submit request schemaOk = .ok u) :
    ∃ prepared, s.prepareParts schemaOk request.parts = .ok prepared ∧
      u = { s.appendPrepared s.nextRequest prepared with nextRequest := s.nextRequest + 1 } := by
  unfold submit at ok
  split at ok
  next => cases ok
  next prepared valid =>
    cases ok
    exact ⟨prepared, valid, rfl⟩

/-- What the end of a request does. -/
theorem finish_cases (i : ℕ) (task : RequestTask κ γ) (schemaOk : κ → Bool) :
    ((∃ e, s.submit task.request schemaOk = .error e) ∧
      ∃ tasks, s.finish i task schemaOk = { s with tasks }) ∨
    ∃ prepared tasks, s.prepareParts schemaOk task.request.parts = .ok prepared ∧
      s.finish i task schemaOk =
        { s.appendPrepared s.nextRequest prepared with
          nextRequest := s.nextRequest + 1, tasks } := by
  unfold finish
  split
  next u ok =>
    obtain ⟨prepared, valid, rfl⟩ := submit_ok ok
    exact .inr ⟨prepared, _, valid, rfl⟩
  next e failed =>
    refine .inl ⟨⟨e, failed⟩, ?_⟩
    split
    next => exact ⟨_, rfl⟩
    next => exact ⟨_, rfl⟩

theorem Includes.of_fields (h : s.Includes)
    (queue : t.queue = s.queue) (positions : t.positions = s.positions)
    (fsync : t.fsync = s.fsync) :
    t.Includes := by
  intro key
  rw [positions, inflight, queue, fsync]
  exact h key

theorem Includes.trimStart (h : s.Includes) (key : κ) (keepFrom : ℕ) :
    (s.trimStart key keepFrom).Includes := by
  unfold RequestShard.trimStart
  simp only
  split
  next => exact (h.enqueue s.nextRequest key _).of_fields rfl rfl rfl
  next => exact h

/-- The entries that stay include what is queued, and where one goes nothing is. -/
theorem Includes.syncSucceeded (h : s.Includes) {captured : CapturedQueue κ γ}
    (writing : s.fsync = some captured) (safe : s.KeepsEntries .syncSucceeded) :
    Includes { s with
      positions := fun key => WritePath.remaining (s.positions key) (captured.positions key)
      fsync := none } := by
  intro key
  show ∃ base, WritePath.remaining (s.positions key) (captured.positions key) =
    (ofKey key ([] ++ s.queue)).foldl _ base
  obtain ⟨base, entry⟩ := h key
  rw [ofKey_append, foldl_append] at entry
  rw [nil_append]
  rcases WritePath.remaining_cases (s.positions key) (captured.positions key) with
    stays | ⟨gone, q, current, position, living, now, same⟩
  · exact ⟨_, stays.trans entry⟩
  · have none : ofKey key s.queue = [] := by
      refine filterMap_eq_nil_iff.mpr fun item mem => ?_
      cases named : item.metablock with
      | none => rfl
      | some named' =>
        obtain ⟨other, b⟩ := named'
        have distinct : other ≠ key := by
          rintro rfl
          exact safe captured writing item mem _ named q position living current now same
        simp [distinct]
    rw [gone, none]
    exact ⟨Option.none, rfl⟩

variable {a : RequestAction κ γ} {items : List (QueueItem κ γ)}

/-- Where a step moves items: it may append some of a new request to the queue, or the whole queue
goes to a cycle or is discarded. -/
inductive Moved (s t : RequestShard κ γ) : Prop
  | appended (items : List (QueueItem κ γ)) (queue : t.queue = s.queue ++ items)
      (fresh : ∀ item ∈ items, s.nextRequest ≤ item.request ∧ item.request < t.nextRequest)
      (next : s.nextRequest ≤ t.nextRequest) (captures : t.captures = s.captures)
      (discarded : t.discarded = s.discarded)
  | captured (queue : t.queue = []) (next : s.nextRequest ≤ t.nextRequest)
      (captures : t.captures = s.captures ++ [s.queue]) (discarded : t.discarded = s.discarded)
  | rolledBack (queue : t.queue = []) (next : s.nextRequest ≤ t.nextRequest)
      (captures : t.captures = s.captures) (discarded : t.discarded = s.discarded ++ [s.queue])

omit [DecidableEq κ] [DecidableEq γ] in
theorem Moved.of_fields (queue : t.queue = s.queue) (next : t.nextRequest = s.nextRequest)
    (captures : t.captures = s.captures) (discarded : t.discarded = s.discarded) : Moved s t :=
  .appended [] (queue.trans (append_nil _).symm) nofun (le_of_eq next.symm) captures discarded

theorem Moved.finish (i : ℕ) (task : RequestTask κ γ) (schemaOk : κ → Bool) :
    Moved s (s.finish i task schemaOk) := by
  rcases s.finish_cases i task schemaOk with ⟨-, tasks, failed⟩ | ⟨prepared, tasks, valid, done⟩
  · rw [failed]
    exact .of_fields rfl rfl rfl rfl
  · rw [done]
    obtain ⟨-, captures, discarded, -⟩ := s.appendPrepared_fields s.nextRequest prepared
    refine .appended _ (s.appendPrepared_queue s.nextRequest prepared) (fun item mem => ?_)
      (Nat.le_succ _) captures discarded
    obtain ⟨named, -, rfl⟩ := mem_map.mp mem
    exact ⟨le_rfl, Nat.lt_succ_self _⟩

/-- What a step does to the places of the items, and that it keeps what the queue state includes. -/
theorem step_spec (hstep : s.step a = some t) :
    Moved s t ∧ (s.Includes → s.KeepsEntries a → t.Includes) := by
  cases a
  all_goals simp only [step] at hstep
  case begin request =>
    cases hstep
    split
    next => exact ⟨.of_fields rfl rfl rfl rfl, fun h _ => h⟩
    next => exact ⟨.of_fields rfl rfl rfl rfl, fun h _ => h.of_fields rfl rfl rfl⟩
  case reject i =>
    split at hstep
    next =>
      cases hstep
      exact ⟨.of_fields rfl rfl rfl rfl, fun h _ => h.of_fields rfl rfl rfl⟩
    next => cases hstep
  case finish i schemaOk =>
    split at hstep
    next task _ =>
      cases hstep
      refine ⟨.finish i task schemaOk, fun h _ => ?_⟩
      rcases s.finish_cases i task schemaOk with ⟨-, tasks, failed⟩ | ⟨prepared, tasks, valid, done⟩
      · rw [failed]
        exact h.of_fields rfl rfl rfl
      · rw [done]
        exact (h.enqueuedInOrder s.nextRequest task.request.keys_nodup valid).2.1.of_fields
          rfl rfl rfl
    next => cases hstep
  case trim key keepFrom =>
    cases hstep
    refine ⟨?_, fun h _ => h.trimStart key keepFrom⟩
    unfold trimStart
    simp only
    split
    next =>
      refine .appended [_] rfl (fun item mem => ?_) (Nat.le_succ _) rfl rfl
      rw [mem_singleton.mp mem]
      exact ⟨le_rfl, Nat.lt_succ_self _⟩
    next => exact .of_fields rfl rfl rfl rfl
  case registerSchema =>
    cases hstep
    constructor
    · refine .appended [_] rfl (fun item mem => ?_) (Nat.le_succ _) rfl rfl
      rw [mem_singleton.mp mem]
      exact ⟨le_rfl, Nat.lt_succ_self _⟩
    · intro h _ key
      show ∃ base, s.positions key = (ofKey key (s.inflight ++ (s.queue ++ [_]))).foldl _ base
      rw [← append_assoc, ofKey_append, ofKey_schema, append_nil]
      exact h key
  case cache writeSnapshots clients readCursor =>
    cases hstep
    exact ⟨.of_fields rfl rfl rfl rfl, fun h _ => h.of_fields rfl rfl rfl⟩
  case capture =>
    split at hstep
    next => cases hstep
    next idle =>
      cases hstep
      refine ⟨.captured rfl le_rfl rfl rfl, fun h _ key => ?_⟩
      have before := h key
      rw [inflight, idle, nil_append] at before
      show ∃ base, s.positions key = (ofKey key (s.queue ++ [])).foldl _ base
      rwa [append_nil]
  case syncSucceeded =>
    split at hstep
    next captured writing =>
      cases hstep
      exact ⟨.of_fields rfl rfl rfl rfl, fun h safe => h.syncSucceeded writing safe⟩
    next => cases hstep
  case syncFailed =>
    split at hstep
    next =>
      cases hstep
      exact ⟨.rolledBack rfl le_rfl rfl rfl, fun _ _ key => ⟨none, rfl⟩⟩
    next => cases hstep
  case fsyncAbandoned =>
    split at hstep
    next =>
      cases hstep
      refine ⟨.of_fields rfl rfl rfl rfl, fun h _ key => ?_⟩
      obtain ⟨base, entry⟩ := h key
      rw [ofKey_append, foldl_append] at entry
      exact ⟨_, entry⟩
    next => cases hstep

/-! ## All or nothing -/

omit [DecidableEq κ] [DecidableEq γ]

/-- A list holds the items of a request together, or none of them. -/
def Together (request : ℕ) (items place : List (QueueItem κ γ)) : Prop :=
  (∃ before after, place = before ++ items ++ after) ∨ ∀ item ∈ place, item.request ≠ request

/-- The items of a request lie together in one place and are nowhere else in parts. -/
structure Placed (request : ℕ) (items : List (QueueItem κ γ)) (s : RequestShard κ γ) : Prop where
  known : request < s.nextRequest
  somewhere : ∃ place ∈ s.places, items <:+: place
  together : ∀ place ∈ s.places, Together request items place

theorem Together.append {request : ℕ} {place : List (QueueItem κ γ)}
    (h : Together request items place) {more : List (QueueItem κ γ)}
    (fresh : ∀ item ∈ more, item.request ≠ request) : Together request items (place ++ more) := by
  rcases h with ⟨before, after, rfl⟩ | absent
  · exact .inl ⟨before, after ++ more, by rw [append_assoc (before ++ items)]⟩
  · refine .inr fun item mem => ?_
    rcases mem_append.mp mem with old | new
    · exact absent item old
    · exact fresh item new

theorem Placed.moved {request : ℕ} (h : Placed request items s)
    (moved : Moved s t) : Placed request items t := by
  have known := h.known
  -- the places of the next state when the queue goes to one of the two lists
  have relocated (queue : t.queue = []) (next : s.nextRequest ≤ t.nextRequest)
      (same : ∀ place, place ∈ t.captures ++ t.discarded ↔ place ∈ s.places) :
      Placed request items t := by
    refine ⟨lt_of_lt_of_le known next, ?_, fun place mem => ?_⟩
    · obtain ⟨place, mem, inside⟩ := h.somewhere
      exact ⟨place, mem_cons_of_mem _ ((same place).mpr mem), inside⟩
    · rcases mem_cons.mp mem with rfl | mem
      · rw [queue]
        exact .inr nofun
      · exact h.together place ((same place).mp mem)
  cases moved with
  | appended items' queue fresh next captures discarded =>
    have other : ∀ item ∈ items', item.request ≠ request := fun item mem eq => by
      have := (fresh item mem).1
      omega
    refine ⟨lt_of_lt_of_le known next, ?_, fun place mem => ?_⟩
    · obtain ⟨place, mem, inside⟩ := h.somewhere
      rcases mem_cons.mp mem with rfl | mem
      · refine ⟨t.queue, mem_cons_self, ?_⟩
        rw [queue]
        exact inside.trans (prefix_append _ _).isInfix
      · refine ⟨place, mem_cons_of_mem _ ?_, inside⟩
        rwa [captures, discarded]
    · rcases mem_cons.mp mem with rfl | mem
      · rw [queue]
        exact (h.together s.queue mem_cons_self).append other
      · rw [captures, discarded] at mem
        exact h.together place (mem_cons_of_mem _ mem)
  | captured queue next captures discarded | rolledBack queue next captures discarded =>
    refine relocated queue next fun place => ?_
    rw [captures, discarded, places]
    simp only [mem_append, mem_cons]
    tauto

/-- Every item anywhere is of an earlier request. -/
def Known (s : RequestShard κ γ) : Prop :=
  ∀ place ∈ s.places, ∀ item ∈ place, item.request < s.nextRequest

theorem Known.moved (h : s.Known) (moved : Moved s t) : t.Known := by
  intro place mem item inside
  cases moved with
  | appended items queue fresh next captures discarded =>
    rcases mem_cons.mp mem with rfl | mem
    · rw [queue] at inside
      rcases mem_append.mp inside with old | new
      · exact lt_of_lt_of_le (h s.queue mem_cons_self item old) next
      · exact (fresh item new).2
    · rw [captures, discarded] at mem
      exact lt_of_lt_of_le (h place (mem_cons_of_mem _ mem) item inside) next
  | captured queue next captures discarded | rolledBack queue next captures discarded =>
    refine lt_of_lt_of_le (h place ?_ item inside) next
    rcases mem_cons.mp mem with rfl | mem
    · rw [queue] at inside
      cases inside
    · rw [captures, discarded] at mem
      simp only [places, mem_append, mem_cons, not_mem_nil, or_false] at mem ⊢
      tauto

/-- What a new request enqueues lies together at the end of the queue. -/
theorem Known.placed (h : s.Known) (queue : t.queue = s.queue ++ items)
    (next : t.nextRequest = s.nextRequest + 1)
    (captures : t.captures = s.captures) (discarded : t.discarded = s.discarded) :
    Placed s.nextRequest items t := by
  refine ⟨by omega, ⟨t.queue, mem_cons_self, ?_⟩, fun place mem => ?_⟩
  · rw [queue]
    exact (suffix_append _ _).isInfix
  · rcases mem_cons.mp mem with rfl | mem
    · exact .inl ⟨s.queue, [], by rw [queue, append_nil]⟩
    · rw [captures, discarded] at mem
      exact .inr fun item inside eq =>
        absurd (h place (mem_cons_of_mem _ mem) item inside) (by omega)

end Steps

end RequestShard

open Transition RequestShard in
/-- **Requests are atomic.** When a request that names any number of distinct aggregates comes to
its end, either it fails and neither the queue nor a queue position changes; or its metablocks, one
for each aggregate and in their order, are appended to the queue, each after it passed its checks
and was built in a state whose queue positions include every metablock before it. At any later time
they lie together in one place, the queue or what one fsync cycle captured or what one rollback
discarded, and no other place has any of them. A request that is refused before its end changes
neither queue nor positions. -/
theorem requests_are_atomic {κ γ : Type} [DecidableEq κ] [DecidableEq γ] {s t : RequestShard κ γ}
    (run : Reaches step KeepsEntries init s) {a : RequestAction κ γ} (hstep : s.step a = some t) :
    (∀ i schemaOk task, a = .finish i schemaOk → s.tasks[i]? = some task →
      ((∃ e, s.submit task.request schemaOk = .error e) ∧ t.queue = s.queue ∧
        t.positions = s.positions) ∨
      ∃ u items, EnqueuedInOrder schemaOk s.nextRequest s task.request.parts u ∧
        t.queue = u.queue ∧ t.positions = u.positions ∧ t.queue = s.queue ++ items ∧
        items.map (fun item => item.metablock.map (·.1)) = task.request.parts.map
          (fun part => some part.1) ∧
        ∀ t', Reaches step KeepsEntries t t' →
          (∃ place ∈ t'.places, items <:+: place) ∧
          ∀ place ∈ t'.places, items <:+: place ∨ ∀ item ∈ items, item ∉ place) ∧
    (∀ request, a = .begin request → t.queue = s.queue ∧ t.positions = s.positions) ∧
    ∀ i, a = .reject i → t.queue = s.queue ∧ t.positions = s.positions := by
  obtain ⟨includes, known⟩ : s.Includes ∧ s.Known :=
    Reaches.invariant (I := fun s => s.Includes ∧ s.Known)
      (fun _ _ _ h safe hstep => ⟨(step_spec hstep).2 h.1 safe, h.2.moved (step_spec hstep).1⟩) run
      ⟨fun key => ⟨none, rfl⟩, by
        intro place mem item inside
        rcases mem_cons.mp mem with rfl | mem
        · cases inside
        · cases mem⟩
  refine ⟨?_, ?_, ?_⟩
  · rintro i schemaOk task rfl pending
    simp only [step, pending, Option.some.injEq] at hstep
    subst hstep
    rcases s.finish_cases i task schemaOk with ⟨error, tasks, failed⟩
      | ⟨prepared, tasks, valid, done⟩
    · rw [failed]
      exact .inl ⟨error, rfl, rfl⟩
    · obtain ⟨ordered, -, keys⟩ :=
        includes.enqueuedInOrder s.nextRequest task.request.keys_nodup valid
      obtain ⟨-, captures, discarded, -⟩ := s.appendPrepared_fields s.nextRequest prepared
      have queue := s.appendPrepared_queue s.nextRequest prepared
      rw [done]
      refine .inr ⟨_, _, ordered, rfl, rfl, queue, ?_, fun t' later => ?_⟩
      · rw [map_map]
        have named := congrArg (List.map some) keys
        rw [map_map, map_map] at named
        exact named
      · have own : ∀ item ∈
            prepared.map (fun named => (⟨s.nextRequest, some named⟩ : QueueItem κ γ)),
            item.request = s.nextRequest := by
          intro item mem
          obtain ⟨named, -, rfl⟩ := mem_map.mp mem
          rfl
        have placed := later.invariant (fun _ _ _ h _ hstep => Placed.moved h (step_spec hstep).1)
          (known.placed queue rfl captures discarded)
        refine ⟨placed.somewhere, fun place mem => (placed.together place mem).imp ?_ ?_⟩
        · rintro ⟨before, after, rfl⟩
          exact ⟨before, after, rfl⟩
        · exact fun absent item inside outside => absent item outside (own item inside)
  · rintro request rfl
    simp only [step, Option.some.injEq] at hstep
    subst hstep
    split
    next => exact ⟨rfl, rfl⟩
    next => exact ⟨rfl, rfl⟩
  · rintro i rfl
    simp only [step] at hstep
    split at hstep
    next =>
      cases hstep
      exact ⟨rfl, rfl⟩
    next => cases hstep

/-- A write of one event. -/
def oneEvent : SingleAggregateWrite := ⟨[1], true, none, false⟩

open Transition RequestShard in
/-- A write of two aggregates, enqueued behind another one, and the capture that takes both. -/
theorem requests_are_atomic_captured :
    ∃ (s t t' : RequestShard Bool Unit) (items : List (QueueItem Bool Unit)),
      Reaches step KeepsEntries init s ∧ s.step (.finish 0 fun _ => true) = some t ∧
      t.queue = s.queue ++ items ∧ items.length = 2 ∧ Reaches step KeepsEntries t t' ∧
      t'.queue = [] ∧ ∃ place ∈ t'.places, items <:+: place := by
  let before : List (RequestAction Bool Unit) :=
    [.begin (.write () [(true, oneEvent)] (by decide)), .finish 0 fun _ => true,
      .begin (.write () [(false, oneEvent), (true, oneEvent)] (by decide))]
  obtain ⟨s, t, run, hstep, tasks, one, three, captured⟩ : ∃ s t, Reaches step KeepsEntries init s ∧
      s.step (.finish 0 fun _ => true) = some t ∧ s.tasks.length = 1 ∧ s.queue.length = 1 ∧
      t.queue.length = 3 ∧
      (exec step KeepsEntries t [.capture]).any (fun t' => decide (t'.queue = [])) = true :=
    exists_step_of_exec before (by decide +kernel)
  obtain ⟨t', later, empty⟩ := exists_of_exec _ captured
  have task : s.tasks[0]? = some (s.tasks.get ⟨0, by omega⟩) := List.getElem?_eq_getElem (by omega)
  rcases (requests_are_atomic run hstep).1 0 _ _ rfl task with
    ⟨-, same, -⟩ | ⟨u, items, -, -, -, queue, -, later'⟩
  · rw [same] at three
    omega
  · have length : items.length = 2 := by
      rw [queue, length_append] at three
      omega
    exact ⟨s, t, t', items, run, hstep, queue, length, later, empty, (later' t' later).1⟩

open Transition RequestShard in
/-- A write is in its fsync, its aggregate is deleted for good meanwhile, the fsync ends: the queue
entry goes because its version did not move, and with it the pending delete. A write of that
aggregate and of another one is accepted behind the queued tombstone. -/
theorem write_validated_without_queued_tombstone :
    ∃ s t : RequestShard Bool Unit, Reaches step Always init s ∧
      s.step (.finish 0 fun _ => true) = some t ∧
      s.queue = [⟨1, some (true, .softDelete ⟨1, 1, false, false⟩)⟩] ∧ t.queue.length = 3 ∧
      ¬ s.Includes := by
  let before : List (RequestAction Bool Unit) :=
    [.begin (.write () [(true, oneEvent)] (by decide)), .finish 0 fun _ => true, .capture,
      .begin (.delete [(true, ⟨none, false, false⟩)] (by decide)), .finish 0 fun _ => true,
        .syncSucceeded,
      .cache (fun key => if key then some (.found 1 1 1) else none) (fun _ _ => none) 1,
      .begin (.write () [(true, oneEvent), (false, oneEvent)] (by decide))]
  obtain ⟨s, t, run, hstep, queue, three, absent, idle⟩ : ∃ s t, Reaches step Always init s ∧
      s.step (.finish 0 fun _ => true) = some t ∧
      s.queue = [⟨1, some (true, .softDelete ⟨1, 1, false, false⟩)⟩] ∧ t.queue.length = 3 ∧
      (s.positions true).isSome = false ∧ s.inflight.length = 0 :=
    exists_step_of_exec before (by decide +kernel)
  refine ⟨s, t, run, hstep, queue, three, fun includes => ?_⟩
  obtain ⟨base, entry⟩ := includes true
  rw [length_eq_zero_iff.mp idle, queue, nil_append, ofKey_own] at entry
  rw [entry] at absent
  cases absent

end Celeriant
