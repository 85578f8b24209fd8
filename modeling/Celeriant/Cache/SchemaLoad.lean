import Celeriant.Lib.Transition
import Mathlib.Data.List.Basic

/-!
# Schema loads

The registrations of one schema key and the two caches that answer for it: `schema_cache` holds what
a registration compiles to, `no_schema_cache` that a scan found none. `ensure_schema_cached` scans
up to the read cursor, then fetches the datablock of what it found; a registration, a commit or a
rollback may come between. Where the registrations of a batch stand among its other metablocks does
not matter to a bound, which is a cursor and lies at the end of a batch.

## Main results

* `SchemaPath.Inv.step`: the caches exclude each other, and what a load fetches is durable
* `SchemaPath.finishScan_absent`, `SchemaPath.finishFetch_newest`: what a fresh load leaves
-/

namespace Celeriant

open List

/-- A schema with the number of its metablock. -/
structure SchemaRegistration (σ : Type) where
  walSeq : ℕ
  schema : σ
  deriving DecidableEq, Repr

/-- A schema, or why it does not compile. -/
inductive CachedSchema (ν : Type)
  | validated (validator : ν)
  | compilationFailed (error : String)
  deriving DecidableEq, Repr

/-- Where a suspended load stands. -/
inductive SchemaStage (σ : Type)
  | waiting
  | scanning (bound : ℕ)
  | fetching (found : SchemaRegistration σ)
  | loaded

/-- A load for a write, or for the registration of a schema. -/
structure SchemaTask (σ : Type) where
  registers : Option σ
  stage : SchemaStage σ

/-- Registrations whose commit is deferred, with the write cursor they ended at. -/
structure DeferredSchemas (σ : Type) where
  schemas : List σ
  tip : ℕ

/-- The registrations of one schema and its cache. -/
structure SchemaPath (σ ν : Type) where
  wal : List (SchemaRegistration σ)
  tip : ℕ
  readCursor : ℕ
  deferred : List (DeferredSchemas σ)
  queue : List σ
  /-- `pending_schema_registrations` has the key -/
  pending : Bool
  fsync : Option (List σ)
  schemaCache : Option (CachedSchema ν)
  noSchema : Bool
  tasks : List (SchemaTask σ)

/-- A load or registration goes on, or a cycle moves. -/
inductive SchemaAction (σ : Type)
  /-- `ensure_schema_cached` for a write or a registration -/
  | start (registers : Option σ)
  | beginScan (i : ℕ)
  | finishScan (i : ℕ)
  | finishFetch (i : ℕ)
  /-- the rest of `register_schema`, or of a write -/
  | enter (i : ℕ)
  | abandon (i : ℕ)
  /-- a replicated registration is queued -/
  | replicated (schema : σ)
  | evictSchema
  | evictAbsence
  | capture
  | syncSucceeded (fullCommit : Bool) (rest : ℕ)
  | syncFailed
  | fsyncAbandoned
  /-- `commit_pcd`; only a follower's batch carries the codec to compile its registrations -/
  | commitPcd (schemaCodec : Bool)

namespace SchemaPath

variable {σ ν : Type} (compile : σ → Except String ν)

def init : SchemaPath σ ν := ⟨[], 0, 0, [], [], false, none, none, false, []⟩

/-- `compile_and_cache_schema`. -/
def compiled (schema : σ) : CachedSchema ν :=
  match compile schema with
  | .ok validator => .validated validator
  | .error e => .compilationFailed e

section Caches

variable (s : SchemaPath σ ν)

/-- `schema_cache_insert`: the opposite entry goes. -/
def schemaCacheInsert (cached : CachedSchema ν) : SchemaPath σ ν :=
  { s with schemaCache := some cached, noSchema := false }

/-- `no_schema_cache_insert`: an absence yields to a schema. -/
def noSchemaCacheInsert : SchemaPath σ ν :=
  if s.schemaCache.isSome then s else { s with noSchema := true }

/-- `schema_cache_contains`. -/
def schemaCacheContains : Bool := s.schemaCache.isSome || s.noSchema

/-- The newest registration at or below a bound. -/
def newestUpTo (bound : ℕ) : Option (SchemaRegistration σ) :=
  (s.wal.filter (·.walSeq ≤ bound)).getLast?

def moveTask (i : ℕ) (task : SchemaTask σ) : SchemaPath σ ν :=
  { s with tasks := s.tasks.set i task }

def dropTask (i : ℕ) : SchemaPath σ ν := { s with tasks := s.tasks.eraseIdx i }

/-- `register_schema` after its load: refused while a schema is cached or pending. -/
def registerSchema (schema : σ) : SchemaPath σ ν :=
  if s.schemaCache.isSome || s.pending then s
  else
    match compile schema with
    | .ok validator =>
      { s.schemaCacheInsert (.validated validator) with
        pending := true
        queue := s.queue ++ [schema] }
    | .error _ => s

/-- The registrations of a batch with the sequence numbers they get. -/
def stampSchemas : ℕ → List σ → List (SchemaRegistration σ)
  | _, [] => []
  | n, schema :: schemas => ⟨n + 1, schema⟩ :: stampSchemas (n + 1) schemas

def cacheAll (schemas : List σ) : SchemaPath σ ν :=
  schemas.foldl (fun s schema => s.schemaCacheInsert (compiled compile schema)) s

/-- The part of `commit_sync` about the key: a full commit compiles the registrations. -/
def commitSync (fullCommit : Bool) (schemas : List σ) (tip : ℕ) : SchemaPath σ ν :=
  let synced : SchemaPath σ ν :=
    { s with
      wal := s.wal ++ stampSchemas s.tip schemas
      tip
      readCursor := if fullCommit then tip else s.readCursor
      deferred := if fullCommit then s.deferred else s.deferred ++ [⟨schemas, tip⟩]
      fsync := none }
  if fullCommit then synced.cacheAll compile schemas else synced

/-- `execute_fsync_rollback`. -/
def rollback : SchemaPath σ ν :=
  { s with pending := false, schemaCache := none, noSchema := false, queue := [], fsync := none }

end Caches

/-- One load or registration goes on. -/
def step (s : SchemaPath σ ν) : SchemaAction σ → Option (SchemaPath σ ν)
  | .start registers =>
    if (registers.map fun schema => (compile schema).isOk) = some false then some s
    else
      let stage := if s.schemaCacheContains then .loaded else .waiting
      some { s with tasks := s.tasks ++ [⟨registers, stage⟩] }
  | .beginScan i =>
    match s.tasks[i]? with
    | some ⟨registers, .waiting⟩ =>
      if s.schemaCacheContains then some (s.moveTask i ⟨registers, .loaded⟩)
      else some (s.moveTask i ⟨registers, .scanning s.readCursor⟩)
    | _ => none
  | .finishScan i =>
    match s.tasks[i]? with
    | some ⟨registers, .scanning bound⟩ =>
      match s.newestUpTo bound with
      | some found => some (s.moveTask i ⟨registers, .fetching found⟩)
      | none => some ((s.moveTask i ⟨registers, .loaded⟩).noSchemaCacheInsert)
    | _ => none
  | .finishFetch i =>
    match s.tasks[i]? with
    | some ⟨registers, .fetching found⟩ =>
      some ((s.moveTask i ⟨registers, .loaded⟩).schemaCacheInsert (compiled compile found.schema))
    | _ => none
  | .enter i =>
    match s.tasks[i]? with
    | some ⟨some schema, .loaded⟩ => some ((s.dropTask i).registerSchema compile schema)
    | some ⟨none, .loaded⟩ => some (s.dropTask i)
    | _ => none
  | .abandon i => if i < s.tasks.length then some (s.dropTask i) else none
  | .replicated schema => some { s with queue := s.queue ++ [schema] }
  | .evictSchema => some { s with schemaCache := none }
  | .evictAbsence => some { s with noSchema := false }
  | .capture =>
    match s.fsync with
    | some _ => none
    | none => some { s with fsync := some s.queue, queue := [], pending := false }
  | .syncSucceeded fullCommit rest =>
    match s.fsync with
    | some schemas => some (s.commitSync compile fullCommit schemas (s.tip + schemas.length + rest))
    | none => none
  | .syncFailed => if s.fsync.isSome then some s.rollback else none
  | .fsyncAbandoned => if s.fsync.isSome then some { s with fsync := none } else none
  | .commitPcd schemaCodec =>
    match s.deferred with
    | batch :: rest =>
      let committed : SchemaPath σ ν := { s with deferred := rest, readCursor := batch.tip }
      some (if schemaCodec then committed.cacheAll compile batch.schemas else committed)
    | [] => none

/-! ## The invariant -/

/-- What is queued or in flight. -/
def unsynced (s : SchemaPath σ ν) : List σ := s.fsync.getD [] ++ s.queue

structure Inv (s : SchemaPath σ ν) : Prop where
  exclusive : s.schemaCache.isSome = true → s.noSchema = false
  sorted : s.wal.Pairwise fun a b => a.walSeq < b.walSeq
  below : ∀ r ∈ s.wal, r.walSeq ≤ s.tip
  fetched : ∀ task ∈ s.tasks, ∀ r, task.stage = .fetching r → r ∈ s.wal

theorem cacheAll_fields (s : SchemaPath σ ν) (schemas : List σ) :
    (s.cacheAll compile schemas).wal = s.wal ∧ (s.cacheAll compile schemas).tip = s.tip ∧
      (s.cacheAll compile schemas).tasks = s.tasks ∧
      ((s.schemaCache.isSome = true → s.noSchema = false) →
        (s.cacheAll compile schemas).schemaCache.isSome = true →
          (s.cacheAll compile schemas).noSchema = false) := by
  induction schemas generalizing s with
  | nil => exact ⟨rfl, rfl, rfl, id⟩
  | cons schema schemas ih =>
    obtain ⟨wal, tip, tasks, exclusive⟩ := ih (s.schemaCacheInsert (compiled compile schema))
    exact ⟨wal, tip, tasks, fun _ => exclusive fun _ => rfl⟩

theorem stampSchemas_ordered (n : ℕ) (schemas : List σ) :
    (stampSchemas n schemas).Pairwise (fun a b => a.walSeq < b.walSeq) ∧
      ∀ r ∈ stampSchemas n schemas, n < r.walSeq ∧ r.walSeq ≤ n + schemas.length := by
  induction schemas generalizing n with
  | nil => exact ⟨.nil, fun r mem => absurd mem not_mem_nil⟩
  | cons schema schemas ih =>
    obtain ⟨sorted, bounds⟩ := ih (n + 1)
    rw [length_cons]
    refine ⟨.cons (fun r mem => (bounds r mem).1) sorted, ?_⟩
    rintro r (_ | ⟨_, mem⟩)
    · exact ⟨Nat.lt_succ_self n, by simp only; omega⟩
    · have := bounds r mem
      omega

namespace Inv

variable {compile} {s t : SchemaPath σ ν} (h : s.Inv)
include h

theorem of_wal (wal : t.wal = s.wal) (tip : t.tip = s.tip)
    (exclusive : t.schemaCache.isSome = true → t.noSchema = false)
    (fetched : ∀ task ∈ t.tasks, task ∈ s.tasks ∨ ∀ r, task.stage = .fetching r → r ∈ s.wal) :
    t.Inv := by
  refine ⟨exclusive, wal ▸ h.sorted, wal ▸ tip ▸ h.below, fun task mem r stage => ?_⟩
  rw [wal]
  rcases fetched task mem with old | new
  · exact h.fetched task old r stage
  · exact new r stage

theorem moveTask (i : ℕ) {task}
    (fetched : ∀ r, task.stage = .fetching r → r ∈ s.wal) : (s.moveTask i task).Inv := by
  refine h.of_wal rfl rfl h.exclusive fun task' mem => ?_
  rcases mem_or_eq_of_mem_set mem with old | rfl
  · exact .inl old
  · exact .inr fetched

theorem dropTask (i : ℕ) : (s.dropTask i).Inv :=
  h.of_wal rfl rfl h.exclusive fun _ mem => .inl (mem_of_mem_eraseIdx mem)

theorem schemaCacheInsert (cached : CachedSchema ν) : (s.schemaCacheInsert cached).Inv :=
  h.of_wal rfl rfl (fun _ => rfl) fun _ mem => .inl mem

theorem noSchemaCacheInsert : s.noSchemaCacheInsert.Inv := by
  unfold SchemaPath.noSchemaCacheInsert
  by_cases cached : s.schemaCache.isSome = true
  · rw [if_pos cached]
    exact h
  · rw [if_neg cached]
    exact h.of_wal rfl rfl (fun present => absurd present cached) fun _ mem => .inl mem

theorem cacheAll (schemas : List σ) : (s.cacheAll compile schemas).Inv := by
  obtain ⟨wal, tip, tasks, exclusive⟩ := s.cacheAll_fields compile schemas
  exact h.of_wal wal tip (exclusive h.exclusive) fun _ mem => .inl (tasks ▸ mem)

theorem registerSchema (schema : σ) : (s.registerSchema compile schema).Inv := by
  unfold SchemaPath.registerSchema
  split
  next => exact h
  next =>
    split
    next => exact h.of_wal rfl rfl (fun _ => rfl) fun _ mem => .inl mem
    next => exact h

theorem commitSync (fullCommit : Bool) (schemas : List σ) (rest : ℕ) :
    (s.commitSync compile fullCommit schemas (s.tip + schemas.length + rest)).Inv := by
  obtain ⟨sorted, bounds⟩ := stampSchemas_ordered s.tip schemas
  have synced (readCursor : ℕ) (deferred : List (DeferredSchemas σ)) :
      Inv { s with
        wal := s.wal ++ stampSchemas s.tip schemas
        tip := s.tip + schemas.length + rest
        readCursor
        deferred
        fsync := none } := by
    refine ⟨h.exclusive, ?_, ?_, fun task mem r stage => ?_⟩
    · refine pairwise_append.mpr ⟨h.sorted, sorted, fun a old b new => ?_⟩
      exact Nat.lt_of_le_of_lt (h.below a old) (bounds b new).1
    · intro r mem
      show r.walSeq ≤ s.tip + schemas.length + rest
      rcases mem_append.mp mem with old | new
      · have := h.below r old
        omega
      · have := (bounds r new).2
        omega
    · exact mem_append_left _ (h.fetched task mem r stage)
  unfold SchemaPath.commitSync
  split
  next => exact (synced _ _).cacheAll schemas
  next => exact synced _ _

theorem step {a} (hstep : s.step compile a = some t) : t.Inv := by
  cases a
  all_goals simp only [SchemaPath.step] at hstep
  case start registers =>
    split at hstep
    next => cases hstep; exact h
    next =>
      cases hstep
      refine h.of_wal rfl rfl h.exclusive fun task mem => ?_
      rcases mem_append.mp mem with old | new
      · exact .inl old
      · refine .inr fun r stage => ?_
        rw [mem_singleton.mp new] at stage
        cases contains : s.schemaCacheContains <;> simp [contains] at stage
  case beginScan i =>
    split at hstep
    next registers task =>
      split at hstep
      next => cases hstep; exact h.moveTask i fun r stage => by cases stage
      next => cases hstep; exact h.moveTask i fun r stage => by cases stage
    next => cases hstep
  case finishScan i =>
    split at hstep
    next registers bound task =>
      split at hstep
      next found newest =>
        cases hstep
        refine h.moveTask i ?_
        rintro r ⟨⟩
        exact (mem_filter.mp (mem_of_getLast? newest)).1
      next => cases hstep; exact (h.moveTask i fun r stage => by cases stage).noSchemaCacheInsert
    next => cases hstep
  case finishFetch i =>
    split at hstep
    next => cases hstep; exact (h.moveTask i fun r stage => by cases stage).schemaCacheInsert _
    next => cases hstep
  case enter i =>
    split at hstep
    next => cases hstep; exact (h.dropTask i).registerSchema _
    next => cases hstep; exact h.dropTask i
    next => cases hstep
  case abandon i =>
    split at hstep
    next => cases hstep; exact h.dropTask i
    next => cases hstep
  case replicated schema => cases hstep; exact h.of_wal rfl rfl h.exclusive fun _ mem => .inl mem
  case evictSchema =>
    cases hstep
    exact h.of_wal rfl rfl (fun present => absurd present (by simp)) fun _ mem => .inl mem
  case evictAbsence => cases hstep; exact h.of_wal rfl rfl (fun _ => rfl) fun _ mem => .inl mem
  case capture =>
    split at hstep
    next => cases hstep
    next => cases hstep; exact h.of_wal rfl rfl h.exclusive fun _ mem => .inl mem
  case syncSucceeded fullCommit rest =>
    split at hstep
    next schemas writing => cases hstep; exact h.commitSync fullCommit schemas rest
    next => cases hstep
  case syncFailed =>
    split at hstep
    next => cases hstep; exact h.of_wal rfl rfl (fun _ => rfl) fun _ mem => .inl mem
    next => cases hstep
  case fsyncAbandoned =>
    split at hstep
    next => cases hstep; exact h.of_wal rfl rfl h.exclusive fun _ mem => .inl mem
    next => cases hstep
  case commitPcd schemaCodec =>
    split at hstep
    next batch rest deferred =>
      have committed : Inv { s with deferred := rest, readCursor := batch.tip } :=
        h.of_wal rfl rfl h.exclusive fun _ mem => .inl mem
      cases hstep
      split
      next => exact committed.cacheAll batch.schemas
      next => exact committed
    next => cases hstep

end Inv

theorem Inv.init : (init : SchemaPath σ ν).Inv where
  exclusive present := absurd present (by simp [SchemaPath.init])
  sorted := .nil
  below _ mem := absurd mem not_mem_nil
  fetched _ mem := absurd mem not_mem_nil

/-! ## Fresh loads -/

/-- The bound of a suspended scan. -/
def scanAt (s : SchemaPath σ ν) (i : ℕ) : Option ℕ :=
  match s.tasks[i]? with
  | some ⟨_, .scanning bound⟩ => some bound
  | _ => none

/-- The registration that a load fetches. -/
def fetchAt (s : SchemaPath σ ν) (i : ℕ) : Option (SchemaRegistration σ) :=
  match s.tasks[i]? with
  | some ⟨_, .fetching found⟩ => some found
  | _ => none

/-- A scan that found nothing ends while a schema is cached or with every durable registration below
its bound; a fetch ends with nothing newer than what it fetched, durable or on its way. -/
def Fresh (s : SchemaPath σ ν) : SchemaAction σ → Prop
  | .finishScan i =>
    ∀ bound ∈ s.scanAt i, (s.newestUpTo bound).isNone = true →
      s.schemaCache.isSome = true ∨ ∀ r ∈ s.wal, r.walSeq ≤ bound
  | .finishFetch i =>
    ∀ found ∈ s.fetchAt i, (∀ r ∈ s.wal, r.walSeq ≤ found.walSeq) ∧ s.unsynced.isEmpty = true
  | _ => True

instance : DecidableRel (Fresh : SchemaPath σ ν → SchemaAction σ → Prop) := fun s a => by
  induction a using SchemaAction.casesOn <;> dsimp only [Fresh] <;> infer_instance

variable {compile} {s t : SchemaPath σ ν}

/-- A fresh scan that finds nothing leaves the schema that is cached, or records an absence, and
then no registration is durable. -/
theorem finishScan_absent (h : s.Inv) {i bound} (scan : s.scanAt i = some bound)
    (absent : s.newestUpTo bound = none) (fresh : s.Fresh (.finishScan i))
    (hstep : s.step compile (.finishScan i) = some t) :
    t.schemaCache = s.schemaCache ∧
      (s.schemaCache.isSome = true ∧ t.noSchema = false ∨
        s.schemaCache = none ∧ t.noSchema = true ∧ s.wal = []) := by
  have fresh := fresh bound scan (by rw [absent]; rfl)
  unfold scanAt at scan
  split at scan
  next registers _ task =>
    cases scan
    simp only [step, task, absent, Option.some.injEq] at hstep
    subst hstep
    unfold noSchemaCacheInsert
    by_cases cached : s.schemaCache.isSome = true
    · have cached' : (s.moveTask i ⟨registers, .loaded⟩).schemaCache.isSome = true := cached
      rw [if_pos cached']
      exact ⟨rfl, .inl ⟨cached, h.exclusive cached⟩⟩
    · have cached' : ¬ (s.moveTask i ⟨registers, .loaded⟩).schemaCache.isSome = true := cached
      rw [if_neg cached']
      refine ⟨rfl, .inr ⟨by simpa using cached, rfl, ?_⟩⟩
      have seen := fresh.resolve_left cached
      have none := List.getLast?_eq_none_iff.mp absent
      rwa [filter_eq_self.mpr fun r mem => decide_eq_true (seen r mem)] at none
  next => cases scan

/-- A fresh fetch caches the newest registration. -/
theorem finishFetch_newest (h : s.Inv) {i found}
    (fetch : s.fetchAt i = some found) (fresh : s.Fresh (.finishFetch i))
    (hstep : s.step compile (.finishFetch i) = some t) :
    t.schemaCache = some (compiled compile found.schema) ∧ t.noSchema = false ∧
      s.wal.getLast? = some found := by
  have fresh := (fresh found fetch).1
  unfold fetchAt at fetch
  split at fetch
  next registers _ task =>
    cases fetch
    simp only [step, task, Option.some.injEq] at hstep
    subst hstep
    refine ⟨rfl, rfl, ?_⟩
    have durable : found ∈ s.wal := h.fetched _ (mem_of_getElem? task) found rfl
    obtain ⟨older, newest, wal⟩ :=
      (eq_nil_or_concat' s.wal).resolve_left (ne_nil_of_mem durable)
    have sorted := h.sorted
    have upper := fresh newest (by rw [wal]; simp)
    rw [wal] at durable sorted ⊢
    rw [List.getLast?_concat]
    rcases mem_append.mp durable with old | new
    · have := (pairwise_append.mp sorted).2.2 found old newest (mem_singleton_self _)
      omega
    · rw [mem_singleton.mp new]
  next => cases fetch

end SchemaPath

end Celeriant
