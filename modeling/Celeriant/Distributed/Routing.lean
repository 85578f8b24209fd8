import Celeriant.Listing.SegmentSummary

/-!
# Routing of client requests

A request goes to one shard. Reads, trims and details take the routing id from their key, writes and
deletes from each of their keys, and a watch from its filter for the server's routing rule; each has
its own function. They agree on a key, except that a watch may name its shard itself.

## Main results

* `requests_on_key_routed_alike`
* `watch_names_other_shard`
-/

namespace Celeriant.Routing

open Listing

/-- Which part of a key decides its shard. -/
inductive RoutingRule
  | orgId
  | aggregateTypeId
  | aggregateId
  deriving DecidableEq, Repr

def RoutingRule.routingIdForRule (rule : RoutingRule) (key : AggregateKey) : ℕ :=
  match rule with
  | orgId => key.orgId
  | aggregateTypeId => key.aggregateTypeId
  | aggregateId => key.aggregateId

/-- The shards, the rule, and whether shard 0 is reserved. -/
structure ShardConfig where
  numShards : ℕ
  positive : 0 < numShards
  routingRule : RoutingRule
  reserveCoordinatorShard : Bool

/-- Why a request is not routed. -/
inductive ShardRoutingError
  | noRoutingKeyProvided
  | multipleShardRoutes (numShards : ℕ)
  | incompatibleFilters (detail : String) (numShards : ℕ)
  deriving DecidableEq, Repr

/-- The fields that routing reads; a set is the list of its elements in the order of iteration. -/
structure WatchRequest where
  shardId : Option ℕ
  orgs : Option (List ℕ)
  aggregateTypes : Option (List ℕ)
  aggregates : Option (List ℕ)

/-- The requests by what they name. -/
inductive ClientRequest
  | aggregateDetails (key : AggregateKey)
  | read (key : AggregateKey)
  | trimStart (key : AggregateKey)
  | write (keys : List AggregateKey)
  | delete (keys : List AggregateKey)
  | watch (req : WatchRequest)
  | listOrgs (shardId : ℕ)
  | listAggregateTypes (shardId : ℕ)
  | listAggregates (shardId : ℕ)
  | registerSchema

namespace ClientRequest

def field (of : AggregateKey → ℕ) : ClientRequest → ℕ
  | aggregateDetails key => of key
  | read key => of key
  | trimStart key => of key
  | _ => 0

def aggregateId : ClientRequest → ℕ := field (·.aggregateId)

def orgId : ClientRequest → ℕ := field (·.orgId)

def aggregateTypeId : ClientRequest → ℕ := field (·.aggregateTypeId)

end ClientRequest

/-- The filter of a watch that the rule routes by, with the text for a missing one. -/
def RoutingRule.filter (rule : RoutingRule) (req : WatchRequest) : Option (List ℕ) × String :=
  match rule with
  | orgId => (req.orgs,
      "Must specify at least one organisation. Server is setup to shard by organisation.")
  | aggregateTypeId => (req.aggregateTypes,
      "Must specify at least one aggregate type. Server is setup to shard by aggregate type.")
  | aggregateId => (req.aggregates,
      "Must specify at least one aggregate. Server is setup to shard by aggregate.")

def RoutingRule.routingIdForClientRequest (rule : RoutingRule) (request : ClientRequest) : ℕ :=
  match rule with
  | orgId => request.orgId
  | aggregateTypeId => request.aggregateTypeId
  | aggregateId => request.aggregateId

/-- Shard 0 is left out when reserved. -/
def dataShardForRoutingId (routingId numShards : ℕ) (reserveCoordinatorShard : Bool) : ℕ :=
  if numShards ≤ 1 then 0
  else if reserveCoordinatorShard then routingId % (numShards - 1) + 1
  else routingId % numShards

namespace ShardConfig

variable (config : ShardConfig)

def dataShard (routingId : ℕ) : ℕ :=
  dataShardForRoutingId routingId config.numShards config.reserveCoordinatorShard

def validateShardId (shardId : ℕ) : Except ShardRoutingError ℕ :=
  if config.numShards ≤ shardId then
    .error (.incompatibleFilters (s!"Invalid shard_id {shardId}. " ++
      s!"Must be less than {config.numShards} (total number of shards).") config.numShards)
  else .ok shardId

/-- The loop over the routing ids behind the first one. -/
def sameShard (first : ℕ) : List ℕ → Except ShardRoutingError ℕ
  | [] => .ok first
  | routingId :: rest =>
    if first ≠ config.dataShard routingId then .error (.multipleShardRoutes config.numShards)
    else sameShard first rest

def collectUniqueShardId : Option (List ℕ) → Except ShardRoutingError ℕ
  | none => .error .noRoutingKeyProvided
  | some [] => .error .noRoutingKeyProvided
  | some (routingId :: rest) => config.sameShard (config.dataShard routingId) rest

/-- The keys of a write or a delete, with the text for a request without any. -/
def determineShardKeys (empty : String) : List AggregateKey → Except ShardRoutingError ℕ
  | [] => .error (.incompatibleFilters empty config.numShards)
  | key :: keys =>
    config.sameShard (config.dataShard (config.routingRule.routingIdForRule key))
      (keys.map config.routingRule.routingIdForRule)

def determineShardWrite : List AggregateKey → Except ShardRoutingError ℕ :=
  config.determineShardKeys "Write request must contain at least one write operation."

def determineShardDelete : List AggregateKey → Except ShardRoutingError ℕ :=
  config.determineShardKeys "Delete request must contain at least one delete operation."

def determineShardWatch (req : WatchRequest) : Except ShardRoutingError ℕ :=
  match req.shardId with
  -- the filters are not looked at
  | some shardId => config.validateShardId shardId
  | none =>
    let (filter, missing) := config.routingRule.filter req
    if filter.getD [] = [] then .error (.incompatibleFilters missing config.numShards)
    else config.collectUniqueShardId filter

def determineClientShard : ClientRequest → Except ShardRoutingError ℕ
  | .registerSchema => .ok 0
  | .watch req => config.determineShardWatch req
  | .write keys => config.determineShardWrite keys
  | .delete keys => config.determineShardDelete keys
  | .listOrgs shardId => config.validateShardId shardId
  | .listAggregateTypes shardId => config.validateShardId shardId
  | .listAggregates shardId => config.validateShardId shardId
  -- details, reads and trims
  | other => .ok (config.dataShard (config.routingRule.routingIdForClientRequest other))

end ShardConfig

/-! ## Requests on a key -/

/-- The requests on one aggregate that do not name a shard. -/
inductive OnKey (rule : RoutingRule) (key : AggregateKey) : ClientRequest → Prop
  | aggregateDetails : OnKey rule key (.aggregateDetails key)
  | read : OnKey rule key (.read key)
  | trimStart : OnKey rule key (.trimStart key)
  | write : OnKey rule key (.write [key])
  | delete : OnKey rule key (.delete [key])
  | watch (req : WatchRequest) (unnamed : req.shardId = none)
      (filter : (rule.filter req).1 = some [rule.routingIdForRule key]) :
      OnKey rule key (.watch req)

variable {config : ShardConfig} {key : AggregateKey}

/-- The loop accepts ids of one shard. -/
theorem ShardConfig.of_sameShard {first shard : ℕ} {ids : List ℕ}
    (h : config.sameShard first ids = .ok shard) :
    first = shard ∧ ∀ id ∈ ids, config.dataShard id = shard := by
  induction ids with
  | nil =>
    cases h
    exact ⟨rfl, nofun⟩
  | cons id ids ih =>
    rw [sameShard] at h
    split at h
    · cases h
    next same =>
      obtain ⟨eq, rest⟩ := ih h
      exact ⟨eq, List.forall_mem_cons.mpr ⟨(not_not.mp same).symm.trans eq, rest⟩⟩

theorem ShardConfig.of_determineShardKeys {empty : String} {keys : List AggregateKey} {shard : ℕ}
    (h : config.determineShardKeys empty keys = .ok shard) :
    ∀ key ∈ keys, config.dataShard (config.routingRule.routingIdForRule key) = shard := by
  cases keys with
  | nil => exact nofun
  | cons key keys =>
    obtain ⟨first, rest⟩ := of_sameShard h
    exact List.forall_mem_cons.mpr ⟨first, fun k mem => rest _ (List.mem_map_of_mem mem)⟩

theorem ShardConfig.dataShard_lt (config : ShardConfig) (routingId : ℕ) :
    config.dataShard routingId < config.numShards ∧
      (config.reserveCoordinatorShard = true → 1 < config.numShards →
        config.dataShard routingId ≠ 0) := by
  have positive := config.positive
  unfold dataShard dataShardForRoutingId
  split
  · exact ⟨positive, fun _ more => by omega⟩
  · split
    · have := Nat.mod_lt routingId (y := config.numShards - 1) (by omega)
      exact ⟨by omega, fun _ _ => Nat.succ_ne_zero _⟩
    next unreserved => exact ⟨Nat.mod_lt _ positive, fun reserved => absurd reserved unreserved⟩

/-- Every request on a key goes to the shard of its routing id. -/
theorem OnKey.determineClientShard {request : ClientRequest}
    (on : OnKey config.routingRule key request) : config.determineClientShard request =
      .ok (config.dataShard (config.routingRule.routingIdForRule key)) := by
  -- each rule reads the same field of the key and of the request
  have fields (request : ClientRequest)
      (of : ∀ field : AggregateKey → ℕ, request.field field = field key) :
      config.routingRule.routingIdForClientRequest request =
        config.routingRule.routingIdForRule key := by
    cases config.routingRule <;> exact of _
  cases on with
  | aggregateDetails | read | trimStart =>
    refine congrArg (fun id => Except.ok (config.dataShard id)) (fields _ ?_)
    exact fun _ => rfl
  | write | delete => rfl
  | watch req unnamed filter =>
    simp only [ShardConfig.determineClientShard, ShardConfig.determineShardWatch, unnamed, filter]
    rfl

/-- **Routing is coherent.** The requests on a key that do not name a shard all go to one shard; it
is in range, and not the coordinator's when that is reserved and there are others. A write or a
delete is accepted for a shard only if the requests on every one of its keys go there. -/
theorem requests_on_key_routed_alike (config : ShardConfig) :
    (∀ key, ∃ shard < config.numShards,
      (config.reserveCoordinatorShard = true → 1 < config.numShards → shard ≠ 0) ∧
      ∀ request, OnKey config.routingRule key request →
        config.determineClientShard request = .ok shard) ∧
    ∀ keys shard, config.determineClientShard (.write keys) = .ok shard ∨
        config.determineClientShard (.delete keys) = .ok shard →
      ∀ key ∈ keys, ∀ request, OnKey config.routingRule key request →
        config.determineClientShard request = .ok shard := by
  refine ⟨fun key => ?_, fun keys shard accepted key mem request on => ?_⟩
  · obtain ⟨inRange, others⟩ := config.dataShard_lt (config.routingRule.routingIdForRule key)
    exact ⟨_, inRange, others, fun request on => on.determineClientShard⟩
  · have each := accepted.elim ShardConfig.of_determineShardKeys ShardConfig.of_determineShardKeys
    rw [on.determineClientShard, each key mem]

/-- A watch that names its shard goes there, whatever its filter, and a watch on an aggregate alone
goes nowhere when organisations are routed. -/
theorem watch_names_other_shard :
    let config : RoutingRule → ShardConfig := fun rule => ⟨2, by decide, rule, false⟩
    (config .aggregateId).determineClientShard (.read ⟨7, 7, 4⟩) = .ok 0 ∧
    (config .aggregateId).determineClientShard (.watch ⟨some 1, none, none, some [4]⟩) = .ok 1 ∧
    ∃ detail, (config .orgId).determineClientShard (.watch ⟨none, none, none, some [4]⟩) =
      .error (.incompatibleFilters detail 2) :=
  ⟨rfl, rfl, _, rfl⟩

end Celeriant.Routing
