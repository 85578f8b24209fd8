import Celeriant.Distributed.NodeStatus
import Mathlib.Data.List.Basic

/-!
# The S3 lease and the election call

`lease.json` names the leader, its epoch and an expiry. `run_election_to_acquire_s3_lease` reads
it and creates, renews, promotes over or follows it. The call suspends at every store request,
and any number of other calls may run between a request and the reply, so it is modelled as the
list of its suspension points: `ElectionPoint` holds the request a call waits on with the locals
that live across the wait, and `ElectionPoint.resume` is the code from that reply to the next
wait. The clock is read again at every resumption.

## Main definitions

* `Lease.newInitial`, `Lease.promote`, `Lease.renew`, `Lease.isExpired`
* `ElectionPoint.start`, `ElectionPoint.resume`: `run_election_to_acquire_s3_lease`
* `becomeLeader`, `becomeFollower`: the outcomes
-/

namespace Celeriant

/-- A node id (`u128`). -/
abbrev NodeId := ℕ

/-- An object tag of the store; it is only ever compared for equality. -/
abbrev ETag := ℕ

/-- The lease stored at `cluster/lease.json`. -/
structure Lease where
  leaderNodeId : NodeId
  leaseEpoch : ℕ
  acquiredAtMs : ℕ
  expiresAtMs : ℕ
  deriving DecidableEq, Repr

namespace Lease

def newInitial (leaderNodeId : NodeId) (nowMillis durationMillis : ℕ) : Lease :=
  ⟨leaderNodeId, 1, nowMillis, nowMillis + durationMillis⟩

def promote (l : Lease) (newLeaderNodeId : NodeId) (nowMillis durationMillis : ℕ) : Lease :=
  ⟨newLeaderNodeId, l.leaseEpoch + 1, nowMillis, nowMillis + durationMillis⟩

def renew (l : Lease) (nowMillis durationMillis : ℕ) : Lease :=
  ⟨l.leaderNodeId, l.leaseEpoch, nowMillis, nowMillis + durationMillis⟩

def isExpired (l : Lease) (nowMillis : ℕ) : Bool := decide (nowMillis ≥ l.expiresAtMs)

end Lease

/-- One node's entry of `cluster/membership.json`. -/
structure NodeInfo where
  nodeId : NodeId
  clientAddress : String
  replicationAddress : String
  deriving DecidableEq, Repr

/-- Cluster membership: two slots. -/
structure Membership where
  first : Option NodeInfo
  second : Option NodeInfo
  deriving DecidableEq, Repr

/-- The node that is not the given one. -/
def Membership.peerOf (m : Membership) (nodeId : NodeId) : Option NodeInfo :=
  ([m.first, m.second].filterMap id).find? fun n => n.nodeId != nodeId

/-- Who a node is and how long its leases last. -/
structure S3LeaseConfig where
  nodeId : NodeId
  s3LeaseDuration : ℕ
  maxClockDrift : ℕ
  deriving DecidableEq, Repr

/-- The errors of the lease store. -/
inductive LeaseStoreError
  | alreadyExists
  | preconditionFailed
  | unavailable (message : String)
  deriving DecidableEq, Repr

/-- A lease as the store returned it. -/
structure LeaseWithEtag where
  lease : Lease
  etag : ETag
  deriving DecidableEq, Repr

/-- What an election returns. -/
structure ElectionOutcome where
  status : ValidatedNodeStatus
  peerInfo : Option NodeInfo
  /-- The lease already named this node. -/
  reacquiredOwnLease : Bool
  /-- This call wrote `lease.json` and the store accepted it. -/
  casWritten : Bool
  deriving DecidableEq, Repr

/-- What the store answers to a request of the election. -/
inductive StoreReply
  | lease (result : Except LeaseStoreError (Option LeaseWithEtag))
  | put (result : Except LeaseStoreError ETag)
  | membership (result : Except LeaseStoreError (Option Membership))

/-- Where a call of `run_election_to_acquire_s3_lease` waits, with its live locals. -/
inductive ElectionPoint
  | getLease (now : ℕ)
  | putLeaseCreateOnly (lease : Lease)
  | getLeaseAfterAlreadyExists
  | putLeaseConditional (next : Lease) (etag : ETag) (isOwnLease : Bool)
  | getLeaseAfterPreconditionFailed
  | discoverPeer (status : NodeStatus) (leaseExpiresAtMs : ℕ) (reacquiredOwnLease casWritten : Bool)
  | done (result : Except LeaseStoreError ElectionOutcome)

/-- `become_follower` up to its wait for the membership. -/
def becomeFollower (lease : Lease) : ElectionPoint :=
  .discoverPeer (.follower lease.leaseEpoch) lease.expiresAtMs false false

/-- `become_leader` up to its wait for the membership. -/
def becomeLeader (lease : Lease) (reacquiredOwnLease casWritten : Bool) : ElectionPoint :=
  .discoverPeer (.leader lease.leaseEpoch) lease.expiresAtMs reacquiredOwnLease casWritten

namespace ElectionPoint

/-- The entry of the call: the clock is read before the lease is. -/
def start (now : ℕ) : ElectionPoint := .getLease now

/-- The first decision: create, follow, or race a conditional write. -/
def onLease (cfg : S3LeaseConfig) (now clock : ℕ) : Option LeaseWithEtag → ElectionPoint
  | none => .putLeaseCreateOnly (Lease.newInitial cfg.nodeId clock cfg.s3LeaseDuration)
  | some lwe =>
    if !lwe.lease.isExpired now && lwe.lease.leaderNodeId != cfg.nodeId then
      becomeFollower lwe.lease
    else
      let isOwnLease := lwe.lease.leaderNodeId == cfg.nodeId
      let next :=
        if isOwnLease then lwe.lease.renew clock cfg.s3LeaseDuration
        else lwe.lease.promote cfg.nodeId clock cfg.s3LeaseDuration
      .putLeaseConditional next lwe.etag isOwnLease

/-- The decision after a lost conditional write, on the lease read again. -/
def onReread (cfg : S3LeaseConfig) (clock : ℕ) : Option LeaseWithEtag → ElectionPoint
  | none => .done (.error (.unavailable "lease disappeared after PreconditionFailed"))
  | some newLwe =>
    let stillOurs := newLwe.lease.leaderNodeId == cfg.nodeId
    let expired := newLwe.lease.isExpired clock
    if stillOurs && !expired then becomeLeader newLwe.lease true false
    else becomeFollower newLwe.lease

/-- The code from a reply to the next wait; `clock` is the reading of the clock there. -/
def resume (cfg : S3LeaseConfig) (clock : ℕ) : ElectionPoint → StoreReply → ElectionPoint
  | .getLease _, .lease (.error e) => .done (.error e)
  | .getLease now, .lease (.ok found) => onLease cfg now clock found
  | .putLeaseCreateOnly lease, .put (.ok _) => becomeLeader lease false true
  | .putLeaseCreateOnly _, .put (.error .alreadyExists) => .getLeaseAfterAlreadyExists
  | .putLeaseCreateOnly _, .put (.error e) => .done (.error e)
  | .getLeaseAfterAlreadyExists, .lease (.error e) => .done (.error e)
  | .getLeaseAfterAlreadyExists, .lease (.ok none) =>
    .done (.error (.unavailable "lease disappeared after AlreadyExists"))
  | .getLeaseAfterAlreadyExists, .lease (.ok (some lwe)) => becomeFollower lwe.lease
  | .putLeaseConditional next _ isOwnLease, .put (.ok _) => becomeLeader next isOwnLease true
  | .putLeaseConditional _ _ _, .put (.error .preconditionFailed) =>
    .getLeaseAfterPreconditionFailed
  | .putLeaseConditional _ _ _, .put (.error e) => .done (.error e)
  | .getLeaseAfterPreconditionFailed, .lease (.error e) => .done (.error e)
  | .getLeaseAfterPreconditionFailed, .lease (.ok found) => onReread cfg clock found
  | .discoverPeer status expires reacquired written, .membership result =>
    .done (.ok
      { status := .createCustomStatus status cfg.maxClockDrift expires
        peerInfo := match result with
          | .ok (some m) => m.peerOf cfg.nodeId
          | _ => none
        reacquiredOwnLease := reacquired
        casWritten := written })
  -- the storage layer turns a reply of another kind than the request asked for into an error
  | _, _ => .done (.error (.unavailable "Unexpected response type"))

end ElectionPoint

end Celeriant
