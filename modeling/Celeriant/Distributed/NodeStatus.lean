import Mathlib.Data.Nat.Notation

/-!
# Node status and its time to live

`NodeStatus` is the role shard 0 last decided; `ValidatedNodeStatus` adds the expiry that keeps
the role alive. Nothing happens when the expiry passes: the *effective* status is a function of
the clock, and `Leader`, `Follower` and `Promoting` decay to `Fenced` by themselves,
`max_clock_drift_ms` before the expiry. The functions of `node_status_logic` decide how an
expiry grows and what a node does when it leaves an interim status.

The clock is an argument `now` of every function that reads `unix_epoch_now_ms`. Times are
milliseconds; `u64` and `u128` are natural numbers, and `saturating_sub` is subtraction on them.
-/

namespace Celeriant

/-- The role of a node (`node_status.rs`). -/
inductive NodeStatus
  | leader (leaseEpoch : ℕ)
  | follower (leaderLeaseEpoch : ℕ)
  /-- A kicked follower catching up from S3; it rejects TCP replication. -/
  | followerCatchingUp (leaderLeaseEpoch : ℕ)
  /-- Won the lease, running the promotion pipeline before the flip to `leader`. -/
  | promoting (leaseEpoch : ℕ)
  /-- Catchup at boot, before the first election. -/
  | bootCatchup
  | fenced
  | standalone
  deriving DecidableEq, Repr

namespace NodeStatus

def isLeader : NodeStatus → Bool
  | leader _ => true
  | _ => false

/-- Only normal followers take TCP replication. -/
def isFollower : NodeStatus → Bool
  | follower _ => true
  | _ => false

def isFenced : NodeStatus → Bool
  | fenced => true
  | _ => false

def isCatchingUp : NodeStatus → Bool
  | bootCatchup | followerCatchingUp _ => true
  | _ => false

def isAnyFollowerState : NodeStatus → Bool
  | follower _ | followerCatchingUp _ => true
  | _ => false

def isPromoting : NodeStatus → Bool
  | promoting _ => true
  | _ => false

def leaseEpoch : NodeStatus → Option ℕ
  | leader e | promoting e => some e
  | standalone => some 0
  | _ => none

theorem isLeader_iff {s : NodeStatus} : s.isLeader = true ↔ ∃ e, s = leader e := by
  cases s <;> simp [isLeader]

end NodeStatus

/-- A status with the expiry that keeps it alive (`validated_node_status.rs`). -/
structure ValidatedNodeStatus where
  status : NodeStatus
  leaseExpiresAtMs : ℕ
  maxClockDriftMs : ℕ
  leaderSinceMs : ℕ
  /-- Whether the node led when it entered the present interim status. -/
  heldLeadershipFlag : Bool
  deriving DecidableEq, Repr

namespace ValidatedNodeStatus

def raw (v : ValidatedNodeStatus) : NodeStatus := v.status

/-- The expiry has passed. -/
def isLeaseExpired (v : ValidatedNodeStatus) (now : ℕ) : Bool := decide (now > v.leaseExpiresAtMs)

/-- The expiry, less the drift, has passed. -/
def mustFence (v : ValidatedNodeStatus) (now : ℕ) : Bool :=
  decide (now > v.leaseExpiresAtMs - v.maxClockDriftMs)

def createFenced (heldLeadership : Bool) : ValidatedNodeStatus := ⟨.fenced, 0, 0, 0, heldLeadership⟩

/-- Leads, or carries the flag of having led. -/
def heldLeadership (v : ValidatedNodeStatus) : Bool := v.status.isLeader || v.heldLeadershipFlag

def createBootCatchup : ValidatedNodeStatus := ⟨.bootCatchup, 0, 0, 0, false⟩

def createCustomStatus (status : NodeStatus) (maxClockDriftMs leaseExpiresAtMs : ℕ) :
    ValidatedNodeStatus :=
  ⟨status, leaseExpiresAtMs, maxClockDriftMs, 0, false⟩

/-- The status that gates every operation: a role with a time to live is `fenced` once its
expiry is less than the permitted drift away. -/
def effectiveNodeStatus (v : ValidatedNodeStatus) (now : ℕ) : NodeStatus :=
  match v.status with
  | .standalone | .bootCatchup | .fenced | .followerCatchingUp _ => v.status
  | _ => if v.mustFence now then .fenced else v.status

def isLeader (v : ValidatedNodeStatus) (now : ℕ) : Bool := (v.effectiveNodeStatus now).isLeader

/-- The status cell after `set_node_status_and_metric`: `leader_since_ms` and the memory of held
leadership are carried over from the previous value. -/
def setNodeStatus (prev status : ValidatedNodeStatus) (now : ℕ) : ValidatedNodeStatus :=
  { status with
    leaderSinceMs := if status.isLeader now && !prev.isLeader now then now else prev.leaderSinceMs
    heldLeadershipFlag :=
      match status.raw with
      | .leader _ => true
      | .follower _ | .standalone => false
      | .fenced | .promoting _ | .followerCatchingUp _ | .bootCatchup =>
        status.heldLeadershipFlag || prev.heldLeadership }

/-- A node is effectively leader at `now` when its role is leader and the clock has not come
within the drift of the expiry. -/
theorem effectiveNodeStatus_eq_leader {v : ValidatedNodeStatus} {now e : ℕ} :
    v.effectiveNodeStatus now = .leader e ↔
      v.status = .leader e ∧ now ≤ v.leaseExpiresAtMs - v.maxClockDriftMs := by
  unfold effectiveNodeStatus
  cases v.status <;> simp [mustFence]
  all_goals split <;> simp_all

/-- A role either holds or has decayed. -/
theorem effectiveNodeStatus_cases (v : ValidatedNodeStatus) (now : ℕ) :
    v.effectiveNodeStatus now = v.raw ∨ v.effectiveNodeStatus now = .fenced := by
  unfold effectiveNodeStatus
  split
  case h_5 =>
    split
    · exact .inr rfl
    · exact .inl rfl
  all_goals exact .inl rfl

end ValidatedNodeStatus

/-! ## `node_status_logic` -/

/-- A heartbeat never shortens the time to live it extends. -/
def computeNewTtl (currentExpiryMs leaderTimestampMs heartbeatLeaseDurationMs : ℕ) : ℕ :=
  max currentExpiryMs (leaderTimestampMs + heartbeatLeaseDurationMs)

/-- What a node does when its catchup has finished. -/
inductive PostCatchupAction
  | bootWaitThenReevaluate (waitMs : ℕ)
  | stayFollower (leaderLeaseEpoch leaseExpiresAtMs : ℕ)
  | challengeViaCAS
  deriving DecidableEq, Repr

/-- What the loop does when a catchup is over. -/
def decidePostCatchupAction (currentStatus : NodeStatus)
    (leaseExpiresAtMs nowMs heartbeatLeaseDurationMs : ℕ) : PostCatchupAction :=
  if leaseExpiresAtMs > nowMs then
    .stayFollower
      (match currentStatus with
        | .followerCatchingUp e => e
        | _ => 0)
      leaseExpiresAtMs
  else if currentStatus = .bootCatchup ∧ leaseExpiresAtMs = 0 then
    .bootWaitThenReevaluate heartbeatLeaseDurationMs
  else .challengeViaCAS

end Celeriant
