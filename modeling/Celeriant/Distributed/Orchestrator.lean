import Celeriant.Distributed.CatchupAttempts
import Celeriant.Distributed.ElectionRuns
import Celeriant.Shard.Segments

/-!
# Shard 0's orchestration of a node

Shard 0 owns the node's status. Three kinds of task write it: the orchestrator loop
(`spawn_boot_orchestrator`, with `set_node_role_via_s3` and `run_s3_catchup` inside it), the
on-demand lease renewal, and the handlers of heartbeats and kicks. They run on one thread and
interleave at every `await`, so a step is the code between two waits: the loop is a program point
with the locals that live across the wait, and the other tasks are the call or the handler they wait
in.

What lies outside is an argument of an action: replies to heartbeats, completions of the shards, the
answer of the resume check, whether a reconciliation succeeded, and the heuristics of the leader arm
that depend on timers. Elections run in the `ElectionWorld` beside the node. A step reads the clock
once. The history of a node records what it sent, acknowledged and went through; nothing reads it.

## Main definitions

* `promotionCullFlags`, `promotionFlipGate`, `markCatchingUp`, `heartbeatAdoption`: the decisions
* `NodeState`, `OrchestratorPoint`: a node between two waits
* `NodeState.step`: one step of one task of the node
-/

namespace Celeriant

open Option

/-- The settings that the loop reads. -/
structure NodeConfig where
  nodeId : NodeId
  s3LeaseDurationMs : ℕ
  maxClockDriftMs : ℕ
  heartbeatLeaseDurationMs : ℕ
  numShards : ℕ
  deriving DecidableEq, Repr

/-- The lease manager gets the node's own id and drift. -/
def NodeConfig.s3Lease (cfg : NodeConfig) : S3LeaseConfig :=
  ⟨cfg.nodeId, cfg.s3LeaseDurationMs, cfg.maxClockDriftMs⟩

/-! ## Decisions -/

/-- How a demotion reconciles the tail. -/
def demotionMode (heldLeadership : Bool) : TailReconciliation :=
  if heldLeadership then .rewindToAckBarrier else .reconcileAsFollower

/-- The tail reconciliation, whether leadership changed hands, and whether a catchup is due. -/
def promotionCullFlags (becameLeader becameFollowerFromLeaderOrFenced reacquiredOwnLease
    leaseChangedHands nowFollowingPeer resumePromotion : Bool) :
    Option TailReconciliation × Bool × Bool :=
  let leaderChangedHands := becameLeader && (!reacquiredOwnLease || resumePromotion)
  let demotedToPeer := nowFollowingPeer && !reacquiredOwnLease
  let cullMode :=
    if leaderChangedHands then some .commitForPromotion
    else if becameFollowerFromLeaderOrFenced then some (demotionMode true)
    else if demotedToPeer then some (demotionMode false)
    else none
  (cullMode, leaderChangedHands, becameLeader || leaseChangedHands)

/-- Whether a promotion may end in Leader. -/
inductive PromotionFlipGate
  | proceed
  | lostRace
  | abort
  deriving DecidableEq, Repr

/-- A promotion flips only from its own epoch. -/
def promotionFlipGate (becameLeader : Bool) (observed : NodeStatus) (wonLeaseEpoch : ℕ) :
    PromotionFlipGate :=
  if !becameLeader then .proceed
  else if observed = .promoting wonLeaseEpoch then .proceed
  else if observed.isFollower then .lostRace
  else .abort

/-- The status `mark_catching_up` writes; a promotion stays put. -/
def markCatchingUp (status : NodeStatus) : Option ValidatedNodeStatus :=
  match status with
  | .promoting _ => none
  | .follower e | .followerCatchingUp e => some (.createCustomStatus (.followerCatchingUp e) 0 0)
  | _ => some (.createCustomStatus .bootCatchup 0 0)

/-- A promotion yields to a newer epoch. -/
def promotingHeartbeatAdoption (promotingLeaseEpoch reqLeaseEpoch : ℕ) : Option NodeStatus :=
  if reqLeaseEpoch > promotingLeaseEpoch then some (.follower reqLeaseEpoch) else none

def followerHeartbeatEpochAdoption (current : NodeStatus) (reqLeaseEpoch : ℕ) : NodeStatus :=
  match current with
  | .follower e => if reqLeaseEpoch > e then .follower reqLeaseEpoch else current
  | .followerCatchingUp e =>
    if reqLeaseEpoch > e then .followerCatchingUp reqLeaseEpoch else current
  | other => other

/-- The role in which a node accepts a heartbeat; `none` rejects it. -/
def heartbeatAdoption (current : ValidatedNodeStatus) (now reqLeaseEpoch : ℕ) : Option NodeStatus :=
  let effective := current.effectiveNodeStatus now
  if effective.isAnyFollowerState then
    some (followerHeartbeatEpochAdoption current.raw reqLeaseEpoch)
  else
    match current.raw with
    -- raw, not effective: a decayed promotion still refuses a deposed leader
    | .promoting e => promotingHeartbeatAdoption e reqLeaseEpoch
    | raw =>
      if effective.isFenced then some (.follower reqLeaseEpoch)
      else if effective.isLeader && reqLeaseEpoch > raw.leaseEpoch.getD 0 then
        some (.follower reqLeaseEpoch)
      else none

/-- The status a shard writes on `StaleLease`, if it is an outrun leader. -/
def staleLeaseFence (cfg : NodeConfig) (v : ValidatedNodeStatus) (followerLeaseEpoch : ℕ) :
    Option ValidatedNodeStatus :=
  if v.raw.isLeader && v.raw.leaseEpoch.getD 0 < followerLeaseEpoch then
    some (.createCustomStatus v.raw cfg.maxClockDriftMs 0)
  else none

def bootGraceMaxMs : ℕ := 5000

/-! ## The orchestrator between two waits -/

/-- The callers of `set_node_role_via_s3`. -/
inductive ElectionReason
  | preemptive
  | proactive
  | discovery
  | challenge
  | postCatchup
  deriving DecidableEq, Repr

/-- The locals of `set_node_role_via_s3` once its election has returned. -/
structure RoleChange where
  reason : ElectionReason
  outcome : ElectionOutcome
  becameLeader : Bool
  becameFollowerFromLeaderOrFenced : Bool
  leaseChangedHands : Bool
  resumePromotion : Bool
  deriving DecidableEq, Repr

namespace RoleChange

/-- The change an outcome calls for, before the resume check has answered. -/
def ofOutcome (now : ℕ) (reason : ElectionReason) (previous : ValidatedNodeStatus)
    (outcome : ElectionOutcome) : RoleChange :=
  { reason, outcome
    becameLeader := !previous.raw.isLeader && outcome.status.isLeader now
    becameFollowerFromLeaderOrFenced := previous.heldLeadership && !outcome.status.isLeader now
    leaseChangedHands :=
      outcome.status.raw.leaseEpoch.getD 0 > previous.raw.leaseEpoch.getD 0
    resumePromotion := false }

variable (c : RoleChange)

def newLeaseEpoch : ℕ := c.outcome.status.raw.leaseEpoch.getD 0

def flags : Option TailReconciliation × Bool × Bool :=
  promotionCullFlags c.becameLeader c.becameFollowerFromLeaderOrFenced c.outcome.reacquiredOwnLease
    c.leaseChangedHands c.outcome.status.raw.isAnyFollowerState c.resumePromotion

def cullMode : Option TailReconciliation := c.flags.1

def needsCatchup : Bool := c.flags.2.2

end RoleChange

/-- How `run_s3_catchup` ends. -/
inductive CatchupRunOutcome
  | caught
  | shutdown
  | stalledView
  | s3Unreachable
  | shutdownRequested
  deriving DecidableEq, Repr

/-- Where the orchestrator loop waits. A catchup run belongs to a role change, or to the loop itself
when the node is catching up. -/
inductive OrchestratorPoint
  /-- The head of the loop. -/
  | idle
  /-- The sleep before a leader's heartbeat. -/
  | leaderNap
  | heartbeating (timestampMs : ℕ)
  /-- After a failed heartbeat, before the decision to check S3. -/
  | checkingS3
  /-- The sleep of a follower or fenced node. -/
  | napping
  | electing (reason : ElectionReason) (previous : ValidatedNodeStatus) (call : CallId)
  | elected (reason : ElectionReason) (previous : ValidatedNodeStatus) (outcome : ElectionOutcome)
  | resumeChecking (change : RoleChange)
  | reconciling (change : RoleChange)
  | betweenAttempts (purpose : Option RoleChange) (tracker : AttemptTracker)
  /-- The role is decided from the status `entered`, the other shards are being told. -/
  | enteringCatchup (purpose : Option RoleChange) (tracker : AttemptTracker) (entered : NodeStatus)
      (generation : ℕ)
  | attempting (purpose : Option RoleChange) (tracker : AttemptTracker) (entered : NodeStatus)
      (generation : ℕ)
  | renewingPromotion (purpose : Option RoleChange) (tracker : AttemptTracker) (call : CallId)
  | flipping (change : RoleChange)
  /-- The status is installed; `drainsParked` when the parked tail is still to be committed. -/
  | installed (change : RoleChange) (drainsParked : Bool)
  | peeking (statusNow : ValidatedNodeStatus) (nowMs : ℕ)
  | bootWaiting
  | stopped

namespace OrchestratorPoint

/-- The election call the loop waits for. -/
def call : OrchestratorPoint → Option CallId
  | .electing _ _ id | .renewingPromotion _ _ id => some id
  | _ => none

/-- The loop is inside `set_node_role_via_s3`, which counts as an election in flight. -/
def inSetNodeRole : OrchestratorPoint → Bool
  | .electing _ _ _ | .elected _ _ _ | .resumeChecking _ | .reconciling _ | .flipping _
  | .installed _ _ => true
  | .betweenAttempts purpose _ | .enteringCatchup purpose _ _ _ | .attempting purpose _ _ _
  | .renewingPromotion purpose _ _ => purpose.isSome
  | _ => false

end OrchestratorPoint

/-- After the flags are known: reconcile, catch up, or go on to the flip. -/
def RoleChange.pipeline (c : RoleChange) : OrchestratorPoint :=
  if c.cullMode.isSome then .reconciling c
  else if c.needsCatchup then .betweenAttempts (some c) .new
  else .flipping c

/-- What a node went through; each entry about a lease epoch has the number of leases stored
then. -/
structure NodeHistory where
  /-- Heartbeats sent: timestamp and lease epoch. -/
  sent : List (ℕ × ℕ)
  /-- Timestamps of the heartbeats acknowledged. -/
  acked : List ℕ
  led : List ℕ
  promoted : List (ℕ × ℕ)
  /-- Catchups under role Promoting that finished Caught on every shard. -/
  caught : List (ℕ × ℕ)
  deriving DecidableEq, Repr

def NodeHistory.noteStatus (h : NodeHistory) (stored : ℕ) : NodeStatus → NodeHistory
  | .leader e => { h with led := e :: h.led }
  | .promoting e => { h with promoted := (e, stored) :: h.promoted }
  | _ => h

/-- An attempt entered in `Promoting` whose shards are all Caught. -/
def NodeHistory.noteAttempt (h : NodeHistory) (stored : ℕ) (entered : NodeStatus)
    (everyShardCaught : Bool) : NodeHistory :=
  match entered with
  | .promoting e => if everyShardCaught then { h with caught := (e, stored) :: h.caught } else h
  | _ => h

/-- A heartbeat handler that waits for its tail reconciliation. -/
structure HeartbeatHandler where
  rawStatus : NodeStatus
  leaderTimestampMs : ℕ
  deriving DecidableEq, Repr

/-- The status, the loop, the tasks beside it and the history. -/
structure NodeState where
  status : ValidatedNodeStatus
  point : OrchestratorPoint
  /-- The on-demand renewal in flight. -/
  renewal : Option CallId
  handlers : List HeartbeatHandler
  s3CasConfirmedAtMs : ℕ
  hasPeer : Bool
  shutdownRequested : Bool
  nextGeneration : ℕ
  history : NodeHistory

/-- Answers to a heartbeat, as the sender tells them apart. -/
inductive HeartbeatReply
  | ack
  | lockTimeout
  /-- Rejected, failed or timed out; with whether the follower was reachable so far. -/
  | failed (wasReachable : Bool)
  deriving DecidableEq, Repr

/-- One step of one task. An action that may start an election carries the id its call would get. -/
inductive NodeAction
  -- the orchestrator loop
  | orchestrate
  | sendHeartbeat
  | heartbeatReply (reply : HeartbeatReply) (call : CallId)
  | checkS3 (discoveryDue : Bool) (call : CallId)
  | wake (call : CallId)
  | peeked (answered : Bool) (call : CallId)
  | bootGraceOver (call : CallId)
  -- `set_node_role_via_s3`
  | electionReturned (retry : Option CallId)
  | applyElection
  | resumeChecked (owed : Option Bool)
  | reconciled (ok : Bool)
  | flip
  | drained (ok : Bool)
  -- `run_s3_catchup`
  | beginAttempt
  | enterCatchup
  | attemptDone (own : Except CatchupErrorClass S3CatchupResult)
      (messages : List CatchupCompletionMsg) (call : CallId)
  | promotionRenewed
  -- the on-demand renewal, and any election this node waits for
  | renewOnDemand (call : CallId)
  | renewalReturned (retry : Option CallId)
  | resumeElection (call : CallId)
  -- handlers, and what happens to the process
  | heartbeat (leaderTimestampMs leaseEpoch : ℕ)
  | heartbeatReconciled (handler : ℕ)
  | kick
  | staleLease (followerLeaseEpoch : ℕ)
  | requestShutdown
  | restart

/-- The result of a call that has returned. -/
def ElectionWorld.electionResult (w : ElectionWorld) (id : CallId) :
    Option (Except LeaseStoreError ElectionOutcome) :=
  match w.calls id with
  | some ⟨_, .done result, _⟩ => some result
  | _ => none

namespace NodeState

/-- A node that has just booted. -/
def boot (history : NodeHistory) : NodeState :=
  ⟨.createBootCatchup, .idle, none, [], 0, false, false, 0, history⟩

def initial : NodeState := boot ⟨[], [], [], [], []⟩

/-- A task of the node waits for the call. -/
def Awaits (n : NodeState) (id : CallId) : Prop := n.point.call = some id ∨ n.renewal = some id
  deriving Decidable

variable (cfg : NodeConfig) (now : ℕ) (w : ElectionWorld) (n : NodeState)

/-- `set_node_status_and_metric` on shard 0. -/
def setStatus (stored : ℕ) (status : ValidatedNodeStatus) : NodeState :=
  { n with
    status := .setNodeStatus n.status status now
    history := n.history.noteStatus stored status.status }

/-- Starts an election call, and goes on from `next` in the world with the call. -/
def beginCall (id : CallId) (next : NodeState) : Option (ElectionWorld × NodeState) :=
  (w.step (.begin id cfg.s3Lease now)).map fun w' => (w', next)

/-- The entry of `set_node_role_via_s3`. -/
def beginElection (reason : ElectionReason) (id : CallId) : Option (ElectionWorld × NodeState) :=
  beginCall cfg now w id { n with point := .electing reason n.status id }

/-- What the loop does with an error of `set_node_role_via_s3`. -/
def setNodeRoleFailed (stored : ℕ) : ElectionReason → NodeState
  | .preemptive => { n with point := .checkingS3 }
  | .proactive | .discovery => { n with point := .idle }
  | .challenge =>
    if !n.shutdownRequested && (n.status.raw.isPromoting || n.status.raw.isLeader) then
      { n.setStatus now stored (.createFenced n.status.heldLeadership) with point := .idle }
    else { n with point := .idle }
  -- the failed election panics unless the node is shutting down
  | .postCatchup => { n with point := if n.shutdownRequested then .idle else .stopped }

def setNodeRoleDone (outcome : ElectionOutcome) : ElectionReason → NodeState
  | .preemptive => { n with point := .checkingS3 }
  | .proactive | .discovery => { n with point := .idle, hasPeer := outcome.peerInfo.isSome }
  | .challenge | .postCatchup => { n with point := .idle }

/-- The end of a catchup run. -/
def catchupOver (stored : ℕ) (purpose : Option RoleChange) (outcome : CatchupRunOutcome) :
    NodeState :=
  match purpose with
  | some c =>
    match outcome with
    | .caught => { n with point := .flipping c }
    | _ => n.setNodeRoleFailed now stored c.reason
  | none =>
    match outcome with
    | .shutdown => { n with point := .stopped }
    | .shutdownRequested => { n with point := .idle }
    | _ => { n with point := .peeking n.status now }

/-- The rest of an accepted heartbeat: the time to live grows and the sender gets its ack. -/
def acceptHeartbeat (stored : ℕ) (rawStatus : NodeStatus) (leaderTimestampMs : ℕ) : NodeState :=
  let expiry :=
    computeNewTtl n.status.leaseExpiresAtMs leaderTimestampMs cfg.heartbeatLeaseDurationMs
  let n := n.setStatus now stored (.createCustomStatus rawStatus cfg.maxClockDriftMs expiry)
  { n with history := { n.history with acked := leaderTimestampMs :: n.history.acked } }

/-- `handle_heartbeat` up to its reconciliation, or to its end when none is due. -/
def handleHeartbeat (stored leaderTimestampMs leaseEpoch : ℕ) : NodeState :=
  match heartbeatAdoption n.status now leaseEpoch with
  | none => n
  | some rawStatus =>
    if max now leaderTimestampMs - min now leaderTimestampMs > cfg.maxClockDriftMs then
      n.setStatus now stored (.createFenced n.status.heldLeadership)
    else if !(n.status.effectiveNodeStatus now).isAnyFollowerState && rawStatus.isFollower &&
        leaseEpoch > n.status.raw.leaseEpoch.getD 0 then
      { n with handlers := n.handlers ++ [⟨rawStatus, leaderTimestampMs⟩] }
    else n.acceptHeartbeat cfg now stored rawStatus leaderTimestampMs

/-- A kick starts a catchup of a follower. -/
def handleKickFollower (stored : ℕ) : NodeState :=
  if (n.status.effectiveNodeStatus now).isAnyFollowerState then
    match n.status.raw with
    | .follower e =>
      let expiry := computeNewTtl n.status.leaseExpiresAtMs now cfg.heartbeatLeaseDurationMs
      n.setStatus now stored
        (.createCustomStatus (.followerCatchingUp e) cfg.maxClockDriftMs expiry)
    | _ => n
  else n

/-- A replication answer `StaleLease`: an outrun leader drops its time to live. -/
def handleStaleLease (stored followerLeaseEpoch : ℕ) : NodeState :=
  match staleLeaseFence cfg n.status followerLeaseEpoch with
  | some fenced => n.setStatus now stored fenced
  | none => n

/-- The status of a won lease while the promotion runs. -/
def promotingStatus (outcome : ElectionOutcome) (epoch : ℕ) : ValidatedNodeStatus :=
  .createCustomStatus (.promoting epoch) cfg.maxClockDriftMs outcome.status.leaseExpiresAtMs

/-- The head of the orchestrator loop. -/
def orchestrate : NodeState :=
  let effective := n.status.effectiveNodeStatus now
  if n.shutdownRequested then { n with point := .stopped }
  else if effective.isLeader then { n with point := .leaderNap }
  else if effective.isFollower || effective.isFenced then { n with point := .napping }
  else if n.status.raw.isCatchingUp then { n with point := .betweenAttempts none .new }
  else n

/-- The decision after a catchup of the loop itself, on the status and clock read before the
peek. -/
def postCatchup (statusNow : ValidatedNodeStatus) (nowMs : ℕ) (peeked : Option Lease)
    (id : CallId) :
    Option (ElectionWorld × NodeState) :=
  let needsBootGrace := peeked.any fun l => l.leaderNodeId != cfg.nodeId && l.isExpired nowMs
  let bootGraceMs := if needsBootGrace then min cfg.heartbeatLeaseDurationMs bootGraceMaxMs else 0
  match decidePostCatchupAction statusNow.raw statusNow.leaseExpiresAtMs nowMs bootGraceMs with
  | .stayFollower epoch expires =>
    some (w, { n.setStatus now w.storedLeases.length
      (.createCustomStatus (.follower epoch) cfg.maxClockDriftMs expires) with point := .idle })
  | .bootWaitThenReevaluate waitMs =>
    -- without a wait the loop re-evaluates at once
    if waitMs = 0 then
      if n.status.raw.isCatchingUp then n.beginElection cfg now w .postCatchup id
      else some (w, { n with point := .idle })
    else some (w, { n with point := .bootWaiting })
  | .challengeViaCAS => n.beginElection cfg now w .postCatchup id

/-- `set_node_role_via_s3` from the outcome of its election to the next wait. -/
def applyElection (reason : ElectionReason) (previous : ValidatedNodeStatus)
    (outcome : ElectionOutcome) : NodeState :=
  let c := RoleChange.ofOutcome now reason previous outcome
  if c.becameLeader then
    { n.setStatus now w.storedLeases.length (promotingStatus cfg outcome c.newLeaseEpoch) with
      point := if outcome.reacquiredOwnLease then .resumeChecking c else c.pipeline }
  else { n with point := c.pipeline }

/-- The flip gate and the installation of the outcome. -/
def flip (stored : ℕ) (c : RoleChange) : NodeState :=
  match promotionFlipGate c.becameLeader (n.status.effectiveNodeStatus now) c.newLeaseEpoch with
  | .proceed =>
    let drainsParked := !n.status.raw.isLeader && c.outcome.status.raw.isLeader
    { n.setStatus now stored c.outcome.status with point := .installed c drainsParked }
  | .lostRace => n.setNodeRoleDone ⟨n.status, c.outcome.peerInfo, false, false⟩ c.reason
  | .abort => n.setNodeRoleFailed now stored c.reason

/-- The assessment of an attempt, and the renewal of a promotion that goes on. -/
def attemptDone (purpose : Option RoleChange) (tracker : AttemptTracker) (entered : NodeStatus)
    (generation : ℕ) (own : Except CatchupErrorClass S3CatchupResult)
    (messages : List CatchupCompletionMsg) (id : CallId) : Option (ElectionWorld × NodeState) :=
  -- whether the promotion was superseded shows behind the attempt
  let attempt : CatchupAttempt := ⟨entered, generation, own, messages, false⟩
  let stored := w.storedLeases.length
  let (decision, tracker) := attempt.assess cfg.numShards tracker
  match decision with
  | .shutdown =>
    some (w, { n with shutdownRequested := true }.catchupOver now stored purpose .shutdown)
  | .caught =>
    let history := n.history.noteAttempt stored entered
      (EveryShardCaught cfg.numShards (attempt.results cfg.numShards))
    some (w, { n with history }.catchupOver now stored purpose .caught)
  | .stallBail => some (w, n.catchupOver now stored purpose .stalledView)
  | .unreachableBail => some (w, n.catchupOver now stored purpose .s3Unreachable)
  | .continue =>
    if n.status.raw.isPromoting then
      beginCall cfg now w id { n with point := .renewingPromotion purpose tracker id }
    else some (w, { n with point := .betweenAttempts purpose tracker })

/-- The renewal of a promotion between two attempts, when its election returns. -/
def promotionRenewed (stored : ℕ) (purpose : Option RoleChange) (tracker : AttemptTracker) :
    Except LeaseStoreError ElectionOutcome → NodeState
  | .ok outcome =>
    if outcome.status.raw.isLeader && outcome.reacquiredOwnLease then
      { n.setStatus now stored
        (promotingStatus cfg outcome (outcome.status.raw.leaseEpoch.getD 0)) with
        point := .betweenAttempts purpose tracker }
    -- superseded: adopt the outcome and end the run
    else (n.setStatus now stored outcome.status).catchupOver now stored purpose .caught
  | .error _ => { n with point := .betweenAttempts purpose tracker }

/-- `renew_s3_lease_on_demand` when its election returns. -/
def renewalDone (stored : ℕ) : Except LeaseStoreError ElectionOutcome → NodeState
  | .ok outcome =>
    let confirms := outcome.status.raw.isLeader && outcome.casWritten
    { n.setStatus now stored outcome.status with
      renewal := none
      s3CasConfirmedAtMs := if confirms then now else n.s3CasConfirmedAtMs }
  | .error _ => { n with renewal := none }

/-- The guards of `renew_s3_lease_on_demand`. -/
def renewsOnDemand : Bool :=
  n.status.raw.isLeader && cfg.s3LeaseDurationMs != 0 && !n.point.inSetNodeRole &&
    n.renewal.isNone && now - n.s3CasConfirmedAtMs ≥ cfg.s3LeaseDurationMs / 2

/-- The leader arm after a failed heartbeat: whether the S3 lease and the membership are checked. -/
def shouldCheckS3 (discoveryDue : Bool) : Bool :=
  if n.hasPeer then
    now > n.status.leaseExpiresAtMs - cfg.s3LeaseDurationMs / 2 || n.status.isLeaseExpired now
  else discoveryDue

/-- One step of one task of the node. -/
def step : NodeAction → Option (ElectionWorld × NodeState)
  | .orchestrate =>
    match n.point with
    | .idle => some (w, n.orchestrate now)
    | _ => none
  | .sendHeartbeat =>
    match n.point with
    | .leaderNap =>
      let sent := (now, n.status.raw.leaseEpoch.getD 0) :: n.history.sent
      some (w, { n with point := .heartbeating now, history := { n.history with sent } })
    | _ => none
  | .heartbeatReply reply id =>
    match n.point, reply with
    | .heartbeating timestampMs, .ack =>
      let expiry := computeNewTtl n.status.leaseExpiresAtMs timestampMs cfg.heartbeatLeaseDurationMs
      some (w, { n.setStatus now w.storedLeases.length
        (.createCustomStatus n.status.raw cfg.maxClockDriftMs expiry) with
          point := .idle, hasPeer := true })
    | .heartbeating _, .lockTimeout => some (w, { n with point := .idle })
    | .heartbeating _, .failed wasReachable =>
      if wasReachable && n.hasPeer then n.beginElection cfg now w .preemptive id
      else some (w, { n with point := .checkingS3 })
    | _, _ => none
  | .checkS3 discoveryDue id =>
    match n.point with
    | .checkingS3 =>
      if n.shouldCheckS3 cfg now discoveryDue then
        n.beginElection cfg now w (if n.hasPeer then .proactive else .discovery) id
      else some (w, { n with point := .idle })
    | _ => none
  | .wake id =>
    match n.point with
    | .napping =>
      let effective := n.status.effectiveNodeStatus now
      if n.status.isLeaseExpired now && (effective.isFollower || effective.isFenced) then
        n.beginElection cfg now w .challenge id
      else some (w, { n with point := .idle })
    | _ => none
  | .peeked answered id =>
    match n.point with
    | .peeking statusNow nowMs =>
      let lease := if answered then w.object.current.map Version.value else none
      n.postCatchup cfg now w statusNow nowMs lease id
    | _ => none
  | .bootGraceOver id =>
    match n.point with
    | .bootWaiting =>
      if n.status.raw.isCatchingUp then n.beginElection cfg now w .postCatchup id
      else some (w, { n with point := .idle })
    | _ => none
  | .electionReturned retry =>
    match n.point with
    | .electing reason previous id =>
      match w.electionResult id, retry with
      | some (.ok outcome), _ => some (w, { n with point := .elected reason previous outcome })
      -- only an unavailable store is retried
      | some (.error (.unavailable _)), some id' =>
        beginCall cfg now w id' { n with point := .electing reason previous id' }
      | some (.error _), _ => some (w, n.setNodeRoleFailed now w.storedLeases.length reason)
      | none, _ => none
    | _ => none
  | .applyElection =>
    match n.point with
    | .elected reason previous outcome =>
      some (w, n.applyElection cfg now w reason previous outcome)
    | _ => none
  | .resumeChecked owed =>
    match n.point, owed with
    | .resumeChecking c, some owed =>
      some (w, { n with point := { c with resumePromotion := owed }.pipeline })
    | .resumeChecking c, none => some (w, n.setNodeRoleFailed now w.storedLeases.length c.reason)
    | _, _ => none
  | .reconciled ok =>
    match n.point with
    | .reconciling c =>
      if ok then
        some (w, { n with
          point := if c.needsCatchup then .betweenAttempts (some c) .new else .flipping c })
      else some (w, n.setNodeRoleFailed now w.storedLeases.length c.reason)
    | _ => none
  | .flip =>
    match n.point with
    | .flipping c => some (w, n.flip now w.storedLeases.length c)
    | _ => none
  | .drained ok =>
    match n.point with
    | .installed c drainsParked =>
      if drainsParked && !ok then some (w, n.setNodeRoleFailed now w.storedLeases.length c.reason)
      else
        let confirmed := if c.outcome.casWritten then now else n.s3CasConfirmedAtMs
        some (w, { n with s3CasConfirmedAtMs := confirmed }.setNodeRoleDone c.outcome c.reason)
    | _ => none
  | .beginAttempt =>
    match n.point with
    | .betweenAttempts purpose tracker =>
      if n.shutdownRequested then
        some (w, n.catchupOver now w.storedLeases.length purpose .shutdownRequested)
      else
        some (w, { n with
          point := .enteringCatchup purpose tracker n.status.raw n.nextGeneration
          nextGeneration := n.nextGeneration + 1 })
    | _ => none
  | .enterCatchup =>
    match n.point with
    | .enteringCatchup purpose tracker entered generation =>
      let n := match markCatchingUp n.status.raw with
        | some marked => n.setStatus now w.storedLeases.length marked
        | none => n
      some (w, { n with point := .attempting purpose tracker entered generation })
    | _ => none
  | .attemptDone own messages id =>
    match n.point with
    | .attempting purpose tracker entered generation =>
      n.attemptDone cfg now w purpose tracker entered generation own messages id
    | _ => none
  | .promotionRenewed =>
    match n.point with
    | .renewingPromotion purpose tracker id =>
      (w.electionResult id).map fun result =>
        (w, n.promotionRenewed cfg now w.storedLeases.length purpose tracker result)
    | _ => none
  | .renewOnDemand id =>
    if n.renewsOnDemand cfg now then beginCall cfg now w id { n with renewal := some id } else none
  | .renewalReturned retry =>
    match n.renewal with
    | some id =>
      match w.electionResult id, retry with
      | some (.error (.unavailable _)), some id' => beginCall cfg now w id'
        { n with renewal := some id' }
      | some result, _ => some (w, n.renewalDone now w.storedLeases.length result)
      | none, _ => none
    | none => none
  | .resumeElection id =>
    if n.Awaits id then (w.step (.resume id now)).map fun w' => (w', n) else none
  | .heartbeat leaderTimestampMs leaseEpoch =>
    some (w, n.handleHeartbeat cfg now w.storedLeases.length leaderTimestampMs leaseEpoch)
  | .heartbeatReconciled handler =>
    match n.handlers[handler]? with
    | some h =>
      some (w, { n with handlers := n.handlers.eraseIdx handler }.acceptHeartbeat cfg now
        w.storedLeases.length h.rawStatus h.leaderTimestampMs)
    | none => none
  | .kick => some (w, n.handleKickFollower cfg now w.storedLeases.length)
  | .staleLease followerLeaseEpoch =>
    some (w, n.handleStaleLease cfg now w.storedLeases.length followerLeaseEpoch)
  | .requestShutdown => some (w, { n with shutdownRequested := true })
  | .restart => some (w, boot n.history)

/-! ## Effects of a step -/

section Effects

variable {cfg : NodeConfig} {now : ℕ} {w w' : ElectionWorld} {n n' : NodeState}

@[simp] theorem setStatus_raw (stored : ℕ) (v : ValidatedNodeStatus) :
    (n.setStatus now stored v).status.raw = v.status := rfl

/-- A call is begun under an unused id. -/
theorem beginCall_eq {id : CallId} {next : NodeState}
    (h : beginCall cfg now w id next = some (w', n')) :
    w.calls id = none ∧ w' = w.setCall id ⟨cfg.s3Lease, .start now, none⟩ ∧ n' = next := by
  obtain ⟨w₁, hstep, eq⟩ := map_eq_some_iff.mp h
  obtain ⟨rfl, rfl⟩ := Prod.mk.injEq .. ▸ eq
  simp only [ElectionWorld.step] at hstep
  split at hstep
  next unused => exact ⟨unused, (some.inj hstep).symm, rfl⟩
  next => cases hstep

end Effects

end NodeState

section Adoption

variable {now : ℕ}

/-- An effective follower state is a raw one. -/
theorem raw_follower_of_effective {v : ValidatedNodeStatus}
    (h : (v.effectiveNodeStatus now).isAnyFollowerState = true) :
    v.raw.isAnyFollowerState = true := by
  rcases v.effectiveNodeStatus_cases now with same | fenced
  · exact same ▸ h
  · rw [fenced] at h
    cases h

/-- The flip gate lets a won promotion through only while its window is the raw status. -/
theorem raw_promoting_of_gate {v : ValidatedNodeStatus} {epoch}
    (gate : promotionFlipGate true (v.effectiveNodeStatus now) epoch = .proceed) :
    v.raw = .promoting epoch := by
  unfold promotionFlipGate at gate
  simp only [Bool.not_true, Bool.false_eq_true, if_false] at gate
  split at gate
  next effective =>
    rcases v.effectiveNodeStatus_cases now with same | fenced
    · exact same.symm.trans effective
    · rw [fenced] at effective; cases effective
  next => split at gate <;> cases gate

/-- An accepted heartbeat makes a follower of some kind. -/
theorem heartbeatAdoption_follower {v : ValidatedNodeStatus} {epoch adopted}
    (h : heartbeatAdoption v now epoch = some adopted) : adopted.isAnyFollowerState = true := by
  unfold heartbeatAdoption at h
  dsimp only at h
  split at h
  next follows =>
    cases h
    have raw := raw_follower_of_effective follows
    unfold followerHeartbeatEpochAdoption
    split
    · split <;> first | rfl | exact raw
    · split <;> first | rfl | exact raw
    · exact raw
  next =>
    split at h
    next e hraw =>
      unfold promotingHeartbeatAdoption at h
      split at h
      · exact some.inj h ▸ rfl
      · cases h
    next =>
      split at h
      · exact some.inj h ▸ rfl
      · split at h
        · exact some.inj h ▸ rfl
        · cases h

end Adoption

end Celeriant
