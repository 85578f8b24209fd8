import Celeriant.Distributed.Orchestrator

/-!
# What one step of a node can do to its status

Whatever task runs, a step of a node leaves its status or writes one of a short list: what a
heartbeat or a kick grants, the present role with another expiry, a fence, a catching-up status, or
the outcome of one of the node's own elections. The outcomes a node holds come from elections it
waited for, and the statuses its heartbeat handlers carry are follower statuses. Results about a
node or several nodes are proved from this summary alone and do not look at the points of the loop.

## Main results

* `NodeState.step_summary`: every step is summarised
* `NodeBeside.invariant`: the invariant rule for a property of a node and its companion
-/

namespace Celeriant

open Option Transition

/-- The outcome among the loop's locals. -/
def OrchestratorPoint.outcome : OrchestratorPoint → Option ElectionOutcome
  | .elected _ _ outcome => some outcome
  | .resumeChecking c | .reconciling c | .flipping c | .installed c _ => some c.outcome
  | .betweenAttempts purpose _ | .enteringCatchup purpose _ _ _ | .attempting purpose _ _ _
  | .renewingPromotion purpose _ _ => purpose.map RoleChange.outcome
  | _ => none

/-- The outcome is among the loop's locals, or an election the node waits for has returned it. -/
def NodeState.Held (n : NodeState) (w : ElectionWorld) (o : ElectionOutcome) : Prop :=
  n.point.outcome = some o ∨ ∃ id, n.Awaits id ∧ w.electionResult id = some (.ok o)

/-- The outcome of a call that has returned one. -/
def ElectionWorld.electionOutcome (w : ElectionWorld) (id : CallId) : Option ElectionOutcome :=
  match w.electionResult id with
  | some (.ok o) => some o
  | _ => none

/-- The outcome renews the promotion it was asked for. -/
def ElectionOutcome.renewsPromotion (o : ElectionOutcome) : Bool :=
  o.status.raw.isLeader && o.reacquiredOwnLease

/-- The outcome a step opens or renews a promotion with. -/
def NodeState.promotedOutcome (now : ℕ) (w : ElectionWorld) (n : NodeState) :
    NodeAction → Option ElectionOutcome
  | .applyElection =>
    match n.point with
    | .elected reason previous o =>
      if (RoleChange.ofOutcome now reason previous o).becameLeader then some o else none
    | _ => none
  | .promotionRenewed => (n.point.call.bind w.electionOutcome).filter (·.renewsPromotion)
  | _ => none

/-- The outcome a step installs as it is; a flip that the gate refuses installs nothing. -/
def NodeState.installedOutcome (now : ℕ) (w : ElectionWorld) (n : NodeState) :
    NodeAction → Option ElectionOutcome
  | .flip =>
    match n.point with
    | .flipping c =>
      if promotionFlipGate c.becameLeader
        (n.status.effectiveNodeStatus now) c.newLeaseEpoch = .proceed
      then some c.outcome else none
    | _ => none
  | .promotionRenewed => (n.point.call.bind w.electionOutcome).filter (!·.renewsPromotion)
  | .renewalReturned _ => n.renewal.bind w.electionOutcome
  | _ => none

/-- The epoch a node stays a follower of after a catchup. -/
def NodeStatus.catchupEpoch : NodeStatus → ℕ
  | .followerCatchingUp e => e
  | _ => 0

/-- The loop opens or renews the promotion an outcome calls for. -/
inductive Promotes (now : ℕ) (w : ElectionWorld) (n : NodeState) :
    NodeAction → ElectionOutcome → Prop
  | applied {reason previous o}
      (point : n.point = .elected reason previous o)
      (won : (RoleChange.ofOutcome now reason previous o).becameLeader = true) :
      Promotes now w n .applyElection o
  | renewed {purpose tracker id o}
      (point : n.point = .renewingPromotion purpose tracker id)
      (returned : w.electionResult id = some (.ok o)) (renews : o.renewsPromotion = true) :
      Promotes now w n .promotionRenewed o

/-- The outcome is installed as it is. -/
inductive Installs (now : ℕ) (w : ElectionWorld) (n : NodeState) : NodeAction → ElectionOutcome →
    Prop
  | flipped {c} (point : n.point = .flipping c)
      (gate : promotionFlipGate c.becameLeader (n.status.effectiveNodeStatus now) c.newLeaseEpoch =
        .proceed) : Installs now w n .flip c.outcome
  | superseded {purpose tracker id}
      {o} (point : n.point = .renewingPromotion purpose tracker id)
      (returned : w.electionResult id = some (.ok o))
      (superseded : ¬ o.renewsPromotion = true) :
      Installs now w n .promotionRenewed o
  | renewed {id retry o} (renewal : n.renewal = some id)
      (returned : w.electionResult id = some (.ok o)) : Installs now w n (.renewalReturned retry) o

/-- The statuses a step may write, with the heartbeats it acknowledges. -/
inductive StatusWrite (cfg : NodeConfig) (now : ℕ) (w : ElectionWorld) (n : NodeState)
    (a : NodeAction) :
    List ℕ → ValidatedNodeStatus → Prop
  | adopted {ts epoch} {raw : NodeStatus} (arrives : a = .heartbeat ts epoch)
      (adopts : heartbeatAdoption n.status now epoch = some raw)
      -- otherwise the tail is reconciled first
      (atOnce : (!(n.status.effectiveNodeStatus now).isAnyFollowerState && raw.isFollower &&
        decide (epoch > n.status.raw.leaseEpoch.getD 0)) = false) :
      StatusWrite cfg now w n a [ts] (.createCustomStatus raw cfg.maxClockDriftMs
        (computeNewTtl n.status.leaseExpiresAtMs ts cfg.heartbeatLeaseDurationMs))
  | resumed {i h} (resumes : a = .heartbeatReconciled i)
      (waits : n.handlers[i]? = some h) :
      StatusWrite cfg now w n a [h.leaderTimestampMs] (.createCustomStatus h.rawStatus
        cfg.maxClockDriftMs (computeNewTtl n.status.leaseExpiresAtMs h.leaderTimestampMs
          cfg.heartbeatLeaseDurationMs))
  | kicked {e : ℕ} (kick : a = .kick) (follows : n.status.raw = .follower e) :
      StatusWrite cfg now w n a [] (.createCustomStatus (.followerCatchingUp e) cfg.maxClockDriftMs
        (computeNewTtl n.status.leaseExpiresAtMs now cfg.heartbeatLeaseDurationMs))
  | driftFenced {ts epoch} (arrives : a = .heartbeat ts epoch)
      (drifted : max now ts - min now ts > cfg.maxClockDriftMs) :
      StatusWrite cfg now w n a [] (.createFenced n.status.heldLeadership)
  | refreshed {ts : ℕ} {id} (ack : a = .heartbeatReply .ack id)
      (sent : n.point = .heartbeating ts) :
      StatusWrite cfg now w n a [] (.createCustomStatus n.status.raw cfg.maxClockDriftMs
        (computeNewTtl n.status.leaseExpiresAtMs ts cfg.heartbeatLeaseDurationMs))
  | dropped {epoch} (stale : a = .staleLease epoch) (leads : n.status.raw.isLeader = true)
      (outrun : n.status.raw.leaseEpoch.getD 0 < epoch) :
      StatusWrite cfg now w n a [] (.createCustomStatus n.status.raw cfg.maxClockDriftMs 0)
  | marked {v} (enters : a = .enterCatchup)
      (marks : markCatchingUp n.status.raw = some v) : StatusWrite cfg now w n a [] v
  | stayed {answered id statusNow nowMs}
      (peeked : a = .peeked answered id) (point : n.point = .peeking statusNow nowMs)
      (alive : nowMs < statusNow.leaseExpiresAtMs) :
      StatusWrite cfg now w n a [] (.createCustomStatus (.follower statusNow.raw.catchupEpoch)
        cfg.maxClockDriftMs statusNow.leaseExpiresAtMs)
  | promoting {o} (promotes : Promotes now w n a o)
      (leads : o.status.raw.isLeader = true) :
      StatusWrite cfg now w n a []
        (NodeState.promotingStatus cfg o (o.status.raw.leaseEpoch.getD 0))
  | installed {o} (installs : Installs now w n a o) :
      StatusWrite cfg now w n a [] o.status
  | steppedDown (role : (n.status.raw.isPromoting || n.status.raw.isLeader) = true) :
      StatusWrite cfg now w n a [] (.createFenced n.status.heldLeadership)

/-- What a step adds to the history beside the status it writes. -/
structure NodeHistory.Notes (h h' : NodeHistory) : Prop where
  led : h'.led = h.led
  promoted : h'.promoted = h.promoted
  caught : h.caught ⊆ h'.caught

/-- How a step changes the status, and which heartbeats it acknowledges. -/
inductive StatusChange (cfg : NodeConfig) (now : ℕ) (w : ElectionWorld) (n : NodeState)
    (a : NodeAction) (n' : NodeState) : Prop
  | kept (status : n'.status = n.status) (acked : n'.history.acked = n.history.acked)
      (notes : n.history.Notes n'.history)
  | wrote {acks : List ℕ} {v} (cause : StatusWrite cfg now w n a acks v)
      (status : n'.status = .setNodeStatus n.status v now)
      (acked : n'.history.acked = acks ++ n.history.acked)
      (notes : (n.history.noteStatus w.storedLeases.length v.status).Notes n'.history)
  | restarted (restart : a = .restart) (status : n'.status = .createBootCatchup)
      (acked : n'.history.acked = n.history.acked) (notes : n.history.Notes n'.history)

/-- Why the loop starts an election. -/
inductive ElectionStart (now : ℕ) (n : NodeState) : NodeAction → Prop
  | unanswered {wasReachable id} :
      ElectionStart now n (.heartbeatReply (.failed wasReachable) id)
  | check {discoveryDue id} : ElectionStart now n (.checkS3 discoveryDue id)
  | expired {id} (expired : n.status.isLeaseExpired now = true) : ElectionStart now n (.wake id)
  | caughtUp {answered id statusNow nowMs}
      (point : n.point = .peeking statusNow nowMs) (past : statusNow.leaseExpiresAtMs ≤ nowMs) :
      ElectionStart now n (.peeked answered id)
  | graceOver {id} : ElectionStart now n (.bootGraceOver id)

/-- How a step changes the status, as far as leaders are concerned. -/
inductive NodeEffect (cfg : NodeConfig) (now : ℕ) (w : ElectionWorld) (n : NodeState)
    (a : NodeAction) (n' : NodeState) : Prop
  | kept (status : n'.status = n.status) (acked : n'.history.acked = n.history.acked)
  /-- Not leader afterwards; only then may a heartbeat have been acknowledged. -/
  | passive (passive : ∀ e, n'.status.raw ≠ .leader e)
      (acked : n.history.acked ⊆ n'.history.acked)
  | refreshed (timestampMs) (acked : n'.history.acked = n.history.acked) {id}
      (ack : a = .heartbeatReply .ack id) (sent : n.point = .heartbeating timestampMs)
      (status : n'.status = .setNodeStatus n.status (.createCustomStatus n.status.raw
        cfg.maxClockDriftMs (computeNewTtl n.status.leaseExpiresAtMs timestampMs
          cfg.heartbeatLeaseDurationMs)) now)
  | dropped (acked : n'.history.acked = n.history.acked)
      (status : n'.status = .setNodeStatus n.status
        (.createCustomStatus n.status.raw cfg.maxClockDriftMs 0) now)
  | installed (o) (installs : Installs now w n a o)
      (acked : n'.history.acked = n.history.acked)
      (status : n'.status = .setNodeStatus n.status o.status now)

/-- A call of the node that has not asked anything yet. -/
def Begun (w : ElectionWorld) (cfg : NodeConfig) (id : CallId) : Prop :=
  ∃ now, w.calls id = some ⟨cfg.s3Lease, .start now, none⟩

/-- Points with no call to wait for and nothing of a role change among the locals. -/
def OrchestratorPoint.isPlain : OrchestratorPoint → Bool
  | .idle | .leaderNap | .heartbeating _ | .checkingS3 | .napping | .betweenAttempts none _
  | .peeking _ _ | .bootWaiting | .stopped => true
  | _ => false

/-- How the loop moves, with what it knows of the point it leaves. -/
inductive LoopStep (cfg : NodeConfig) (now : ℕ) (w w' : ElectionWorld) (n : NodeState)
    (a : NodeAction) (n' : NodeState) : Prop
  | stays (after : n'.point = n.point)
  | leaves (plain : n'.point.isPlain = true)
  | elects {reason previous id}
      (start : n.point.call.isSome = true ∨ ElectionStart now n a) (begun : Begun w' cfg id)
      (after : n'.point = .electing reason previous id)
  | elected {reason previous} {id : CallId}
      {o : ElectionOutcome} (before : n.point = .electing reason previous id)
      (returned : w.electionResult id = some (.ok o))
      (after : n'.point = .elected reason previous o)
  | checks {reason previous o}
      (applies : a = .applyElection) (before : n.point = .elected reason previous o)
      (after : n'.point = .resumeChecking (.ofOutcome now reason previous o))
  | applied {reason previous o}
      (applies : a = .applyElection) (before : n.point = .elected reason previous o)
      (after : n'.point = (RoleChange.ofOutcome now reason previous o).pipeline)
  | resumed {c owed} (before : n.point = .resumeChecking c)
      (after : n'.point = { c with resumePromotion := owed }.pipeline)
  | reconciled {c} (before : n.point = .reconciling c)
      (after : n'.point = if c.needsCatchup then .betweenAttempts (some c) .new else .flipping c)
  | began {purpose tracker generation}
      (before : n.point = .betweenAttempts purpose tracker)
      (after : n'.point = .enteringCatchup purpose tracker n.status.raw generation)
  | entered {purpose tracker entered}
      {generation} (before : n.point = .enteringCatchup purpose tracker entered generation)
      (after : n'.point = .attempting purpose tracker entered generation)
  | continues {purpose tracker tracker' entered}
      {generation} (before : n.point = .attempting purpose tracker entered generation)
      (after : n'.point = .betweenAttempts purpose tracker')
  | renews {purpose tracker tracker' entered}
      {generation id} (before : n.point = .attempting purpose tracker entered generation)
      (begun : Begun w' cfg id) (after : n'.point = .renewingPromotion purpose tracker' id)
  | caught {c tracker entered generation}
      (before : n.point = .attempting (some c) tracker entered generation)
      (noted : ∀ e, entered = .promoting e → (e, w.storedLeases.length) ∈ n'.history.caught)
      (after : n'.point = .flipping c)
  | renewed {purpose tracker id}
      (before : n.point = .renewingPromotion purpose tracker id)
      (after : n'.point = .betweenAttempts purpose tracker)
  | superseded {c tracker id o}
      (before : n.point = .renewingPromotion (some c) tracker id)
      (returned : w.electionResult id = some (.ok o)) (adopts : n'.status.raw = o.status.raw)
      (after : n'.point = .flipping c)
  | flipped {c drainsParked} (before : n.point = .flipping c)
      (after : n'.point = .installed c drainsParked)

/-- Everything said of a step of a node. -/
structure StepSummary (cfg : NodeConfig) (now : ℕ) (w w' : ElectionWorld) (n : NodeState)
    (a : NodeAction) (n' : NodeState) : Prop where
  world : w' = w ∨ (∃ id, w.step (.begin id cfg.s3Lease now) = some w') ∨
    ∃ id, a = .resumeElection id ∧ w.step (.resume id now) = some w'
  loop : LoopStep cfg now w w' n a n'
  renewal : ∀ id, n'.renewal = some id → n.renewal = some id ∨ Begun w' cfg id
  handlers : ∀ h ∈ n'.handlers, h ∈ n.handlers ∨ h.rawStatus.isAnyFollowerState = true
  change : StatusChange cfg now w n a n'

section Points

variable {cfg : NodeConfig} {now : ℕ} {w w' : ElectionWorld} {n n' : NodeState} {a : NodeAction}

@[simp] theorem outcome_pipeline (c : RoleChange) : c.pipeline.outcome = some c.outcome := by
  unfold RoleChange.pipeline
  split
  · rfl
  · split <;> rfl

@[simp] theorem call_pipeline (c : RoleChange) : c.pipeline.call = none := by
  unfold RoleChange.pipeline
  split
  · rfl
  · split <;> rfl

theorem OrchestratorPoint.call_of_isPlain {p : OrchestratorPoint} (h : p.isPlain = true) :
    p.call = none ∧ p.outcome = none := by
  cases p with
  | betweenAttempts purpose tracker => cases purpose <;> first | exact ⟨rfl, rfl⟩ | cases h
  | _ => first | exact ⟨rfl, rfl⟩ | cases h

/-- A call the loop waits for was awaited at the same point, or has just begun. -/
theorem LoopStep.call (h : LoopStep cfg now w w' n a n') {id : CallId}
    (waits : n'.point.call = some id) : n'.point = n.point ∨ Begun w' cfg id := by
  cases h with
  | stays after => exact .inl after
  | leaves plain => rw [(OrchestratorPoint.call_of_isPlain plain).1] at waits; cases waits
  | elects _ begun after | renews _ begun after =>
    rw [after] at waits
    exact .inr (some.inj waits ▸ begun)
  | reconciled _ after => rw [after] at waits; split at waits <;> cases waits
  | applied _ _ after | resumed _ after => rw [after, call_pipeline] at waits; cases waits
  | _ =>
    rename_i after
    rw [after] at waits
    cases waits

/-- The outcome the loop carries was at hand. -/
theorem LoopStep.outcome (h : LoopStep cfg now w w' n a n') {o : ElectionOutcome}
    (carries : n'.point.outcome = some o) : n.Held w o := by
  cases h with
  | stays after => exact .inl (after ▸ carries)
  | leaves plain => rw [(OrchestratorPoint.call_of_isPlain plain).2] at carries; cases carries
  | elects _ _ after => rw [after] at carries; cases carries
  | elected before returned after =>
    rw [after] at carries
    exact .inr ⟨_, .inl (before ▸ rfl), some.inj carries ▸ returned⟩
  | reconciled before after =>
    rw [after] at carries
    left
    rw [before]
    split at carries <;> exact carries
  | applied _ before after | resumed before after =>
    rw [after, outcome_pipeline] at carries
    exact .inl (before ▸ carries)
  | checks _ before after | began before after | entered before after | continues before after
  | renews before _ after | caught before _ after | renewed before after
  | superseded before _ _ after | flipped before after =>
    rw [after] at carries
    exact .inl (before ▸ carries)

namespace StepSummary

variable (h : StepSummary cfg now w w' n a n')
include h

theorem awaits : ∀ id, n'.Awaits id → n.Awaits id ∨ Begun w' cfg id := by
  rintro id (waits | waits)
  · rcases h.loop.call waits with same | begun
    · exact .inl (.inl (same ▸ waits))
    · exact .inr begun
  · exact (h.renewal id waits).imp_left .inr

theorem outcome : ∀ o, n'.point.outcome = some o → n.Held w o := fun _ => h.loop.outcome

theorem starts : ∀ reason previous id, n'.point = .electing reason previous id →
    n'.point = n.point ∨ n.point.call.isSome = true ∨ ElectionStart now n a := by
  intro reason previous id electing
  cases h.loop with
  | stays after => exact .inl after
  | elects start => exact .inr start
  | leaves plain => rw [electing] at plain; cases plain
  | reconciled _ after => rw [electing] at after; split at after <;> cases after
  | applied _ _ after | resumed _ after =>
    rw [electing] at after
    have none := call_pipeline _ ▸ congrArg OrchestratorPoint.call after
    cases none
  | _ =>
    rename_i after
    rw [electing] at after
    cases after

end StepSummary

end Points

section Locals

variable {cfg : NodeConfig} {now : ℕ} {w : ElectionWorld} {n n' m : NodeState} {a : NodeAction}
  {p : OrchestratorPoint} {v : ValidatedNodeStatus}

theorem NodeHistory.Notes.refl (h : NodeHistory) : h.Notes h := ⟨rfl, rfl, List.Subset.refl _⟩

@[simp] theorem acked_noteStatus (h : NodeHistory) (stored : ℕ) (status : NodeStatus) :
    (h.noteStatus stored status).acked = h.acked := by
  cases status <;> rfl

/-- The node up to its point, its flags and its counters. -/
structure Agrees (m n : NodeState) : Prop where
  status : m.status = n.status
  renewal : m.renewal = n.renewal
  handlers : m.handlers = n.handlers
  acked : m.history.acked = n.history.acked
  notes : n.history.Notes m.history

theorem Agrees.refl (n : NodeState) : Agrees n n := ⟨rfl, rfl, rfl, rfl, .refl _⟩

namespace StepSummary

/-- A step beside the elections that does not write the status. -/
theorem quiet (same : Agrees n' n) (loop : LoopStep cfg now w w n a n') :
    StepSummary cfg now w w n a n' :=
  ⟨.inl rfl, loop, fun _ hid => .inl (same.renewal ▸ hid), fun _ hh => .inl (same.handlers ▸ hh),
    .kept same.status same.acked same.notes⟩

/-- Only the point changes. -/
theorem move (loop : LoopStep cfg now w w n a { n with point := p }) :
    StepSummary cfg now w w n a { n with point := p } :=
  .quiet ⟨rfl, rfl, rfl, rfl, .refl _⟩ loop

/-- The loop goes on to a plain point. -/
theorem leave (same : Agrees m n) (plain : p.isPlain = true) :
    StepSummary cfg now w w n a { m with point := p } :=
  .quiet ⟨same.status, same.renewal, same.handlers, same.acked, same.notes⟩ (.leaves plain)

/-- A status is written, and the loop goes on. -/
theorem write (cause : StatusWrite cfg now w n a [] v)
    (loop : LoopStep cfg now w w n a { n.setStatus now w.storedLeases.length v with point := p }) :
    StepSummary cfg now w w n a { n.setStatus now w.storedLeases.length v with point := p } :=
  ⟨.inl rfl, loop, fun _ hid => .inl hid, fun _ hh => .inl hh,
    .wrote cause rfl (acked_noteStatus ..) (.refl _)⟩

/-- A handler writes a status and leaves the loop where it is. -/
theorem handlerWrite (cause : StatusWrite cfg now w n a [] v) :
    StepSummary cfg now w w n a (n.setStatus now w.storedLeases.length v) :=
  write (p := n.point) cause (.stays rfl)

theorem unchanged : StepSummary cfg now w w n a n := .quiet (.refl n) (.stays rfl)

end StepSummary

theorem roleFailed_summary (same : Agrees m n) (reason : ElectionReason) :
    StepSummary cfg now w w n a (m.setNodeRoleFailed now w.storedLeases.length reason) := by
  cases reason with
  | challenge =>
    simp only [NodeState.setNodeRoleFailed]
    split
    next failed =>
      rw [Bool.and_eq_true, same.status] at failed
      obtain ⟨led, promoted, caught⟩ := same.notes
      refine ⟨.inl rfl, .leaves rfl, fun _ hid => .inl (same.renewal ▸ hid),
        fun _ hh => .inl (same.handlers ▸ hh), .wrote (.steppedDown failed.2) ?_ ?_ ?_⟩
      · rw [← same.status]; rfl
      · exact same.acked
      · exact ⟨led, promoted, caught⟩
    next => exact .leave same rfl
  | postCatchup => exact .leave same (by split <;> rfl)
  | preemptive | proactive | discovery => exact .leave same rfl

theorem roleDone_summary (same : Agrees m n) (outcome : ElectionOutcome) (reason : ElectionReason) :
    StepSummary cfg now w w n a (m.setNodeRoleDone outcome reason) := by
  obtain ⟨status, renewal, handlers, acked, notes⟩ := same
  cases reason <;> exact .quiet ⟨status, renewal, handlers, acked, notes⟩ (.leaves rfl)

/-- The end of a catchup run moves the loop, and may step down. -/
theorem catchupOver_summary (same : Agrees m n) {purpose : Option RoleChange}
    {outcome : CatchupRunOutcome} (flips : ∀ c, purpose = some c → outcome = .caught →
      LoopStep cfg now w w n a { m with point := .flipping c }) :
    StepSummary cfg now w w n a (m.catchupOver now w.storedLeases.length purpose outcome) := by
  cases purpose with
  | some c =>
    cases outcome with
    | caught =>
      exact .quiet ⟨same.status, same.renewal, same.handlers, same.acked, same.notes⟩
        (flips c rfl rfl)
    | _ => exact roleFailed_summary same c.reason
  | none => cases outcome <;> exact .leave same rfl

end Locals

/-! ## Handlers -/

section Handlers

variable {cfg : NodeConfig} {now : ℕ} {w : ElectionWorld} {n : NodeState} {a : NodeAction}

theorem not_leader_of_follower {status : NodeStatus} (h : status.isAnyFollowerState = true)
    (e : ℕ) :
    status ≠ .leader e := by
  rintro rfl
  cases h

/-- A heartbeat is accepted, with the handlers that are left. -/
theorem acceptHeartbeat_summary {rawStatus : NodeStatus} {ts : ℕ} {handlers : List HeartbeatHandler}
    (cause : StatusWrite cfg now w n a [ts] (.createCustomStatus rawStatus cfg.maxClockDriftMs
      (computeNewTtl n.status.leaseExpiresAtMs ts cfg.heartbeatLeaseDurationMs)))
    (left : handlers ⊆ n.handlers) :
    StepSummary cfg now w w n a ({ n with handlers }.acceptHeartbeat cfg now w.storedLeases.length
      rawStatus ts) :=
  ⟨.inl rfl, .stays rfl, fun _ hid => .inl hid, fun _ hh => .inl (left hh),
    .wrote cause rfl (congrArg (ts :: ·) (acked_noteStatus ..)) ⟨rfl, rfl, List.Subset.refl _⟩⟩

theorem handleHeartbeat_summary (ts epoch : ℕ) : StepSummary cfg now w w n (.heartbeat ts epoch)
    (n.handleHeartbeat cfg now w.storedLeases.length ts epoch) := by
  unfold NodeState.handleHeartbeat
  split
  · exact .unchanged
  next rawStatus adopted =>
    split
    next drifted => exact .handlerWrite (.driftFenced rfl drifted)
    · split
      · refine ⟨.inl rfl, .stays rfl, fun _ hid => .inl hid, fun h hh => ?_,
          .kept rfl rfl (.refl _)⟩
        rcases List.mem_append.mp hh with hh | hh
        · exact .inl hh
        · exact .inr (List.mem_singleton.mp hh ▸ heartbeatAdoption_follower adopted)
      next atOnce =>
        exact acceptHeartbeat_summary (.adopted rfl adopted (Bool.eq_false_iff.mpr atOnce))
          (List.Subset.refl n.handlers)

theorem handleKickFollower_summary :
    StepSummary cfg now w w n .kick (n.handleKickFollower cfg now w.storedLeases.length) := by
  unfold NodeState.handleKickFollower
  split
  · split
    next e follows => exact .handlerWrite (.kicked rfl follows)
    next => exact .unchanged
  · exact .unchanged

theorem handleStaleLease_summary (epoch : ℕ) : StepSummary cfg now w w n (.staleLease epoch)
    (n.handleStaleLease cfg now w.storedLeases.length epoch) := by
  unfold NodeState.handleStaleLease staleLeaseFence
  split
  next fenced eq =>
    split at eq <;> cases eq
    next outrun =>
      rw [Bool.and_eq_true] at outrun
      exact .handlerWrite (.dropped rfl outrun.1 (of_decide_eq_true outrun.2))
  next => exact .unchanged

theorem ElectionWorld.electionOutcome_eq {id o} :
    w.electionOutcome id = some o ↔ w.electionResult id = some (.ok o) := by
  unfold electionOutcome
  split
  next o' returned => rw [returned, some.injEq, some.injEq, Except.ok.injEq]
  next other => exact ⟨fun h => (by cases h), fun h => absurd h (other o)⟩

theorem Promotes.outcome {o} (h : Promotes now w n a o) : n.promotedOutcome now w a = some o := by
  cases h with
  | applied point won => rw [NodeState.promotedOutcome, point]; exact if_pos won
  | renewed point returned renews =>
    rw [NodeState.promotedOutcome, point]
    exact filter_eq_some_iff.mpr ⟨ElectionWorld.electionOutcome_eq.mpr returned, renews⟩

theorem Installs.outcome {o} (h : Installs now w n a o) : n.installedOutcome now w a = some o := by
  cases h with
  | flipped point gate => rw [NodeState.installedOutcome, point]; exact if_pos gate
  | superseded point returned superseded =>
    rw [NodeState.installedOutcome, point]
    exact filter_eq_some_iff.mpr
      ⟨ElectionWorld.electionOutcome_eq.mpr returned, by simpa using superseded⟩
  | renewed renewal returned =>
    rw [NodeState.installedOutcome, renewal]
    exact ElectionWorld.electionOutcome_eq.mpr returned

theorem Promotes.held {o} (h : Promotes now w n a o) : n.Held w o := by
  cases h with
  | applied point => exact .inl (by rw [point]; rfl)
  | renewed point returned => exact .inr ⟨_, .inl (by rw [point]; rfl), returned⟩

theorem Installs.held {o} (h : Installs now w n a o) : n.Held w o := by
  cases h with
  | flipped point => exact .inl (by rw [point]; rfl)
  | superseded point returned => exact .inr ⟨_, .inl (by rw [point]; rfl), returned⟩
  | renewed renewal returned => exact .inr ⟨_, .inr renewal, returned⟩

theorem markCatchingUp_not_leader {status v}
    (h : markCatchingUp status = some v) (e : ℕ) : v.status ≠ .leader e := by
  unfold markCatchingUp at h
  split at h <;> cases h <;> exact fun he => by cases he

/-- A status that is written is not a leader's, refreshes or drops one, or comes from an
election. -/
theorem StatusChange.effect {n' : NodeState}
    (followers : ∀ h ∈ n.handlers, h.rawStatus.isAnyFollowerState = true)
    (h : StatusChange cfg now w n a n') : NodeEffect cfg now w n a n' := by
  cases h with
  | kept status acked => exact .kept status acked
  | restarted restart status acked =>
    exact .passive (fun e he => by rw [status] at he; cases he) (acked ▸ List.Subset.refl _)
  | @wrote acks v cause status acked =>
    have passive : (∀ e, v.status ≠ .leader e) → NodeEffect cfg now w n a n' := fun not =>
      .passive (fun e he => not e (by rw [status] at he; exact he))
        (acked ▸ List.subset_append_right _ _)
    cases cause with
    | adopted arrives adopts atOnce =>
      exact passive (not_leader_of_follower (heartbeatAdoption_follower adopts))
    | resumed resumes waits =>
      exact passive (not_leader_of_follower (followers _ (List.mem_of_getElem? waits)))
    | refreshed ack sent => exact .refreshed _ acked ack sent status
    | dropped stale leads outrun => exact .dropped acked status
    | marked enters marks => exact passive (markCatchingUp_not_leader marks)
    | installed installs => exact .installed _ installs acked status
    | _ => exact passive fun e he => by cases he

end Handlers

/-! ## Every step -/

section Steps

variable {cfg : NodeConfig} {now : ℕ} {w w' : ElectionWorld} {n n' : NodeState} {a : NodeAction}
  {id : CallId} {purpose : Option RoleChange} {tracker : AttemptTracker}
  {result : Except LeaseStoreError ElectionOutcome}

/-- The loop begins a call and waits for it. -/
theorem beginPoint_summary {p : OrchestratorPoint}
    (h : NodeState.beginCall cfg now w id { n with point := p } = some (w', n'))
    (loop : Begun w' cfg id → LoopStep cfg now w w' n a { n with point := p }) :
    StepSummary cfg now w w' n a n' := by
  obtain ⟨w₁, hstep, eq⟩ := map_eq_some_iff.mp h
  obtain ⟨rfl, rfl⟩ := Prod.mk.injEq .. ▸ eq
  obtain ⟨-, rfl, -⟩ := NodeState.beginCall_eq h
  exact ⟨.inr (.inl ⟨id, hstep⟩), loop ⟨now, Function.update_self ..⟩, fun _ hid => .inl hid,
    fun _ hh => .inl hh, .kept rfl rfl (.refl _)⟩

theorem beginElection_summary {reason : ElectionReason}
    (h : n.beginElection cfg now w reason id = some (w', n')) (start : ElectionStart now n a) :
    StepSummary cfg now w w' n a n' :=
  beginPoint_summary h fun begun => .elects (.inr start) begun rfl

theorem beginRenewal_summary
    (h : NodeState.beginCall cfg now w id { n with renewal := some id } = some (w', n')) :
    StepSummary cfg now w w' n a n' := by
  obtain ⟨w₁, hstep, eq⟩ := map_eq_some_iff.mp h
  obtain ⟨rfl, rfl⟩ := Prod.mk.injEq .. ▸ eq
  obtain ⟨-, rfl, -⟩ := NodeState.beginCall_eq h
  refine ⟨.inr (.inl ⟨id, hstep⟩), .stays rfl, fun j hj => .inr ?_, fun _ hh => .inl hh,
    .kept rfl rfl (.refl _)⟩
  exact some.inj hj ▸ ⟨now, Function.update_self ..⟩

theorem applyElection_summary {reason : ElectionReason} {previous : ValidatedNodeStatus}
    {outcome : ElectionOutcome} (hpoint : n.point = .elected reason previous outcome) :
    StepSummary cfg now w w n .applyElection
      (n.applyElection cfg now w reason previous outcome) := by
  unfold NodeState.applyElection
  dsimp only
  split
  next became =>
    have leads : outcome.status.raw.isLeader = true := by
      have effective := (Bool.and_eq_true _ _ ▸ became).2
      obtain ⟨e, he⟩ := NodeStatus.isLeader_iff.mp effective
      exact NodeStatus.isLeader_iff.mpr
        ⟨e, (ValidatedNodeStatus.effectiveNodeStatus_eq_leader.mp he).1⟩
    refine .write (.promoting (.applied hpoint became) leads) ?_
    split
    · exact .checks rfl hpoint rfl
    · exact .applied rfl hpoint rfl
  next => exact .move (.applied rfl hpoint rfl)

theorem flip_summary {c : RoleChange} (hpoint : n.point = .flipping c) :
    StepSummary cfg now w w n .flip (n.flip now w.storedLeases.length c) := by
  unfold NodeState.flip
  split
  next gate => exact .write (.installed (.flipped hpoint gate)) (.flipped hpoint rfl)
  · exact roleDone_summary (.refl n) _ _
  · exact roleFailed_summary (.refl n) _

/-- The record of an attempt; one that ends Caught is noted under the promotion it was entered
in. -/
theorem agrees_noteAttempt (stored : ℕ) (entered : NodeStatus) (every : Bool) :
    Agrees { n with history := n.history.noteAttempt stored entered every } n := by
  unfold NodeHistory.noteAttempt
  split
  · split
    · exact ⟨rfl, rfl, rfl, rfl, rfl, rfl, List.subset_cons_self _ _⟩
    · exact .refl n
  · exact .refl n

theorem attemptDone_summary {entered : NodeStatus} {generation : ℕ}
    {own : Except CatchupErrorClass S3CatchupResult} {messages : List CatchupCompletionMsg}
    (hpoint : n.point = .attempting purpose tracker entered generation)
    (h : n.attemptDone cfg now w purpose tracker entered generation own messages id =
      some (w', n')) :
    StepSummary cfg now w w' n a n' := by
  unfold NodeState.attemptDone at h
  dsimp only at h
  split at h
  · cases h
    refine catchupOver_summary ?_ fun _ _ caught => by cases caught
    exact ⟨rfl, rfl, rfl, rfl, .refl _⟩
  next decision =>
    cases h
    refine catchupOver_summary (agrees_noteAttempt ..) fun c hc _ => .caught (hc ▸ hpoint) ?_ rfl
    rintro e rfl
    have every : EveryShardCaught cfg.numShards (CatchupAttempt.results cfg.numShards
        ⟨.promoting e, generation, own, messages, false⟩) := everyShardCaught_of_assess rfl decision
    simp only [NodeHistory.noteAttempt, decide_eq_true every, if_true]
    exact List.mem_cons_self
  · cases h
    exact catchupOver_summary (.refl n) fun _ _ caught => by cases caught
  · cases h
    exact catchupOver_summary (.refl n) fun _ _ caught => by cases caught
  · split at h
    · exact beginPoint_summary h fun begun => .renews hpoint begun rfl
    · cases h
      exact .move (.continues hpoint rfl)

/-- Superseded or not, the renewal of a promotion writes a promoting status or an outcome. -/
theorem promotionRenewed_summary (hpoint : n.point = .renewingPromotion purpose tracker id)
    (returned : w.electionResult id = some result) : StepSummary cfg now w w n .promotionRenewed
      (n.promotionRenewed cfg now w.storedLeases.length purpose tracker result) := by
  cases result with
  | error e => exact .move (.renewed hpoint rfl)
  | ok outcome =>
    simp only [NodeState.promotionRenewed]
    split
    next renewed =>
      exact .write
        (.promoting (.renewed hpoint returned renewed) (Bool.and_eq_true _ _ ▸ renewed).1)
        (.renewed hpoint rfl)
    next superseded =>
      have installs : StatusWrite cfg now w n .promotionRenewed [] outcome.status :=
        .installed (.superseded hpoint returned superseded)
      cases purpose with
      | some c => exact .write installs (.superseded hpoint returned rfl rfl)
      | none => exact .write installs (.leaves rfl)

theorem renewalDone_summary (renewal : n.renewal = some id)
    {retry : Option CallId} (returned : w.electionResult id = some result) :
    StepSummary cfg now w w n (.renewalReturned retry)
      (n.renewalDone now w.storedLeases.length result) := by
  cases result with
  | error e =>
    exact ⟨.inl rfl, .stays rfl, (fun _ hid => by cases hid), fun _ hh => .inl hh,
      .kept rfl rfl (.refl _)⟩
  | ok outcome =>
    exact ⟨.inl rfl, .stays rfl, (fun _ hid => by cases hid), fun _ hh => .inl hh,
      .wrote (.installed (.renewed renewal returned)) rfl (acked_noteStatus ..) (.refl _)⟩

theorem postCatchup_summary {statusNow : ValidatedNodeStatus} {nowMs : ℕ} {peeked : Option Lease}
    {answered : Bool} (hpoint : n.point = .peeking statusNow nowMs)
    (h : n.postCatchup cfg now w statusNow nowMs peeked id = some (w', n')) :
    StepSummary cfg now w w' n (.peeked answered id) n' := by
  unfold NodeState.postCatchup decidePostCatchupAction at h
  dsimp only at h
  by_cases alive : statusNow.leaseExpiresAtMs > nowMs
  · rw [if_pos alive] at h
    cases h
    exact .write (.stayed rfl hpoint alive) (.leaves rfl)
  · have start : ElectionStart now n (.peeked answered id) :=
      .caughtUp hpoint (Nat.le_of_not_lt alive)
    rw [if_neg alive] at h
    split at h
    next decided =>
      split at decided <;> cases decided
    next =>
      split at h
      · split at h
        · exact beginElection_summary h start
        · cases h
          exact .leave (.refl n) rfl
      · cases h
        exact .leave (.refl n) rfl
    next => exact beginElection_summary h start

theorem orchestrate_summary : StepSummary cfg now w w n a (n.orchestrate now) := by
  unfold NodeState.orchestrate
  dsimp only
  split
  · exact .leave (.refl n) rfl
  · split
    · exact .leave (.refl n) rfl
    · split
      · exact .leave (.refl n) rfl
      · split
        · exact .leave (.refl n) rfl
        · exact .unchanged

/-- Entering an attempt marks the node as catching up, unless it is promoting. -/
theorem enterCatchup_summary {entered : NodeStatus} {generation : ℕ}
    (hpoint : n.point = .enteringCatchup purpose tracker entered generation) :
    StepSummary cfg now w w n .enterCatchup { (match markCatchingUp n.status.raw with
        | some marked => n.setStatus now w.storedLeases.length marked
        | none => n) with point := .attempting purpose tracker entered generation } := by
  split
  next marked hmark => exact .write (.marked rfl hmark) (.entered hpoint rfl)
  next => exact .move (.entered hpoint rfl)

/-- **Every step is summarised.** -/
theorem NodeState.step_summary (h : n.step cfg now w a = some (w', n')) :
    StepSummary cfg now w w' n a n' := by
  have leave : ∀ {a p}, p.isPlain = true → StepSummary cfg now w w n a { n with point := p } :=
    fun plain => .leave (.refl n) plain
  cases a
  all_goals simp only [NodeState.step] at h
  case orchestrate =>
    split at h <;> cases h
    exact orchestrate_summary
  case sendHeartbeat =>
    split at h <;> cases h
    exact .quiet ⟨rfl, rfl, rfl, rfl, rfl, rfl, List.Subset.refl _⟩ (.leaves rfl)
  case heartbeatReply reply id =>
    split at h
    next timestampMs hpoint =>
      cases h
      exact ⟨.inl rfl, .leaves rfl, fun _ hid => .inl hid, fun _ hh => .inl hh,
        .wrote (.refreshed rfl hpoint) rfl (acked_noteStatus ..) (.refl _)⟩
    · cases h
      exact leave rfl
    · split at h
      · exact beginElection_summary h .unanswered
      · cases h
        exact leave rfl
    · cases h
  case checkS3 discoveryDue id =>
    split at h
    · split at h
      · exact beginElection_summary h .check
      · cases h
        exact leave rfl
    · cases h
  case wake id =>
    split at h
    · split at h
      next past => exact beginElection_summary h (.expired (Bool.and_eq_true _ _ ▸ past).1)
      next =>
        cases h
        exact leave rfl
    · cases h
  case peeked answered id =>
    split at h
    next hpoint => exact postCatchup_summary hpoint h
    next => cases h
  case bootGraceOver id =>
    split at h
    · split at h
      · exact beginElection_summary h .graceOver
      · cases h
        exact leave rfl
    · cases h
  case electionReturned retry =>
    split at h
    next reason previous id hpoint =>
      split at h
      next outcome returned =>
        cases h
        exact .move (.elected hpoint returned rfl)
      · exact beginPoint_summary h fun begun => .elects (.inl (by rw [hpoint]; rfl)) begun rfl
      · cases h
        exact roleFailed_summary (.refl n) reason
      · cases h
    next => cases h
  case applyElection =>
    split at h <;> cases h
    next hpoint => exact applyElection_summary hpoint
  case resumeChecked owed =>
    split at h <;> cases h
    next c owed hpoint => exact .move (.resumed hpoint rfl)
    next c hpoint => exact roleFailed_summary (.refl n) c.reason
  case reconciled succeeded =>
    split at h
    next c hpoint =>
      split at h <;> cases h
      · exact .move (.reconciled hpoint rfl)
      · exact roleFailed_summary (.refl n) c.reason
    next => cases h
  case flip =>
    split at h <;> cases h
    next hpoint => exact flip_summary hpoint
  case drained succeeded =>
    split at h
    next c drainsParked hpoint =>
      split at h <;> cases h
      · exact roleFailed_summary (.refl n) c.reason
      · refine roleDone_summary ?_ c.outcome c.reason
        exact ⟨rfl, rfl, rfl, rfl, .refl _⟩
    next => cases h
  case beginAttempt =>
    split at h
    next purpose tracker hpoint =>
      split at h <;> cases h
      · exact catchupOver_summary (.refl n) fun _ _ caught => by cases caught
      · exact .quiet ⟨rfl, rfl, rfl, rfl, .refl _⟩ (.began hpoint rfl)
    next => cases h
  case enterCatchup =>
    split at h <;> cases h
    next hpoint => exact enterCatchup_summary hpoint
  case attemptDone own messages id =>
    split at h
    next hpoint => exact attemptDone_summary hpoint h
    next => cases h
  case promotionRenewed =>
    split at h
    next purpose tracker id hpoint =>
      obtain ⟨result, returned, eq⟩ := map_eq_some_iff.mp h
      cases eq
      exact promotionRenewed_summary hpoint returned
    next => cases h
  case renewOnDemand id =>
    split at h
    · exact beginRenewal_summary h
    · cases h
  case renewalReturned retry =>
    split at h
    next id renewal =>
      split at h
      · exact beginRenewal_summary h
      next result _ returned _ =>
        cases h
        exact renewalDone_summary renewal returned
      · cases h
    next => cases h
  case resumeElection id =>
    split at h
    · obtain ⟨w₁, hstep, eq⟩ := map_eq_some_iff.mp h
      cases eq
      exact ⟨.inr (.inr ⟨id, rfl, hstep⟩), .stays rfl, fun _ hid => .inl hid, fun _ hh => .inl hh,
        .kept rfl rfl (.refl _)⟩
    · cases h
  case heartbeat ts epoch =>
    cases h
    exact handleHeartbeat_summary ts epoch
  case heartbeatReconciled handler =>
    split at h <;> cases h
    next hh waiting => exact acceptHeartbeat_summary (.resumed rfl waiting) List.eraseIdx_subset
  case kick =>
    cases h
    exact handleKickFollower_summary
  case staleLease epoch =>
    cases h
    exact handleStaleLease_summary epoch
  case requestShutdown =>
    cases h
    exact .quiet ⟨rfl, rfl, rfl, rfl, .refl _⟩ (.stays rfl)
  case restart =>
    cases h
    exact ⟨.inl rfl, .leaves rfl, (fun _ hid => by cases hid), (fun _ hh => by cases hh),
      .restarted rfl rfl rfl (.refl _)⟩

end Steps

/-! ## Runs of one node

The tasks of the node interleave in any order and read any clock, S3 answers its elections or loses
them, and other nodes run elections on the same lease object. A companion is a record of what the
node showed, or another part of the process that hears from shard 0. -/

/-- What runs beside the node and watches its steps. -/
structure Companion (γ β : Type) where
  /-- What a step of the node at a clock reading does to the companion. -/
  observe : ℕ → NodeState → NodeAction → NodeState → γ → γ
  step : γ → β → Option γ

/-- A companion that only watches. -/
def Companion.watch {γ : Type} (observe : ℕ → NodeState → NodeAction → NodeState → γ → γ) :
    Companion γ Empty := ⟨observe, fun _ b => nomatch b⟩

/-- A node, the elections and a companion. -/
structure NodeBeside (γ : Type) where
  world : ElectionWorld
  node : NodeState
  beside : γ

/-- A step of the node, an election or the companion. -/
inductive BesideAction (β : Type)
  | node (now : ℕ) (a : NodeAction)
  | world (a : ElectionAction)
  | beside (b : β)

namespace NodeBeside

variable {γ β}

/-- A process that has just started, in a world where anything may have happened. -/
def boot (world : ElectionWorld) (history : NodeHistory) (beside : γ) : NodeBeside γ :=
  ⟨world, .boot history, beside⟩

def step (cfg : NodeConfig) (c : Companion γ β) (s : NodeBeside γ) :
    BesideAction β → Option (NodeBeside γ)
  | .node now a =>
    (s.node.step cfg now s.world a).map fun (world, node) =>
      ⟨world, node, c.observe now s.node a node s.beside⟩
  | .world a => (s.world.step a).map fun world => { s with world }
  | .beside b => (c.step s.beside b).map fun beside => { s with beside }

/-- **The invariant rule for a node and its companion.** -/
theorem invariant {cfg : NodeConfig} {c : Companion γ β} {ok : NodeBeside γ → BesideAction β → Prop}
    {I : NodeState → γ → Prop}
    (node : ∀ (s : NodeBeside γ) now a w' n', I s.node s.beside → ok s (.node now a) →
      s.node.step cfg now s.world a = some (w', n') → I n' (c.observe now s.node a n' s.beside))
    (beside : ∀ (s : NodeBeside γ) b g', I s.node s.beside → ok s (.beside b) →
      c.step s.beside b = some g' → I s.node g')
    {s t} (run : Reaches (step cfg c) ok s t) (init : I s.node s.beside) :
    I t.node t.beside := by
  refine Reaches.invariant (I := fun s => I s.node s.beside)
    (fun s a t inv hok hstep => ?_) run init
  cases a with
  | node now a =>
    obtain ⟨⟨w', n'⟩, moved, rfl⟩ := Option.map_eq_some_iff.mp hstep
    exact node s now a w' n' inv hok moved
  | world a =>
    obtain ⟨w', -, rfl⟩ := Option.map_eq_some_iff.mp hstep
    exact inv
  | beside b =>
    obtain ⟨g', moved, rfl⟩ := Option.map_eq_some_iff.mp hstep
    exact beside s b g' inv hok moved

/-! ## A node beside its peer

Node 1 boots on the lease of node 2, which has epoch 4 and ends at 1000. -/

def soloConfig : NodeConfig := ⟨1, 1000, 5, 500, 1⟩

def peerLease : ElectionWorld := ⟨⟨[⟨⟨2, 4, 0, 1000⟩, 9, 7⟩], by decide⟩, fun _ => none⟩

def tasks (now : ℕ) (as : List NodeAction) : List (BesideAction β) := as.map (.node now ·)

/-- A catchup of the loop itself, up to the election it starts. -/
def catchUp (now : ℕ) (id : CallId) : List (BesideAction β) :=
  tasks now [.orchestrate, .beginAttempt, .enterCatchup,
    .attemptDone (.ok ⟨0, 0, 1, .caught, false⟩) [] id, .peeked false id]

/-- The lease has run out: the node boots and leads epoch 5. -/
def bootAsLeader (now : ℕ) : List (BesideAction β) :=
  catchUp now 0 ++
    [.world (.serve 0 (.served 8)), .node now (.resumeElection 0), .world (.serve 0 (.served 8)),
      .node now (.resumeElection 0), .world (.serveMembership 0 (.ok none)),
      .node now (.resumeElection 0)] ++
    tasks now [.electionReturned none, .applyElection, .reconciled true, .beginAttempt,
      .enterCatchup, .attemptDone (.ok ⟨0, 0, 1, .caught, false⟩) [] 0, .flip, .drained true]

/-- The lease is alive: the node boots and follows it. -/
def bootAsFollower (now : ℕ) : List (BesideAction β) :=
  catchUp now 0 ++
    [.world (.serve 0 (.served 8)), .node now (.resumeElection 0),
      .world (.serveMembership 0 (.ok none)), .node now (.resumeElection 0)] ++
    tasks now [.electionReturned none, .applyElection, .reconciled true, .flip, .drained true]

end NodeBeside

end Celeriant
