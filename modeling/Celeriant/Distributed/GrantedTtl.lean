import Celeriant.Distributed.NodeEffects

/-!
# The time to live a follower grants

A follower that acknowledges a heartbeat, or accepts a kick, promises its leader not to challenge
the lease before the expiry it stores with its status. Heartbeats and kicks only raise that expiry.
Other tasks overwrite it: a catchup attempt, which is what a kick leads to, marks the node as
catching up with expiry 0, a drift fence and a restart forget it, and whatever was decided before
the grant and is written after it puts its own expiry in its place.

## Main results

* `granted_ttl_honoured`: then no election is started before the clock has reached every grant
* `kicked_follower_challenges_early`: a kick and the catchup it leads to end in an early challenge
-/

namespace Celeriant

open Transition NodeBeside

/-- What a node has granted. -/
structure Grants where
  /-- The greatest clock reading so far. -/
  clock : ℕ
  expiries : List ℕ
  /-- An election was started while a grant was ahead of the clock. -/
  early : Bool
  deriving DecidableEq

/-- The expiry a step grants: by an acknowledged heartbeat, or by a kick that a follower accepts. -/
def grantedBy (now : ℕ) (n : NodeState) (a : NodeAction) (n' : NodeState) : List ℕ :=
  match a with
  | .heartbeat _ _ | .heartbeatReconciled _ =>
    if n'.history.acked = n.history.acked then [] else [n'.status.leaseExpiresAtMs]
  | .kick =>
    if (n.status.effectiveNodeStatus now).isAnyFollowerState && n.status.raw.isFollower then
      [n'.status.leaseExpiresAtMs]
    else []
  | _ => []

/-- The loop goes from a point without a call into `set_node_role_via_s3`. -/
def startsElection (n n' : NodeState) : Bool :=
  n.point.call.isNone &&
    match n'.point with
    | .electing _ _ _ => true
    | _ => false

/-- The record of the grants and of the elections started. -/
def grantLog : Companion Grants Empty :=
  .watch fun now n a n' g =>
    { clock := max g.clock now
      expiries := grantedBy now n a n' ++ g.expiries
      early := g.early ||
        (startsElection n n' && g.expiries.any fun E => decide (max g.clock now < E)) }

/-- The step does not put anything else in the place of the grant. -/
def NodeState.Leaves (cfg : NodeConfig) (now : ℕ) (w : ElectionWorld) (n : NodeState) (E : ℕ) :
    NodeAction → Prop
  | .heartbeat ts _ => max now ts - min now ts ≤ cfg.maxClockDriftMs
  -- the leader arm of the loop, in a node that has meanwhile become a follower
  | .heartbeatReply (.failed _) _ | .checkS3 _ _ => False
  | .enterCatchup | .bootGraceOver _ | .restart => False
  | .peeked _ _ =>
    -- the grant was in force when the status was read
    match n.point with
    | .peeking statusNow nowMs => nowMs < E ∧ E ≤ statusNow.leaseExpiresAtMs
    | _ => True
  -- an outcome that is written
  | a => n.promotedOutcome now w a = none ∧ ∀ o ∈ n.installedOutcome now w a,
    o.status.raw.isAnyFollowerState = true ∧ E ≤ o.status.leaseExpiresAtMs

instance (cfg : NodeConfig) (now : ℕ) (w : ElectionWorld) (n : NodeState) (E : ℕ) (a : NodeAction) :
    Decidable (n.Leaves cfg now w E a) := by
  induction a using NodeAction.casesOn with
  | peeked answered id =>
    dsimp only [NodeState.Leaves]
    induction n.point using OrchestratorPoint.casesOn <;> infer_instance
  | heartbeatReply reply id =>
    induction reply using HeartbeatReply.casesOn <;> dsimp only [NodeState.Leaves] <;>
      infer_instance
  | _ => dsimp only [NodeState.Leaves]; infer_instance

/-- Every grant has been reached by the clock or is left alone. -/
def LeavesGrants (cfg : NodeConfig) (s : NodeBeside Grants) : BesideAction Empty → Prop
  | .node now a => ∀ E ∈ s.beside.expiries,
    E ≤ max s.beside.clock now ∨ s.node.Leaves cfg now s.world E a
  | _ => True

instance (cfg : NodeConfig) : DecidableRel (LeavesGrants cfg) := fun s a => by
  induction a using BesideAction.casesOn <;> dsimp only [LeavesGrants] <;> infer_instance

/-- Every grant is behind the clock, or is kept by a follower's status. -/
structure GrantInv (n : NodeState) (g : Grants) : Prop where
  covered : ∀ E ∈ g.expiries,
    E ≤ g.clock ∨ n.status.raw.isAnyFollowerState = true ∧ E ≤ n.status.leaseExpiresAtMs
  punctual : g.early = false
  followers : ∀ h ∈ n.handlers, h.rawStatus.isAnyFollowerState = true

section Steps

variable {cfg : NodeConfig} {now E : ℕ} {w w' : ElectionWorld} {n n' : NodeState} {a : NodeAction}
  {g : Grants}

theorem le_computeNewTtl (current ts duration : ℕ) : current ≤ computeNewTtl current ts duration :=
  Nat.le_max_left ..

/-- A follower's status, with an expiry it granted, is only followed by such a status. -/
theorem StatusChange.keeps (h : StatusChange cfg now w n a n')
    (followers : ∀ h ∈ n.handlers, h.rawStatus.isAnyFollowerState = true)
    (follows : n.status.raw.isAnyFollowerState = true) (covers : E ≤ n.status.leaseExpiresAtMs)
    (leaves : n.Leaves cfg now w E a) :
    n'.status.raw.isAnyFollowerState = true ∧ E ≤ n'.status.leaseExpiresAtMs := by
  have grows : ∀ ts duration, E ≤ computeNewTtl n.status.leaseExpiresAtMs ts duration :=
    fun ts duration => le_trans covers (le_computeNewTtl ..)
  cases h with
  | kept status acked => rw [status]; exact ⟨follows, covers⟩
  | restarted restart status acked => subst restart; exact leaves.elim
  | wrote cause status acked =>
    rw [status]
    cases cause with
    | adopted arrives adopts atOnce => exact ⟨heartbeatAdoption_follower adopts, grows _ _⟩
    | resumed resumes waits => exact ⟨followers _ (List.mem_of_getElem? waits), grows _ _⟩
    | kicked kick raw => exact ⟨rfl, grows _ _⟩
    | refreshed ack sent => exact ⟨follows, grows _ _⟩
    | driftFenced arrives drifted =>
      subst arrives
      exact absurd drifted (Nat.not_lt.mpr leaves)
    | marked enters marks => subst enters; exact leaves.elim
    | stayed peeked point alive =>
      subst peeked
      simp only [NodeState.Leaves, point] at leaves
      exact ⟨rfl, leaves.2⟩
    | promoting promotes =>
      have promoted := promotes.outcome
      have refused : n.promotedOutcome now w a = none := by cases promotes <;> exact leaves.1
      rw [refused] at promoted
      cases promoted
    | installed installs =>
      have installed := installs.outcome
      cases installs <;> exact leaves.2 _ installed
    | dropped stale leads outrun =>
      obtain ⟨e, he⟩ := NodeStatus.isLeader_iff.mp leads
      rw [he] at follows
      cases follows
    | steppedDown role => cases hraw : n.status.raw <;> simp_all [NodeStatus.isAnyFollowerState,
        NodeStatus.isPromoting, NodeStatus.isLeader]

/-- What a step grants is the expiry of the follower status it leaves. -/
theorem grantedBy_follower (followers : ∀ h ∈ n.handlers, h.rawStatus.isAnyFollowerState = true)
    (h : StatusChange cfg now w n a n') (granted : E ∈ grantedBy now n a n') :
    n'.status.raw.isAnyFollowerState = true ∧ E ≤ n'.status.leaseExpiresAtMs := by
  -- an acknowledgement is only given together with a follower status
  have acks : n'.history.acked ≠ n.history.acked → n'.status.raw.isAnyFollowerState = true := by
    intro acknowledged
    cases h with
    | kept status acked => exact absurd acked acknowledged
    | restarted restart status acked => exact absurd acked acknowledged
    | wrote cause status acked =>
      rw [status]
      cases cause with
      | adopted arrives adopts atOnce => exact heartbeatAdoption_follower adopts
      | resumed resumes waits => exact followers _ (List.mem_of_getElem? waits)
      | _ => exact absurd acked acknowledged
  unfold grantedBy at granted
  split at granted
  case h_4 => cases granted
  case h_3 =>
    split at granted
    next accepted =>
      obtain rfl := List.mem_singleton.mp granted
      have raw := (Bool.and_eq_true _ _ ▸ accepted).2
      have follows : n.status.raw.isAnyFollowerState = true := by
        cases hraw : n.status.raw <;> rw [hraw] at raw <;> first | rfl | cases raw
      refine ⟨(h.keeps (E := 0) followers follows (Nat.zero_le _) ?_).1, le_rfl⟩
      exact ⟨rfl, fun o installed => by cases installed⟩
    next => cases granted
  all_goals
    split at granted
    next => cases granted
    next acknowledged => exact ⟨acks acknowledged, le_of_eq (List.mem_singleton.mp granted)⟩

/-- No election starts while a grant is ahead of the clock. -/
theorem ElectionStart.late (start : ElectionStart now n a) (covers : E ≤ n.status.leaseExpiresAtMs)
    (leaves : n.Leaves cfg now w E a) : E ≤ now := by
  cases start with
  | unanswered | check | graceOver => exact leaves.elim
  | expired expired => exact le_trans covers (le_of_lt (of_decide_eq_true expired))
  | caughtUp point past =>
    simp only [NodeState.Leaves, point] at leaves
    omega

theorem GrantInv.step (inv : GrantInv n g)
    (left : ∀ E ∈ g.expiries, E ≤ max g.clock now ∨ n.Leaves cfg now w E a)
    (hstep : n.step cfg now w a = some (w', n')) : GrantInv n' (grantLog.observe now n a n' g) := by
  have summary := NodeState.step_summary hstep
  refine ⟨fun E granted => ?_, ?_, fun h mem => ?_⟩
  · rcases List.mem_append.mp granted with new | old
    · exact .inr (grantedBy_follower inv.followers summary.change new)
    · rcases left E old with reached | leaves
      · exact .inl reached
      · rcases inv.covered E old with reached | ⟨follows, covers⟩
        · exact .inl (le_trans reached (Nat.le_max_left ..))
        · exact .inr (summary.change.keeps inv.followers follows covers leaves)
  · have onTime : (startsElection n n' && g.expiries.any fun E => decide (max g.clock now < E)) =
        false := by
      by_contra early
      obtain ⟨starts, ahead⟩ := Bool.and_eq_true _ _ ▸ Bool.eq_true_of_not_eq_false early
      obtain ⟨E, old, ahead⟩ := List.any_eq_true.mp ahead
      have ahead := of_decide_eq_true ahead
      obtain ⟨idle, electing⟩ := Bool.and_eq_true _ _ ▸ starts
      have idle : n.point.call = none := Option.isNone_iff_eq_none.mp idle
      split at electing
      next reason previous id point =>
        have start : ElectionStart now n a := by
          rcases summary.starts reason previous id point with same | retried | start
          · rw [← same, point] at idle; cases idle
          · rw [idle] at retried; cases retried
          · exact start
        rcases left E old with reached | leaves
        · omega
        · rcases inv.covered E old with reached | ⟨-, covers⟩
          · omega
          · have := start.late covers leaves
            omega
      next => cases electing
    exact (congrArg₂ (· || ·) inv.punctual onTime).trans rfl
  · rcases summary.handlers h mem with before | follower
    · exact inv.followers h before
    · exact follower

end Steps

/-- **A granted time to live is honoured.**  In every run in which no step puts anything else in the
place of a grant that is ahead of the clock, shard 0 never started an election early. -/
theorem granted_ttl_honoured {cfg : NodeConfig} {w : ElectionWorld} {history : NodeHistory}
    {s : NodeBeside Grants} (run : Reaches (NodeBeside.step cfg grantLog) (LeavesGrants cfg)
      (.boot w history ⟨0, [], false⟩) s) : s.beside.early = false := by
  refine (NodeBeside.invariant (I := GrantInv) ?_ ?_ run ?_).punctual
  · intro s now a w' n' inv left hstep
    exact inv.step left hstep
  · intro s b
    exact nomatch b
  · exact ⟨(fun E mem => by cases mem), rfl, (fun h mem => by cases mem)⟩

/-- A follower grants 1100 and challenges at 1200. -/
theorem granted_ttl_honoured_lateChallenge :
    ∃ s, Reaches (NodeBeside.step soloConfig grantLog) (LeavesGrants soloConfig)
        (.boot peerLease ⟨[], [], [], [], []⟩ ⟨0, [], false⟩) s ∧
      s.beside.expiries = [1100] ∧ s.node.point.call = some 1 ∧ s.beside.early = false := by
  let actions : List (BesideAction Empty) :=
    bootAsFollower 500 ++ tasks 600 [.heartbeat 600 4] ++ tasks 1200 [.orchestrate, .wake 1]
  obtain ⟨s, run, granted, call⟩ : ∃ s, Reaches (NodeBeside.step soloConfig grantLog)
      (LeavesGrants soloConfig) (.boot peerLease ⟨[], [], [], [], []⟩ ⟨0, [], false⟩) s ∧
      s.beside.expiries = [1100] ∧ s.node.point.call = some 1 :=
    exists_of_exec actions (by decide +kernel)
  exact ⟨s, run, granted, call, granted_ttl_honoured run⟩

/-- At 700 a kick grants 1200; the catchup it leads to ends in a challenge at 700. -/
theorem kicked_follower_challenges_early :
    ∃ s, Reaches (NodeBeside.step soloConfig grantLog) Always
        (.boot peerLease ⟨[], [], [], [], []⟩ ⟨0, [], false⟩) s ∧
      s.beside = ⟨700, [1200, 1100], true⟩ := by
  let actions : List (BesideAction Empty) :=
    bootAsFollower 500 ++ tasks 600 [.heartbeat 600 4] ++ tasks 700 [.kick] ++ catchUp 700 1
  exact exists_of_exec actions (by decide +kernel)

end Celeriant
