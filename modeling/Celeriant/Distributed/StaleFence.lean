import Celeriant.Distributed.NodeEffects

/-!
# The fence after a stale lease

A follower that knows a newer lease answers a replication request with `StaleLease`, and the shard
that sent it (`single_send`) drops the expiry of its leader status to zero, "so we stop writing
under a dead lease". The role stays. The acknowledgement of a heartbeat that shard 0 sent before
gives it a fresh expiry; an election under way installs its outcome; and a data shard takes over
whatever `StatusUpdate` shard 0 has sent, whether or not it is fenced.

Beside shard 0 runs one data shard, with the updates on their way to it in the order they were sent.

## Main results

* `stale_fence_sticky`: then a fenced shard is never again effectively leader at that epoch or below
* `heartbeat_ack_revives_fenced`: an acknowledgement in flight undoes the fence
-/

namespace Celeriant

open Transition NodeBeside Option

/-- The epoch a leader status leads. -/
def NodeStatus.ledEpoch : NodeStatus → Option ℕ
  | .leader e => some e
  | _ => none

/-- A data shard, and the epochs at which it and shard 0 were fenced. -/
structure DataShard where
  cell : ValidatedNodeStatus
  updates : List ValidatedNodeStatus
  fenced : List ℕ
  fencedZero : List ℕ

/-- What reaches a data shard. -/
inductive DataShardAction
  | statusUpdate (now : ℕ)
  /-- The channel to the shard was full. -/
  | updateLost
  | staleLease (now followerLeaseEpoch : ℕ)
  | enterCatchup (now : ℕ)

/-- One message handled by the data shard. -/
def DataShard.step (cfg : NodeConfig) (d : DataShard) : DataShardAction → Option DataShard
  | .statusUpdate now =>
    match d.updates with
    | [] => none
    | v :: rest => some { d with cell := .setNodeStatus d.cell v now, updates := rest }
  | .updateLost => some { d with updates := d.updates.tail }
  | .staleLease now epoch =>
    (staleLeaseFence cfg d.cell epoch).map fun v =>
      { d with
        cell := .setNodeStatus d.cell v now
        fenced := d.cell.raw.leaseEpoch.getD 0 :: d.fenced }
  | .enterCatchup now =>
    (markCatchingUp d.cell.raw).map fun v => { d with cell := .setNodeStatus d.cell v now }

/-- Steps that may broadcast the status shard 0 already had. -/
def NodeAction.rebroadcasts : NodeAction → Bool
  | .heartbeatReply .ack _ | .flip | .promotionRenewed | .renewalReturned _ | .heartbeat _ _
  | .heartbeatReconciled _ => true
  | _ => false

/-- A data shard beside shard 0, which broadcasts what it writes; a stale-lease fence and the
catching-up mark stay on the shard that writes them. -/
def statusUpdates (cfg : NodeConfig) : Companion DataShard DataShardAction where
  observe := fun _ n a n' d =>
    match a with
    | .restart => { d with cell := .createBootCatchup, updates := [] }
    | .staleLease epoch =>
      if (staleLeaseFence cfg n.status epoch).isSome then
        { d with fencedZero := n.status.raw.leaseEpoch.getD 0 :: d.fencedZero }
      else d
    | .enterCatchup => d
    | a =>
      if n'.status = n.status && !a.rebroadcasts then d
      else { d with updates := d.updates ++ [n'.status] }
  step := DataShard.step cfg

/-- The epoch of the leadership a step of shard 0 refreshes or installs. -/
def NodeState.revives (now : ℕ) (w : ElectionWorld) (n : NodeState) : NodeAction → Option ℕ
  | .heartbeatReply .ack _ => n.status.raw.ledEpoch
  | a => (n.installedOutcome now w a).bind fun o => o.status.raw.ledEpoch

/-- No step gives a shard a leadership at or below an epoch it was fenced at. -/
def RevivesNoFenced (s : NodeBeside DataShard) : BesideAction DataShardAction → Prop
  | .node now a => ∀ e' ∈ s.node.revives now s.world a, ∀ e ∈ s.beside.fencedZero, e < e'
  | .beside (.statusUpdate _) =>
    ∀ e' ∈ s.beside.updates.head?.bind fun v => v.raw.ledEpoch, ∀ e ∈ s.beside.fenced, e < e'
  | _ => True

instance : DecidableRel RevivesNoFenced := fun s a => by
  induction a using BesideAction.casesOn with
  | beside b => induction b using DataShardAction.casesOn <;> dsimp only [RevivesNoFenced] <;>
    infer_instance
  | _ => dsimp only [RevivesNoFenced]; infer_instance

/-- A leader status at or below a fenced epoch has no expiry. -/
def KeptDown (fenced : List ℕ) (v : ValidatedNodeStatus) : Prop :=
  ∀ e ∈ fenced, ∀ e', v.raw = .leader e' → e < e' ∨ v.leaseExpiresAtMs = 0

namespace KeptDown

variable {fenced : List ℕ} {prev v : ValidatedNodeStatus}

theorem of_not_leader (not : ∀ e, v.raw ≠ .leader e) : KeptDown fenced v :=
  fun _ _ e' leads => absurd leads (not e')

theorem of_expiry (expiry : v.leaseExpiresAtMs = 0) : KeptDown fenced v :=
  fun _ _ _ _ => .inr expiry

theorem of_above (above : ∀ e' ∈ v.raw.ledEpoch, ∀ e ∈ fenced, e < e') : KeptDown fenced v :=
  fun e mem e' leads => .inl (above e' (by rw [leads]; rfl) e mem)

/-- Past the first millisecond, what is kept down does not lead. -/
theorem effective (h : KeptDown fenced v) {now e e'} (clock : 0 < now) (mem : e ∈ fenced)
    (leads : v.effectiveNodeStatus now = .leader e') : e < e' := by
  obtain ⟨raw, alive⟩ := ValidatedNodeStatus.effectiveNodeStatus_eq_leader.mp leads
  rcases h e mem e' raw with above | expiry
  · exact above
  · omega

end KeptDown

/-- Both shards stay down. -/
structure FenceInv (n : NodeState) (d : DataShard) : Prop where
  zero : KeptDown d.fencedZero n.status
  data : KeptDown d.fenced d.cell
  followers : ∀ h ∈ n.handlers, h.rawStatus.isAnyFollowerState = true

section Steps

variable {cfg : NodeConfig} {now : ℕ} {w w' : ElectionWorld} {n n' : NodeState} {a : NodeAction}
  {d d' : DataShard}

theorem staleLeaseFence_expiry {v v' epoch}
    (h : staleLeaseFence cfg v epoch = some v') : v'.leaseExpiresAtMs = 0 := by
  unfold staleLeaseFence at h
  split at h <;> cases h
  rfl

/-- A step of shard 0 writes no leader status, or one that the condition allows. -/
theorem FenceInv.keptDown (inv : FenceInv n d)
    (above : ∀ e' ∈ n.revives now w a, ∀ e ∈ d.fencedZero, e < e')
    (hstep : n.step cfg now w a = some (w', n')) : KeptDown d.fencedZero n'.status := by
  cases (NodeState.step_summary hstep).change.effect inv.followers with
  | kept status acked => rw [status]; exact inv.zero
  | passive passive acked => exact .of_not_leader passive
  | refreshed ts acked ack sent status =>
    subst ack
    rw [status]
    exact .of_above above
  | dropped acked status => rw [status]; exact .of_expiry rfl
  | installed o installs acked status =>
    rw [status]
    refine .of_above fun e' leads => above e' ?_
    have outcome := installs.outcome
    cases installs <;> exact bind_eq_some_iff.mpr ⟨_, outcome, leads⟩

/-- The step that fences shard 0. -/
theorem handleStaleLease_status (stored epoch : ℕ) {v}
    (fence : staleLeaseFence cfg n.status epoch = some v) :
    (n.handleStaleLease cfg now stored epoch).status.leaseExpiresAtMs = 0 := by
  unfold NodeState.handleStaleLease
  rw [fence]
  have expiry := staleLeaseFence_expiry fence
  exact expiry

theorem FenceInv.node (inv : FenceInv n d)
    (above : ∀ e' ∈ n.revives now w a, ∀ e ∈ d.fencedZero, e < e')
    (hstep : n.step cfg now w a = some (w', n')) :
    FenceInv n' ((statusUpdates cfg).observe now n a n' d) := by
  have down := inv.keptDown above hstep
  have followers : ∀ h ∈ n'.handlers, h.rawStatus.isAnyFollowerState = true := fun h mem =>
    ((NodeState.step_summary hstep).handlers h mem).elim (inv.followers h) id
  cases a with
  | restart => exact ⟨down, .of_not_leader (fun e he => by cases he), followers⟩
  | staleLease epoch =>
    simp only [statusUpdates]
    split
    next fenced =>
      obtain ⟨v, fence⟩ := isSome_iff_exists.mp fenced
      cases hstep
      exact ⟨.of_expiry (handleStaleLease_status _ epoch fence), inv.data, followers⟩
    next => exact ⟨down, inv.data, followers⟩
  | enterCatchup => exact ⟨down, inv.data, followers⟩
  | _ =>
    simp only [statusUpdates]
    split
    · exact ⟨down, inv.data, followers⟩
    · exact ⟨down, inv.data, followers⟩

theorem FenceInv.dataStep (inv : FenceInv n d) {b : DataShardAction}
    (above : ∀ now, b = .statusUpdate now →
      ∀ e' ∈ d.updates.head?.bind fun v => v.raw.ledEpoch, ∀ e ∈ d.fenced, e < e')
    (hstep : d.step cfg b = some d') : FenceInv n d' := by
  cases b with
  | statusUpdate now =>
    simp only [DataShard.step] at hstep
    split at hstep
    next => cases hstep
    next v rest sent =>
      cases hstep
      have above := above now rfl
      rw [sent] at above
      exact ⟨inv.zero, .of_above above, inv.followers⟩
  | updateLost =>
    cases hstep
    exact ⟨inv.zero, inv.data, inv.followers⟩
  | staleLease now epoch =>
    obtain ⟨v, fence, rfl⟩ := map_eq_some_iff.mp hstep
    have expiry := staleLeaseFence_expiry fence
    exact ⟨inv.zero, .of_expiry expiry, inv.followers⟩
  | enterCatchup now =>
    obtain ⟨v, marks, rfl⟩ := map_eq_some_iff.mp hstep
    have not := markCatchingUp_not_leader marks
    exact ⟨inv.zero, .of_not_leader not, inv.followers⟩

end Steps

/-- **A stale-lease fence is sticky.** In every run that revives no fenced leadership, shard 0 and
the data shard are never again effectively leader at an epoch they were fenced at, or below it. -/
theorem stale_fence_sticky {cfg : NodeConfig} {w : ElectionWorld} {history : NodeHistory}
    {s : NodeBeside DataShard}
    (run : Reaches (NodeBeside.step cfg (statusUpdates cfg)) RevivesNoFenced
      (.boot w history ⟨.createBootCatchup, [], [], []⟩) s) {now : ℕ} (clock : 0 < now) :
    (∀ e ∈ s.beside.fencedZero, ∀ e', s.node.status.effectiveNodeStatus now = .leader e' → e < e') ∧
      ∀ e ∈ s.beside.fenced, ∀ e', s.beside.cell.effectiveNodeStatus now = .leader e' → e < e' := by
  have inv := NodeBeside.invariant (I := FenceInv) (fun s now a w' n' inv above hstep =>
    inv.node above hstep) (fun s b d' inv above hstep => ?_) run ?_
  · exact ⟨fun e mem e' leads => inv.zero.effective clock mem leads,
      fun e mem e' leads => inv.data.effective clock mem leads⟩
  · refine inv.dataStep (fun now eq => ?_) hstep
    subst eq
    exact above
  · exact ⟨.of_not_leader (fun e he => by cases he), .of_not_leader (fun e he => by cases he),
      fun h mem => by cases mem⟩

/-- The node leads epoch 5, the data shard has heard of it, a heartbeat is on its way, and at 2100
both shards are told of epoch 6. -/
def fenceBoth : List (BesideAction DataShardAction) :=
  bootAsLeader 2000 ++ [.beside (.statusUpdate 2000), .beside (.statusUpdate 2000)] ++
    tasks 2100 [.orchestrate, .sendHeartbeat, .staleLease 6] ++ [.beside (.staleLease 2100 6)]

theorem stale_fence_sticky_fenceBoth :
    ∃ s, Reaches (NodeBeside.step soloConfig (statusUpdates soloConfig)) RevivesNoFenced
        (.boot peerLease ⟨[], [], [], [], []⟩ ⟨.createBootCatchup, [], [], []⟩) s ∧
      s.beside.fencedZero = [5] ∧ s.beside.fenced = [5] ∧
      s.node.status.effectiveNodeStatus 2100 ≠ .leader 5 ∧
      s.beside.cell.effectiveNodeStatus 2100 ≠ .leader 5 := by
  obtain ⟨s, run, zero, data⟩ : ∃ s, Reaches (NodeBeside.step soloConfig (statusUpdates soloConfig))
      RevivesNoFenced (.boot peerLease ⟨[], [], [], [], []⟩ ⟨.createBootCatchup, [], [], []⟩) s ∧
      s.beside.fencedZero = [5] ∧ s.beside.fenced = [5] :=
        exists_of_exec fenceBoth (by decide +kernel)
  obtain ⟨downZero, downData⟩ := stale_fence_sticky run (show 0 < 2100 by decide)
  rw [zero] at downZero
  rw [data] at downData
  refine ⟨s, run, zero, data, fun leads => ?_, fun leads => ?_⟩
  · exact absurd (downZero 5 (List.mem_singleton.mpr rfl) 5 leads) (Nat.lt_irrefl 5)
  · exact absurd (downData 5 (List.mem_singleton.mpr rfl) 5 leads) (Nat.lt_irrefl 5)

/-- The acknowledgement arrives, shard 0 refreshes its status and broadcasts it: both shards lead
the epoch they were fenced at. -/
theorem heartbeat_ack_revives_fenced :
    ∃ s, Reaches (NodeBeside.step soloConfig (statusUpdates soloConfig)) Always
        (.boot peerLease ⟨[], [], [], [], []⟩ ⟨.createBootCatchup, [], [], []⟩) s ∧
      (s.beside.fencedZero, s.beside.fenced, s.node.status.effectiveNodeStatus 2150,
        s.beside.cell.effectiveNodeStatus 2150) = ([5], [5], .leader 5, .leader 5) := by
  let actions : List (BesideAction DataShardAction) :=
    fenceBoth ++ tasks 2150 [.heartbeatReply .ack 1] ++ [.beside (.statusUpdate 2150)]
  exact exists_of_exec actions (by decide +kernel)

end Celeriant
