import Celeriant.Distributed.NodeEffects

/-!
# A takeover runs the promotion

A node that wins the lease of another node has to pass through `Promoting` and finish an S3 catchup
under that role before it is `Leader`: the peer may have acknowledged entries that are only in S3.
`set_node_role_via_s3` does so when the raw status was not `Leader` at its entry. The elections that
are entered elsewhere install what they get: the on-demand renewal, the renewal of a running
promotion when it is superseded, and `set_node_role_via_s3` itself while the raw status still reads
`Leader`. One that takes over the peer's lease there skips the promotion.

The system is one node, the lease object, and any number of other nodes whose elections interleave
with the node's steps. Every clock reading is arbitrary. An election can only make its node leader
of an epoch that it wrote or read back as the node's own (`CallYields`), so the condition on the
store's answers bounds what the elections outside the promotion return. From the moment the outcome
is applied to the flip, only the loop writes `Promoting` (`PointKept`).

## Main results

* `tookOver_of_append`: an epoch is taken over at most once, when its first lease is stored
* `NodeInv.node`, `NodeInv.setCall`: a step of the node and a step of a call keep the invariant
* `NodeInv.held_backed`: an outcome at hand is backed by a stored lease
-/

namespace Celeriant

open Transition Option

/-- One node among the elections of all. -/
structure NodeWorld where
  world : ElectionWorld
  node : NodeState

/-- A step of the node, of S3, or of another node's election. -/
inductive NodeWorldAction
  | node (now : ℕ) (a : NodeAction)
  | serve (id : CallId) (service : Service)
  | serveMembership (id : CallId) (result : Except LeaseStoreError (Option Membership))
  | peerBegin (id : CallId) (cfg : S3LeaseConfig) (clock : ℕ)
  | peerResume (id : CallId) (clock : ℕ)

namespace NodeWorld

def initial : NodeWorld := ⟨.initial, .initial⟩

def stepWorld (s : NodeWorld) (a : ElectionAction) : Option NodeWorld :=
  (s.world.step a).map fun world => { s with world }

/-- The node or one of the elections. -/
def step (cfg : NodeConfig) (s : NodeWorld) : NodeWorldAction → Option NodeWorld
  | .node now a => (s.node.step cfg now s.world a).map fun (world, node) => ⟨world, node⟩
  | .serve id service => s.stepWorld (.serve id service)
  | .serveMembership id result => s.stepWorld (.serveMembership id result)
  | .peerBegin id peer clock =>
    if peer.nodeId ≠ cfg.nodeId then s.stepWorld (.begin id peer clock) else none
  | .peerResume id clock =>
    match s.world.calls id with
    | some call => if call.cfg.nodeId ≠ cfg.nodeId then s.stepWorld (.resume id clock) else none
    | none => none

end NodeWorld

/-! ## Epochs won over a peer -/

section Epochs

variable (leases : List Lease) (nodeId : NodeId) (e : ℕ)

/-- Stored lease number `k + 1` is the node's, with epoch `e`, and the one before is another's. -/
def TookOver (k : ℕ) : Prop :=
  ∃ previous ∈ leases[k]?, ∃ won ∈ leases[k + 1]?,
    won.leaseEpoch = e ∧ won.leaderNodeId = nodeId ∧ previous.leaderNodeId ≠ nodeId
  deriving Decidable

/-- The epoch of the first lease ever stored. -/
def FirstEpoch : Prop := ∃ first ∈ leases.head?, first.leaseEpoch = e
  deriving Decidable

def StoredEpochOf : Prop := ∃ l ∈ leases, l.leaderNodeId = nodeId ∧ l.leaseEpoch = e

/-- Whenever the node took the epoch over, an event of the epoch has followed. -/
def Since (events : List (ℕ × ℕ)) : Prop :=
  ∀ k, TookOver leases nodeId e k → ∃ m, k + 1 < m ∧ (e, m) ∈ events

end Epochs

/-- Epochs the node may take without a promotion: it has led them, or no lease was before them. -/
def NodeState.Entitled (n : NodeState) (leases : List Lease) (e : ℕ) : Prop :=
  e ∈ n.history.led ∨ FirstEpoch leases e
  deriving Decidable

/-- The call is an on-demand renewal, or an election entered while the raw status was `Leader`. -/
def NodeState.leaderCall (n : NodeState) (id : CallId) : Bool :=
  n.renewal = some id ||
    match n.point with
    | .electing _ previous id' => previous.raw.isLeader && id' = id
    | _ => false

/-- The call renews the lease of a running promotion. -/
def NodeState.promotionCall (n : NodeState) (id : CallId) : Bool :=
  match n.point with
  | .renewingPromotion _ _ id' => id' = id
  | _ => false

/-- The condition on a step: an election of a leader does not get an epoch the node is not entitled
to, neither by a write that S3 accepts and confirms nor by reading it back after a lost write; the
renewal of a promotion does not get its write accepted over another node's lease; and an election
entered by a node that is not leader hands its outcome over before the won lease decays. -/
def KeepsWindow (s : NodeWorld) : NodeWorldAction → Prop
  | .serve id (.served _) =>
    match s.world.calls id with
    | some ⟨_, .putLeaseConditional next etag isOwnLease, none⟩ =>
      s.world.object.admits (.ifMatch etag) = true →
        (s.node.leaderCall id = true → s.node.Entitled s.world.storedLeases next.leaseEpoch) ∧
          (s.node.promotionCall id = true → isOwnLease = true)
    | _ => True
  | .node now (.resumeElection id) =>
    match s.world.calls id with
    | some ⟨cfg, .getLeaseAfterPreconditionFailed, some (.lease (.ok (some lwe)))⟩ =>
      s.node.leaderCall id = true → lwe.lease.leaderNodeId = cfg.nodeId →
        lwe.lease.isExpired now = false → s.node.Entitled s.world.storedLeases lwe.lease.leaseEpoch
    | _ => True
  | .node now .applyElection =>
    match s.node.point with
    | .elected _ previous outcome =>
      match outcome.status.raw with
      | .leader e =>
        previous.raw.isLeader = false → outcome.status.mustFence now = true →
          s.node.Entitled s.world.storedLeases e
      | _ => True
    | _ => True
  | _ => True

instance : DecidableRel KeepsWindow := fun s a => by
  unfold KeepsWindow
  repeat' split
  all_goals infer_instance

/-! ## Facts about stored epochs -/

section EpochFacts

variable {leases suffix : List Lease} {nodeId : NodeId} {e k : ℕ}

theorem TookOver.lt_length (h : TookOver leases nodeId e k) : k + 1 < leases.length := by
  obtain ⟨-, -, won, hwon, -⟩ := h
  exact (List.getElem?_eq_some_iff.mp hwon).1

/-- A lease at or before the peer's lease that a takeover replaced does not have its epoch. -/
theorem TookOver.epoch_ne (ordered : leases.Pairwise Lease.Precedes)
    (h : TookOver leases nodeId e k) {j} (hj : j ≤ k) {l} (hl : leases[j]? = some l) :
    l.leaseEpoch ≠ e := by
  obtain ⟨previous, hprevious, won, hwon, rfl, named, other⟩ := h
  have precedes : ∀ {i j : ℕ} {a b : Lease}, i < j → leases[i]? = some a → leases[j]? = some b →
      a.Precedes b := by
    intro i j a b lt ha hb
    obtain ⟨hi, rfl⟩ := List.getElem?_eq_some_iff.mp ha
    obtain ⟨hj, rfl⟩ := List.getElem?_eq_some_iff.mp hb
    exact List.pairwise_iff_getElem.mp ordered i j hi hj lt
  have last := precedes (Nat.lt_succ_self k) hprevious hwon
  -- epochs do not fall, and an epoch shared with the winner would name the winner
  intro eq
  have le : l.leaseEpoch ≤ previous.leaseEpoch := by
    rcases Nat.lt_or_eq_of_le hj with lt | rfl
    · exact (precedes lt hl hprevious).1
    · rw [hl] at hprevious
      exact (Option.some.inj hprevious) ▸ le_rfl
  exact other ((last.2 (le_antisymm last.1 (eq ▸ le))).trans named)

/-- No takeover of an epoch happens once a lease of it is stored. -/
theorem tookOver_of_append (ordered : (leases ++ suffix).Pairwise Lease.Precedes)
    (stored : StoredEpochOf leases nodeId e) (h : TookOver (leases ++ suffix) nodeId e k) :
    TookOver leases nodeId e k := by
  obtain ⟨l, hl, -, epoch⟩ := stored
  obtain ⟨j, hj, rfl⟩ := List.mem_iff_getElem.mp hl
  have hj' : (leases ++ suffix)[j]? = some leases[j] := by
    rw [List.getElem?_append_left hj]
    exact List.getElem?_eq_getElem hj
  have lt : k < j := Nat.lt_of_not_le fun le => h.epoch_ne ordered le hj' epoch
  obtain ⟨previous, hprevious, won, hwon, rest⟩ := h
  rw [List.getElem?_append_left (by omega)] at hprevious hwon
  exact ⟨previous, hprevious, won, hwon, rest⟩

theorem not_tookOver_of_firstEpoch (ordered : leases.Pairwise Lease.Precedes)
    (first : FirstEpoch leases e) : ¬ TookOver leases nodeId e k := by
  intro h
  obtain ⟨l, hl, epoch⟩ := first
  refine h.epoch_ne ordered (Nat.zero_le k) ?_ epoch
  rw [← List.head?_eq_getElem?]
  exact hl

theorem FirstEpoch.append (h : FirstEpoch leases e) : FirstEpoch (leases ++ suffix) e := by
  obtain ⟨first, hfirst, epoch⟩ := h
  cases leases with
  | nil => cases hfirst
  | cons l rest => exact ⟨first, hfirst, epoch⟩

theorem StoredEpochOf.append (h : StoredEpochOf leases nodeId e) :
    StoredEpochOf (leases ++ suffix) nodeId e := by
  obtain ⟨l, hl, rest⟩ := h
  exact ⟨l, List.mem_append_left _ hl, rest⟩

variable {events : List (ℕ × ℕ)}

/-- An event that is recorded now follows every takeover so far. -/
theorem since_of_mem (h : (e, leases.length) ∈ events) :
    Since leases nodeId e events :=
  fun _ took => ⟨leases.length, took.lt_length, h⟩

theorem Since.mono {events'} (h : Since leases nodeId e events)
    (grow : events ⊆ events') : Since leases nodeId e events' := by
  intro k took
  obtain ⟨m, lt, mem⟩ := h k took
  exact ⟨m, lt, grow mem⟩

theorem Since.append
    (ordered : (leases ++ suffix).Pairwise Lease.Precedes) (stored : StoredEpochOf leases nodeId e)
    (h : Since leases nodeId e events) : Since (leases ++ suffix) nodeId e events :=
  fun k took => h k (tookOver_of_append ordered stored took)

end EpochFacts

/-! ## Status and history -/

/-- Histories only grow. -/
structure NodeHistory.Grows (h h' : NodeHistory) : Prop where
  led : h.led ⊆ h'.led
  promoted : h.promoted ⊆ h'.promoted
  caught : h.caught ⊆ h'.caught

theorem NodeHistory.Grows.refl (h : NodeHistory) : h.Grows h :=
  ⟨List.Subset.refl _, List.Subset.refl _, List.Subset.refl _⟩

theorem NodeHistory.grows_noteStatus (h : NodeHistory) (stored : ℕ) (status : NodeStatus) :
    h.Grows (h.noteStatus stored status) := by
  cases status with
  | leader e => exact ⟨List.subset_cons_self _ _, List.Subset.refl _, List.Subset.refl _⟩
  | promoting e => exact ⟨List.Subset.refl _, List.subset_cons_self _ _, List.Subset.refl _⟩
  | _ => exact .refl h

theorem NodeHistory.Notes.grows {h h' : NodeHistory} (notes : h.Notes h') : h.Grows h' :=
  ⟨notes.led ▸ List.Subset.refl _, notes.promoted ▸ List.Subset.refl _, notes.caught⟩

theorem StatusChange.grows {cfg : NodeConfig} {now w n n'}
    {a} (h : StatusChange cfg now w n a n') : n.history.Grows n'.history := by
  cases h with
  | kept _ _ notes | restarted _ _ _ notes => exact notes.grows
  | @wrote _ v _ _ _ notes =>
    have noted := n.history.grows_noteStatus w.storedLeases.length v.status
    have rest := notes.grows
    exact ⟨fun _ x => rest.led (noted.led x), fun _ x => rest.promoted (noted.promoted x),
      fun _ x => rest.caught (noted.caught x)⟩

/-- The node holds a lease of the epoch, and has done for it what a takeover asks for. -/
structure Earned (leases : List Lease) (nodeId : NodeId) (h : NodeHistory) (e : ℕ) : Prop where
  stored : StoredEpochOf leases nodeId e
  promoted : Since leases nodeId e h.promoted
  caught : Since leases nodeId e h.caught

/-- The invariant of the status cell: every epoch led is earned, and a promotion is recorded. -/
structure StatusInv (leases : List Lease) (nodeId : NodeId) (n : NodeState) : Prop where
  earned : ∀ e ∈ n.history.led, Earned leases nodeId n.history e
  leader : ∀ e, n.status.raw = .leader e → e ∈ n.history.led
  promoting : ∀ e, n.status.raw = .promoting e →
    StoredEpochOf leases nodeId e ∧ Since leases nodeId e n.history.promoted
  /-- Heartbeat handlers are on their way to a follower state. -/
  handlers : ∀ h ∈ n.handlers, h.rawStatus.isAnyFollowerState = true

section Status

variable {leases suffix : List Lease} {nodeId : NodeId} {n n' : NodeState} {e : ℕ}

theorem Earned.mono {h h'} (earned : Earned leases nodeId h e) (grows : h.Grows h') :
    Earned leases nodeId h' e :=
  ⟨earned.stored, earned.promoted.mono grows.promoted, earned.caught.mono grows.caught⟩

theorem Earned.append {h} (ordered : (leases ++ suffix).Pairwise Lease.Precedes)
    (earned : Earned leases nodeId h e) : Earned (leases ++ suffix) nodeId h e :=
  ⟨earned.stored.append, earned.promoted.append ordered earned.stored,
    earned.caught.append ordered earned.stored⟩

namespace StatusInv

variable (inv : StatusInv leases nodeId n)
include inv

/-- An epoch the node is entitled to is earned once a lease of it is stored. -/
theorem earned_of_entitled
    (ordered : leases.Pairwise Lease.Precedes) (stored : StoredEpochOf leases nodeId e)
    (h : n.Entitled leases e) : Earned leases nodeId n.history e := by
  rcases h with led | first
  · exact inv.earned e led
  · exact ⟨stored, fun k took => absurd took (not_tookOver_of_firstEpoch ordered first),
      fun k took => absurd took (not_tookOver_of_firstEpoch ordered first)⟩

/-- More stored leases keep the invariant. -/
theorem append (ordered : (leases ++ suffix).Pairwise Lease.Precedes) :
    StatusInv (leases ++ suffix) nodeId n where
  earned := fun e led => (inv.earned e led).append ordered
  leader := inv.leader
  promoting := fun e he => by
    obtain ⟨stored, promoted⟩ := inv.promoting e he
    exact ⟨stored.append, promoted.append ordered stored⟩
  handlers := inv.handlers

/-- A step that does not write the status, and only adds to the history. -/
theorem moved (status : n'.status.raw = n.status.raw) (notes : n.history.Notes n'.history)
    (handlers : ∀ h ∈ n'.handlers, h ∈ n.handlers ∨ h.rawStatus.isAnyFollowerState = true) :
    StatusInv leases nodeId n' where
  earned := fun e he => (inv.earned e (notes.led ▸ he)).mono notes.grows
  leader := fun e he => notes.led ▸ inv.leader e (status ▸ he)
  promoting := fun e he => by
    obtain ⟨stored, promoted⟩ := inv.promoting e (status ▸ he)
    exact ⟨stored, notes.promoted ▸ promoted⟩
  handlers := fun h hh => (handlers h hh).elim (inv.handlers h) id

end StatusInv

variable {v : ValidatedNodeStatus}

namespace StatusInv

variable (inv : StatusInv leases nodeId n)
include inv

/-- **Writing the status** keeps the invariant when a leader status is earned and a promoting one is
stored. -/
theorem setStatus (now : ℕ) (leader : ∀ e, v.status = .leader e → Earned leases nodeId n.history e)
    (promoting : ∀ e, v.status = .promoting e → StoredEpochOf leases nodeId e) :
    StatusInv leases nodeId (n.setStatus now leases.length v) := by
  have grows := n.history.grows_noteStatus leases.length v.status
  have led : ∀ e ∈ (n.history.noteStatus leases.length v.status).led,
      e ∈ n.history.led ∨ v.status = .leader e := by
    intro e he
    unfold NodeHistory.noteStatus at he
    split at he
    next e' hstatus =>
      rcases List.mem_cons.mp he with rfl | he
      · exact .inr hstatus
      · exact .inl he
    all_goals exact .inl he
  constructor
  case earned =>
    intro e he
    rcases led e he with he | he
    · exact (inv.earned e he).mono grows
    · exact (leader e he).mono grows
  case leader =>
    intro e he
    rw [NodeState.setStatus_raw] at he
    show e ∈ (n.history.noteStatus leases.length v.status).led
    rw [he]
    exact List.mem_cons_self
  case promoting =>
    intro e he
    rw [NodeState.setStatus_raw] at he
    refine ⟨promoting e he, since_of_mem ?_⟩
    show (e, leases.length) ∈ (n.history.noteStatus leases.length v.status).promoted
    rw [he]
    exact List.mem_cons_self
  case handlers => exact inv.handlers

/-- Statuses that are neither leader nor promoting are written freely. -/
theorem setPassive (now : ℕ) (passive : v.status.leaseEpoch = none) :
    StatusInv leases nodeId (n.setStatus now leases.length v) :=
  inv.setStatus now (fun e he => by rw [he] at passive; cases passive)
    (fun e he => by rw [he] at passive; cases passive)

/-- Refreshing the expiry of the present role keeps the invariant. -/
theorem refresh (now : ℕ)
    (same : v.status = n.status.raw) : StatusInv leases nodeId (n.setStatus now leases.length v) :=
  inv.setStatus now (fun e he => inv.earned e (inv.leader e (same ▸ he)))
    (fun e he => (inv.promoting e (same ▸ he)).1)

end StatusInv

end Status

/-! ## What a call can make of its node -/

/-- Every leader outcome of the call, present or to come from its last reply, has `P` of its epoch
and of whether the lease was the node's own. -/
structure CallYields (P : ℕ → Bool → Prop) (call : ElectionCall) : Prop where
  point : match call.point with
    | .discoverPeer (.leader e) _ reacquired _ => P e reacquired
    | .done (.ok o) => ∀ e, o.status.raw = .leader e → P e o.reacquiredOwnLease
    | _ => True
  reply : match call.point, call.reply with
    | .putLeaseCreateOnly lease, some (.put (.ok _)) => P lease.leaseEpoch false
    | .putLeaseConditional next _ isOwnLease, some (.put (.ok _)) => P next.leaseEpoch isOwnLease
    | _, _ => True

section Yields

variable {P Q : ℕ → Bool → Prop} {cfg : S3LeaseConfig} {point : ElectionPoint}

theorem CallYields.mono (weaken : ∀ e r, P e r → Q e r) {call} (h : CallYields P call) :
    CallYields Q call := by
  obtain ⟨hpoint, hreply⟩ := h
  constructor
  · split at hpoint
    · exact weaken _ _ hpoint
    · exact fun e he => weaken _ _ (hpoint e he)
    · trivial
  · split at hreply
    · exact weaken _ _ hreply
    · exact weaken _ _ hreply
    · trivial

theorem callYields_start (now : ℕ) : CallYields P ⟨cfg, .start now, none⟩ := ⟨trivial, trivial⟩

/-- Resuming a call: a new epoch only comes from the lease read back after a lost write. -/
theorem CallYields.resume {reply clock} (h : CallYields P ⟨cfg, point, some reply⟩)
    (reread : ∀ lwe, point = .getLeaseAfterPreconditionFailed → reply = .lease (.ok (some lwe)) →
      lwe.lease.leaderNodeId = cfg.nodeId → lwe.lease.isExpired clock = false →
        P lwe.lease.leaseEpoch true) :
    CallYields P ⟨cfg, point.resume cfg clock reply, none⟩ := by
  obtain ⟨hpoint, hreply⟩ := h
  unfold ElectionPoint.resume
  split
  case h_2 now found =>
    cases found with
    | none => exact ⟨trivial, trivial⟩
    | some lwe =>
      simp only [ElectionPoint.onLease]
      split <;> exact ⟨trivial, trivial⟩
  case h_3 lease etag => exact ⟨hreply, trivial⟩
  case h_9 next etag own etag' => exact ⟨hreply, trivial⟩
  case h_13 found =>
    cases found with
    | none => exact ⟨trivial, trivial⟩
    | some lwe =>
      simp only [ElectionPoint.onReread]
      split
      next ours =>
        simp only [Bool.and_eq_true, beq_iff_eq, Bool.not_eq_true'] at ours
        exact ⟨reread lwe rfl rfl ours.1 ours.2, trivial⟩
      · exact ⟨trivial, trivial⟩
  case h_14 status expires reacquired written result =>
    refine ⟨fun e he => ?_, trivial⟩
    change status = .leader e at he
    rw [he] at hpoint
    exact hpoint
  all_goals exact ⟨trivial, trivial⟩

/-- A put that reports success was served, admitted and stored. -/
theorem servePut_ok {o o' id condition lease} {service tag}
    (h : servePut o id condition lease service = some (o', .put (.ok tag))) :
    service = .served tag ∧ o.admits condition = true ∧
      o'.versions = o.versions ++ [⟨lease, tag, id⟩] := by
  cases service with
  | served etag =>
    obtain ⟨⟨o₁, accepted⟩, hput, heq⟩ := map_eq_some_iff.mp h
    rcases CasObject.put_cases hput with ⟨rfl, rfl⟩ | ⟨rfl, admitted, versions⟩
    · cases heq
    · cases heq
      exact ⟨rfl, admitted, versions⟩
  | lostBefore message => cases h
  | lostAfter etag message =>
    obtain ⟨⟨o₁, accepted⟩, -, heq⟩ := map_eq_some_iff.mp h
    cases heq

/-- Serving a call: a new epoch comes from a write that is accepted and confirmed. -/
theorem CallYields.serve {o o' id service reply}
    (h : CallYields P ⟨cfg, point, none⟩) (hs : serve o id point service = some (o', reply))
    (created : ∀ lease : Lease, FirstEpoch (o'.versions.map Version.value) lease.leaseEpoch →
      P lease.leaseEpoch false)
    (accepted : ∀ next etag own tag, point = .putLeaseConditional next etag own →
      service = .served tag → o.admits (.ifMatch etag) = true → P next.leaseEpoch own) :
    CallYields P ⟨cfg, point, some reply⟩ := by
  refine ⟨h.point, ?_⟩
  dsimp only
  split
  next lease tag heq =>
    obtain ⟨-, admitted, versions⟩ := servePut_ok (some.inj heq ▸ hs)
    refine created lease ⟨lease, ?_, rfl⟩
    rw [versions, CasObject.admits_createOnly admitted]
    rfl
  next next etag own tag heq =>
    obtain ⟨served, admitted, -⟩ := servePut_ok (some.inj heq ▸ hs)
    exact accepted next etag own tag rfl served admitted
  next => trivial

end Yields

/-! ## The invariant -/

section Invariant

variable (leases : List Lease) (cfg : NodeConfig) (n : NodeState)

/-- A role change in progress: its outcome is stored, and one that does not promote leads only where
the node is entitled to. -/
structure ChangeInv (c : RoleChange) : Prop where
  backed : c.outcome.Backed leases cfg.s3Lease
  kept : c.becameLeader = false → ∀ e, c.outcome.status.raw = .leader e → n.Entitled leases e

/-- A status that still reads `Promoting` has been caught up at its epoch. -/
def CaughtUp : Prop :=
  ∀ e, n.status.raw = .promoting e → Since leases cfg.nodeId e n.history.caught

def PointKept : OrchestratorPoint → Prop
  | .elected _ previous outcome =>
    outcome.Backed leases cfg.s3Lease ∧ (previous.raw.isLeader = true →
      ∀ e, outcome.status.raw = .leader e → n.Entitled leases e)
  | .resumeChecking c | .reconciling c => ChangeInv leases cfg n c
  | .betweenAttempts purpose _ | .renewingPromotion purpose _ _ =>
    ∀ c ∈ purpose, ChangeInv leases cfg n c
  | .enteringCatchup purpose _ entered _ | .attempting purpose _ entered _ =>
    (∀ c ∈ purpose, ChangeInv leases cfg n c) ∧
      ∀ e, n.status.raw = .promoting e → entered = .promoting e
  | .flipping c =>
    ChangeInv leases cfg n c ∧ (c.becameLeader = true → CaughtUp leases cfg n)
  | .installed c _ => c.outcome.Backed leases cfg.s3Lease
  | _ => True

end Invariant

/-- What holds of the node, its calls and the leases. -/
structure NodeInv (cfg : NodeConfig) (s : NodeWorld) : Prop where
  election : ElectionInv s.world
  outcomes : OutcomeInv s.world
  status : StatusInv s.world.storedLeases cfg.nodeId s.node
  awaited : ∀ id, s.node.Awaits id →
    ∃ call, s.world.calls id = some call ∧ call.cfg = cfg.s3Lease
  leaderCall : ∀ id call, s.node.leaderCall id = true → s.world.calls id = some call →
    CallYields (fun e _ => s.node.Entitled s.world.storedLeases e) call
  promotionCall : ∀ id call, s.node.promotionCall id = true → s.world.calls id = some call →
    CallYields (fun e reacquired => reacquired = true ∨ FirstEpoch s.world.storedLeases e) call
  point : PointKept s.world.storedLeases cfg s.node s.node.point

theorem nodeInv_initial (cfg : NodeConfig) : NodeInv cfg .initial where
  election := electionInv_initial
  outcomes := outcomeInv_initial
  status :=
    { earned := fun _ h => by cases h
      leader := fun _ h => by cases h
      promoting := fun _ h => by cases h
      handlers := fun _ h => by cases h }
  awaited := fun _ h => by rcases h with h | h <;> cases h
  leaderCall := fun _ _ h => by cases h
  promotionCall := fun _ _ h => by cases h
  point := trivial

section Keeping

variable {leases suffix : List Lease} {cfg : NodeConfig} {n n' : NodeState}

theorem entitled_mono (grows : n.history.Grows n'.history) {e} (h : n.Entitled leases e) :
    n'.Entitled leases e :=
  h.imp_left fun led => grows.led led

theorem ChangeInv.mono {c} (h : ChangeInv leases cfg n c)
    (grows : n.history.Grows n'.history) : ChangeInv leases cfg n' c :=
  ⟨h.backed, fun keeps e he => entitled_mono grows (h.kept keeps e he)⟩

theorem ChangeInv.append {c} (h : ChangeInv leases cfg n c) :
    ChangeInv (leases ++ suffix) cfg n c :=
  ⟨h.backed.mono (List.subset_append_left _ _),
    fun keeps e he => (h.kept keeps e he).imp_right FirstEpoch.append⟩

variable {p : OrchestratorPoint}

/-- The points where the loop writes `Promoting` next. -/
def OrchestratorPoint.opens : OrchestratorPoint → Bool
  | .elected _ _ _ | .renewingPromotion _ _ _ => true
  | _ => false

/-- What is known of the loop's point stays while no other task starts a promotion. -/
theorem PointKept.mono (h : PointKept leases cfg n p) (grows : n.history.Grows n'.history)
    (promoting : ∀ e, n'.status.raw = .promoting e → n.status.raw = .promoting e ∨ p.opens = true) :
    PointKept leases cfg n' p := by
  cases p with
  | elected reason previous outcome =>
    exact ⟨h.1, fun was e he => entitled_mono grows (h.2 was e he)⟩
  | resumeChecking c => exact ChangeInv.mono h grows
  | reconciling c => exact ChangeInv.mono h grows
  | betweenAttempts | renewingPromotion => exact fun c hc => (h c hc).mono grows
  | enteringCatchup | attempting =>
    exact ⟨fun c hc => (h.1 c hc).mono grows,
      fun e he => h.2 e ((promoting e he).resolve_right Bool.false_ne_true)⟩
  | flipping c =>
    refine ⟨h.1.mono grows, fun won e he => Since.mono ?_ grows.caught⟩
    exact h.2 won e ((promoting e he).resolve_right Bool.false_ne_true)
  | installed c _ => exact h
  | _ => trivial

theorem PointKept.append (h : PointKept leases cfg n p)
    (status : StatusInv leases cfg.nodeId n)
    (ordered : (leases ++ suffix).Pairwise Lease.Precedes) :
    PointKept (leases ++ suffix) cfg n p := by
  cases p with
  | elected reason previous outcome =>
    exact ⟨h.1.mono (List.subset_append_left _ _),
      fun was e he => (h.2 was e he).imp_right FirstEpoch.append⟩
  | resumeChecking c => exact ChangeInv.append h
  | reconciling c => exact ChangeInv.append h
  | betweenAttempts | renewingPromotion => exact fun c hc => (h c hc).append
  | enteringCatchup | attempting =>
    exact ⟨fun c hc => (h.1 c hc).append, h.2⟩
  | flipping c =>
    exact ⟨h.1.append, fun won e he =>
      (h.2 won e he).append ordered (status.promoting e he).1⟩
  | installed c _ => exact ElectionOutcome.Backed.mono (List.subset_append_left _ _) h
  | _ => trivial

theorem PointKept.backed (h : PointKept leases cfg n p) {o}
    (carries : p.outcome = some o) : o.Backed leases cfg.s3Lease := by
  cases p with
  | elected => cases carries; exact h.1
  | resumeChecking | reconciling => cases carries; exact ChangeInv.backed h
  | betweenAttempts | renewingPromotion =>
    obtain ⟨c, hc, rfl⟩ := map_eq_some_iff.mp carries
    exact (h c hc).backed
  | enteringCatchup | attempting =>
    obtain ⟨c, hc, rfl⟩ := map_eq_some_iff.mp carries
    exact (h.1 c hc).backed
  | flipping => cases carries; exact h.1.backed
  | installed => cases carries; exact h
  | _ => cases carries

/-- A promotion always catches up before the flip. -/
theorem afterReconcile_kept {c} (h : ChangeInv leases cfg n c) : PointKept leases cfg n
    (if c.needsCatchup then .betweenAttempts (some c) .new else .flipping c) := by
  split
  · exact fun _ hc => mem_some.mp hc ▸ h
  next due =>
    refine ⟨h, fun won => absurd ?_ due⟩
    simp [RoleChange.needsCatchup, RoleChange.flags, promotionCullFlags, won]

theorem pipeline_kept {c} (h : ChangeInv leases cfg n c) :
    PointKept leases cfg n c.pipeline := by
  unfold RoleChange.pipeline
  split
  · exact h
  · exact afterReconcile_kept h

end Keeping

/-! ## Steps beside the election calls -/

section Calls

variable {w w' : ElectionWorld} {cfg : NodeConfig} {n n' : NodeState} {id : CallId}

theorem awaits_of_leaderCall (h : n.leaderCall id = true) : n.Awaits id := by
  rcases Bool.or_eq_true_iff.mp h with h | h
  · exact .inr (of_decide_eq_true h)
  · split at h
    next hpoint =>
      simp only [Bool.and_eq_true, decide_eq_true_eq] at h
      exact .inl (by rw [hpoint, ← h.2]; rfl)
    next => cases h

theorem awaits_of_promotionCall (h : n.promotionCall id = true) : n.Awaits id := by
  unfold NodeState.promotionCall at h
  split at h
  next hpoint => exact .inl (by rw [hpoint, ← of_decide_eq_true h]; rfl)
  next => cases h

/-- A step of the node that leaves the world: every call it now waits for, it waited for before in
the same way, or has just begun. -/
theorem NodeInv.node (inv : NodeInv cfg ⟨w, n⟩) (status : StatusInv w.storedLeases cfg.nodeId n')
    (grows : n.history.Grows n'.history)
    (awaits : ∀ id, n'.Awaits id → n.Awaits id ∨ Begun w cfg id)
    (leader : ∀ id, n'.leaderCall id = true → n.leaderCall id = true ∨ Begun w cfg id)
    (promotion : ∀ id, n'.promotionCall id = true → n.promotionCall id = true ∨ Begun w cfg id)
    (point : PointKept w.storedLeases cfg n' n'.point) : NodeInv cfg ⟨w, n'⟩ where
  election := inv.election
  outcomes := inv.outcomes
  status := status
  awaited := fun id hid => by
    rcases awaits id hid with hid | ⟨now, hcall⟩
    · exact inv.awaited id hid
    · exact ⟨_, hcall, rfl⟩
  leaderCall := fun id call hid hcall => by
    rcases leader id hid with hid | ⟨now, begun⟩
    · exact (inv.leaderCall id call hid hcall).mono fun e _ h => entitled_mono grows h
    · obtain rfl := some.inj (begun.symm.trans hcall)
      exact callYields_start now
  promotionCall := fun id call hid hcall => by
    rcases promotion id hid with hid | ⟨now, begun⟩
    · exact inv.promotionCall id call hid hcall
    · obtain rfl := some.inj (begun.symm.trans hcall)
      exact callYields_start now
  point := point

/-- A step of the world that moves one call, under its node's configuration. -/
theorem NodeInv.setCall (inv : NodeInv cfg ⟨w, n⟩) {a} (hstep : w.step a = some w')
    {call} (calls : w'.calls = Function.update w.calls id (some call))
    (leader : n.leaderCall id = true → CallYields (fun e _ => n.Entitled w'.storedLeases e) call)
    (promotion : n.promotionCall id = true →
      CallYields (fun e reacquired => reacquired = true ∨ FirstEpoch w'.storedLeases e) call) :
    NodeInv cfg ⟨w', n⟩ := by
  obtain ⟨suffix, eq⟩ := ElectionWorld.storedLeases_step hstep
  have election := inv.election.step hstep
  have ordered := election.ordered
  rw [eq] at leader promotion ordered
  constructor
  case election => exact election
  case outcomes => exact inv.outcomes.step inv.election hstep
  case status => exact eq ▸ inv.status.append ordered
  case awaited =>
    intro j hj
    obtain ⟨c, hc, own⟩ := inv.awaited j hj
    obtain ⟨c', hc', same⟩ := ElectionWorld.cfg_step hstep hc
    exact ⟨c', hc', same.trans own⟩
  case leaderCall =>
    intro j c hj hc
    rw [calls] at hc
    rw [eq]
    refine forall_setCall (Q := fun j c => n.leaderCall j = true →
      CallYields _ c) leader ?_ j c hc hj
    exact fun j _ c hc hj => (inv.leaderCall j c hj hc).mono fun e _ h =>
      h.imp_right FirstEpoch.append
  case promotionCall =>
    intro j c hj hc
    dsimp only at hc ⊢
    rw [calls] at hc
    rw [eq]
    refine forall_setCall
      (Q := fun j c => n.promotionCall j = true → CallYields _ c) promotion ?_ j c hc hj
    exact fun j _ c hc hj =>
      (inv.promotionCall j c hj hc).mono fun e _ h => h.imp_right FirstEpoch.append
  case point => exact eq ▸ inv.point.append inv.status ordered

/-- Beginning a call disturbs nothing, whoever begins it. -/
theorem NodeInv.begin (inv : NodeInv cfg ⟨w, n⟩) {caller clock}
    (unused : w.calls id = none) : NodeInv cfg ⟨w.setCall id ⟨caller, .start clock, none⟩, n⟩ := by
  have hstep : w.step (.begin id caller clock) =
      some (w.setCall id ⟨caller, .start clock, none⟩) := by
    simp only [ElectionWorld.step, unused]
  exact inv.setCall hstep rfl (fun _ => callYields_start clock) fun _ => callYields_start clock

section Summary

variable {now : ℕ} {a : NodeAction} (h : StepSummary cfg now w w' n a n')
include h

theorem StepSummary.leaderCall (leader : n'.leaderCall id = true) :
    n.leaderCall id = true ∨ Begun w' cfg id := by
  unfold NodeState.leaderCall at leader ⊢
  rw [Bool.or_eq_true_iff] at leader ⊢
  rcases leader with renewal | electing
  · exact (h.renewal id (of_decide_eq_true renewal)).imp_left fun same => .inl (decide_eq_true same)
  · have waits : n'.point.call = some id := by
      split at electing
      next hpoint => rw [hpoint, ← of_decide_eq_true (Bool.and_eq_true_iff.mp electing).2]; rfl
      next => cases electing
    rcases h.loop.call waits with same | begun
    · exact .inl (.inr (same ▸ electing))
    · exact .inr begun

theorem StepSummary.promotionCall (promotion : n'.promotionCall id = true) :
    n.promotionCall id = true ∨ Begun w' cfg id := by
  have waits : n'.point.call = some id := by
    unfold NodeState.promotionCall at promotion
    split at promotion
    next hpoint => rw [hpoint, ← of_decide_eq_true promotion]; rfl
    next => cases promotion
  refine (h.loop.call waits).imp_left fun same => ?_
  unfold NodeState.promotionCall at promotion ⊢
  exact same ▸ promotion

theorem StepSummary.storedLeases : w'.storedLeases = w.storedLeases := by
  rcases h.world with rfl | ⟨id, hstep⟩ | ⟨id, -, hstep⟩
  · rfl
  all_goals
    cases ElectionWorld.Step.of_step hstep
    rfl

end Summary

end Calls

/-! ## Installing an outcome -/

section Outcomes

variable {w : ElectionWorld} {cfg : NodeConfig} {n : NodeState} {id : CallId} {o : ElectionOutcome}

theorem electionResult_eq {result}
    (h : w.electionResult id = some result) :
    ∃ c reply, w.calls id = some ⟨c, .done result, reply⟩ := by
  unfold ElectionWorld.electionResult at h
  split at h
  next c result' reply hcall => exact ⟨c, reply, some.inj h ▸ hcall⟩
  next => cases h

theorem NodeInv.outcome_backed (inv : NodeInv cfg ⟨w, n⟩) (awaits : n.Awaits id)
    (h : w.electionResult id = some (.ok o)) : o.Backed w.storedLeases cfg.s3Lease := by
  obtain ⟨c, reply, hcall⟩ := electionResult_eq h
  obtain ⟨call, hcall', own⟩ := inv.awaited id awaits
  obtain rfl := some.inj (hcall.symm.trans hcall')
  exact own ▸ (inv.outcomes id _ hcall).point

/-- An outcome at hand is backed by a stored lease. -/
theorem NodeInv.held_backed (inv : NodeInv cfg ⟨w, n⟩) (held : n.Held w o) :
    o.Backed w.storedLeases cfg.s3Lease := by
  rcases held with carries | ⟨id, awaits, returned⟩
  · exact inv.point.backed carries
  · exact inv.outcome_backed awaits returned

theorem NodeInv.outcome_entitled (inv : NodeInv cfg ⟨w, n⟩) (leader : n.leaderCall id = true)
    (h : w.electionResult id = some (.ok o)) :
    ∀ e, o.status.raw = .leader e → n.Entitled w.storedLeases e := by
  obtain ⟨c, reply, hcall⟩ := electionResult_eq h
  exact (inv.leaderCall id _ leader hcall).point

end Outcomes

end Celeriant
