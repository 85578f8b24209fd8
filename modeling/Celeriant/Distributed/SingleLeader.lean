import Celeriant.Distributed.NodeEffects

/-!
# At most one effective leader

Two nodes share the lease object. A leader's time to live comes from the lease it stored, or from a
heartbeat that the other node acknowledged; the other node may lead only after it has outlived both.
Whether it has is decided by its own expiry, which the acknowledgements raise and other code resets:
`mark_catching_up`, which a kick leads to, a drift fence and a restart set it to zero, and the node
then challenges while the leader it acknowledged is still in its time.

A heartbeat that was sent may reach the other node at any later time and any number of times, an
acknowledgement given may reach the sender, kicks and stale-lease answers come at any time. The
clocks never differ by more than the configured drift.

## Main results

* `single_effective_leader`
* `kicked_follower_leads_beside_leader`: a kicked follower takes over beside a live leader
-/

namespace Celeriant

open Transition Function

/-- The settings of a cluster of two nodes, which have two ids. -/
structure ClusterConfig where
  nodeId : Bool → NodeId
  distinct : nodeId false ≠ nodeId true
  s3LeaseDurationMs : ℕ
  maxClockDriftMs : ℕ
  heartbeatLeaseDurationMs : ℕ
  numShards : ℕ

namespace ClusterConfig

def node (cfg : ClusterConfig) (i : Bool) : NodeConfig :=
  ⟨cfg.nodeId i, cfg.s3LeaseDurationMs, cfg.maxClockDriftMs, cfg.heartbeatLeaseDurationMs,
    cfg.numShards⟩

theorem nodeId_ne (cfg : ClusterConfig) (i : Bool) : cfg.nodeId i ≠ cfg.nodeId (!i) := by
  cases i
  · exact cfg.distinct
  · exact cfg.distinct.symm

end ClusterConfig

/-- The readings of two clocks (milliseconds since 1970) that differ by at most the drift. -/
structure Clocks (drift : ℕ) where
  now : Bool → ℕ
  positive : ∀ i, 0 < now i
  close : ∀ i, now i ≤ now (!i) + drift

/-- Two nodes, their elections and clocks. -/
structure Cluster (cfg : ClusterConfig) where
  world : ElectionWorld
  node : Bool → NodeState
  clocks : Clocks cfg.maxClockDriftMs

/-- A node moves, the store answers, or time passes. -/
inductive ClusterAction (cfg : ClusterConfig)
  | node (i : Bool) (a : NodeAction)
  | serve (id : CallId) (service : Service)
  | serveMembership (id : CallId) (result : Except LeaseStoreError (Option Membership))
  | tick (clocks : Clocks cfg.maxClockDriftMs)

namespace Cluster

variable {cfg}

def initial (clocks : Clocks cfg.maxClockDriftMs) : Cluster cfg :=
  ⟨.initial, fun _ => .initial, clocks⟩

/-- Heartbeats and their acknowledgements come from the other node. -/
def Delivered (s : Cluster cfg) (i : Bool) : NodeAction → Prop
  | .heartbeat timestampMs epoch => (timestampMs, epoch) ∈ (s.node (!i)).history.sent
  | .heartbeatReply .ack _ =>
    match (s.node i).point with
    | .heartbeating timestampMs => timestampMs ∈ (s.node (!i)).history.acked
    | _ => True
  | _ => True

instance (s : Cluster cfg) (i : Bool) (a : NodeAction) : Decidable (s.Delivered i a) := by
  induction a using NodeAction.casesOn with
  | heartbeatReply reply id =>
    induction reply using HeartbeatReply.casesOn <;> dsimp only [Delivered] <;>
      induction (s.node i).point using OrchestratorPoint.casesOn <;> infer_instance
  | _ => dsimp only [Delivered]; infer_instance

def stepWorld (s : Cluster cfg) (a : ElectionAction) : Option (Cluster cfg) :=
  (s.world.step a).map fun world => { s with world }

/-- Each node reads its own clock. -/
def step (s : Cluster cfg) : ClusterAction cfg → Option (Cluster cfg)
  | .node i a =>
    if s.Delivered i a then
      ((s.node i).step (cfg.node i) (s.clocks.now i) s.world a).map fun (world, n) =>
        { s with world, node := update s.node i n }
    else none
  | .serve id service => s.stepWorld (.serve id service)
  | .serveMembership id result => s.stepWorld (.serveMembership id result)
  | .tick clocks => some { s with clocks }

/-- The status of a node at its own clock. -/
def effectiveStatus (s : Cluster cfg) (i : Bool) : NodeStatus :=
  (s.node i).status.effectiveNodeStatus (s.clocks.now i)

/-- The node's clock is past every expiry it granted by acknowledging a heartbeat, and past every
lease of the other node with an older epoch. -/
structure Outlived (s : Cluster cfg) (i : Bool) (e : ℕ) : Prop where
  granted : ∀ ts ∈ (s.node i).history.acked, ts + cfg.heartbeatLeaseDurationMs < s.clocks.now i
  leases : ∀ l ∈ s.world.storedLeases, l.leaderNodeId = cfg.nodeId (!i) → l.leaseEpoch < e →
    l.expiresAtMs < s.clocks.now i

instance (s : Cluster cfg) (i : Bool) (e : ℕ) : Decidable (s.Outlived i e) :=
  decidable_of_iff
    ((∀ ts ∈ (s.node i).history.acked, ts + cfg.heartbeatLeaseDurationMs < s.clocks.now i) ∧
      ∀ l ∈ s.world.storedLeases, l.leaderNodeId = cfg.nodeId (!i) → l.leaseEpoch < e →
        l.expiresAtMs < s.clocks.now i)
    ⟨fun ⟨granted, leases⟩ => ⟨granted, leases⟩, fun ⟨granted, leases⟩ => ⟨granted, leases⟩⟩

end Cluster

/-- The epoch at which a node becomes leader. -/
def becomesLeader (before after : NodeState) : Option ℕ :=
  match after.status.raw with
  | .leader e => if before.status.raw = .leader e then none else some e
  | _ => none

/-- The condition on a step: a node that becomes leader has outlived what it granted and the other
node's older leases, and no clock steps back. -/
def TakesOverLate {cfg : ClusterConfig} (s : Cluster cfg) (a : ClusterAction cfg) : Prop :=
  ∀ s' ∈ s.step a, ∀ i, s.clocks.now i ≤ s'.clocks.now i ∧
    ∀ e ∈ becomesLeader (s.node i) (s'.node i), s.Outlived i e
  deriving Decidable

/-! ## The invariant -/

section Invariant

variable {cfg : ClusterConfig}

/-- What a leader rests on: a stored lease of its epoch; an expiry that one of its leases up to that
epoch or an acknowledgement of the other node covers; and it has outlived the other. -/
structure LeaderInv (s : Cluster cfg) (i : Bool) (e : ℕ) : Prop where
  stored : ∃ l ∈ s.world.storedLeases, l.leaderNodeId = cfg.nodeId i ∧ l.leaseEpoch = e
  drift : (s.node i).status.maxClockDriftMs = cfg.maxClockDriftMs
  covered : (∃ l ∈ s.world.storedLeases, l.leaderNodeId = cfg.nodeId i ∧ l.leaseEpoch ≤ e ∧
      (s.node i).status.leaseExpiresAtMs ≤ l.expiresAtMs) ∨
    ∃ ts ∈ (s.node (!i)).history.acked,
      (s.node i).status.leaseExpiresAtMs ≤ ts + cfg.heartbeatLeaseDurationMs
  outlived : s.Outlived i e

/-- What holds between the nodes in every state. -/
structure ClusterInv (s : Cluster cfg) : Prop where
  election : ElectionInv s.world
  outcomes : OutcomeInv s.world
  awaited : ∀ i id, (s.node i).Awaits id →
    ∃ call, s.world.calls id = some call ∧ call.cfg = (cfg.node i).s3Lease
  carried : ∀ i o, (s.node i).point.outcome = some o →
    o.Backed s.world.storedLeases (cfg.node i).s3Lease
  handlers : ∀ i, ∀ h ∈ (s.node i).handlers, h.rawStatus.isAnyFollowerState = true
  leader : ∀ i e, (s.node i).status.raw = .leader e → LeaderInv s i e

theorem clusterInv_initial (clocks : Clocks cfg.maxClockDriftMs) :
    ClusterInv (Cluster.initial clocks) where
  election := electionInv_initial
  outcomes := outcomeInv_initial
  awaited := fun _ _ h => by rcases h with h | h <;> cases h
  carried := fun _ _ h => by cases h
  handlers := fun _ _ h => by cases h
  leader := fun _ _ h => by cases h

variable {s : Cluster cfg}

/-- **Two effective leaders are one**: the older of two epochs has been outlived by the newer. -/
theorem ClusterInv.single (inv : ClusterInv s) {i j e e'}
    (hi : s.effectiveStatus i = .leader e) (hj : s.effectiveStatus j = .leader e') : i = j := by
  obtain ⟨rawi, alivei⟩ := ValidatedNodeStatus.effectiveNodeStatus_eq_leader.mp hi
  obtain ⟨rawj, alivej⟩ := ValidatedNodeStatus.effectiveNodeStatus_eq_leader.mp hj
  -- the older leader's expiry has passed at the newer one's clock
  have fenced : ∀ {i : Bool} {e e' : ℕ}, LeaderInv s i e → LeaderInv s (!i) e' → e < e' →
      ¬ s.clocks.now i ≤
        (s.node i).status.leaseExpiresAtMs - (s.node i).status.maxClockDriftMs := by
    intro i e e' older newer lt alive
    have passed : (s.node i).status.leaseExpiresAtMs < s.clocks.now (!i) := by
      rcases older.covered with ⟨l, hl, named, epoch, le⟩ | ⟨ts, hts, le⟩
      · have := newer.outlived.leases l hl (by rw [Bool.not_not]; exact named) (by omega)
        omega
      · have := newer.outlived.granted ts hts
        omega
    have close := s.clocks.close (!i)
    have positive := s.clocks.positive i
    rw [Bool.not_not] at close
    rw [older.drift] at alive
    omega
  by_contra ne
  obtain rfl : j = !i := by cases i <;> cases j <;> simp_all
  have leaderi := inv.leader i e rawi
  have leaderj := inv.leader (!i) e' rawj
  rcases Nat.lt_trichotomy e e' with lt | rfl | gt
  · exact fenced leaderi leaderj lt alivei
  · obtain ⟨l, hl, named, epoch⟩ := leaderi.stored
    obtain ⟨l', hl', named', epoch'⟩ := leaderj.stored
    have same := inv.election.leader_unique hl hl' (epoch.trans epoch'.symm)
    exact cfg.nodeId_ne i (named.symm.trans (same.trans named'))
  · exact fenced leaderj (by rw [Bool.not_not]; exact leaderi) gt alivej

/-- An outcome at hand is backed by what is stored. -/
theorem ClusterInv.held_backed (inv : ClusterInv s) {i o}
    (h : (s.node i).Held s.world o) : o.Backed s.world.storedLeases (cfg.node i).s3Lease := by
  rcases h with point | ⟨id, awaits, returned⟩
  · exact inv.carried i o point
  · obtain ⟨call, hcall, own⟩ := inv.awaited i id awaits
    unfold ElectionWorld.electionResult at returned
    split at returned
    next c result reply hcall' =>
      cases returned
      obtain rfl := Option.some.inj (hcall'.symm.trans hcall)
      exact own ▸ (inv.outcomes id _ hcall').point
    next => cases returned

/-- Stored leases that are added later are not older than a leader's own. -/
theorem LeaderInv.world {w' a i e}
    (h : LeaderInv s i e) (election : ElectionInv w') (hstep : s.world.step a = some w') :
    LeaderInv { s with world := w' } i e := by
  obtain ⟨suffix, eq⟩ := ElectionWorld.storedLeases_step hstep
  have grow := ElectionWorld.storedLeases_subset hstep
  obtain ⟨own, hown, named, epoch⟩ := h.stored
  refine ⟨⟨own, grow hown, named, epoch⟩, h.drift, h.covered.imp_left ?_, h.outlived.granted, ?_⟩
  · rintro ⟨l, hl, rest⟩
    exact ⟨l, grow hl, rest⟩
  · intro l hl other older
    rw [eq] at hl
    rcases List.mem_append.mp hl with hl | hl
    · exact h.outlived.leases l hl other older
    · have ordered := election.ordered
      rw [eq] at ordered
      have precedes := (List.pairwise_append.mp ordered).2.2 own hown l hl
      exact absurd precedes.1 (by omega)

end Invariant

/-! ## Steps -/

section Steps

variable {cfg : ClusterConfig} {s s' : Cluster cfg}
  {w' : ElectionWorld} {a : NodeAction} {n' : NodeState}

/-- The node that does not step gains acknowledgements at most. -/
theorem LeaderInv.other {i e} (h : LeaderInv s (!i) e)
    (acked : (s.node i).history.acked ⊆ n'.history.acked) :
    LeaderInv { s with node := update s.node i n' } (!i) e := by
  have same : (update s.node i n') (!i) = s.node (!i) := by
    cases i <;> rfl
  refine ⟨h.stored, ?_, ?_, ?_, h.outlived.leases⟩
  · exact (congrArg (fun n => n.status.maxClockDriftMs) same).trans h.drift
  · have covered := h.covered
    simp only [Bool.not_not] at covered
    simp only [same, Bool.not_not, update_self]
    exact covered.imp_right fun ⟨ts, hts, le⟩ => ⟨ts, acked hts, le⟩
  · simpa only [same] using h.outlived.granted

theorem NodeEffect.acked_subset {cfg now w n}
    (h : NodeEffect cfg now w n a n') : n.history.acked ⊆ n'.history.acked := by
  cases h with
  | passive passive acked => exact acked
  | kept _ acked | refreshed _ acked | dropped acked | installed _ _ acked =>
    exact acked ▸ List.Subset.refl _

theorem StepSummary.moved {cfg now w n}
    (h : StepSummary cfg now w w' n a n') : w' = w ∨ ∃ a, w.step a = some w' := by
  rcases h.world with same | ⟨id, hstep⟩ | ⟨id, -, hstep⟩
  · exact .inl same
  · exact .inr ⟨_, hstep⟩
  · exact .inr ⟨_, hstep⟩

namespace ClusterInv

variable (inv : ClusterInv s)
include inv

/-- A step of the lease object and its calls alone. -/
theorem world {a} (hstep : s.world.step a = some w') : ClusterInv { s with world := w' } where
  election := inv.election.step hstep
  outcomes := inv.outcomes.step inv.election hstep
  awaited := fun i id hid => by
    obtain ⟨call, hcall, own⟩ := inv.awaited i id hid
    obtain ⟨call', hcall', same⟩ := ElectionWorld.cfg_step hstep hcall
    exact ⟨call', hcall', same.trans own⟩
  carried := fun i o ho => (inv.carried i o ho).mono (ElectionWorld.storedLeases_subset hstep)
  handlers := inv.handlers
  leader := fun i e he => (inv.leader i e he).world (inv.election.step hstep) hstep

theorem tick {clocks : Clocks cfg.maxClockDriftMs}
    (forward : ∀ i, s.clocks.now i ≤ clocks.now i) : ClusterInv { s with clocks } where
  election := inv.election
  outcomes := inv.outcomes
  awaited := inv.awaited
  carried := inv.carried
  handlers := inv.handlers
  leader := fun i e he => by
    have leader := inv.leader i e he
    refine ⟨leader.stored, leader.drift, leader.covered, fun ts hts => ?_,
      fun l hl other older => ?_⟩
    · exact lt_of_lt_of_le (leader.outlived.granted ts hts) (forward i)
    · exact lt_of_lt_of_le (leader.outlived.leases l hl other older) (forward i)

/-- The node that steps: whatever it does to its status, a leader it ends up as is accounted for. -/
theorem leader_self {i} (delivered : s.Delivered i a)
    (effect : NodeEffect (cfg.node i) (s.clocks.now i) s.world (s.node i) a n')
    (late : ∀ e ∈ becomesLeader (s.node i) n', s.Outlived i e) {e}
    (leads : n'.status.raw = .leader e) :
    LeaderInv { s with node := update s.node i n' } i e := by
  have other : (update s.node i n') (!i) = s.node (!i) := by
    cases i <;> rfl
  -- the four parts for the state after the step, whose leases and clocks are those before
  have build : (∃ l ∈ s.world.storedLeases, l.leaderNodeId = cfg.nodeId i ∧ l.leaseEpoch = e) →
      n'.status.maxClockDriftMs = cfg.maxClockDriftMs →
      ((∃ l ∈ s.world.storedLeases, l.leaderNodeId = cfg.nodeId i ∧ l.leaseEpoch ≤ e ∧
          n'.status.leaseExpiresAtMs ≤ l.expiresAtMs) ∨
        ∃ ts ∈ (s.node (!i)).history.acked,
          n'.status.leaseExpiresAtMs ≤ ts + cfg.heartbeatLeaseDurationMs) →
      n'.history.acked = (s.node i).history.acked → s.Outlived i e →
      LeaderInv { s with node := update s.node i n' } i e := by
    intro stored drift covered acked outlived
    refine ⟨stored, ?_, ?_, ?_, outlived.leases⟩
    · exact (congrArg (fun n : NodeState => n.status.maxClockDriftMs) (update_self ..)).trans drift
    · simpa only [update_self, other] using covered
    · simpa only [update_self, acked] using outlived.granted
  cases effect with
  | kept status acked =>
    rw [status] at leads
    have leader := inv.leader i e leads
    exact build leader.stored (by rw [status]; exact leader.drift)
      (by rw [status]; exact leader.covered) acked leader.outlived
  | passive passive acked => exact absurd leads (passive e)
  | refreshed ts acked ack sent status =>
    have was : (s.node i).status.raw = .leader e := by rw [status] at leads; exact leads
    have leader := inv.leader i e was
    have expiry : n'.status.leaseExpiresAtMs =
        max (s.node i).status.leaseExpiresAtMs (ts + cfg.heartbeatLeaseDurationMs) := by
      rw [status]
      rfl
    have given : ts ∈ (s.node (!i)).history.acked := by
      subst ack
      simp only [Cluster.Delivered, sent] at delivered
      exact delivered
    refine build leader.stored (by rw [status]; rfl) ?_ acked leader.outlived
    rw [expiry]
    rcases Nat.le_total (s.node i).status.leaseExpiresAtMs (ts + cfg.heartbeatLeaseDurationMs) with
      grows | stays
    · exact .inr ⟨ts, given, by rw [max_eq_right grows]⟩
    · rw [max_eq_left stays]
      exact leader.covered
  | dropped acked status =>
    have was : (s.node i).status.raw = .leader e := by rw [status] at leads; exact leads
    have leader := inv.leader i e was
    obtain ⟨l, hl, named, epoch⟩ := leader.stored
    refine build leader.stored (by rw [status]; rfl) ?_ acked leader.outlived
    refine .inl ⟨l, hl, named, le_of_eq epoch, ?_⟩
    rw [status]
    exact Nat.zero_le _
  | installed o installs acked status =>
    have backed := inv.held_backed installs.held
    rw [status] at leads
    obtain ⟨l, hl, named, epoch, expires⟩ := backed.leader leads
    refine build ⟨l, hl, named, epoch⟩ (by rw [status]; exact backed.drift) ?_ acked ?_
    · refine .inl ⟨l, hl, named, le_of_eq epoch, ?_⟩
      rw [status]
      exact le_of_eq expires.symm
    · by_cases was : (s.node i).status.raw = .leader e
      · exact (inv.leader i e was).outlived
      · refine late e ?_
        have after : n'.status.raw = .leader e := by rw [status]; exact leads
        simp only [becomesLeader, after, if_neg was]
        rfl

/-- A step of one node, with what it does to the election calls. -/
theorem node {i : Bool} (delivered : s.Delivered i a)
    (hstep : (s.node i).step (cfg.node i) (s.clocks.now i) s.world a = some (w', n'))
    (late : ∀ e ∈ becomesLeader (s.node i) n', s.Outlived i e) :
    ClusterInv { s with world := w', node := update s.node i n' } := by
  have summary := NodeState.step_summary hstep
  have effect := summary.change.effect (inv.handlers i)
  have backed : ∀ o, n'.point.outcome = some o →
      o.Backed s.world.storedLeases (cfg.node i).s3Lease :=
    fun o ho => inv.held_backed (summary.outcome o ho)
  -- the leaders of the new nodes, still over the leases before the step
  have leader : ∀ j e, (update s.node i n' j).status.raw = .leader e →
      LeaderInv { s with node := update s.node i n' } j e := by
    intro j e leads
    by_cases self : j = i
    · subst self
      rw [update_self] at leads
      exact inv.leader_self delivered effect late leads
    · obtain rfl : j = !i := by cases i <;> cases j <;> simp_all
      rw [update_of_ne self] at leads
      exact (inv.leader (!i) e leads).other effect.acked_subset
  have moved : ClusterInv { s with world := w' } := by
    rcases summary.moved with rfl | ⟨b, hb⟩
    · exact inv
    · exact inv.world hb
  refine ⟨moved.election, moved.outcomes, ?_, ?_, ?_, ?_⟩
  · intro j id hid
    by_cases self : j = i
    · subst self
      simp only [update_self] at hid
      rcases summary.awaits id hid with before | ⟨now, started⟩
      · exact moved.awaited j id before
      · exact ⟨_, started, rfl⟩
    · simp only [update_of_ne self] at hid
      exact moved.awaited j id hid
  · intro j o ho
    by_cases self : j = i
    · subst self
      simp only [update_self] at ho
      rcases summary.moved with rfl | ⟨b, hb⟩
      · exact backed o ho
      · exact (backed o ho).mono (ElectionWorld.storedLeases_subset hb)
    · simp only [update_of_ne self] at ho
      exact moved.carried j o ho
  · intro j h hh
    by_cases self : j = i
    · subst self
      simp only [update_self] at hh
      rcases summary.handlers h hh with before | follower
      · exact inv.handlers j h before
      · exact follower
    · simp only [update_of_ne self] at hh
      exact inv.handlers j h hh
  · intro j e leads
    rcases summary.moved with rfl | ⟨b, hb⟩
    · exact leader j e leads
    · exact (leader j e leads).world moved.election hb

theorem step {a : ClusterAction cfg} (late : TakesOverLate s a)
    (hstep : s.step a = some s') : ClusterInv s' := by
  have allowed := late s' hstep
  cases a with
  | node i a =>
    simp only [Cluster.step] at hstep
    split at hstep
    next delivered =>
      obtain ⟨⟨w', n'⟩, hn, rfl⟩ := Option.map_eq_some_iff.mp hstep
      refine inv.node delivered hn fun e he => (allowed i).2 e ?_
      simpa only [update_self] using he
    next => cases hstep
  | serve | serveMembership =>
    obtain ⟨w', hw, rfl⟩ := Option.map_eq_some_iff.mp hstep
    exact inv.world hw
  | tick clocks =>
    cases hstep
    exact inv.tick fun i => (allowed i).1

end ClusterInv

end Steps

/-- **One leader at a time.**  In every run of two nodes whose steps all meet `TakesOverLate`, the
nodes' statuses, each at its own clock, are never both leader. -/
theorem single_effective_leader {cfg : ClusterConfig} {clocks : Clocks cfg.maxClockDriftMs}
    {s : Cluster cfg} (h : Transition.Reaches Cluster.step TakesOverLate (.initial clocks) s)
    {i j : Bool} {e e' : ℕ} (hi : s.effectiveStatus i = .leader e)
    (hj : s.effectiveStatus j = .leader e') : i = j := by
  have inv : ClusterInv s :=
    Transition.Reaches.invariant (fun _ _ _ inv late hstep => inv.step late hstep) h
      (clusterInv_initial clocks)
  exact inv.single hi hj

/-! ## Runs

Node `false` (id 1) boots on an empty store and leads epoch 1; node `true` (id 2) boots and
follows. -/

def pairConfig : ClusterConfig := ⟨fun i => if i then 2 else 1, by decide, 100, 5, 50, 1⟩

/-- Both clocks one millisecond after the given time. -/
def clocksAt (t : ℕ) : Clocks pairConfig.maxClockDriftMs :=
  ⟨fun _ => t + 1, fun _ => Nat.succ_pos t, fun _ => Nat.le_add_right _ _⟩

def onNode (i : Bool) (as : List NodeAction) : List (ClusterAction pairConfig) := as.map (.node i ·)

def pairCaught : NodeAction := .attemptDone (.ok ⟨0, 0, 1, .caught, false⟩) [] 0

/-- The election call of a node that writes the lease; S3 hands out the tag. -/
def winElection (i : Bool) (id : CallId) (etag : ETag) : List (ClusterAction pairConfig) :=
  [.serve id (.served etag), .node i (.resumeElection id), .serve id (.served etag),
    .node i (.resumeElection id), .serveMembership id (.ok none), .node i (.resumeElection id)]

/-- From a won lease through the promotion to the leader status. -/
def promote (i : Bool) : List (ClusterAction pairConfig) :=
  onNode i [.electionReturned none, .applyElection, .reconciled true, .beginAttempt, .enterCatchup,
    pairCaught, .flip, .drained true]

/-- A catchup of the loop itself, up to its decision. -/
def catchUp (i : Bool) (id : CallId) : List (ClusterAction pairConfig) :=
  onNode i [.orchestrate, .beginAttempt, .enterCatchup, pairCaught, .peeked true id]

def pairRun : List (ClusterAction pairConfig) :=
  catchUp false 0 ++ winElection false 0 1 ++ promote false ++ catchUp true 1 ++
    [.serve 1 (.served 2), .node true (.resumeElection 1), .serveMembership 1 (.ok none),
      .node true (.resumeElection 1)] ++
    onNode true [.electionReturned none, .applyElection, .reconciled true, .flip, .drained true]

/-- The leader sends a heartbeat, the follower acknowledges it and the acknowledgement arrives. -/
def heartbeatRun (t : ℕ) : List (ClusterAction pairConfig) :=
  [.tick (clocksAt t), .node false .orchestrate, .node false .sendHeartbeat,
    .node true (.heartbeat (t + 1) 1), .node false (.heartbeatReply .ack 2)]

/-- The leader is gone; the follower challenges after both times to live are over. -/
def lateTakeoverRun : List (ClusterAction pairConfig) :=
  pairRun ++ heartbeatRun 99 ++ [.tick (clocksAt 199)] ++
    onNode true [.orchestrate, .wake 2] ++ winElection true 2 3 ++ promote true

theorem single_effective_leader_lateTakeoverRun :
    ∃ s, exec Cluster.step TakesOverLate (.initial (clocksAt 9)) lateTakeoverRun = some s ∧
      s.effectiveStatus true = .leader 2 ∧ ∀ e, s.effectiveStatus false ≠ .leader e := by
  obtain ⟨s, run, leads⟩ : ∃ s,
      exec Cluster.step TakesOverLate (.initial (clocksAt 9)) lateTakeoverRun = some s ∧
        s.effectiveStatus true = .leader 2 := ⟨_, rfl, by decide⟩
  refine ⟨s, run, leads, fun e leads' => ?_⟩
  have same := single_effective_leader (reaches_of_exec _ run) leads leads'
  cases same

/-- A kick reaches the follower after the S3 lease has run out and within the time to live of the
last heartbeat; its catchup resets the expiry, and the loop challenges. -/
def kickRun : List (ClusterAction pairConfig) :=
  pairRun ++ heartbeatRun 99 ++ [.tick (clocksAt 119), .node true .kick] ++ catchUp true 2 ++
    winElection true 2 3 ++ promote true

/-- The clocks agree throughout the run and never step back, and at its end both nodes lead. -/
theorem kicked_follower_leads_beside_leader :
    ∃ s, exec Cluster.step Always (.initial (clocksAt 9)) kickRun = some s ∧
      s.effectiveStatus false = .leader 1 ∧ s.effectiveStatus true = .leader 2 :=
  ⟨_, rfl, by decide, by decide⟩

end Celeriant
