import Celeriant.Distributed.LeaseStamps

/-!
# The S3-fallback gate

An upload by `run_s3_fallback` acknowledges writes, so it is let through only under a lease that S3
has confirmed. Shard 0 keeps the time of the last confirmation in `s3_cas_confirmed_at_ms` and
broadcasts it; the gate refuses the upload once the confirmation is one lease duration old.

The confirmation is dated when the election that wrote the lease *ends*: after the reply of the
store and the membership read in `renew_s3_lease_on_demand`, and in `set_node_role_via_s3` after the
catchup and the promotion as well. The lease in S3 was stamped before the write was sent. The gate
is therefore open for as long after the expiry as the election took after its stamp, and another
node may hold the lease by then (`fallback_under_expired_lease`). It keeps its promise when no
election takes longer than `lag` from the stamp to the confirmation and no upload is tried in the
last `lag` of the window (`fallback_gate_lease_unexpired`).

## Main definitions

* `fallbackGate`: the gate of `run_s3_fallback`
* `renewalDecision`, `confirmedAt`: `renew_s3_lease_on_demand` before and after its election, and
  the end of `set_node_role_via_s3`
* `FallbackNode`, `FallbackNode.step`: a node, its shards and the elections on the lease
* `FallbackNode.Timely`: the condition
-/

namespace Celeriant

open Transition List Option

/-! ## The code -/

/-- What `run_s3_fallback` does before it uploads. -/
structure GateVerdict where
  /-- it asks shard 0 for a renewal -/
  requestsRenewal : Bool
  /-- it refuses with `LeaseUnconfirmed` -/
  leaseUnconfirmed : Bool
  deriving DecidableEq, Repr

/-- Whether to ask for a renewal, and whether to refuse. -/
def fallbackGate (s3LeaseDurationMs s3CasConfirmedAtMs nowMs : ℕ) : GateVerdict :=
  if s3LeaseDurationMs > 0 then
    let ageMs := nowMs - s3CasConfirmedAtMs
    ⟨decide (ageMs ≥ s3LeaseDurationMs / 2), decide (ageMs ≥ s3LeaseDurationMs)⟩
  else ⟨false, false⟩

/-- How `renew_s3_lease_on_demand` answers a request. -/
inductive RenewalDecision
  | notLeader
  | disabled
  | coalesced
  | debounced
  | attempted
  deriving DecidableEq, Repr

/-- Whether a renewal is attempted. -/
def renewalDecision (rawIsLeader : Bool)
    (leaseDurationMs s3ElectionsInFlight s3CasConfirmedAtMs nowMs : ℕ) : RenewalDecision :=
  if !rawIsLeader then .notLeader
  else if leaseDurationMs = 0 then .disabled
  else if s3ElectionsInFlight > 0 then .coalesced
  else if nowMs - s3CasConfirmedAtMs < leaseDurationMs / 2 then .debounced
  else .attempted

/-- Who runs an election. -/
inductive ElectionCaller
  | setNodeRoleViaS3
  | onDemand
  deriving DecidableEq, Repr

/-- The confirmation an election ends with: the clock at its end, if it wrote the lease. -/
def confirmedAt (caller : ElectionCaller) (outcome : ElectionOutcome) (nowMs : ℕ) : Option ℕ :=
  match caller with
  | .setNodeRoleViaS3 => if outcome.casWritten then some nowMs else none
  | .onDemand =>
    if outcome.status.raw.isLeader then if outcome.casWritten then some nowMs else none else none

/-- An election in flight, with the call it waits for. -/
structure RunningElection where
  caller : ElectionCaller
  call : CallId
  deriving DecidableEq, Repr

/-- The node, with the elections of all nodes on the lease. -/
structure FallbackNode where
  world : ElectionWorld
  /-- `unix_epoch_now_ms` -/
  clock : ℕ
  /-- `s3_cas_confirmed_at_ms` of each shard -/
  s3CasConfirmedAtMs : ℕ → ℕ
  /-- confirmations broadcast by shard 0 and not yet received -/
  queued : ℕ → List ℕ
  running : List RunningElection
  /-- the latest reading at which another node began an election -/
  latestPeer : ℕ

/-- Time, elections and uploads. -/
inductive FallbackAction
  | tick (ms : ℕ)
  /-- the election of `set_node_role_via_s3` -/
  | setNodeRoleViaS3 (id : CallId)
  | renewS3LeaseOnDemand (rawIsLeader : Bool) (id : CallId)
  /-- an election of another node -/
  | peerBegin (id : CallId) (caller : S3LeaseConfig) (clock : ℕ)
  | serve (id : CallId) (service : Service)
  | serveMembership (id : CallId) (result : Except LeaseStoreError (Option Membership))
  /-- the reading is another node's; a call of this node reads its clock -/
  | resume (id : CallId) (clock : ℕ)
  /-- `retry_s3_operation` calls again; the request given up may still take effect -/
  | retry (id id' : CallId)
  /-- the election ends in an error, or its promotion loses the race -/
  | abandon (id : CallId)
  | finish (id : CallId)
  /-- a shard receives a `StatusUpdate` -/
  | deliver (shard confirmedAt : ℕ)
  | runS3Fallback (shard : ℕ)
  | restart

namespace FallbackNode

def initial (clock : ℕ) : FallbackNode := ⟨.initial, clock, fun _ => 0, fun _ => [], [], 0⟩

/-- The gate as a shard finds it. -/
def gate (cfg : S3LeaseConfig) (w : FallbackNode) (shard : ℕ) : GateVerdict :=
  fallbackGate cfg.s3LeaseDuration (w.s3CasConfirmedAtMs shard) w.clock

def beginElection (cfg : S3LeaseConfig) (w : FallbackNode) (caller : ElectionCaller)
    (id : CallId) : Option FallbackNode :=
  (w.world.step (.begin id cfg w.clock)).map fun world =>
    { w with world, running := ⟨caller, id⟩ :: w.running }

/-- The clock that a call reads. -/
def reading (cfg : S3LeaseConfig) (w : FallbackNode) (id : CallId) (clock : ℕ) : ℕ :=
  match w.world.calls id with
  | some c => if c.cfg.nodeId = cfg.nodeId then w.clock else clock
  | none => clock

/-- The call has returned an outcome. -/
def outcomeOf (w : FallbackNode) (id : CallId) : Option ElectionOutcome :=
  match w.world.calls id with
  | some ⟨_, .done (.ok outcome), _⟩ => some outcome
  | _ => none

/-- Shard 0 keeps a confirmation and broadcasts it. -/
def confirm (w : FallbackNode) : Option ℕ → FallbackNode
  | none => w
  | some confirmedAt =>
    { w with
      s3CasConfirmedAtMs := Function.update w.s3CasConfirmedAtMs 0 confirmedAt
      queued := fun shard => if shard = 0 then w.queued shard else w.queued shard ++ [confirmedAt] }

def step (cfg : S3LeaseConfig) (w : FallbackNode) : FallbackAction → Option FallbackNode
  | .tick ms => some { w with clock := w.clock + ms }
  | .setNodeRoleViaS3 id => w.beginElection cfg .setNodeRoleViaS3 id
  | .renewS3LeaseOnDemand rawIsLeader id =>
    match renewalDecision rawIsLeader cfg.s3LeaseDuration w.running.length
        (w.s3CasConfirmedAtMs 0) w.clock with
    | .attempted => w.beginElection cfg .onDemand id
    | _ => some w
  | .peerBegin id caller clock =>
    if caller.nodeId = cfg.nodeId then none
    else (w.world.step (.begin id caller clock)).map fun world =>
      { w with world, latestPeer := max w.latestPeer clock }
  | .serve id service => (w.world.step (.serve id service)).map fun world => { w with world }
  | .serveMembership id result =>
    (w.world.step (.serveMembership id result)).map fun world => { w with world }
  | .resume id clock =>
    (w.world.step (.resume id (w.reading cfg id clock))).map fun world => { w with world }
  | .retry id id' =>
    match w.running.find? fun e => e.call == id, w.outcomeOf id with
    | some e, none =>
      { w with running := w.running.erase e }.beginElection cfg e.caller id'
    | _, _ => none
  | .abandon id => some { w with running := w.running.filter fun e => e.call != id }
  | .finish id =>
    match w.running.find? fun e => e.call == id, w.outcomeOf id with
    | some e, some outcome =>
      some ({ w with running := w.running.erase e }.confirm
        (confirmedAt e.caller outcome w.clock))
    | _, _ => none
  | .deliver shard confirmedAt =>
    if confirmedAt ∈ w.queued shard then
      some { w with
        s3CasConfirmedAtMs := Function.update w.s3CasConfirmedAtMs shard confirmedAt
        queued := Function.update w.queued shard ((w.queued shard).erase confirmedAt) }
    else none
  | .runS3Fallback _ => some w
  | .restart =>
    some { w with s3CasConfirmedAtMs := fun _ => 0, queued := fun _ => [], running := [] }

/-- The condition: an election ends no later than `lag` after the stamp of the lease it wrote, and
an upload is not tried in the last `lag` of the window, nor within one duration of the clock's
zero. -/
def Timely (cfg : S3LeaseConfig) (lag : ℕ) (w : FallbackNode) : FallbackAction → Prop
  | .finish id => ∀ v ∈ w.world.object.versions, v.writer = id →
    w.clock ≤ v.value.acquiredAtMs + lag
  | .runS3Fallback shard =>
    cfg.s3LeaseDuration ≤ w.clock ∧
      (w.clock - w.s3CasConfirmedAtMs shard + lag < cfg.s3LeaseDuration ∨
        cfg.s3LeaseDuration ≤ w.clock - w.s3CasConfirmedAtMs shard)
  | _ => True

instance (cfg : S3LeaseConfig) (lag : ℕ) : DecidableRel (Timely cfg lag) := fun _ a => by
  induction a using FallbackAction.casesOn <;> dsimp only [Timely] <;> infer_instance

/-! ## The invariant -/

section Invariant

variable (cfg : S3LeaseConfig) (lag : ℕ)

/-- The confirmation, unless it is the initial zero, is no more than `lag` past the stamp of a lease
that the node has stored. -/
def Backed (world : ElectionWorld) (confirmedAt : ℕ) : Prop :=
  confirmedAt = 0 ∨
    ∃ v ∈ world.object.versions, Own cfg v ∧ confirmedAt ≤ v.value.acquiredAtMs + lag

structure GateInv (w : FallbackNode) : Prop where
  elections : ElectionInv w.world
  stamps : StampInv cfg w.clock w.latestPeer w.world
  /-- an election in flight waits for a call of the node -/
  running : ∀ e ∈ w.running, ∃ c, w.world.calls e.call = some c ∧ c.cfg.nodeId = cfg.nodeId
  cells : ∀ shard, Backed cfg lag w.world (w.s3CasConfirmedAtMs shard)
  queued : ∀ shard, ∀ confirmedAt ∈ w.queued shard, Backed cfg lag w.world confirmedAt

end Invariant

section Steps

variable {cfg : S3LeaseConfig} {lag : ℕ} {w w' : FallbackNode} {world : ElectionWorld}

theorem gateInv_initial (clock : ℕ) : GateInv cfg lag (initial clock) where
  elections := electionInv_initial
  stamps := stampInv_initial
  running := fun _ h => absurd h not_mem_nil
  cells := fun _ => .inl rfl
  queued := fun _ _ h => absurd h not_mem_nil

variable {id : CallId} {a : ElectionAction} {caller : ElectionCaller}
  {outcome : ElectionOutcome}

namespace GateInv

variable (inv : GateInv cfg lag w)
include inv

/-- A step of the elections keeps the invariant, given that it keeps the stamps. -/
theorem elect {latest}
    (hstep : w.world.step a = some world) (stamps : StampInv cfg w.clock latest world) :
    GateInv cfg lag { w with world, latestPeer := latest } := by
  have versions := (ElectionWorld.versions_step hstep).subset
  have backed {confirmedAt : ℕ} (h : Backed cfg lag w.world confirmedAt) :
      Backed cfg lag world confirmedAt := by
    rcases h with zero | ⟨v, mem, own, le⟩
    · exact .inl zero
    · exact .inr ⟨v, versions mem, own, le⟩
  constructor
  · exact inv.elections.step hstep
  · exact stamps
  · intro e he
    obtain ⟨c, hc, own⟩ := inv.running e he
    obtain ⟨c', hc', same⟩ := ElectionWorld.cfg_step hstep hc
    exact ⟨c', hc', same ▸ own⟩
  · exact fun shard => backed (inv.cells shard)
  · exact fun shard confirmedAt h => backed (inv.queued shard confirmedAt h)

theorem beginElection (h : w.beginElection cfg caller id = some w') : GateInv cfg lag w' := by
  obtain ⟨world, hstep, rfl⟩ := map_eq_some_iff.mp h
  cases ElectionWorld.Step.of_step hstep with
  | begin idle =>
    have begun := inv.elect hstep
      (inv.stamps.begin idle (fun _ => rfl) fun peer => absurd rfl peer)
    exact
      { begun with
        running := by
          intro e he
          rcases mem_cons.mp he with rfl | he
          · exact ⟨⟨cfg, .start w.clock, none⟩, by simp [ElectionWorld.setCall], rfl⟩
          · exact begun.running e he }

/-- A step on the lease object that is not the beginning of a call. -/
theorem request (hstep : w.world.step a = some world)
    (began : ∀ id caller clock, a ≠ .begin id caller clock)
    (reads : ∀ id clock c, a = .resume id clock → w.world.calls id = some c →
      c.cfg.nodeId = cfg.nodeId → clock = w.clock) : GateInv cfg lag { w with world } := by
  refine inv.elect hstep ?_
  cases ElectionWorld.Step.of_step hstep with
  | begin idle => exact absurd rfl (began _ _ _)
  | serve waits served => exact inv.stamps.serve inv.elections waits served
  | serveMembership waits => exact inv.stamps.answered waits _
  | resume answered => exact inv.stamps.resume inv.elections answered (reads _ _ _ rfl answered)

/-- A lease that an election has written, as its outcome says, is stored and names the node. -/
theorem exists_written (own : ∃ c, w.world.calls id = some c ∧ c.cfg.nodeId = cfg.nodeId)
    (returned : w.outcomeOf id = some outcome) (written : outcome.casWritten = true) :
    ∃ v ∈ w.world.object.versions, v.writer = id ∧ Own cfg v := by
  obtain ⟨c, hc, own⟩ := own
  simp only [outcomeOf] at returned
  split at returned
  next caller outcome' reply hc' =>
    obtain rfl := some.inj returned
    obtain rfl := some.inj (hc'.symm.trans hc)
    have leads : outcome'.status.raw.isLeader = true := inv.stamps.call id _ hc' written
    obtain ⟨e, status⟩ := NodeStatus.isLeader_iff.mp leads
    obtain ⟨⟨v, mem, writer⟩, named⟩ := (inv.elections.call id _ hc').point written e status
    exact ⟨v, mem, writer, (named v mem writer).1.trans own⟩
  next => cases returned

end GateInv

theorem confirmedAt_eq_some {now t}
    (h : confirmedAt caller outcome now = some t) : outcome.casWritten = true ∧ t = now := by
  cases caller <;> simp only [confirmedAt, ite_none_right_eq_some] at h
  · exact ⟨h.1, (some.inj h.2).symm⟩
  · exact ⟨h.2.1, (some.inj h.2.2).symm⟩

/-- A confirmation that is backed is kept and broadcast. -/
theorem GateInv.confirm (inv : GateInv cfg lag w) {confirmed}
    (backed : ∀ t, confirmed = some t → Backed cfg lag w.world t) :
    GateInv cfg lag (w.confirm confirmed) := by
  cases confirmed with
  | none => exact inv
  | some t =>
    refine ⟨inv.elections, inv.stamps, inv.running, fun shard => ?_, fun shard c hc => ?_⟩
    · by_cases zero : shard = 0
      · simpa [FallbackNode.confirm, zero] using backed t rfl
      · simpa [FallbackNode.confirm, zero] using inv.cells shard
    · by_cases zero : shard = 0
      · exact inv.queued shard c (by simpa [FallbackNode.confirm, zero] using hc)
      · simp only [FallbackNode.confirm, zero, if_false, mem_append, mem_singleton] at hc
        rcases hc with hc | rfl
        · exact inv.queued shard c hc
        · exact backed c rfl

/-- Elections in flight may end. -/
theorem GateInv.drop (inv : GateInv cfg lag w) {running}
    (sub : ∀ e ∈ running, e ∈ w.running) : GateInv cfg lag { w with running } :=
  { inv with running := fun e he => inv.running e (sub e he) }

/-- **Every step** that is timely keeps the invariant. -/
theorem GateInv.step (inv : GateInv cfg lag w) {a : FallbackAction} (ok : Timely cfg lag w a)
    (hstep : w.step cfg a = some w') : GateInv cfg lag w' := by
  cases a
  all_goals simp only [FallbackNode.step] at hstep
  case tick ms =>
    cases hstep
    exact { inv with stamps := inv.stamps.mono (Nat.le_add_right _ _) le_rfl }
  case setNodeRoleViaS3 id => exact inv.beginElection hstep
  case renewS3LeaseOnDemand rawIsLeader id =>
    split at hstep
    · exact inv.beginElection hstep
    · cases hstep
      exact inv
  case peerBegin id caller clock =>
    split at hstep
    · cases hstep
    next peer =>
      obtain ⟨world, begun, rfl⟩ := map_eq_some_iff.mp hstep
      refine inv.elect begun ?_
      cases ElectionWorld.Step.of_step begun with
      | begin idle =>
        exact (inv.stamps.mono le_rfl (Nat.le_max_left _ _)).begin idle
          (fun own => absurd own peer) fun _ => Nat.le_max_right _ _
  case serve | serveMembership =>
    obtain ⟨world, served, rfl⟩ := map_eq_some_iff.mp hstep
    exact inv.request served (fun _ _ _ h => by cases h) fun _ _ _ h => by cases h
  case resume id clock =>
    obtain ⟨world, resumed, rfl⟩ := map_eq_some_iff.mp hstep
    refine inv.request resumed (fun _ _ _ h => by cases h) fun id' clock' c action hc own => ?_
    cases action
    simp only [reading, hc, own, if_true]
  case retry id id' =>
    split at hstep
    next e found _ => exact (inv.drop fun _ he => mem_of_mem_erase he).beginElection hstep
    next => cases hstep
  case abandon id =>
    cases hstep
    exact inv.drop fun _ he => mem_of_mem_filter he
  case finish id =>
    split at hstep
    next e outcome found returned =>
      cases hstep
      refine (inv.drop fun _ he => mem_of_mem_erase he).confirm fun t confirmed => .inr ?_
      obtain ⟨written, rfl⟩ := confirmedAt_eq_some confirmed
      obtain rfl : e.call = id := by simpa using List.find?_some found
      obtain ⟨v, mem, writer, own⟩ :=
        inv.exists_written (inv.running e (mem_of_find?_eq_some found)) returned written
      exact ⟨v, mem, own, ok v mem writer⟩
    next => cases hstep
  case deliver shard t =>
    split at hstep
    next mem =>
      cases hstep
      refine ⟨inv.elections, inv.stamps, inv.running, fun shard' => ?_, fun shard' c hc => ?_⟩
      · by_cases same : shard' = shard
        · simpa [same] using inv.queued shard t mem
        · simpa [same] using inv.cells shard'
      · by_cases same : shard' = shard
        · subst same
          exact inv.queued shard' c (mem_of_mem_erase (by simpa using hc))
        · exact inv.queued shard' c (by simpa [same] using hc)
    next => cases hstep
  case runS3Fallback shard =>
    cases hstep
    exact inv
  case restart =>
    cases hstep
    exact
      { elections := inv.elections
        stamps := inv.stamps
        running := fun _ h => absurd h not_mem_nil
        cells := fun _ => .inl rfl
        queued := fun _ _ h => absurd h not_mem_nil }

end Steps

end FallbackNode

/-! ## The promise of the gate -/

open FallbackNode

/-- **The gate opens only under a lease that has not expired.** In every run, whatever the nodes'
elections, the store and the network do, if elections take at most `lag` from the stamp of the lease
they write to their end, then an upload that is not tried in the last `lag` of the window and passes
the gate does so before the expiry of the lease that the node wrote last. No challenger whose clock
is at most `drift` ahead has then replaced that lease, if the upload keeps `drift` away from the end
of the window as well. -/
theorem fallback_gate_lease_unexpired {cfg : S3LeaseConfig} (enabled : 0 < cfg.s3LeaseDuration)
    {lag start : ℕ} {w : FallbackNode}
    (run : Reaches (FallbackNode.step cfg) (Timely cfg lag) (FallbackNode.initial start) w)
    {shard : ℕ} (timely : Timely cfg lag w (.runS3Fallback shard))
    (passes : (w.gate cfg shard).leaseUnconfirmed = false) :
    ∃ v, w.world.lastWritten cfg.nodeId = some v ∧ w.clock < v.value.expiresAtMs ∧
      ∀ drift, w.latestPeer ≤ w.clock + drift →
        w.clock - w.s3CasConfirmedAtMs shard + lag + drift < cfg.s3LeaseDuration →
          w.world.object.current = some v := by
  have inv : GateInv cfg lag w :=
    run.invariant (fun _ _ _ inv ok hstep => inv.step ok hstep) (gateInv_initial start)
  obtain ⟨afterEpoch, window⟩ := timely
  have age : w.clock - w.s3CasConfirmedAtMs shard < cfg.s3LeaseDuration := by
    simpa [gate, fallbackGate, enabled] using passes
  -- the zero of a shard that has heard of no confirmation is a full duration old
  obtain ⟨u, mem, own, le⟩ := (inv.cells shard).resolve_left (by omega)
  obtain ⟨v, isLast, memLast, ownLast, stamp⟩ := inv.stamps.le_last mem own
  have expires := (inv.stamps.stamped v memLast ownLast).expires
  refine ⟨v, isLast, by omega, fun drift bound margin => ?_⟩
  exact inv.stamps.current_of_latest_lt isLast (by omega)

/-- A node creates the lease, stamped 5000, and the election ends 400 ms later. -/
def slowElection : List FallbackAction :=
  [.setNodeRoleViaS3 0, .serve 0 (.served 1), .resume 0 0, .serve 0 (.served 1), .tick 400,
    .resume 0 0, .serveMembership 0 (.ok none), .resume 0 0, .finish 0]

/-- Half a second after that election the gate is open, and the lease valid for another 100 ms. -/
theorem fallback_gate_lease_unexpired_half :
    ∃ w, Reaches (FallbackNode.step ⟨7, 1000, 50⟩) (Timely ⟨7, 1000, 50⟩ 400)
        (FallbackNode.initial 5000) w ∧
      w.clock = 5900 ∧ ∃ v, w.world.lastWritten 7 = some v ∧ 5900 < v.value.expiresAtMs ∧
        w.world.object.current = some v := by
  obtain ⟨w, run, clock, confirmed, peer⟩ : ∃ w, Reaches (FallbackNode.step ⟨7, 1000, 50⟩)
      (Timely ⟨7, 1000, 50⟩ 400) (FallbackNode.initial 5000) w ∧ w.clock = 5900 ∧
      w.s3CasConfirmedAtMs 0 = 5400 ∧ w.latestPeer = 0 :=
    exists_of_exec (slowElection ++ [.tick 500]) (by decide +kernel)
  have timely : Timely ⟨7, 1000, 50⟩ 400 w (.runS3Fallback 0) := by
    simp [Timely, clock, confirmed]
  obtain ⟨v, isLast, valid, current⟩ := fallback_gate_lease_unexpired (by decide) run timely
    (by simp [gate, fallbackGate, clock, confirmed])
  rw [clock] at valid
  exact ⟨w, run, clock, v, isLast, valid, current 0 (by omega) (by rw [clock, confirmed]; decide)⟩

/-- **The gate opens under an expired lease**: after the same election the gate is still open at
6399, the lease has expired at 6000, and another node, by a clock that agrees, has taken it. -/
theorem fallback_under_expired_lease :
    ∃ w, Reaches (FallbackNode.step ⟨7, 1000, 50⟩) Always (FallbackNode.initial 5000) w ∧
      w.clock = 6399 ∧ (w.gate ⟨7, 1000, 50⟩ 0).leaseUnconfirmed = false ∧
      (w.world.lastWritten 7).map (fun v => v.value.expiresAtMs) = some 6000 ∧
      w.world.object.current.map Version.value = some ⟨9, 2, 6100, 7100⟩ :=
  exists_of_exec (slowElection ++ [.tick 700, .peerBegin 1 ⟨9, 1000, 50⟩ 6100, .serve 1 (.served 2),
    .resume 1 6100, .serve 1 (.served 2), .tick 299]) (by decide +kernel)

end Celeriant
