import Celeriant.Distributed.TakeoverInv

/-!
# Takeovers over whole runs

Every function of the node keeps `NodeInv`, and so does every step that meets `KeepsWindow`. A run
on each side of the condition: a node that challenges a peer's expired lease after a restart, and a
stale leader whose on-demand renewal takes over without a promotion.

## Main results

* `NodeInv.step`: every step that meets `KeepsWindow` keeps the invariant
* `leader_after_promotion`, `renewal_skips_promotion`
-/

namespace Celeriant

open Transition Option

/-! ## What a step of the node keeps -/

section Steps

variable {w w' : ElectionWorld} {cfg : NodeConfig} {n n' : NodeState} {now : ℕ} {a : NodeAction}
  {o : ElectionOutcome} {status : NodeStatus} {v : ValidatedNodeStatus}

theorem passive_of_follower (h : status.isAnyFollowerState = true) :
    status.leaseEpoch = none := by
  cases status with
  | follower e => rfl
  | followerCatchingUp e => rfl
  | _ => cases h

theorem markCatchingUp_passive
    (h : markCatchingUp status = some v) : v.status.leaseEpoch = none := by
  unfold markCatchingUp at h
  split at h <;> cases h <;> rfl

namespace NodeInv

variable (inv : NodeInv cfg ⟨w, n⟩)
include inv

/-- A step writes the present role, a passive one, an outcome, or a promotion it has stored. -/
theorem written {acks} (h : StatusWrite cfg now w n a acks v) :
    v.status.leaseEpoch = none ∨ v.status = n.status.raw ∨
      (∃ o, Installs now w n a o ∧ v = o.status) ∨
      ∃ e, v.status = .promoting e ∧ StoredEpochOf w.storedLeases cfg.nodeId e ∧
        n.point.opens = true := by
  cases h with
  | adopted arrives adopts => exact .inl (passive_of_follower (heartbeatAdoption_follower adopts))
  | resumed resumes waits =>
    exact .inl (passive_of_follower (inv.status.handlers _ (List.mem_of_getElem? waits)))
  | refreshed | dropped => exact .inr (.inl rfl)
  | marked enters marks => exact .inl (markCatchingUp_passive marks)
  | installed installs => exact .inr (.inr (.inl ⟨_, installs, rfl⟩))
  | @promoting o promotes leads =>
    obtain ⟨e, leads⟩ := NodeStatus.isLeader_iff.mp leads
    have backed := inv.held_backed (promotes.held)
    obtain ⟨l, hl, named, epoch, -⟩ := backed.leader leads
    refine .inr (.inr (.inr ⟨_, rfl, ⟨l, hl, named, epoch.trans ?_⟩, ?_⟩))
    · rw [leads]; rfl
    · cases promotes with
      | applied point | renewed point => rw [point]; rfl
  | _ => exact .inl rfl

/-- **An installed leader is earned**: the promotion window is intact at the flip, or the node is
entitled to the epoch. -/
theorem earned_of_installs (h : Installs now w n a o) {e}
    (leads : o.status.raw = .leader e) : Earned w.storedLeases cfg.nodeId n.history e := by
  have backed := inv.held_backed h.held
  have entitled : n.Entitled w.storedLeases e → Earned w.storedLeases cfg.nodeId n.history e := by
    obtain ⟨l, hl, named, epoch, -⟩ := backed.leader leads
    exact inv.status.earned_of_entitled inv.election.ordered ⟨l, hl, named, epoch⟩
  cases h with
  | @flipped c point gate =>
    have kept := inv.point
    rw [point] at kept
    obtain ⟨change, caught⟩ := kept
    cases won : c.becameLeader with
    | false => exact entitled (change.kept won e leads)
    | true =>
      -- the gate saw the effective status in the window, so the raw one is there
      have window : n.status.raw = .promoting c.newLeaseEpoch := raw_promoting_of_gate (won ▸ gate)
      obtain ⟨stored, promoted⟩ := inv.status.promoting _ window
      obtain rfl : c.newLeaseEpoch = e := by
        rw [RoleChange.newLeaseEpoch, leads]
        rfl
      exact ⟨stored, promoted, caught won _ window⟩
  | @superseded _ _ id _ point returned superseded =>
    obtain ⟨c, reply, hcall⟩ := electionResult_eq returned
    have promotion : n.promotionCall id = true := by
      unfold NodeState.promotionCall
      rw [point]
      exact decide_eq_true rfl
    rcases (inv.promotionCall id _ promotion hcall).point e leads with reacquired | first
    · rw [ElectionOutcome.renewsPromotion, reacquired, leads] at superseded
      exact absurd rfl superseded
    · exact entitled (.inr first)
  | @renewed id _ _ renewal returned =>
    have leader : n.leaderCall id = true := by
      exact Bool.or_eq_true_iff.mpr (.inl (decide_eq_true renewal))
    exact entitled (inv.outcome_entitled leader returned e leads)

theorem status_step (h : StepSummary cfg now w w' n a n') :
    StatusInv w.storedLeases cfg.nodeId n' := by
  cases h.change with
  | kept status _ notes => exact inv.status.moved (by rw [status]) notes h.handlers
  | restarted _ status _ notes =>
    have booted : StatusInv w.storedLeases cfg.nodeId { n with status := .createBootCatchup } :=
      ⟨inv.status.earned, fun _ he => (by cases he), fun _ he => (by cases he), inv.status.handlers⟩
    exact booted.moved (by rw [status]) notes h.handlers
  | @wrote _ v cause status _ notes =>
    have set : StatusInv w.storedLeases cfg.nodeId (n.setStatus now w.storedLeases.length v) := by
      rcases inv.written cause with passive | same | ⟨o, installs, rfl⟩ | ⟨e, promoting, stored, -⟩
      · exact inv.status.setPassive now passive
      · exact inv.status.refresh now same
      · have backed := inv.held_backed installs.held
        exact inv.status.setStatus now (fun e => inv.earned_of_installs installs)
          fun e he => absurd he (backed.not_promoting e)
      · refine inv.status.setStatus now (fun _ he => ?_) fun e' he => ?_
        · rw [promoting] at he; cases he
        · rw [promoting] at he
          exact NodeStatus.promoting.inj he ▸ stored
    exact set.moved (by rw [status]; rfl) notes h.handlers

/-- Only the loop writes `Promoting`. -/
theorem promoting_step (h : StatusChange cfg now w n a n') (e : ℕ)
    (he : n'.status.raw = .promoting e) : n.status.raw = .promoting e ∨ n.point.opens = true := by
  cases h with
  | kept status => exact .inl (status ▸ he)
  | restarted _ status => rw [status] at he; cases he
  | @wrote _ v cause status =>
    rw [status] at he
    change v.status = .promoting e at he
    rcases inv.written cause with passive | same | ⟨o, installs, rfl⟩ | ⟨-, -, -, opens⟩
    · rw [he] at passive; cases passive
    · exact .inl (same ▸ he)
    · exact absurd he ((inv.held_backed installs.held).not_promoting e)
    · exact .inr opens

end NodeInv

/-- A leader outcome that is not effective is about to decay. -/
theorem mustFence_of_not_isLeader {e} (raw : v.raw = .leader e)
    (h : v.isLeader now = false) : v.mustFence now = true := by
  by_contra alive
  have effective : v.effectiveNodeStatus now = .leader e := by
    simp only [ValidatedNodeStatus.mustFence, decide_eq_true_eq, not_lt] at alive
    exact ValidatedNodeStatus.effectiveNodeStatus_eq_leader.mpr ⟨raw, alive⟩
  rw [ValidatedNodeStatus.isLeader, effective] at h
  cases h

/-- **Applying the outcome** starts a promotion, or the node is entitled to the epoch. -/
theorem NodeInv.applied (inv : NodeInv cfg ⟨w, n⟩) {reason}
    {previous} (point : n.point = .elected reason previous o)
    (ok : KeepsWindow ⟨w, n⟩ (.node now .applyElection)) :
    ChangeInv w.storedLeases cfg n (.ofOutcome now reason previous o) := by
  have kept := inv.point
  rw [point] at kept
  obtain ⟨backed, entitled⟩ := kept
  refine ⟨backed, fun no e leads => ?_⟩
  change o.status.raw = .leader e at leads
  cases was : previous.raw.isLeader with
  | true => exact entitled was e leads
  | false =>
    -- not leader before and not effective leader now: the won lease has decayed
    simp only [KeepsWindow, point, leads] at ok
    refine ok was (mustFence_of_not_isLeader leads ?_)
    simpa [RoleChange.ofOutcome, was] using no

theorem pointKept_of_isPlain {leases p} (h : p.isPlain = true) :
    PointKept leases cfg n p := by
  cases p with
  | betweenAttempts purpose tracker =>
    cases purpose with
    | none => exact fun _ hc => by cases hc
    | some c => cases h
  | _ => trivial

/-- **The loop's point** carries what is known of it along every move. -/
theorem NodeInv.point_step (inv : NodeInv cfg ⟨w, n⟩) (ok : KeepsWindow ⟨w, n⟩ (.node now a))
    (h : StepSummary cfg now w w' n a n') : PointKept w.storedLeases cfg n' n'.point := by
  have grows := h.change.grows
  have promoting := inv.promoting_step h.change
  have kept := inv.point
  cases h.loop with
  | stays after =>
    rw [after]
    exact kept.mono grows promoting
  | leaves plain => exact pointKept_of_isPlain plain
  | elects _ _ after => rw [after]; trivial
  | @elected reason previous id o before returned after =>
    rw [after]
    refine ⟨inv.outcome_backed (.inl (by rw [before]; rfl)) returned, fun was e he => ?_⟩
    have leader : n.leaderCall id = true := by
      unfold NodeState.leaderCall
      rw [before]
      exact Bool.or_eq_true_iff.mpr (.inr (Bool.and_eq_true_iff.mpr ⟨was, decide_eq_true rfl⟩))
    exact entitled_mono grows (inv.outcome_entitled leader returned e he)
  | checks applies before after =>
    subst applies
    rw [after]
    exact (inv.applied before ok).mono grows
  | applied applies before after =>
    subst applies
    rw [after]
    exact pipeline_kept ((inv.applied before ok).mono grows)
  | resumed before after =>
    rw [before] at kept
    rw [after]
    have change := ChangeInv.mono kept grows
    exact pipeline_kept ⟨change.backed, change.kept⟩
  | reconciled before after =>
    rw [before] at kept
    rw [after]
    exact afterReconcile_kept (ChangeInv.mono kept grows)
  | began before after =>
    rw [before] at kept promoting
    rw [after]
    exact ⟨fun c hc => (kept c hc).mono grows,
      fun e he => (promoting e he).resolve_right Bool.false_ne_true⟩
  | entered before after =>
    rw [before] at kept promoting
    rw [after]
    exact kept.mono grows promoting
  | continues before after | renews before _ after =>
    rw [before] at kept
    rw [after]
    exact fun c hc => (kept.1 c hc).mono grows
  | caught before noted after =>
    rw [before] at kept promoting
    rw [after]
    refine ⟨(kept.1 _ rfl).mono grows, fun _ e he => since_of_mem (noted e ?_)⟩
    exact kept.2 e ((promoting e he).resolve_right Bool.false_ne_true)
  | renewed before after =>
    rw [before] at kept
    rw [after]
    exact fun c hc => (kept c hc).mono grows
  | superseded before returned adopts after =>
    rw [before] at kept
    rw [after]
    refine ⟨(kept _ rfl).mono grows, fun _ e he => ?_⟩
    have backed := inv.outcome_backed (.inl (by rw [before]; rfl)) returned
    exact absurd (adopts.symm.trans he) (backed.not_promoting e)
  | flipped before after =>
    rw [before] at kept
    rw [after]
    exact kept.1.backed

/-! ## Every step -/

variable {id : CallId}

/-- The node resumes a call it waits for. -/
theorem NodeInv.resumeElection (inv : NodeInv cfg ⟨w, n⟩)
    (ok : KeepsWindow ⟨w, n⟩ (.node now (.resumeElection id)))
    (hstep : w.step (.resume id now) = some w') : NodeInv cfg ⟨w', n⟩ := by
  cases ElectionWorld.Step.of_step hstep with
  | resume answered =>
    refine inv.setCall hstep rfl (fun leader => ?_) fun promotion => ?_
    · refine (inv.leaderCall id _ leader answered).resume fun lwe hpoint hreply named alive => ?_
      subst hpoint hreply
      simp only [KeepsWindow, answered] at ok
      exact ok leader named alive
    · exact (inv.promotionCall id _ promotion answered).resume fun _ _ _ _ _ => .inl rfl

/-- **Every step of the node** that meets the condition keeps the invariant. -/
theorem NodeInv.nodeStep (inv : NodeInv cfg ⟨w, n⟩)
    (ok : KeepsWindow ⟨w, n⟩ (.node now a)) (h : n.step cfg now w a = some (w', n')) :
    NodeInv cfg ⟨w', n'⟩ := by
  have summary := NodeState.step_summary h
  have moved : NodeInv cfg ⟨w', n⟩ := by
    rcases summary.world with rfl | ⟨id, hstep⟩ | ⟨id, rfl, hstep⟩
    · exact inv
    · cases ElectionWorld.Step.of_step hstep with
      | begin idle => exact inv.begin idle
    · exact inv.resumeElection ok hstep
  have status := inv.status_step summary
  have point := inv.point_step ok summary
  rw [← summary.storedLeases] at status point
  exact moved.node status summary.change.grows summary.awaits (fun _ => summary.leaderCall)
    (fun _ => summary.promotionCall) point

/-- **Every step of the system** that meets the condition keeps the invariant. -/
theorem NodeInv.step {s s'} (inv : NodeInv cfg s) {a}
    (ok : KeepsWindow s a) (h : NodeWorld.step cfg s a = some s') : NodeInv cfg s' := by
  obtain ⟨w, n⟩ := s
  cases a with
  | node now a =>
    obtain ⟨⟨w', n'⟩, hstep, rfl⟩ := map_eq_some_iff.mp h
    exact inv.nodeStep ok hstep
  | serve id service =>
    obtain ⟨w', hstep, rfl⟩ := map_eq_some_iff.mp h
    change w.step _ = some w' at hstep
    obtain ⟨suffix, eq⟩ := ElectionWorld.storedLeases_step hstep
    cases ElectionWorld.Step.of_step hstep with
    | serve waits served =>
      refine inv.setCall hstep rfl (fun leader => ?_) fun promotion => ?_
      · refine CallYields.serve ((inv.leaderCall id _ leader waits).mono fun e _ h => ?_) served
          (fun lease first => .inr first) fun next etag own tag hpoint hservice admitted => ?_
        · exact eq ▸ h.imp_right FirstEpoch.append
        · subst hpoint hservice
          simp only [KeepsWindow, waits] at ok
          exact eq ▸ ((ok admitted).1 leader).imp_right FirstEpoch.append
      · refine CallYields.serve
          ((inv.promotionCall id _ promotion waits).mono fun e _ h => ?_) served
          (fun lease first => .inr first) fun next etag own tag hpoint hservice admitted => ?_
        · exact eq ▸ h.imp_right FirstEpoch.append
        · subst hpoint hservice
          simp only [KeepsWindow, waits] at ok
          exact .inl ((ok admitted).2 promotion)
  | serveMembership id result =>
    obtain ⟨w', hstep, rfl⟩ := map_eq_some_iff.mp h
    cases ElectionWorld.Step.of_step hstep with
    | serveMembership waits =>
      exact inv.setCall hstep rfl
        (fun leader => ⟨(inv.leaderCall id _ leader waits).point, trivial⟩)
        (fun promotion => ⟨(inv.promotionCall id _ promotion waits).point, trivial⟩)
  | peerBegin id peer clock =>
    simp only [NodeWorld.step] at h
    split at h
    · obtain ⟨w', hstep, rfl⟩ := map_eq_some_iff.mp h
      cases ElectionWorld.Step.of_step hstep with
      | begin idle => exact inv.begin idle
    · cases h
  | peerResume id clock =>
    simp only [NodeWorld.step] at h
    split at h
    next call hcall =>
      split at h
      next other =>
        obtain ⟨w', hstep, rfl⟩ := map_eq_some_iff.mp h
        -- the node waits only for calls under its own id
        have foreign : ¬ n.Awaits id := by
          intro awaits
          obtain ⟨c, hc, own⟩ := inv.awaited id awaits
          obtain rfl := some.inj (hcall.symm.trans hc)
          exact other (own ▸ rfl)
        cases ElectionWorld.Step.of_step hstep with
        | resume =>
          exact inv.setCall hstep rfl (fun leader => absurd (awaits_of_leaderCall leader) foreign)
            fun promotion => absurd (awaits_of_promotionCall promotion) foreign
      next => cases h
    next => cases h

end Steps

/-! ## Results -/

/-- **A takeover runs the promotion.** In every run whose steps all meet `KeepsWindow`: whenever the
node is `Leader` of an epoch whose lease it stored over another node's, it has since been
`Promoting` at that epoch, and a catchup entered under role Promoting at that epoch has since
finished Caught on every shard. -/
theorem leader_after_promotion {cfg : NodeConfig} {s : NodeWorld}
    (h : Reaches (NodeWorld.step cfg) KeepsWindow .initial s) {e k : ℕ}
    (leads : s.node.status.raw = .leader e) (won : TookOver s.world.storedLeases cfg.nodeId e k) :
    (∃ m, k + 1 < m ∧ (e, m) ∈ s.node.history.promoted) ∧
      ∃ m, k + 1 < m ∧ (e, m) ∈ s.node.history.caught := by
  have inv := h.invariant (fun _ _ _ inv ok hstep => inv.step ok hstep) (nodeInv_initial cfg)
  have earned := inv.status.earned e (inv.status.leader e leads)
  exact ⟨earned.promoted k won, earned.caught k won⟩

/-- A node with one shard, a lease of 100 ms and a drift of 5 ms. -/
def soloNode : NodeConfig := ⟨1, 100, 5, 50, 1⟩

def caughtResult : Except CatchupErrorClass S3CatchupResult := .ok ⟨0, 0, 1, .caught, false⟩

/-- The node's election call runs to its outcome at one time; S3 hands out the tag. -/
def electionRun (now : ℕ) (id : CallId) (etag : ETag) : List NodeWorldAction :=
  [.serve id (.served etag), .node now (.resumeElection id), .serve id (.served etag),
    .node now (.resumeElection id), .serveMembership id (.ok none), .node now (.resumeElection id)]

/-- One catchup attempt, Caught on the node's only shard. -/
def attemptRun (now : ℕ) : List NodeWorldAction :=
  [.node now .beginAttempt, .node now .enterCatchup, .node now (.attemptDone caughtResult [] 0)]

/-- From the outcome through the promotion to the leader status. -/
def promotionRun (now : ℕ) : List NodeWorldAction :=
  [.node now (.electionReturned none), .node now .applyElection, .node now (.reconciled true)] ++
    attemptRun now ++ [.node now .flip, .node now (.drained true)]

/-- The node boots on an empty store and leads epoch 1. -/
def bootRun : List NodeWorldAction :=
  [.node 10 .orchestrate] ++ attemptRun 10 ++ [.node 10 (.peeked true 0)] ++ electionRun 10 0 1 ++
    promotionRun 10

/-- Node 2 finds the lease expired and takes epoch 2. -/
def peerRun : List NodeWorldAction :=
  [.peerBegin 1 ⟨2, 100, 5⟩ 200, .serve 1 (.served 2), .peerResume 1 200, .serve 1 (.served 2)]

/-- After a restart the node challenges the expired lease of node 2 and leads epoch 3. -/
def challengeRun : List NodeWorldAction :=
  bootRun ++ peerRun ++ [.node 400 .restart, .node 400 .orchestrate] ++ attemptRun 400 ++
    [.node 400 (.peeked true 2), .node 460 (.bootGraceOver 2)] ++ electionRun 460 2 3 ++
    promotionRun 460

theorem leader_after_promotion_challengeRun :
    ∃ s, exec (NodeWorld.step soloNode) KeepsWindow .initial challengeRun = some s ∧
      s.node.status.raw = .leader 3 ∧ TookOver s.world.storedLeases 1 3 1 ∧
      ∃ m, 1 + 1 < m ∧ (3, m) ∈ s.node.history.caught := by
  obtain ⟨s, run, leads, won⟩ : ∃ s,
      exec (NodeWorld.step soloNode) KeepsWindow .initial challengeRun = some s ∧
        s.node.status.raw = .leader 3 ∧ TookOver s.world.storedLeases 1 3 1 :=
    ⟨_, rfl, rfl, by decide⟩
  exact ⟨s, run, leads, won, (leader_after_promotion (reaches_of_exec _ run) leads won).2⟩

/-- The leader of epoch 1 whose lease node 2 has taken over and let expire, and which still reads
`Leader`: a shard asks for a renewal. -/
def staleRenewalRun : List NodeWorldAction :=
  bootRun ++ peerRun ++ [.node 400 (.renewOnDemand 2)] ++ electionRun 400 2 3 ++
    [.node 400 (.renewalReturned none)]

/-- The on-demand renewal takes over the lease of node 2 and installs `Leader` at the new epoch,
effective at once, with no promotion and no catchup at that epoch. -/
theorem renewal_skips_promotion :
    ∃ s, exec (NodeWorld.step soloNode) Always .initial staleRenewalRun = some s ∧
      s.node.status.effectiveNodeStatus 400 = .leader 3 ∧ TookOver s.world.storedLeases 1 3 1 ∧
      (∀ p ∈ s.node.history.promoted, p.1 ≠ 3) ∧ ∀ p ∈ s.node.history.caught, p.1 ≠ 3 :=
  ⟨_, rfl, by decide, by decide, by decide, by decide⟩

end Celeriant
