import Celeriant.Distributed.ElectionRuns
import Mathlib.Data.Nat.Basic

/-!
# The stamps of one node's leases

An election stamps the lease it is about to write with a reading of the node's clock, and the lease
expires one duration later. This module follows one node through the concurrent elections of
`ElectionRuns`, when its clock does not run backwards. The clocks of the other nodes are arbitrary;
`latest` is the latest reading at which one of them began an election.

A write may land long after it was stamped. Still, the leases that the node has written are stored
in the order of their stamps: a conditional write is admitted only on the lease that its call read,
so nothing the node stamped later can have been stored in between. Another node replaces a lease of
this one only after it has expired by the reading at which its own election began.

## Main results

* `StampInv.begin`, `StampInv.serve`, `StampInv.answered`, `StampInv.resume`: the steps of the
  elections keep it
* `StampInv.le_last`, `StampInv.current_of_latest_lt`
-/

namespace Celeriant

open List

/-- In the order of epochs, and of stamps within an epoch, `l` does not come after `m`. -/
def Lease.NotAfter (l m : Lease) : Prop :=
  l.leaseEpoch < m.leaseEpoch ∨ l.leaseEpoch = m.leaseEpoch ∧ l.acquiredAtMs ≤ m.acquiredAtMs

theorem Lease.NotAfter.rfl {l : Lease} : l.NotAfter l := .inr ⟨Eq.refl _, le_rfl⟩

section Invariant

variable (cfg : S3LeaseConfig) (clock latest : ℕ) (vs : List (Version Lease ETag CallId))

/-- The lease was stamped by the clock and expires one duration later. -/
structure Lease.Stamped (l : Lease) : Prop where
  past : l.acquiredAtMs ≤ clock
  expires : l.expiresAtMs = l.acquiredAtMs + cfg.s3LeaseDuration

/-- The version names the node. -/
def Own (v : Version Lease ETag CallId) : Prop := v.value.leaderNodeId = cfg.nodeId
  deriving Decidable

/-- What is known of a call's readings of the clock, for a call of the node with the `caller`'s
configuration. -/
def PointStamps (caller : S3LeaseConfig) : ElectionPoint → Prop
  | .getLease now => caller.nodeId ≠ cfg.nodeId → now ≤ latest
  | .putLeaseCreateOnly lease => caller.nodeId = cfg.nodeId → lease.Stamped cfg clock
  | .putLeaseConditional next etag _ =>
    (caller.nodeId = cfg.nodeId → next.Stamped cfg clock) ∧
      ∃ read ∈ vs, read.tag = etag ∧
        (caller.nodeId = cfg.nodeId →
          ∀ u ∈ vs, Own cfg u → u.value.NotAfter read.value →
            u.value.acquiredAtMs ≤ next.acquiredAtMs) ∧
        (caller.nodeId ≠ cfg.nodeId → Own cfg read → read.value.expiresAtMs ≤ latest)
  | .discoverPeer status _ _ written => written = true → status.isLeader = true
  | .done (.ok outcome) => outcome.casWritten = true → outcome.status.raw.isLeader = true
  | _ => True

/-- The stamps of the node's leases. -/
structure StampInv (w : ElectionWorld) : Prop where
  /-- the node's calls run under its configuration -/
  config : ∀ id c, w.calls id = some c → c.cfg.nodeId = cfg.nodeId → c.cfg = cfg
  call : ∀ id c, w.calls id = some c → PointStamps cfg clock latest w.object.versions c.cfg c.point
  /-- a lease names the node whose call wrote it -/
  author : ∀ v ∈ w.object.versions, ∃ c, w.calls v.writer = some c ∧
    c.cfg.nodeId = v.value.leaderNodeId
  stamped : ∀ v ∈ w.object.versions, Own cfg v → v.value.Stamped cfg clock
  sorted : w.object.versions.Pairwise fun u v =>
    Own cfg u → Own cfg v → u.value.acquiredAtMs ≤ v.value.acquiredAtMs
  /-- only an expired lease is replaced by another node -/
  taken : ∀ v, w.object.current = some v → ¬ Own cfg v →
    ∀ u ∈ w.object.versions, Own cfg u → u.value.expiresAtMs ≤ latest

end Invariant

section Steps

variable {cfg : S3LeaseConfig} {clock clock' latest latest' : ℕ} {w : ElectionWorld} {id : CallId}
  {vs : List (Version Lease ETag CallId)} {v : Version Lease ETag CallId}

theorem stampInv_initial : StampInv cfg clock latest .initial where
  config := fun _ _ h => by cases h
  call := fun _ _ h => by cases h
  author := fun _ h => absurd h not_mem_nil
  stamped := fun _ h => absurd h not_mem_nil
  sorted := List.Pairwise.nil
  taken := fun _ _ _ _ h => absurd h not_mem_nil

theorem Lease.Stamped.mono {l : Lease} (h : l.Stamped cfg clock) (le : clock ≤ clock') :
    l.Stamped cfg clock' :=
  ⟨le_trans h.past le, h.expires⟩

variable {caller : S3LeaseConfig} {point : ElectionPoint} {c : ElectionCall} {reply : StoreReply}

theorem PointStamps.mono (h : PointStamps cfg clock latest vs caller point) (le : clock ≤ clock')
    (le' : latest ≤ latest') : PointStamps cfg clock' latest' vs caller point := by
  cases point with
  | getLease now => exact fun peer => le_trans (h peer) le'
  | putLeaseCreateOnly lease => exact fun own => (h own).mono le
  | putLeaseConditional next etag own =>
    obtain ⟨stamped, read, mem, tag, later, expired⟩ := h
    exact ⟨fun own => (stamped own).mono le, read, mem, tag, later,
      fun peer own => le_trans (expired peer own) le'⟩
  | done result => cases result <;> exact h
  | _ => exact h

/-- What is known of a call's readings survives a write: the new version comes after everything
that was stored. -/
theorem PointStamps.append (h : PointStamps cfg clock latest vs caller point)
    (follows : ∀ u ∈ vs, u.value.Precedes v.value) :
    PointStamps cfg clock latest (vs ++ [v]) caller point := by
  cases point with
  | putLeaseConditional next etag isOwn =>
    obtain ⟨stamped, read, mem, tag, later, expired⟩ := h
    refine ⟨stamped, read, mem_append_left _ mem, tag, fun own u hu ownu notAfter => ?_,
      expired⟩
    rcases mem_append.mp hu with hu | hu
    · exact later own u hu ownu notAfter
    · -- of the epoch that was read, the new version would also be no later than what was read
      obtain rfl := mem_singleton.mp hu
      have precedes := follows read mem
      rcases notAfter with lt | ⟨epoch, le⟩
      · exact absurd lt (Nat.not_lt.mpr precedes.1)
      · have ownRead : Own cfg read := (precedes.2 epoch.symm).trans ownu
        exact le_trans le (later own read mem ownRead Lease.NotAfter.rfl)
  | done result => cases result <;> exact h
  | _ => exact h

variable {read : Version Lease ETag CallId} {o' : LeaseObject} {now : ℕ}

namespace StampInv

variable (h : StampInv cfg clock latest w)
include h

/-- Time passes, and other nodes begin elections at later readings. -/
theorem mono (le : clock ≤ clock') (le' : latest ≤ latest') : StampInv cfg clock' latest' w where
  config := h.config
  call := fun id c hc => (h.call id c hc).mono le le'
  author := h.author
  stamped := fun v hv own => (h.stamped v hv own).mono le
  sorted := h.sorted
  taken := fun v hv peer u hu own => le_trans (h.taken v hv peer u hu own) le'

/-- A step that moves one call and stores nothing. -/
theorem setCall (config : c.cfg.nodeId = cfg.nodeId → c.cfg = cfg)
    (point : PointStamps cfg clock latest w.object.versions c.cfg c.point)
    (same : ∀ c₀, w.calls id = some c₀ → c₀.cfg = c.cfg) :
    StampInv cfg clock latest (w.setCall id c) where
  config := forall_setCall config fun j _ => h.config j
  call := forall_setCall point fun j _ => h.call j
  author := by
    intro v hv
    obtain ⟨d, hd, named⟩ := h.author v hv
    by_cases hj : v.writer = id
    · exact ⟨c, by simp [ElectionWorld.setCall, hj], by rw [← same d (hj ▸ hd)]; exact named⟩
    · exact ⟨d, by simpa [ElectionWorld.setCall, hj] using hd, named⟩
  stamped := h.stamped
  sorted := h.sorted
  taken := h.taken

/-- A reply alone moves no reading of the clock. -/
theorem answered (hc : w.calls id = some c) (reply : Option StoreReply) :
    StampInv cfg clock latest (w.setCall id ⟨c.cfg, c.point, reply⟩) := by
  refine h.setCall (h.config id c hc) (h.call id c hc) fun c₀ hc₀ => ?_
  rw [Option.some.inj (hc₀.symm.trans hc)]

/-- The node's leases are stamped no later than the one the node's write is admitted on, and so no
later than the write. -/
theorem le_of_admits (inv : ElectionInv w) {next : Lease}
    (admits : w.object.admits (.ifMatch read.tag) = true) (mem : read ∈ w.object.versions)
    (later : ∀ u ∈ w.object.versions, Own cfg u → u.value.NotAfter read.value →
      u.value.acquiredAtMs ≤ next.acquiredAtMs) :
    ∀ u ∈ w.object.versions, Own cfg u → u.value.acquiredAtMs ≤ next.acquiredAtMs := by
  obtain ⟨before, last, versions, value⟩ := CasObject.admits_ifMatch admits mem rfl
  intro u hu own
  apply later u hu own
  rw [← value]
  have ordered := inv.ordered
  have sorted := h.sorted
  rw [ElectionWorld.storedLeases, versions, map_append] at ordered
  rw [versions] at sorted hu
  rcases mem_append.mp hu with hu | hu
  · have precedes := (pairwise_append.mp ordered).2.2 _ (mem_map_of_mem hu) last.value
      (by simp)
    rcases Nat.lt_or_eq_of_le precedes.1 with lt | epoch
    · exact .inl lt
    · have ownLast : Own cfg last := (precedes.2 epoch).symm.trans own
      exact .inr ⟨epoch, (pairwise_append.mp sorted).2.2 u hu last (by simp) own ownLast⟩
  · obtain rfl := mem_singleton.mp hu
    exact Lease.NotAfter.rfl

/-- When another node's write is admitted, every lease of this node has expired by the latest
reading of the others. -/
theorem expired_of_admits
    (admits : w.object.admits (.ifMatch read.tag) = true) (mem : read ∈ w.object.versions)
    (expired : Own cfg read → read.value.expiresAtMs ≤ latest) :
    ∀ u ∈ w.object.versions, Own cfg u → u.value.expiresAtMs ≤ latest := by
  obtain ⟨before, last, versions, value⟩ := CasObject.admits_ifMatch admits mem rfl
  have current : w.object.current = some last := by simp [CasObject.current, versions]
  intro u hu own
  by_cases ownLast : Own cfg last
  · have expiredLast : last.value.expiresAtMs ≤ latest :=
      value ▸ expired (show read.value.leaderNodeId = _ from value ▸ ownLast)
    have le : u.value.acquiredAtMs ≤ last.value.acquiredAtMs := by
      have sorted := h.sorted
      rw [versions] at sorted hu
      rcases mem_append.mp hu with hu | hu
      · exact (pairwise_append.mp sorted).2.2 u hu last (by simp) own ownLast
      · obtain rfl := mem_singleton.mp hu
        exact le_rfl
    have stampedU := (h.stamped u hu own).expires
    have stampedLast := (h.stamped last (CasObject.mem_of_current current) ownLast).expires
    omega
  · exact h.taken last current ownLast u hu own

/-- A write by one call keeps the invariant when, for a lease of the node, it is stamped no earlier
than the node's other leases, and for a lease of another node those have expired. -/
theorem write {lease} {etag reply} (hc : w.calls id = some c)
    (versions : o'.versions = w.object.versions ++ [⟨lease, etag, id⟩])
    (named : lease.leaderNodeId = c.cfg.nodeId)
    (follows : ∀ u ∈ w.object.versions, u.value.Precedes lease)
    (own : c.cfg.nodeId = cfg.nodeId → lease.Stamped cfg clock ∧
      ∀ u ∈ w.object.versions, Own cfg u → u.value.acquiredAtMs ≤ lease.acquiredAtMs)
    (peer : c.cfg.nodeId ≠ cfg.nodeId →
      ∀ u ∈ w.object.versions, Own cfg u → u.value.expiresAtMs ≤ latest) :
    StampInv cfg clock latest ({ w with object := o' }.setCall id ⟨c.cfg, c.point, reply⟩) where
  config := forall_setCall (h.config id c hc) fun j _ => h.config j
  call := by
    simp only [ElectionWorld.setCall, versions]
    exact forall_setCall ((h.call id c hc).append follows) fun j _ d hd =>
      (h.call j d hd).append follows
  author := by
    intro v hv
    simp only [ElectionWorld.setCall, versions] at hv ⊢
    by_cases hj : v.writer = id
    · refine ⟨⟨c.cfg, c.point, reply⟩, by simp [hj], ?_⟩
      rcases mem_append.mp hv with hv | hv
      · obtain ⟨d, hd, authored⟩ := h.author v hv
        rw [hj, hc] at hd
        cases hd
        exact authored
      · obtain rfl := mem_singleton.mp hv
        exact named.symm
    · rcases mem_append.mp hv with hv | hv
      · obtain ⟨d, hd, authored⟩ := h.author v hv
        exact ⟨d, by simpa [hj] using hd, authored⟩
      · obtain rfl := mem_singleton.mp hv
        exact absurd rfl hj
  stamped := by
    intro v hv ownV
    simp only [ElectionWorld.setCall, versions] at hv
    rcases mem_append.mp hv with hv | hv
    · exact h.stamped v hv ownV
    · obtain rfl := mem_singleton.mp hv
      exact (own (named.symm.trans ownV)).1
  sorted := by
    simp only [ElectionWorld.setCall, versions]
    refine pairwise_append.mpr ⟨h.sorted, pairwise_singleton _ _, ?_⟩
    intro u hu v hv ownU ownV
    obtain rfl := mem_singleton.mp hv
    exact (own (named.symm.trans ownV)).2 u hu ownU
  taken := by
    intro v hv notOwn u hu ownU
    simp only [ElectionWorld.setCall, CasObject.current, versions, List.getLast?_concat,
      Option.some.injEq] at hv hu
    subst hv
    rcases mem_append.mp hu with hu | hu
    · exact peer (fun isOwn => notOwn (named.trans isOwn)) u hu ownU
    · obtain rfl := mem_singleton.mp hu
      exact absurd ownU notOwn

/-- A served put keeps the invariant. -/
theorem servePut (hc : w.calls id = some c) {condition lease service}
    (hs : servePut w.object id condition lease service = some (o', reply))
    (named : lease.leaderNodeId = c.cfg.nodeId)
    (follows : w.object.admits condition = true → ∀ u ∈ w.object.versions, u.value.Precedes lease)
    (own : w.object.admits condition = true → c.cfg.nodeId = cfg.nodeId →
      lease.Stamped cfg clock ∧
        ∀ u ∈ w.object.versions, Own cfg u → u.value.acquiredAtMs ≤ lease.acquiredAtMs)
    (peer : w.object.admits condition = true → c.cfg.nodeId ≠ cfg.nodeId →
      ∀ u ∈ w.object.versions, Own cfg u → u.value.expiresAtMs ≤ latest) :
    StampInv cfg clock latest
      ({ w with object := o' }.setCall id ⟨c.cfg, c.point, some reply⟩) := by
  rcases servePut_cases hs with ⟨rfl, e, rfl⟩ | ⟨admits, etag, versions⟩
  · exact h.answered hc _
  · exact h.write hc versions named (follows admits) (own admits) (peer admits)

/-- **Serving a request** keeps the invariant. -/
theorem serve (inv : ElectionInv w) (hc : w.calls id = some ⟨caller, point, none⟩)
    {service : Service} (hs : serve w.object id point service = some (o', reply)) :
    StampInv cfg clock latest
      ({ w with object := o' }.setCall id ⟨caller, point, some reply⟩) := by
  have stamps := h.call id _ hc
  have epochs := (inv.call id _ hc).point
  cases point with
  | getLease | getLeaseAfterAlreadyExists | getLeaseAfterPreconditionFailed =>
    cases hs
    exact h.answered hc _
  | putLeaseCreateOnly lease =>
    have none (admits : w.object.admits .createOnly = true) (u) (hu : u ∈ w.object.versions) :
        False := by
      rw [CasObject.admits_createOnly admits] at hu
      cases hu
    refine h.servePut hc hs epochs (fun admits u hu => (none admits u hu).elim)
      (fun admits isOwn => ⟨stamps isOwn, fun u hu => (none admits u hu).elim⟩)
      (fun admits _ u hu => (none admits u hu).elim)
  | putLeaseConditional next etag isOwn =>
    obtain ⟨named, epochRead⟩ := epochs
    obtain ⟨stamped, read, mem, rfl, later, expired⟩ := stamps
    refine h.servePut hc hs named (fun admits => precedes_of_admits inv admits epochRead)
      (fun admits own => ⟨stamped own, h.le_of_admits inv admits mem (later own)⟩)
      (fun admits peer => h.expired_of_admits admits mem (expired peer))
  | discoverPeer status expires reacquired written => cases hs
  | done result => cases hs

/-- A call begins: of this node under its configuration, of another node at a reading no later
than the latest. -/
theorem begin (idle : w.calls id = none) (config : caller.nodeId = cfg.nodeId → caller = cfg)
    (peer : caller.nodeId ≠ cfg.nodeId → now ≤ latest) :
    StampInv cfg clock latest (w.setCall id ⟨caller, .start now, none⟩) := by
  refine h.setCall config peer fun c₀ hc₀ => ?_
  rw [idle] at hc₀
  cases hc₀

/-- The first decision: the node stamps its lease with the clock, after all it has stored; another
node goes for a lease of this one only when it has expired. -/
theorem onLease {now'} {found} (config : caller.nodeId = cfg.nodeId → caller = cfg)
    (own : caller.nodeId = cfg.nodeId → now' = clock)
    (peer : caller.nodeId ≠ cfg.nodeId → now ≤ latest) (read : ∀ lwe, found = some lwe →
      ∃ v ∈ w.object.versions, v.value = lwe.lease ∧ v.tag = lwe.etag) :
    PointStamps cfg clock latest w.object.versions caller
      (ElectionPoint.onLease caller now now' found) := by
  have stamped (isOwn : caller.nodeId = cfg.nodeId) {l : Lease} (acquired : l.acquiredAtMs = now')
      (expires : l.expiresAtMs = now' + caller.s3LeaseDuration) : l.Stamped cfg clock := by
    obtain rfl := config isOwn
    exact ⟨le_of_eq (acquired.trans (own isOwn)), by rw [expires, acquired]⟩
  cases found with
  | none => exact fun isOwn => stamped isOwn rfl rfl
  | some lwe =>
    obtain ⟨v, mem, value, tag⟩ := read lwe rfl
    simp only [ElectionPoint.onLease]
    split
    · exact fun written => by cases written
    next notFollowed =>
      refine ⟨fun isOwn => stamped isOwn ?_ ?_, v, mem, tag, fun isOwn u hu ownU _ => ?_,
        fun isPeer ownV => ?_⟩
      · split <;> rfl
      · split <;> rfl
      · have past := (h.stamped u hu ownU).past
        rw [← own isOwn] at past
        split <;> exact past
      · have other : lwe.lease.leaderNodeId ≠ caller.nodeId := by
          rw [← value]
          exact fun same => isPeer (same.symm.trans ownV)
        have expired : lwe.lease.isExpired now = true := by simpa [other] using notFollowed
        rw [value]
        exact le_trans (of_decide_eq_true expired) (peer isPeer)

/-- **Resuming a call** keeps the invariant, when a call of the node reads the node's clock. -/
theorem resume (inv : ElectionInv w) (hc : w.calls id = some ⟨caller, point, some reply⟩)
    (own : caller.nodeId = cfg.nodeId → now = clock) :
    StampInv cfg clock latest (w.setCall id ⟨caller, point.resume caller now reply, none⟩) := by
  have config := h.config id _ hc
  have stamps := h.call id _ hc
  have epochs := (inv.call id _ hc).reply
  refine h.setCall config ?_ fun c₀ hc₀ => ?_
  · unfold ElectionPoint.resume
    -- only the first decision reads the clock into a lease; the other points carry a result on
    split
    case h_2 began found =>
      refine h.onLease config own stamps fun lwe found' => ?_
      subst found'
      exact epochs
    case h_3 => exact fun _ => rfl
    case h_8 => exact fun written => by cases written
    case h_9 => exact fun _ => rfl
    case h_13 found =>
      cases found with
      | none => trivial
      | some lwe =>
        simp only [ElectionPoint.onReread]
        split <;> exact fun written => by cases written
    case h_14 => exact stamps
    all_goals trivial
  · obtain rfl := Option.some.inj (hc.symm.trans hc₀)
    rfl

end StampInv

end Steps

section Consequences

variable {cfg : S3LeaseConfig} {clock latest : ℕ} {w : ElectionWorld}

/-- The version was written by a call of the node. -/
def ElectionWorld.writtenBy (w : ElectionWorld) (node : NodeId)
    (v : Version Lease ETag CallId) : Bool :=
  match w.calls v.writer with
  | some c => c.cfg.nodeId == node
  | none => false

/-- The most recent lease that the node has durably written. -/
def ElectionWorld.lastWritten (w : ElectionWorld) (node : NodeId) :
    Option (Version Lease ETag CallId) :=
  (w.object.versions.filter (w.writtenBy node)).getLast?

variable {v : Version Lease ETag CallId}

/-- What the node wrote is what names it. -/
theorem StampInv.writtenBy_iff (h : StampInv cfg clock latest w)
    (mem : v ∈ w.object.versions) : w.writtenBy cfg.nodeId v = true ↔ Own cfg v := by
  obtain ⟨c, hc, named⟩ := h.author v mem
  simp [ElectionWorld.writtenBy, hc, Own, named]

/-- **The node's last lease** has its greatest stamp. -/
theorem StampInv.le_last (h : StampInv cfg clock latest w)
    (mem : v ∈ w.object.versions) (own : Own cfg v) :
    ∃ last, w.lastWritten cfg.nodeId = some last ∧ last ∈ w.object.versions ∧ Own cfg last ∧
      v.value.acquiredAtMs ≤ last.value.acquiredAtMs := by
  have written : v ∈ w.object.versions.filter (w.writtenBy cfg.nodeId) :=
    mem_filter.mpr ⟨mem, (h.writtenBy_iff mem).mpr own⟩
  obtain ⟨before, last, split⟩ :=
    eq_nil_or_concat' _ |>.resolve_left (ne_nil_of_mem written)
  have memLast : last ∈ w.object.versions.filter (w.writtenBy cfg.nodeId) := by simp [split]
  obtain ⟨stored, byNode⟩ := mem_filter.mp memLast
  have ownLast : Own cfg last := (h.writtenBy_iff stored).mp byNode
  refine ⟨last, by simp [ElectionWorld.lastWritten, split], stored, ownLast, ?_⟩
  have sorted := h.sorted.filter (w.writtenBy cfg.nodeId)
  rw [split] at sorted written
  rcases mem_append.mp written with before | isLast
  · exact (pairwise_append.mp sorted).2.2 v before last (by simp) own ownLast
  · obtain rfl := mem_singleton.mp isLast
    exact le_rfl

/-- While no other election began past the expiry of the node's last lease, it is the current
lease. -/
theorem StampInv.current_of_latest_lt (h : StampInv cfg clock latest w)
    {last} (isLast : w.lastWritten cfg.nodeId = some last)
    (valid : latest < last.value.expiresAtMs) : w.object.current = some last := by
  obtain ⟨stored, byNode⟩ := mem_filter.mp (mem_of_getLast? isLast)
  have own : Own cfg last := (h.writtenBy_iff stored).mp byNode
  obtain ⟨before, current, versions⟩ :=
    eq_nil_or_concat' _ |>.resolve_left (ne_nil_of_mem stored)
  have isCurrent : w.object.current = some current := by simp [CasObject.current, versions]
  have ownCurrent : Own cfg current := by
    by_contra notOwn
    exact absurd (h.taken current isCurrent notOwn last stored own) (Nat.not_le.mpr valid)
  have byNode : w.writtenBy cfg.nodeId current = true :=
    (h.writtenBy_iff (CasObject.mem_of_current isCurrent)).mpr ownCurrent
  rw [ElectionWorld.lastWritten, versions, filter_append] at isLast
  simp only [filter_cons, byNode, if_true, filter_nil, List.getLast?_concat] at isLast
  rw [isCurrent, isLast]

end Consequences

end Celeriant
