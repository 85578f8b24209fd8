import Celeriant.Distributed.Election
import Celeriant.Lib.CasObject
import Celeriant.Lib.Transition
import Mathlib.Data.List.Pairwise

/-!
# Concurrent elections against one lease object

Any number of calls of `run_election_to_acquire_s3_lease`, by any number of nodes and also
several by one node, run against the one object `cluster/lease.json`. A step begins a call,
lets the store serve the request a call waits on, or resumes a call on its reply; the steps of
different calls interleave freely and every clock reading is arbitrary. A served request may
also get lost, before or after it took effect, and then reports `Unavailable`.

## Main results

* `leaseEpoch_unique`
* `OutcomeInv.step`: every step keeps all pending and returned outcomes backed by stored leases
-/

namespace Celeriant

open Transition Function List Option

abbrev CallId := ℕ

/-- The lease object; each version remembers the call that wrote it. -/
abbrev LeaseObject := CasObject Lease ETag CallId

/-- A running call: where it waits, and the reply if the store has answered. -/
structure ElectionCall where
  cfg : S3LeaseConfig
  point : ElectionPoint
  reply : Option StoreReply

/-- What becomes of a request: served (a write gets the tag), or lost before or after it took
effect. -/
inductive Service
  | served (etag : ETag)
  | lostBefore (message : String)
  | lostAfter (etag : ETag) (message : String)

/-- The error of a refused write. -/
def refusal : PutCondition ETag → LeaseStoreError
  | .createOnly => .alreadyExists
  | .ifMatch _ => .preconditionFailed

/-- `get_lease` on the object. -/
def serveGet (o : LeaseObject) : Service → StoreReply
  | .served _ => .lease (.ok (o.current.map fun v => ⟨v.value, v.tag⟩))
  | .lostBefore message => .lease (.error (.unavailable message))
  | .lostAfter _ message => .lease (.error (.unavailable message))

/-- `put_lease_create_only` and `put_lease_conditional` on the object. -/
def servePut (o : LeaseObject) (id : CallId) (condition : PutCondition ETag) (lease : Lease) :
    Service → Option (LeaseObject × StoreReply)
  | .served etag =>
    (o.put condition lease etag id).map fun (o', accepted) =>
      (o', .put (if accepted then .ok etag else .error (refusal condition)))
  | .lostBefore message => some (o, .put (.error (.unavailable message)))
  | .lostAfter etag message =>
    (o.put condition lease etag id).map fun (o', _) => (o', .put (.error (.unavailable message)))

/-- The store serves the lease request a call waits on; undefined when it waits on none. -/
def serve (o : LeaseObject) (id : CallId) :
    ElectionPoint → Service → Option (LeaseObject × StoreReply)
  | .getLease _, service => some (o, serveGet o service)
  | .putLeaseCreateOnly lease, service => servePut o id .createOnly lease service
  | .getLeaseAfterAlreadyExists, service => some (o, serveGet o service)
  | .putLeaseConditional next etag _, service => servePut o id (.ifMatch etag) next service
  | .getLeaseAfterPreconditionFailed, service => some (o, serveGet o service)
  | .discoverPeer _ _ _ _, _ => none
  | .done _, _ => none

/-- The lease object and the calls of all nodes. -/
structure ElectionWorld where
  object : LeaseObject
  calls : CallId → Option ElectionCall

/-- A call begins, is served, or resumes. -/
inductive ElectionAction
  | begin (id : CallId) (cfg : S3LeaseConfig) (clock : ℕ)
  | serve (id : CallId) (service : Service)
  | serveMembership (id : CallId) (result : Except LeaseStoreError (Option Membership))
  | resume (id : CallId) (clock : ℕ)

namespace ElectionWorld

/-- No lease stored, no call begun. -/
def initial : ElectionWorld := ⟨CasObject.empty, fun _ => none⟩

def setCall (w : ElectionWorld) (id : CallId) (call : ElectionCall) : ElectionWorld :=
  { w with calls := update w.calls id (some call) }

/-- Calls interleave at the store. -/
def step (w : ElectionWorld) : ElectionAction → Option ElectionWorld
  | .begin id cfg clock =>
    match w.calls id with
    | none => some (w.setCall id ⟨cfg, .start clock, none⟩)
    | some _ => none
  | .serve id service =>
    match w.calls id with
    | some ⟨cfg, point, none⟩ =>
      (Celeriant.serve w.object id point service).map fun (o', reply) =>
        { w with object := o' }.setCall id ⟨cfg, point, some reply⟩
    | _ => none
  | .serveMembership id result =>
    match w.calls id with
    | some ⟨cfg, .discoverPeer status expires reacquired written, none⟩ =>
      some (w.setCall id
        ⟨cfg, .discoverPeer status expires reacquired written, some (.membership result)⟩)
    | _ => none
  | .resume id clock =>
    match w.calls id with
    | some ⟨cfg, point, some reply⟩ =>
      some (w.setCall id ⟨cfg, point.resume cfg clock reply, none⟩)
    | _ => none

/-- What a step does: it moves one call, and may change the object by serving a request. -/
inductive Step (w : ElectionWorld) : ElectionAction → ElectionWorld → Prop
  | begin {id : CallId} {cfg : S3LeaseConfig} {clock : ℕ} (idle : w.calls id = none) :
    Step w (.begin id cfg clock) (w.setCall id ⟨cfg, .start clock, none⟩)
  | serve {id : CallId} {cfg : S3LeaseConfig} {point : ElectionPoint} {service : Service}
    {o' : LeaseObject} {reply} (waits : w.calls id = some ⟨cfg, point, none⟩)
    (served : Celeriant.serve w.object id point service = some (o', reply)) :
    Step w (.serve id service) ({ w with object := o' }.setCall id ⟨cfg, point, some reply⟩)
  | serveMembership {id cfg status expires}
    {reacquired written result}
    (waits : w.calls id = some ⟨cfg, .discoverPeer status expires reacquired written, none⟩) :
    Step w (.serveMembership id result) (w.setCall id
      ⟨cfg, .discoverPeer status expires reacquired written, some (.membership result)⟩)
  | resume {id cfg point reply}
    {clock} (answered : w.calls id = some ⟨cfg, point, some reply⟩) :
    Step w (.resume id clock) (w.setCall id ⟨cfg, point.resume cfg clock reply, none⟩)

theorem Step.of_step {w w' : ElectionWorld} {a : ElectionAction} (h : w.step a = some w') :
    Step w a w' := by
  cases a
  all_goals simp only [step] at h
  case begin id cfg clock =>
    split at h
    next idle =>
      cases h
      exact .begin idle
    next => cases h
  case serve id service =>
    split at h
    next cfg point waits =>
      obtain ⟨⟨o', reply⟩, served, rfl⟩ := map_eq_some_iff.mp h
      exact .serve waits served
    next => cases h
  case serveMembership id result =>
    split at h
    next waits =>
      cases h
      exact .serveMembership waits
    next => cases h
  case resume id clock =>
    split at h
    next answered =>
      cases h
      exact .resume answered
    next => cases h

/-- The leases ever stored, oldest first. -/
def storedLeases (w : ElectionWorld) : List Lease := w.object.versions.map Version.value

end ElectionWorld

/-! ## The order of stored leases -/

/-- `a` may be stored before `b`: the epoch does not fall, and one epoch has one leader. -/
def Lease.Precedes (a b : Lease) : Prop :=
  a.leaseEpoch ≤ b.leaseEpoch ∧ (a.leaseEpoch = b.leaseEpoch → a.leaderNodeId = b.leaderNodeId)

theorem Lease.Precedes.trans {a b c : Lease} (hab : a.Precedes b) (hbc : b.Precedes c) :
    a.Precedes c := by
  refine ⟨Nat.le_trans hab.1 hbc.1, fun hac => ?_⟩
  have hab' : a.leaseEpoch = b.leaseEpoch := Nat.le_antisymm hab.1 (hac ▸ hbc.1)
  exact (hab.2 hab').trans (hbc.2 (hab' ▸ hac))

theorem Lease.precedes_renew (l : Lease) (now duration : ℕ) : l.Precedes (l.renew now duration) :=
  ⟨Nat.le_refl _, fun _ => rfl⟩

theorem Lease.precedes_promote (l : Lease) (node : NodeId) (now duration : ℕ) :
    l.Precedes (l.promote node now duration) := by
  refine ⟨Nat.le_succ _, fun h => ?_⟩
  simp [promote] at h

/-! ## The invariant of one call

Stated over the versions stored so far. A call that has not put its lease has stored nothing;
one that waits on a conditional write holds a tag that was handed out with a lease its own
lease may follow; one that was told its write succeeded has stored that lease and no other. -/

section CallInvariant

variable (vs : List (Version Lease ETag CallId)) (id : CallId)

/-- The call has stored nothing. -/
def Unwritten : Prop := ∀ v ∈ vs, v.writer ≠ id

/-- The call has stored something, and only leases with `P`. -/
def StoredOnly (P : Lease → Prop) : Prop :=
  (∃ v ∈ vs, v.writer = id) ∧ ∀ v ∈ vs, v.writer = id → P v.value

/-- Every lease the call stored names the node with the epoch. -/
def StoredEpoch (cfg : S3LeaseConfig) (epoch : ℕ) : Prop :=
  StoredOnly vs id fun l => l.leaderNodeId = cfg.nodeId ∧ l.leaseEpoch = epoch

/-- What the store knows of a call at a point. -/
def PointInv (cfg : S3LeaseConfig) : ElectionPoint → Prop
  | .getLease _ => Unwritten vs id
  | .putLeaseCreateOnly lease => lease.leaderNodeId = cfg.nodeId
  | .putLeaseConditional next etag _ =>
    next.leaderNodeId = cfg.nodeId ∧ ∃ read ∈ vs, read.tag = etag ∧ read.value.Precedes next
  | .discoverPeer status _ _ written =>
    written = true → ∀ e, status = .leader e → StoredEpoch vs id cfg e
  | .done (.ok outcome) =>
    outcome.casWritten = true → ∀ e, outcome.status.raw = .leader e → StoredEpoch vs id cfg e
  | _ => True

def ReplyInv : ElectionPoint → Option StoreReply → Prop
  | .getLease _, some (.lease (.ok (some lwe))) =>
    ∃ v ∈ vs, v.value = lwe.lease ∧ v.tag = lwe.etag
  | .putLeaseCreateOnly _, none => Unwritten vs id
  | .putLeaseCreateOnly lease, some (.put (.ok _)) => StoredOnly vs id (· = lease)
  | .putLeaseConditional _ _ _, none => Unwritten vs id
  | .putLeaseConditional next _ _, some (.put (.ok _)) => StoredOnly vs id (· = next)
  | _, _ => True

/-- The invariant of a call. -/
structure CallInv (call : ElectionCall) : Prop where
  point : PointInv vs id call.cfg call.point
  reply : ReplyInv vs id call.point call.reply

end CallInvariant

section CallSteps

variable {vs : List (Version Lease ETag CallId)} {id : CallId} {v : Version Lease ETag CallId}

theorem Unwritten.append_other (h : Unwritten vs id) (hv : v.writer ≠ id) :
    Unwritten (vs ++ [v]) id :=
  forall_mem_append.mpr ⟨h, forall_mem_singleton.mpr hv⟩

theorem StoredOnly.append_other {P} (h : StoredOnly vs id P)
    (hv : v.writer ≠ id) : StoredOnly (vs ++ [v]) id P := by
  obtain ⟨⟨w, hw, hwid⟩, hall⟩ := h
  exact ⟨⟨w, mem_append_left _ hw, hwid⟩, forall_mem_append.mpr
    ⟨hall, forall_mem_singleton.mpr fun huid => absurd huid hv⟩⟩

/-- The first version a call stores is the only one. -/
theorem Unwritten.append_self {P} (h : Unwritten vs id) (hid : v.writer = id)
    (hP : P v.value) : StoredOnly (vs ++ [v]) id P := by
  exact ⟨⟨v, by simp, hid⟩, forall_mem_append.mpr
    ⟨fun u hu huid => absurd huid (h u hu), forall_mem_singleton.mpr fun _ => hP⟩⟩

variable {cfg : S3LeaseConfig}

theorem StoredOnly.epoch {lease} (h : StoredOnly vs id (· = lease))
    (hnode : lease.leaderNodeId = cfg.nodeId) : StoredEpoch vs id cfg lease.leaseEpoch :=
  ⟨h.1, fun v hv hid => by rw [h.2 v hv hid]; exact ⟨hnode, rfl⟩⟩

/-- A call's invariant is not disturbed by another call's write. -/
theorem CallInv.append_other {call} (h : CallInv vs id call)
    (hv : v.writer ≠ id) : CallInv (vs ++ [v]) id call := by
  obtain ⟨hpoint, hreply⟩ := h
  obtain ⟨cfg, point, reply⟩ := call
  constructor
  · cases point with
    | getLease now => exact Unwritten.append_other hpoint hv
    | putLeaseConditional next etag own =>
      obtain ⟨hnode, read, hread, htag⟩ := hpoint
      exact ⟨hnode, read, mem_append_left _ hread, htag⟩
    | discoverPeer status expires reacquired written =>
      exact fun hw e he => (hpoint hw e he).append_other hv
    | done result =>
      cases result with
      | error e => trivial
      | ok outcome => exact fun hw e he => (hpoint hw e he).append_other hv
    | _ => exact hpoint
  · simp only [ReplyInv] at hreply ⊢
    split at hreply
    · obtain ⟨w, hw, hvalue⟩ := hreply
      exact ⟨w, mem_append_left _ hw, hvalue⟩
    · exact Unwritten.append_other hreply hv
    · exact StoredOnly.append_other hreply hv
    · exact Unwritten.append_other hreply hv
    · exact StoredOnly.append_other hreply hv
    · trivial

/-- An outcome that does not claim to have written the lease promises nothing. -/
theorem discoverPeer_inv (cfg : S3LeaseConfig) (status : NodeStatus) (expires : ℕ)
    (reacquired : Bool) :
    CallInv vs id ⟨cfg, .discoverPeer status expires reacquired false, none⟩ :=
  ⟨fun hw => absurd hw (by simp), trivial⟩

/-- The first decision sets up the put it leads to. -/
theorem onLease_inv {now clock found} (hunwritten : Unwritten vs id)
    (hread : ∀ lwe, found = some lwe → ∃ v ∈ vs, v.value = lwe.lease ∧ v.tag = lwe.etag) :
    CallInv vs id ⟨cfg, ElectionPoint.onLease cfg now clock found, none⟩ := by
  cases found with
  | none => exact ⟨rfl, hunwritten⟩
  | some lwe =>
    obtain ⟨v, hv, hvalue, htag⟩ := hread lwe rfl
    simp only [ElectionPoint.onLease]
    split
    · exact discoverPeer_inv _ _ _ _
    · refine ⟨⟨?_, v, hv, htag, ?_⟩, hunwritten⟩
      · by_cases hown : lwe.lease.leaderNodeId = cfg.nodeId
        · simp [hown, Lease.renew]
        · simp [hown, Lease.promote]
      · rw [hvalue]
        split
        · exact lwe.lease.precedes_renew _ _
        · exact lwe.lease.precedes_promote _ _ _

/-- **Resuming a call** keeps its invariant. -/
theorem resume_inv {point reply} (clock : ℕ) (h : CallInv vs id ⟨cfg, point, some reply⟩) :
    CallInv vs id ⟨cfg, point.resume cfg clock reply, none⟩ := by
  obtain ⟨hpoint, hreply⟩ := h
  unfold ElectionPoint.resume
  -- the branches left to the last line end the call with an error or wait on a re-read
  split
  case h_2 now found =>
    refine onLease_inv hpoint fun lwe hlwe => ?_
    subst hlwe
    exact hreply
  case h_3 lease etag => exact ⟨fun _ e he => by cases he; exact hreply.epoch hpoint, trivial⟩
  case h_8 lwe => exact discoverPeer_inv _ _ _ _
  case h_9 next etag own etag' =>
    exact ⟨fun _ e he => by cases he; exact hreply.epoch hpoint.1, trivial⟩
  case h_13 found =>
    cases found with
    | none => exact ⟨trivial, trivial⟩
    | some lwe =>
      simp only [ElectionPoint.onReread]
      split <;> exact discoverPeer_inv _ _ _ _
  case h_14 status expires reacquired written result => exact ⟨hpoint, trivial⟩
  all_goals exact ⟨trivial, trivial⟩

end CallSteps

/-! ## The invariant of the world -/

/-- What a served put does: it appends the lease under the condition, or leaves the object. -/
theorem servePut_cases {o o' : LeaseObject} {id : CallId} {condition : PutCondition ETag}
    {lease : Lease} {service reply} (h : servePut o id condition lease service = some (o', reply)) :
    (o' = o ∧ ∃ e, reply = .put (.error e)) ∨
      (o.admits condition = true ∧ ∃ etag, o'.versions = o.versions ++ [⟨lease, etag, id⟩]) := by
  cases service with
  | lostBefore message =>
    cases h
    exact Or.inl ⟨rfl, _, rfl⟩
  | served etag | lostAfter etag =>
    obtain ⟨⟨o₁, accepted⟩, hput, heq⟩ := map_eq_some_iff.mp h
    cases heq
    rcases CasObject.put_cases hput with ⟨rfl, rfl⟩ | ⟨rfl, hadm, hvs⟩
    · exact Or.inl ⟨rfl, _, rfl⟩
    · exact Or.inr ⟨hadm, etag, hvs⟩

section Growth

variable {w w' : ElectionWorld} {a : ElectionAction} (hstep : w.step a = some w')
include hstep

/-- A step of the world only ever appends to the versions of the lease object. -/
theorem ElectionWorld.versions_step : w.object.versions <+: w'.object.versions := by
  have puts : ∀ {o' reply id condition lease service},
      servePut w.object id condition lease service = some (o', reply) →
        w.object.versions <+: o'.versions := by
    intro o' reply id condition lease service served
    rcases servePut_cases served with ⟨rfl, -⟩ | ⟨-, etag, versions⟩
    · exact prefix_rfl
    · exact versions ▸ prefix_append _ _
  cases Step.of_step hstep with
  | @serve id cfg point service o' reply waits served =>
    cases point with
    | putLeaseCreateOnly | putLeaseConditional => exact puts served
    | discoverPeer | done => cases served
    | _ => cases served; exact prefix_rfl
  | _ => exact prefix_rfl

/-- A call keeps the configuration it was begun under. -/
theorem ElectionWorld.cfg_step {id : CallId} {c : ElectionCall} (hc : w.calls id = some c) :
    ∃ c', w'.calls id = some c' ∧ c'.cfg = c.cfg := by
  -- a step moves one call; any other is as it was
  have moved : ∀ {j : CallId} {call : ElectionCall},
      (∀ c₀, w.calls j = some c₀ → call.cfg = c₀.cfg) →
      w'.calls = update w.calls j (some call) →
      ∃ c', w'.calls id = some c' ∧ c'.cfg = c.cfg := by
    intro j call same calls
    rw [calls]
    by_cases hij : id = j
    · subst hij
      exact ⟨call, update_self .., same c hc⟩
    · exact ⟨c, (update_of_ne hij ..).trans hc, rfl⟩
  cases Step.of_step hstep with
  | begin idle => exact moved (fun _ h => by rw [idle] at h; cases h) rfl
  | serve waits | serveMembership waits | resume waits =>
    exact moved (fun _ h => by rw [waits] at h; exact some.inj h ▸ rfl) rfl

end Growth

/-- The invariant of a run. -/
structure ElectionInv (w : ElectionWorld) : Prop where
  ordered : w.storedLeases.Pairwise Lease.Precedes
  idle : ∀ id, w.calls id = none → Unwritten w.object.versions id
  call : ∀ id c, w.calls id = some c → CallInv w.object.versions id c

theorem electionInv_initial : ElectionInv .initial where
  ordered := List.Pairwise.nil
  idle := fun _ _ v hv => absurd hv not_mem_nil
  call := fun _ _ hc => by cases hc

section WorldSteps

variable {w : ElectionWorld} {id : CallId}

/-- What holds of the other calls and of the moved one holds of all. -/
theorem forall_setCall {calls call} {Q : CallId → ElectionCall → Prop} (moved : Q id call)
    (others : ∀ j, j ≠ id → ∀ c, calls j = some c → Q j c) :
    ∀ j c, update calls id (some call) j = some c → Q j c := by
  refine (forall_update_iff calls fun j o => ∀ c, o = some c → Q j c).mpr ⟨?_, others⟩
  rintro c ⟨⟩
  exact moved

theorem forall_idle_setCall {calls} {call : ElectionCall}
    {Q : CallId → Prop} (others : ∀ j, j ≠ id → calls j = none → Q j) :
    ∀ j, update calls id (some call) j = none → Q j :=
  (forall_update_iff calls fun j o => o = none → Q j).mpr ⟨nofun, others⟩

/-- A step that only moves one call keeps the invariant when the call's own is kept. -/
theorem ElectionInv.setCall (h : ElectionInv w) {call}
    (hcall : CallInv w.object.versions id call) : ElectionInv (w.setCall id call) where
  ordered := h.ordered
  idle := forall_idle_setCall fun j _ => h.idle j
  call := forall_setCall hcall fun j _ => h.call j

variable {o' : LeaseObject} {service : Service} {point : ElectionPoint}

/-- A write by one call keeps the invariant when its lease may follow every stored one. -/
theorem ElectionInv.write (h : ElectionInv w) {lease} {etag : ETag}
    (hvs : o'.versions = w.object.versions ++ [⟨lease, etag, id⟩])
    (hfollows : ∀ v ∈ w.object.versions, v.value.Precedes lease) {call : ElectionCall}
    (hcall : CallInv o'.versions id call) :
    ElectionInv ({ w with object := o' }.setCall id call) where
  ordered := by
    simp only [ElectionWorld.storedLeases, ElectionWorld.setCall, hvs, map_append,
      map_cons, map_nil]
    refine pairwise_append.mpr ⟨h.ordered, pairwise_singleton _ _, ?_⟩
    intro l hl l' hl'
    obtain ⟨v, hv, rfl⟩ := mem_map.mp hl
    obtain rfl := mem_singleton.mp hl'
    exact hfollows v hv
  idle := forall_idle_setCall fun j other hj => by
    show Unwritten o'.versions j
    rw [hvs]
    exact (h.idle j hj).append_other (Ne.symm other)
  call := forall_setCall hcall fun j other c hc => by
    show CallInv o'.versions j c
    rw [hvs]
    exact (h.call j c hc).append_other (Ne.symm other)

/-- A conditional write admitted on a tag the call read follows every stored lease. -/
theorem precedes_of_admits (h : ElectionInv w) {next : Lease} {etag}
    (hadm : w.object.admits (.ifMatch etag) = true)
    (hread : ∃ read ∈ w.object.versions, read.tag = etag ∧ read.value.Precedes next) :
    ∀ v ∈ w.object.versions, v.value.Precedes next := by
  obtain ⟨read, hmem, htag, hprec⟩ := hread
  obtain ⟨before, last, hvs, hlast⟩ := CasObject.admits_ifMatch hadm hmem htag
  have hord := h.ordered
  rw [ElectionWorld.storedLeases, hvs, map_append] at hord
  have hbefore := (pairwise_append.mp hord).2.2
  intro v hv
  rw [hvs] at hv
  rcases mem_append.mp hv with hv | hv
  · refine Lease.Precedes.trans (hbefore _ (mem_map_of_mem hv) _ ?_) (hlast ▸ hprec)
    exact mem_map_of_mem (mem_singleton.mpr rfl)
  · obtain rfl := mem_singleton.mp hv
    exact hlast ▸ hprec

/-- A read returns a stored version with its tag. -/
theorem serveGet_read {o : LeaseObject} {lwe : LeaseWithEtag}
    (h : serveGet o service = .lease (.ok (some lwe))) :
    ∃ v ∈ o.versions, v.value = lwe.lease ∧ v.tag = lwe.etag := by
  cases service with
  | served etag =>
    simp only [serveGet, StoreReply.lease.injEq, Except.ok.injEq, map_eq_some_iff] at h
    obtain ⟨v, hv, rfl⟩ := h
    exact ⟨v, CasObject.mem_of_current hv, rfl, rfl⟩
  | lostBefore message => cases h
  | lostAfter etag message => cases h

/-- A served put keeps the invariant: either nothing is stored and the call learns of a
failure, or its lease is appended behind every lease it may follow. -/
theorem ElectionInv.servePut (h : ElectionInv w) {cfg : S3LeaseConfig}
    {condition : PutCondition ETag} {lease : Lease}
    {reply : StoreReply} (hs : servePut w.object id condition lease service = some (o', reply))
    (hunwritten : Unwritten w.object.versions id)
    (hfollows : w.object.admits condition = true → ∀ v ∈ w.object.versions, v.value.Precedes lease)
    (hfail : ∀ e, CallInv w.object.versions id ⟨cfg, point, some (.put (.error e))⟩)
    (hok : ∀ etag, StoredOnly (w.object.versions ++ [⟨lease, etag, id⟩]) id (· = lease) →
      CallInv (w.object.versions ++ [⟨lease, etag, id⟩]) id ⟨cfg, point, some reply⟩) :
    ElectionInv ({ w with object := o' }.setCall id ⟨cfg, point, some reply⟩) := by
  rcases servePut_cases hs with ⟨rfl, e, rfl⟩ | ⟨hadm, etag, hvs⟩
  · exact h.setCall (hfail e)
  · refine h.write hvs (hfollows hadm) ?_
    rw [hvs]
    exact hok etag (hunwritten.append_self rfl rfl)

/-- **Serving a request** keeps the invariant. -/
theorem ElectionInv.serve (h : ElectionInv w) {cfg : S3LeaseConfig}
    (hc : w.calls id = some ⟨cfg, point, none⟩)
    {reply : StoreReply} (hs : serve w.object id point service = some (o', reply)) :
    ElectionInv ({ w with object := o' }.setCall id ⟨cfg, point, some reply⟩) := by
  obtain ⟨hpoint, hreply⟩ := h.call id _ hc
  cases point with
  | getLease now =>
    cases hs
    refine h.setCall ⟨hpoint, ?_⟩
    simp only [ReplyInv]
    split
    · rename_i heq
      exact serveGet_read (some.inj heq)
    all_goals simp_all
  | putLeaseCreateOnly lease =>
    refine h.servePut hs hreply (fun hadm v hv => ?_) (fun e => ⟨hpoint, trivial⟩)
      (fun etag hstored => ⟨hpoint, ?_⟩)
    · rw [CasObject.admits_createOnly hadm] at hv
      exact absurd hv not_mem_nil
    · simp only [ReplyInv]
      split <;> simp_all
  | getLeaseAfterAlreadyExists | getLeaseAfterPreconditionFailed =>
    cases hs
    exact h.setCall ⟨trivial, trivial⟩
  | putLeaseConditional next etag own =>
    obtain ⟨hnode, read, hread, htag, hprec⟩ := hpoint
    refine h.servePut hs hreply (fun hadm => precedes_of_admits h hadm ⟨read, hread, htag, hprec⟩)
      (fun e => ⟨⟨hnode, read, hread, htag, hprec⟩, trivial⟩)
      (fun etag' hstored => ⟨⟨hnode, read, mem_append_left _ hread, htag, hprec⟩, ?_⟩)
    simp only [ReplyInv]
    split <;> simp_all
  | discoverPeer status expires reacquired written => cases hs
  | done result => cases hs

/-- **Every step of the world** keeps the invariant. -/
theorem ElectionInv.step (h : ElectionInv w) {a : ElectionAction} {w' : ElectionWorld}
    (hstep : w.step a = some w') : ElectionInv w' := by
  cases ElectionWorld.Step.of_step hstep with
  | begin idle => exact h.setCall ⟨h.idle _ idle, trivial⟩
  | serve waits served => exact h.serve waits served
  | serveMembership waits => exact h.setCall ⟨(h.call _ _ waits).point, trivial⟩
  | resume answered => exact h.setCall (resume_inv _ (h.call _ _ answered))

/-- The stored leases of one epoch name one leader. -/
theorem ElectionInv.leader_unique (inv : ElectionInv w) {l l'} (hl : l ∈ w.storedLeases)
    (hl' : l' ∈ w.storedLeases) (epochs : l.leaseEpoch = l'.leaseEpoch) :
    l.leaderNodeId = l'.leaderNodeId := by
  let Agree : Lease → Lease → Prop := fun l l' =>
    l.leaseEpoch = l'.leaseEpoch → l.leaderNodeId = l'.leaderNodeId
  have agree : w.storedLeases.Pairwise Agree := inv.ordered.imp fun precedes => precedes.2
  have : Std.Symm Agree := ⟨fun _ _ hab hba => (hab hba.symm).symm⟩
  exact List.Pairwise.forall_of_forall (fun _ _ _ => rfl) agree hl hl' epochs

end WorldSteps

theorem electionInv_of_reaches {w : ElectionWorld}
    (h : Reaches ElectionWorld.step Always .initial w) : ElectionInv w :=
  h.invariant (fun _ _ _ hinv _ hstep => hinv.step hstep) electionInv_initial

/-- **Lease epochs are unique.** In every run of any number of elections the stored leases have
non-decreasing epochs, leases of one epoch name one leader, and whenever a call has returned an
outcome that says it wrote the lease and leads, it stored a lease, and what it stored named its
node with the returned epoch. -/
theorem leaseEpoch_unique {w : ElectionWorld} (h : Reaches ElectionWorld.step Always .initial w) :
    (w.storedLeases.Pairwise fun older newer => older.leaseEpoch ≤ newer.leaseEpoch) ∧
      (∀ l ∈ w.storedLeases, ∀ l' ∈ w.storedLeases,
        l.leaseEpoch = l'.leaseEpoch → l.leaderNodeId = l'.leaderNodeId) ∧
      ∀ id call outcome, w.calls id = some call → call.point = .done (.ok outcome) →
        outcome.casWritten = true → ∀ e, outcome.status.raw = .leader e →
          (∃ v ∈ w.object.versions, v.writer = id) ∧
            ∀ v ∈ w.object.versions, v.writer = id →
              v.value.leaderNodeId = call.cfg.nodeId ∧ v.value.leaseEpoch = e := by
  have hinv := electionInv_of_reaches h
  refine ⟨hinv.ordered.imp fun hp => hp.1, ?_, ?_⟩
  · exact fun l hl l' hl' => hinv.leader_unique hl hl'
  · intro id call outcome hc hdone hwritten e he
    have hpoint := (hinv.call id call hc).point
    rw [hdone] at hpoint
    exact hpoint hwritten e he

/-- Node 7 creates the lease; node 9 finds it expired and promotes over it. -/
def takeoverRun : List ElectionAction :=
  [.begin 0 ⟨7, 100, 5⟩ 0, .serve 0 (.served 1), .resume 0 0, .serve 0 (.served 1), .resume 0 1,
    .begin 1 ⟨9, 100, 5⟩ 200, .serve 1 (.served 2), .resume 1 200, .serve 1 (.served 2),
    .resume 1 201, .serveMembership 1 (.ok none), .resume 1 202]

theorem leaseEpoch_unique_takeoverRun :
    ∃ w, exec ElectionWorld.step Always .initial takeoverRun = some w ∧
      w.storedLeases = [⟨7, 1, 0, 100⟩, ⟨9, 2, 200, 300⟩] ∧
      (w.storedLeases.Pairwise fun older newer => older.leaseEpoch ≤ newer.leaseEpoch) :=
  ⟨_, rfl, rfl, (leaseEpoch_unique (reaches_of_exec takeoverRun rfl)).1⟩

/-! ## What an outcome rests on

Whatever path a call took, and however its steps interleaved with other calls, the returned role and
expiry are those of one lease that has been stored: a leader outcome rests on a stored lease that
names the caller, a follower outcome on a stored lease. Stored leases are never removed. -/

section Backing

variable (leases : List Lease) (cfg : S3LeaseConfig)

/-- A stored lease carries the role and its expiry. -/
def BackedBy (status : NodeStatus) (expiresAtMs : ℕ) : Prop :=
  match status with
  | .leader e => ∃ l ∈ leases, l.leaderNodeId = cfg.nodeId ∧ l.leaseEpoch = e ∧
    l.expiresAtMs = expiresAtMs
  | .follower e => ∃ l ∈ leases, l.leaseEpoch = e ∧ l.expiresAtMs = expiresAtMs
  | _ => False

/-- The status of an outcome is backed and carries the configured drift. -/
structure ElectionOutcome.Backed (o : ElectionOutcome) : Prop where
  backed : BackedBy leases cfg o.status.status o.status.leaseExpiresAtMs
  drift : o.status.maxClockDriftMs = cfg.maxClockDrift

def PointBacked : ElectionPoint → Prop
  | .discoverPeer status expires _ _ => BackedBy leases cfg status expires
  | .done (.ok o) => o.Backed leases cfg
  | _ => True

/-- Replies hand out stored leases, and report success only of a stored one. -/
def ReplyBacked : ElectionPoint → Option StoreReply → Prop
  | .putLeaseCreateOnly lease, some (.put (.ok _)) => lease ∈ leases
  | .putLeaseConditional next _ _, some (.put (.ok _)) => next ∈ leases
  | .getLeaseAfterAlreadyExists, some (.lease (.ok (some lwe))) => lwe.lease ∈ leases
  | .getLeaseAfterPreconditionFailed, some (.lease (.ok (some lwe))) => lwe.lease ∈ leases
  | .getLease _, some (.lease (.ok (some lwe))) => lwe.lease ∈ leases
  | _, _ => True

/-- Point and reply of a call are backed by the store. -/
structure CallBacked (call : ElectionCall) : Prop where
  point : PointBacked leases call.cfg call.point
  reply : ReplyBacked leases call.point call.reply

end Backing

section Growth

variable {leases leases' : List Lease} {cfg : S3LeaseConfig}

theorem BackedBy.mono (grow : leases ⊆ leases') {status expires}
    (h : BackedBy leases cfg status expires) : BackedBy leases' cfg status expires := by
  cases status with
  | leader | follower =>
    obtain ⟨l, hl, rest⟩ := h
    exact ⟨l, grow hl, rest⟩
  | _ => exact h

variable {o : ElectionOutcome}

theorem ElectionOutcome.Backed.mono (grow : leases ⊆ leases')
    (h : o.Backed leases cfg) : o.Backed leases' cfg :=
  ⟨h.backed.mono grow, h.drift⟩

theorem CallBacked.mono (grow : leases ⊆ leases') {call}
    (h : CallBacked leases call) : CallBacked leases' call := by
  obtain ⟨cfg, point, reply⟩ := call
  obtain ⟨hpoint, hreply⟩ := h
  constructor
  · cases point with
    | discoverPeer status expires reacquired written => exact BackedBy.mono grow hpoint
    | done result =>
      cases result with
      | error e => trivial
      | ok o => exact ElectionOutcome.Backed.mono grow hpoint
    | _ => trivial
  · simp only [ReplyBacked] at hreply ⊢
    split at hreply
    all_goals first | exact grow hreply | trivial

/-- A leader outcome is stored under the caller's name. -/
theorem ElectionOutcome.Backed.leader (h : o.Backed leases cfg) {e}
    (he : o.status.status = .leader e) :
    ∃ l ∈ leases, l.leaderNodeId = cfg.nodeId ∧ l.leaseEpoch = e ∧
      l.expiresAtMs = o.status.leaseExpiresAtMs := by
  have backed := h.backed
  rw [he] at backed
  exact backed

/-- An election makes its caller leader or follower, nothing else. -/
theorem ElectionOutcome.Backed.not_promoting (h : o.Backed leases cfg)
    (e : ℕ) : o.status.status ≠ .promoting e := by
  intro he
  have backed := h.backed
  rw [he] at backed
  exact backed

end Growth

section Steps

variable {leases : List Lease} {cfg : S3LeaseConfig}

/-- Resuming a call keeps its outcome backed; the leases it writes name its node. -/
theorem resume_backed {point reply} (clock : ℕ) (names : match point with
      | .putLeaseCreateOnly lease => lease.leaderNodeId = cfg.nodeId
      | .putLeaseConditional next _ _ => next.leaderNodeId = cfg.nodeId
      | _ => True) (h : CallBacked leases ⟨cfg, point, some reply⟩) :
    CallBacked leases ⟨cfg, point.resume cfg clock reply, none⟩ := by
  obtain ⟨hpoint, hreply⟩ := h
  unfold ElectionPoint.resume
  split
  case h_2 now found =>
    cases found with
    | none => exact ⟨trivial, trivial⟩
    | some lwe =>
      simp only [ElectionPoint.onLease]
      split
      · exact ⟨⟨lwe.lease, hreply, rfl, rfl⟩, trivial⟩
      · exact ⟨trivial, trivial⟩
  case h_3 lease etag => exact ⟨⟨lease, hreply, names, rfl, rfl⟩, trivial⟩
  case h_8 lwe => exact ⟨⟨lwe.lease, hreply, rfl, rfl⟩, trivial⟩
  case h_9 next etag own etag' => exact ⟨⟨next, hreply, names, rfl, rfl⟩, trivial⟩
  case h_13 found =>
    cases found with
    | none => exact ⟨trivial, trivial⟩
    | some lwe =>
      simp only [ElectionPoint.onReread]
      split
      next ours =>
        have named : lwe.lease.leaderNodeId = cfg.nodeId := by
          simp only [Bool.and_eq_true, beq_iff_eq] at ours
          exact ours.1
        exact ⟨⟨lwe.lease, hreply, named, rfl, rfl⟩, trivial⟩
      · exact ⟨⟨lwe.lease, hreply, rfl, rfl⟩, trivial⟩
  case h_14 status expires reacquired written result => exact ⟨⟨hpoint, rfl⟩, trivial⟩
  all_goals exact ⟨trivial, trivial⟩

end Steps

/-- Every call's outcome is backed by what is stored. -/
def OutcomeInv (w : ElectionWorld) : Prop :=
  ∀ id c, w.calls id = some c → CallBacked w.storedLeases c

theorem outcomeInv_initial : OutcomeInv .initial := fun _ _ hc => by cases hc

section World

variable {w w' : ElectionWorld} {id : CallId} {a : ElectionAction}

theorem ElectionWorld.storedLeases_step (hstep : w.step a = some w') :
    ∃ suffix, w'.storedLeases = w.storedLeases ++ suffix := by
  obtain ⟨suffix, eq⟩ := ElectionWorld.versions_step hstep
  exact ⟨suffix.map Version.value, by rw [storedLeases, ← eq, List.map_append]; rfl⟩

theorem ElectionWorld.storedLeases_subset (hstep : w.step a = some w') :
    w.storedLeases ⊆ w'.storedLeases := by
  obtain ⟨suffix, eq⟩ := ElectionWorld.storedLeases_step hstep
  rw [eq]
  exact List.subset_append_left _ _

theorem OutcomeInv.setCall (h : OutcomeInv w) (grow : w.storedLeases ⊆ w'.storedLeases)
    {call} (hcalls : w'.calls = Function.update w.calls id (some call))
    (hcall : CallBacked w'.storedLeases call) : OutcomeInv w' := by
  unfold OutcomeInv
  rw [hcalls]
  exact forall_setCall hcall fun j _ c hc => (h j c hc).mono grow

/-- What the store answers is backed by what is stored afterwards. -/
theorem serve_backed {cfg : S3LeaseConfig} {point : ElectionPoint} {service : Service}
    {o' : LeaseObject} {reply} (h : CallBacked w.storedLeases ⟨cfg, point, none⟩)
    (hs : serve w.object id point service = some (o', reply)) :
    CallBacked (o'.versions.map Version.value) ⟨cfg, point, some reply⟩ := by
  have read : ∀ {lwe}, serveGet w.object service = .lease (.ok (some lwe)) →
      lwe.lease ∈ w.object.versions.map Version.value := by
    intro lwe hget
    obtain ⟨v, hv, value, -⟩ := serveGet_read hget
    exact value ▸ List.mem_map_of_mem hv
  have written : ∀ {condition lease tag},
      servePut w.object id condition lease service = some (o', reply) →
      some reply = some (.put (.ok tag)) → lease ∈ o'.versions.map Version.value := by
    intro condition lease tag hput ok
    rcases servePut_cases hput with ⟨-, e, rfl⟩ | ⟨-, etag, hvs⟩
    · cases ok
    · rw [hvs, List.map_append]
      exact List.mem_append_right _ (List.mem_singleton.mpr rfl)
  constructor
  · cases point with
    | discoverPeer | done => cases hs
    | _ => trivial
  · simp only [ReplyBacked]
    split
    case h_1 ok | h_2 ok => exact written hs ok
    case h_3 ok | h_4 ok | h_5 ok =>
      cases hs
      exact read (Option.some.inj ok)
    case h_6 => trivial

/-- **Every step of the world** keeps all outcomes backed. -/
theorem OutcomeInv.step (h : OutcomeInv w) (inv : ElectionInv w)
    (hstep : w.step a = some w') : OutcomeInv w' := by
  have grow := ElectionWorld.storedLeases_subset hstep
  cases ElectionWorld.Step.of_step hstep with
  | begin => exact h.setCall grow rfl ⟨trivial, trivial⟩
  | serve waits served => exact h.setCall grow rfl (serve_backed (h _ _ waits) served)
  | serveMembership waits => exact h.setCall grow rfl ⟨(h _ _ waits).point, trivial⟩
  | @resume id cfg point reply clock answered =>
    refine h.setCall grow rfl (resume_backed clock ?_ (h id _ answered))
    have names := (inv.call id _ answered).point
    cases point with
    | putLeaseCreateOnly lease => exact names
    | putLeaseConditional next etag own => exact names.1
    | _ => trivial

end World

end Celeriant
