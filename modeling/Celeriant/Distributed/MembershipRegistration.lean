import Celeriant.Distributed.ElectionRuns

/-!
# Registration in the membership object

`register_self_on_membership_s3_object` reads the membership, registers the node in the copy and
writes it back under the tag it was read with, five times at most. The node's own slot is updated or
the first empty one taken; when both slots belong to others nothing changes, and the call still
writes and returns `Ok`. Between two waits a call touches only its own locals, so a step serves the
request a call waits on and runs the call to its next wait.

## Main results

* `registered_unless_full`
-/

namespace Celeriant

open Transition Function List Option

namespace Membership

def empty : Membership := ⟨none, none⟩

def nodes (m : Membership) : List (Option NodeInfo) := [m.first, m.second]

/-- The node's own slot, else the first empty one, else none. -/
def register (m : Membership) (info : NodeInfo) : Membership :=
  if m.first.map NodeInfo.nodeId = some info.nodeId then { m with first := some info }
  else if m.second.map NodeInfo.nodeId = some info.nodeId then { m with second := some info }
  else if m.first.isNone then { m with first := some info }
  else if m.second.isNone then { m with second := some info }
  else m

/-- Every slot is held by some other node. -/
def FullFor (m : Membership) (nodeId : NodeId) : Prop :=
  ∀ slot ∈ m.nodes, ∃ other, slot = some other ∧ other.nodeId ≠ nodeId

variable {m : Membership} {info entry : NodeInfo}

/-- One slot that no other node holds is taken, or there is none. -/
theorem register_cases (m : Membership) (info : NodeInfo) :
    ((∀ n, m.first = some n → n.nodeId = info.nodeId) ∧
      m.register info = { m with first := some info }) ∨
    ((∀ n, m.second = some n → n.nodeId = info.nodeId) ∧
      m.register info = { m with second := some info }) ∨
    m.FullFor info.nodeId ∧ m.register info = m := by
  obtain ⟨first, second⟩ := m
  cases first <;> cases second <;> grind [register, FullFor, nodes]

theorem mem_register_or_full :
    some info ∈ (m.register info).nodes ∨ m.FullFor info.nodeId ∧ m.register info = m := by
  rcases register_cases m info with ⟨-, eq⟩ | ⟨-, eq⟩ | full
  · exact .inl (by simp [eq, nodes])
  · exact .inl (by simp [eq, nodes])
  · exact .inr full

/-- The entry of another node stays. -/
theorem mem_register (mem : some entry ∈ m.nodes) (other : entry.nodeId ≠ info.nodeId) :
    some entry ∈ (m.register info).nodes := by
  simp only [nodes, mem_cons, not_mem_nil, or_false] at mem ⊢
  rcases register_cases m info with ⟨free, eq⟩ | ⟨free, eq⟩ | ⟨-, eq⟩
  · exact mem.elim (fun at₁ => absurd (free entry at₁.symm) other) fun at₂ => .inr (by rw [eq, at₂])
  · exact mem.elim (fun at₁ => .inl (by rw [eq, at₁])) fun at₂ => absurd (free entry at₂.symm) other
  · rwa [eq]

end Membership

/-- The membership object; each version remembers the call that wrote it. -/
abbrev MembershipObject := CasObject Membership ETag CallId

/-- Where a call of `register_self_on_membership_s3_object` waits, with the attempts it has left. -/
inductive RegisterPoint
  | getMembership (left : ℕ)
  | putMembership (membership : Membership) (etag : Option ETag) (left : ℕ)
  | done (result : Except LeaseStoreError Unit)

namespace RegisterPoint

def membershipCasMaxRetries : ℕ := 5

/-- The head of the retry loop. -/
def attempt : ℕ → RegisterPoint
  | 0 => .done
    (.error (.unavailable s!"membership CAS failed after {membershipCasMaxRetries} retries"))
  | left + 1 => .getMembership left

def isOk : RegisterPoint → Bool
  | .done (.ok ()) => true
  | _ => false

end RegisterPoint

namespace MembershipObject

/-- The stored membership; an absent object counts as the empty one. -/
def stored (o : MembershipObject) : Membership := (o.current.map Version.value).getD .empty

/-- `put_membership`: without a tag the object must not exist. -/
def condition : Option ETag → PutCondition ETag
  | none => .createOnly
  | some etag => .ifMatch etag

/-- The request a call waits on, served or lost, and the call up to its next wait. A refused write
is a `PreconditionFailed`, also when the object was to be created. -/
def serve (o : MembershipObject) (id : CallId) (info : NodeInfo) :
    RegisterPoint → Service → Option (MembershipObject × RegisterPoint)
  | .done _, _ => none
  | .getMembership left, .served _ =>
    some (o, .putMembership (o.stored.register info) (o.current.map Version.tag) left)
  | .putMembership m etag left, .served tag =>
    (o.put (condition etag) m tag id).map fun (o', accepted) =>
      (o', if accepted then .done (.ok ()) else .attempt left)
  | .putMembership m etag _, .lostAfter tag message =>
    (o.put (condition etag) m tag id).map fun (o', _) => (o', .done (.error (.unavailable message)))
  | _, .lostBefore message | _, .lostAfter _ message =>
    some (o, .done (.error (.unavailable message)))

/-- What a call is about to write was registered in a version it read under the tag it presents. -/
def Prepared (o : MembershipObject) (info : NodeInfo) : RegisterPoint → Prop
  | .putMembership m none _ => m = Membership.empty.register info
  | .putMembership m (some etag) _ =>
    ∃ v ∈ o.versions, v.tag = etag ∧ m = v.value.register info
  | _ => True

variable {o o' : MembershipObject} {id : CallId} {info : NodeInfo} {point point' : RegisterPoint}
  {service : Service} {m : Membership}

theorem Prepared.mono (h : o.Prepared info point) (grows : o.versions ⊆ o'.versions) :
    o'.Prepared info point := by
  cases point with
  | getMembership | done => trivial
  | putMembership m etag left =>
    cases etag with
    | none => exact h
    | some etag =>
      obtain ⟨v, mem, read⟩ := h
      exact ⟨v, grows mem, read⟩

/-- A conditional write is refused, or what it was prepared from is still what is stored. -/
theorem Prepared.put {etag : Option ETag} {left : ℕ} {tag : ETag} {accepted : Bool}
    (h : o.Prepared info (.putMembership m etag left))
    (put : o.put (condition etag) m tag id = some (o', accepted)) :
    o.versions ⊆ o'.versions ∧
      (accepted = false ∧ o' = o ∨ o'.stored = o.stored.register info) := by
  rcases CasObject.put_cases put with ⟨refused, rfl⟩ | ⟨-, admitted, appended⟩
  · exact ⟨List.Subset.refl _, .inl ⟨refused, rfl⟩⟩
  have stored' : o'.stored = m := by simp [stored, CasObject.current, appended]
  refine ⟨appended ▸ subset_append_left _ _, .inr (stored'.trans ?_)⟩
  cases etag with
  | none =>
    rw [h, stored, CasObject.current, CasObject.admits_createOnly admitted]
    rfl
  | some etag =>
    obtain ⟨v, mem, read, rfl⟩ := h
    obtain ⟨before, last, versions, same⟩ := CasObject.admits_ifMatch admitted mem read
    simp [stored, CasObject.current, versions, same]

/-- A served request leaves the object alone and the call short of `Ok`, or registers the node. -/
theorem Prepared.serve (h : o.Prepared info point)
    (served : o.serve id info point service = some (o', point')) :
    o'.Prepared info point' ∧ o.versions ⊆ o'.versions ∧
      (o' = o ∧ point'.isOk = false ∨ o'.stored = o.stored.register info) := by
  unfold MembershipObject.serve at served
  split at served
  · cases served
  · cases served
    refine ⟨?_, List.Subset.refl _, .inl ⟨rfl, rfl⟩⟩
    rw [stored]
    cases current : o.current with
    | none => rfl
    | some v => exact ⟨v, CasObject.mem_of_current current, rfl, rfl⟩
  next left tag =>
    obtain ⟨⟨_, accepted⟩, put, ⟨⟩⟩ := map_eq_some_iff.mp served
    obtain ⟨grows, change⟩ := h.put put
    -- an accepted write ends the call, a refused one goes back to the head of the loop
    cases accepted with
    | true => exact ⟨trivial, grows, .inr (change.resolve_left fun refused => nomatch refused.1)⟩
    | false =>
      refine ⟨?_, grows, change.imp_left fun refused => ⟨refused.2, ?_⟩⟩
      all_goals cases left <;> trivial
  · obtain ⟨⟨_, accepted⟩, put, ⟨⟩⟩ := map_eq_some_iff.mp served
    exact ⟨trivial, (h.put put).imp_right (·.imp_left fun refused => ⟨refused.2, rfl⟩)⟩
  all_goals
    cases served
    exact ⟨trivial, List.Subset.refl _, .inl ⟨rfl, rfl⟩⟩

end MembershipObject

/-- The object, and where each of the calls waits. -/
structure RegistryWorld where
  object : MembershipObject
  points : CallId → RegisterPoint

namespace RegistryWorld

/-- Any membership may be stored; the calls are at the head of their loops. -/
def initial (o : MembershipObject) : RegistryWorld :=
  ⟨o, fun _ => .attempt RegisterPoint.membershipCasMaxRetries⟩

/-- One request of one call is served; `infos` has the node of every call. -/
def step (infos : CallId → NodeInfo) (w : RegistryWorld) (a : CallId × Service) :
    Option RegistryWorld :=
  (w.object.serve a.1 (infos a.1) (w.points a.1) a.2).map fun (o', point) =>
    ⟨o', update w.points a.1 point⟩

/-- Every call at its write is prepared for it. -/
def Inv (infos : CallId → NodeInfo) (w : RegistryWorld) : Prop :=
  ∀ id, w.object.Prepared (infos id) (w.points id)

variable {infos : CallId → NodeInfo} {w w' : RegistryWorld} {a : CallId × Service}

/-- A step leaves the object alone and its call short of `Ok`, or registers its node. -/
theorem Inv.step (inv : w.Inv infos) (hstep : w.step infos a = some w') :
    w'.Inv infos ∧ (w'.object = w.object ∧ (w'.points a.1).isOk = false ∨
      w'.object.stored = w.object.stored.register (infos a.1)) := by
  obtain ⟨id, service⟩ := a
  obtain ⟨⟨o', point⟩, served, eq⟩ := map_eq_some_iff.mp hstep
  cases eq
  obtain ⟨prepared, grows, change⟩ := (inv id).serve served
  simp only [update_self]
  refine ⟨fun other => ?_, change⟩
  by_cases same : other = id
  · subst same
    simpa only [update_self] using prepared
  · simpa only [update_of_ne same] using (inv other).mono grows

end RegistryWorld

/-- **Registration keeps the other nodes and is effective while there is a slot.** Whatever was
stored and however the calls interleave, a step of a call keeps the entries of the other nodes, and
when it returns `Ok` its node is in what is then stored, unless both slots were held by others; then
nothing changed. -/
theorem registered_unless_full {infos : CallId → NodeInfo} {o : MembershipObject}
    {w w' : RegistryWorld} {id : CallId} {service : Service}
    (run : Reaches (RegistryWorld.step infos) Always (.initial o) w)
    (hstep : w.step infos (id, service) = some w') :
    (∀ entry, some entry ∈ w.object.stored.nodes → entry.nodeId ≠ (infos id).nodeId →
      some entry ∈ w'.object.stored.nodes) ∧
    ((w'.points id).isOk = true → some (infos id) ∈ w'.object.stored.nodes ∨
      w.object.stored.FullFor (infos id).nodeId ∧ w'.object.stored = w.object.stored) := by
  have inv : w.Inv infos :=
    Reaches.invariant (fun _ _ _ inv _ hstep => (inv.step hstep).1) run fun _ => trivial
  rcases (inv.step hstep).2 with ⟨same, notOk⟩ | registered
  · refine ⟨fun _ mem _ => same ▸ mem, fun ok => ?_⟩
    rw [notOk] at ok
    cases ok
  · rw [registered]
    exact ⟨fun _ => Membership.mem_register, fun _ => Membership.mem_register_or_full⟩

/-- Call 0 is of node 1, the others of node 2. -/
def racingInfos (id : CallId) : NodeInfo :=
  if id = 0 then ⟨1, "a:1", "a:2"⟩ else ⟨2, "b:1", "b:2"⟩

/-- Both nodes read that there is no object. Node 2 creates it, and the write of node 1 is
refused. -/
def racingReads : List (CallId × Service) :=
  [(0, .served 0), (1, .served 0), (1, .served 1), (0, .served 2), (0, .served 2)]

theorem registered_unless_full_racing : ∃ w w',
    exec (RegistryWorld.step racingInfos) Always (.initial .empty) racingReads = some w ∧
    w.step racingInfos (0, .served 2) = some w' ∧ (w'.points 0).isOk = true ∧
      some ⟨2, "b:1", "b:2"⟩ ∈ w'.object.stored.nodes ∧
      (some ⟨1, "a:1", "a:2"⟩ ∈ w'.object.stored.nodes ∨
        w.object.stored.FullFor 1 ∧ w'.object.stored = w.object.stored) := by
  obtain ⟨w, w', run, hstep, created, ok⟩ : ∃ w w',
      exec (RegistryWorld.step racingInfos) Always (.initial .empty) racingReads = some w ∧
      w.step racingInfos (0, .served 2) = some w' ∧
      some ⟨2, "b:1", "b:2"⟩ ∈ w.object.stored.nodes ∧ (w'.points 0).isOk = true :=
    ⟨_, _, rfl, rfl, by decide, by decide⟩
  obtain ⟨kept, registered⟩ := registered_unless_full (reaches_of_exec _ run) hstep
  exact ⟨w, w', run, hstep, ok, kept _ created (by decide), registered ok⟩

/-- Nodes 1 and 2 are members. -/
def bothSlots : MembershipObject :=
  ⟨[⟨⟨some ⟨1, "a:1", "a:2"⟩, some ⟨2, "b:1", "b:2"⟩⟩, 0, 0⟩], by simp⟩

/-- A third node gets `Ok` without being a member. -/
theorem third_node_registers_nowhere : ∃ w, Reaches
    (RegistryWorld.step fun _ => ⟨3, "c:1", "c:2"⟩) Always (.initial bothSlots) w ∧
    (w.points 0).isOk = true ∧ some ⟨3, "c:1", "c:2"⟩ ∉ w.object.stored.nodes :=
  exists_of_exec [(0, .served 0), (0, .served 1)] (by decide)

end Celeriant
