import Celeriant.Lib.Transition
import Mathlib.Data.List.Basic

/-!
# The sync coordinator

Writers that want the same fsync share one: the first to find the orchestrator's slot empty leads
the cycle, and who finds an event there waits for the leader's result. A two-phase cycle captures
what is pending and empties its slot in one go; cycles, barrier fsyncs and rollbacks take turns at
the gate.

## Main results

* `success_follows_capture`
-/

namespace Celeriant

open Transition

/-- How a caller enters the coordinator. -/
inductive SyncCall
  | requestSync
  | requestSyncUntil
  | requestSyncTwoPhase
  | acquireRollbackLock
  deriving DecidableEq

namespace Coordinator

/-- What `capture_fn` returns, without data. -/
inductive CaptureResult (ε : Type)
  | captured
  | failed (e : ε)
  | noCaptureRaceButOk

/-- Where a caller is. -/
inductive Phase (ε : Type)
  /-- At the head of its loop, after some rides on the cycles of others. -/
  | calling (rides : ℕ)
  /-- Its event is in the slot. -/
  | leading
  /-- The gate timed out, and the event is still in the slot. -/
  | clearing (e : ε)
  | queueing
  /-- Inside the gate, in front of `capture_fn`. -/
  | capturing
  /-- Inside the gate, in its closure or its rollback. -/
  | running
  /-- A follower, or a rider on that ride. -/
  | listening (leader rides : ℕ)
  | returned (result : Except ε Unit)
  deriving DecidableEq

variable {ε : Type}

def Phase.inside : Phase ε → Bool
  | capturing | running => true
  | _ => false

/-- `notify`: a follower returns, a rider looks again. -/
def Phase.notified (leader : ℕ) (result : Except ε Unit) : Phase ε → Phase ε
  | listening e rides =>
    if e = leader then if rides = 0 then returned result else calling rides else listening e rides
  | p => p

end Coordinator

open Coordinator

/-- Callers are numbered in the order of their calls, and an event has the number of its leader. The
slots are `lock_orchestrator_single` and `lock_orchestrator`. `capture` records of each leader what
its capture returned, and how many calls had been made by then. -/
structure Coordinator (ε : Type) where
  calls : List SyncCall
  phase : ℕ → Phase ε
  slot : SyncCall → Option ℕ
  capture : ℕ → Option (ℕ × CaptureResult ε)

namespace Coordinator

/-- `locked` says whether a slot's lock was had in time, `satisfied` what the caller's check
returns, and a timeout brings the caller's error. -/
inductive Resumption (ε : Type)
  | acquire (locked satisfied : Bool)
  | clear (locked : Bool)
  | enter (timeout : Option ε) (satisfied : Bool)
  | capture (result : Except ε (CaptureResult ε))
  | finish (result : Except ε Unit)

/-- A call, or a caller goes on. -/
inductive SyncAction (ε : Type)
  | call (c : SyncCall)
  | resume (i : ℕ) (r : Resumption ε)

variable {ε : Type}

def new : Coordinator ε := ⟨[], fun _ => .calling 0, fun _ => none, fun _ => none⟩

def maxRides : ℕ := 3

section Steps

variable (s : Coordinator ε)

/-- A caller goes on. One that returns notifies the listeners of its event. -/
def goto (i : ℕ) (p : Phase ε) : Coordinator ε :=
  { s with phase := fun j =>
      if j = i then p
      else match p with
        | .returned result => (s.phase j).notified i result
        | _ => s.phase j }

def gateFree : Bool := (List.range s.calls.length).all fun j => !(s.phase j).inside

/-- Emptied, if the lock is had in time. -/
def emptied (c : SyncCall) (locked : Bool) (c' : SyncCall) : Option ℕ :=
  if locked ∧ c' = c then none else s.slot c'

/-- One caller, up to its next await. -/
def resume (i : ℕ) : Resumption ε → Option (Coordinator ε)
  | .acquire locked satisfied =>
    match s.calls[i]?, s.phase i with
    | some .acquireRollbackLock, .calling _ => some (s.goto i .queueing)
    | some .requestSyncUntil, .calling rides =>
      if satisfied then some (s.goto i (.returned (.ok ())))
      else match if rides < maxRides ∧ locked then s.slot .requestSyncTwoPhase else none with
        | some leader => some (s.goto i (.listening leader (rides + 1)))
        | none => some (s.goto i .queueing)
    | some c, .calling _ =>
      match s.slot c with
      | some leader => some (s.goto i (.listening leader 0))
      | none => some
        (goto { s with slot := fun c' => if c' = c then some i else s.slot c' } i .leading)
    | _, _ => none
  | .clear locked =>
    match s.calls[i]?, s.phase i with
    | some .requestSync, .leading =>
      some (goto { s with slot := s.emptied .requestSync locked } i .queueing)
    | some .requestSyncTwoPhase, .clearing e =>
      some (goto { s with slot := s.emptied .requestSyncTwoPhase locked } i (.returned (.error e)))
    | _, _ => none
  | .enter timeout satisfied =>
    match s.calls[i]?, s.phase i, timeout with
    | some .requestSyncTwoPhase, .leading, some e => some (s.goto i (.clearing e))
    | some _, .queueing, some e => some (s.goto i (.returned (.error e)))
    | some .requestSyncTwoPhase, .leading, none =>
      if s.gateFree then some (s.goto i .capturing) else none
    | some c, .queueing, none =>
      if s.gateFree = false then none
      -- another cycle may have done the barrier's work
      else if c = .requestSyncUntil ∧ satisfied then some (s.goto i (.returned (.ok ())))
      else some (s.goto i .running)
    | _, _, _ => none
  | .capture result =>
    match s.calls[i]?, s.phase i, result with
    | some .requestSyncTwoPhase, .capturing, .error e => some (s.goto i (.returned (.error e)))
    | some .requestSyncTwoPhase, .capturing, .ok c =>
      some (goto { s with
        slot := s.emptied .requestSyncTwoPhase true
        capture := fun j => if j = i then some (s.calls.length, c) else s.capture j } i
        (match c with
          | .captured => .running
          | .failed e => .returned (.error e)
          | .noCaptureRaceButOk => .returned (.ok ())))
    | _, _, _ => none
  | .finish result =>
    match s.phase i with
    | .running => some (s.goto i (.returned result))
    | _ => none

def step : SyncAction ε → Option (Coordinator ε)
  | .call c => some { s with calls := s.calls ++ [c] }
  | .resume i r => s.resume i r

end Steps

/-! ## What a success means -/

def TwoPhase (s : Coordinator ε) (i : ℕ) : Prop := s.calls[i]? = some .requestSyncTwoPhase
  deriving Decidable

/-- The capture of the leader came after the call of `i`, and did not fail. -/
def Takes (s : Coordinator ε) (leader i : ℕ) : Prop :=
  ∃ n c, s.capture leader = some (n, c) ∧ i < n ∧ (c = .captured ∨ c = .noCaptureRaceButOk)

structure Inv (s : Coordinator ε) : Prop where
  fresh : ∀ i, s.calls.length ≤ i → s.phase i = .calling 0
  gate : ∀ i j, (s.phase i).inside = true → (s.phase j).inside = true → i = j
  early : ∀ i, s.capture i = none ∨ s.phase i = .running ∨ ∃ r, s.phase i = .returned r
  slot : ∀ e, s.slot .requestSyncTwoPhase = some e → s.TwoPhase e ∧ s.capture e = none
  queueing : ∀ i, s.phase i = .queueing → ¬ s.TwoPhase i
  listening : ∀ i e, s.phase i = .listening e 0 → s.TwoPhase i →
    s.TwoPhase e ∧ ∀ c, s.capture e = some c → i < c.1
  running : ∀ i, s.phase i = .running → s.TwoPhase i → s.Takes i i
  returned : ∀ i, s.phase i = .returned (.ok ()) → s.TwoPhase i →
    ∃ leader, s.Takes leader i ∧ s.phase leader = .returned (.ok ())

variable {s t : Coordinator ε} {i j : ℕ} {p : Phase ε}

/-- Another caller stays, or is told the result. -/
theorem goto_other (ne : j ≠ i) : (s.goto i p).phase j = s.phase j ∨
    ∃ r n, p = .returned r ∧ s.phase j = .listening i n ∧
      (s.goto i p).phase j = if n = 0 then .returned r else .calling n := by
  simp only [goto, if_neg ne]
  split
  next r => cases at_j : s.phase j <;> grind [Phase.notified]
  next => exact .inl rfl

namespace Inv

variable (h : s.Inv)
include h

/-- One caller goes on, with new slots and captures. -/
theorem goto {slot capture} (called : i < s.calls.length)
    (unreturned : ∀ r, s.phase i ≠ .returned r)
    (captures : ∀ j, capture j = s.capture j ∨ j = i ∧ ∃ c, capture j = some (s.calls.length, c))
    (slots : ∀ e, slot .requestSyncTwoPhase = some e → s.TwoPhase e ∧ capture e = none)
    (gate : p.inside = true → ∀ j, j ≠ i → (s.phase j).inside = false)
    (early : capture i = none ∨ p = .running ∨ ∃ r, p = .returned r)
    (follows : ∀ e, p = .listening e 0 → s.TwoPhase i → s.TwoPhase e ∧ capture e = none)
    (kind : p = .queueing → ¬ s.TwoPhase i)
    (takes : p = .running ∨ p = .returned (.ok ()) → s.TwoPhase i → Takes { s with capture } i i) :
    (Coordinator.goto { s with slot, capture } i p).Inv := by
  have self : (Coordinator.goto { s with slot, capture } i p).phase i = p := if_pos rfl
  have other {j} (ne : j ≠ i) := goto_other (s := { s with slot, capture }) (p := p) ne
  obtain ⟨fresh, gate', early', slots', queueing, listening, running, returned⟩ := h
  change Inv ⟨s.calls, (Coordinator.goto { s with slot, capture } i p).phase, slot, capture⟩
  generalize (Coordinator.goto { s with slot, capture } i p).phase = phase at self other ⊢
  constructor
  -- of the caller by its new phase, of another by what it was told
  all_goals simp only [TwoPhase, Takes] at *
  all_goals grind [Phase.inside]

theorem outside (free : s.gateFree = true) (j : ℕ) : (s.phase j).inside = false := by
  rcases Nat.lt_or_ge j s.calls.length with lt | le
  · simpa using List.all_eq_true.mp free j (List.mem_range.mpr lt)
  · rw [h.fresh j le]
    rfl

theorem call (c) : Inv { s with calls := s.calls ++ [c] } := by
  have known {j} (called : s.phase j ≠ .calling 0) : (s.calls ++ [c])[j]? = s.calls[j]? :=
    List.getElem?_append_left (Nat.lt_of_not_le fun le => called (h.fresh j le))
  obtain ⟨fresh, gate, early, slot, queueing, listening, running, returned⟩ := h
  constructor <;> grind [TwoPhase, Takes]

theorem resume {r} (hstep : s.resume i r = some t) : t.Inv := by
  have fresh := h.fresh i
  have early := h.early i
  have running := h.running i
  have queueing := h.queueing i
  have gate := fun j => h.gate j i
  cases r
  all_goals simp only [Coordinator.resume] at hstep
  -- one goal for each way on from an await
  all_goals repeat' split at hstep
  all_goals cases hstep
  all_goals refine h.goto ?_ ?_ ?_ ?_ ?_ ?_ ?_ ?_ ?_
  all_goals first
    | intros; contradiction
    | exact h.slot
    | grind [Phase.inside, TwoPhase, Takes, outside, emptied, Inv.slot]

theorem step {a} (hstep : s.step a = some t) : t.Inv := by
  cases a with
  | call c => exact Option.some.inj hstep ▸ h.call c
  | resume i r => exact h.resume hstep

end Inv

/-- **A success follows a capture.** In every interleaving, closures and rollbacks take turns, and a
writer that has returned with success called before a capture that did not fail, of a leader that
returned with success. -/
theorem success_follows_capture (run : Reaches step Always new s) :
    (∀ i j, (s.phase i).inside = true → (s.phase j).inside = true → i = j) ∧
      ∀ i, s.TwoPhase i → s.phase i = .returned (.ok ()) →
        ∃ leader, s.Takes leader i ∧ s.phase leader = .returned (.ok ()) := by
  have inv := run.invariant (fun _ _ _ inv _ hstep => Inv.step inv hstep)
    (by constructor <;> simp [new, Phase.inside])
  exact ⟨inv.gate, fun i two ok => inv.returned i ok two⟩

/-- A follower is told of the success. -/
theorem success_follows_capture_follower : ∃ s : Coordinator Unit, Reaches step Always new s ∧
    (s.TwoPhase 1 ∧ s.phase 1 = .returned (.ok ())) ∧
      ∃ leader, s.Takes leader 1 ∧ s.phase leader = .returned (.ok ()) := by
  refine exists_and_of_exec [.call .requestSyncTwoPhase, .call .requestSyncTwoPhase,
    .resume 0 (.acquire true false), .resume 1 (.acquire true false), .resume 0 (.enter none false),
    .resume 0 (.capture (.ok .captured)), .resume 0 (.finish (.ok ()))] (by decide) ?_
  intro s run told
  exact (success_follows_capture run).2 1 told.1 told.2

end Coordinator

end Celeriant
