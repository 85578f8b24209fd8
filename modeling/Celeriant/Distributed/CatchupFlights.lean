import Celeriant.Distributed.NodeEffects

/-!
# One S3 catchup per shard

A catchup truncates the WAL and re-applies from a position of its own, so two on one shard would
undo each other. On shard 0 the loop of `run_s3_catchup` waits for its own catchup. A data shard
spawns a task for every `EnterS3Catchup` message, and a flag (`s3_catchup_in_flight`, taken by
`CatchupInFlight::try_enter` and given back when its guard is dropped) lets one of them through. The
task runs under a timeout of 90 s. When it fires, the execution is dropped at the await it has
reached, the guard with it, and the next message starts another one.

Beside shard 0 runs one data shard with the messages on their way to it. An execution is the await
it has reached: outside `truncate_wal`, at its rollback lock, or past the lock, where the parked
commits are gone, the caches cleared and the cursors or segments partly rewound.

## Main results

* `one_catchup_per_shard`: at most one execution on each shard, and none after a torn truncation
* `catchup_starts_over_torn_truncation`: a timeout leaves a truncation half done and the next starts
-/

namespace Celeriant

open Transition NodeBeside

/-- The awaits of `truncate_wal` behind its rollback lock. -/
inductive TruncateAwait
  | openTarget
  | closeActive
  | lockWriter
  | writeHeaders
  | syncHeaders
  | readCarryOver
  | rebuildTips
  deriving DecidableEq

/-- The await an execution of `enter_s3_catchup` has reached. -/
inductive CatchupStage
  | outside
  | rollbackLock
  | truncating (at_ : TruncateAwait)
  deriving DecidableEq

def CatchupStage.isTruncating : CatchupStage → Bool
  | .truncating _ => true
  | _ => false

/-- The awaits that may come next; an error ends the execution at any of them. -/
def CatchupStage.next : CatchupStage → List CatchupStage
  | .outside => [.outside, .rollbackLock]
  -- the segments are unwound only when the ancestor lies in a sealed one
  | .rollbackLock => [.truncating .openTarget, .truncating .lockWriter]
  | .truncating .openTarget => [.truncating .closeActive]
  | .truncating .closeActive => [.truncating .lockWriter]
  | .truncating .lockWriter => [.truncating .writeHeaders]
  | .truncating .writeHeaders => [.truncating .syncHeaders]
  | .truncating .syncHeaders => [.truncating .readCarryOver]
  | .truncating .readCarryOver => [.truncating .rebuildTips]
  | .truncating .rebuildTips => [.outside]

/-- A task of `handle_enter_s3_catchup` that holds the guard. -/
inductive CatchupTask
  | executing (stage : CatchupStage)
  /-- The result is on its way to shard 0. -/
  | reporting
  deriving DecidableEq

def CatchupTask.isExecuting : CatchupTask → Bool
  | .executing _ => true
  | .reporting => false

/-- The catchups of shard 0 and of one data shard. -/
structure Flights where
  /-- Executions on shard 0. -/
  zero : ℕ
  /-- Messages on their way to the data shard. -/
  mail : ℕ
  /-- Tasks that have not reached the guard. -/
  spawned : ℕ
  s3CatchupInFlight : Bool
  holding : List CatchupTask
  /-- A timeout has dropped an execution inside a truncation. -/
  torn : Bool
  /-- An execution has started after that. -/
  overTorn : Bool
  deriving DecidableEq

/-- A step of a task of the data shard. -/
inductive FlightAction
  | enterS3Catchup
  | tryEnter
  | advance (task : ℕ) (stage : CatchupStage)
  | finish (task : ℕ)
  | timeout (task : ℕ)
  | reported (task : ℕ)

namespace Flights

def idle : Flights := ⟨0, 0, 0, false, [], false, false⟩

/-- The guard is dropped with its task. -/
def release (f : Flights) (task : ℕ) : Flights :=
  { f with s3CatchupInFlight := false, holding := f.holding.eraseIdx task }

/-- A timeout drops the execution where it is. -/
def step (f : Flights) : FlightAction → Option Flights
  | .enterS3Catchup =>
    if 0 < f.mail then some { f with mail := f.mail - 1, spawned := f.spawned + 1 } else none
  | .tryEnter =>
    if 0 < f.spawned then
      if f.s3CatchupInFlight then some { f with spawned := f.spawned - 1 }
      else
        some { f with
          spawned := f.spawned - 1
          s3CatchupInFlight := true
          holding := f.holding ++ [.executing .outside]
          overTorn := f.overTorn || f.torn }
    else none
  | .advance task stage =>
    match f.holding[task]? with
    | some (.executing old) =>
      if stage ∈ old.next then some { f with holding := f.holding.set task (.executing stage) }
      else none
    | _ => none
  | .finish task =>
    match f.holding[task]? with
    | some (.executing _) => some { f with holding := f.holding.set task .reporting }
    | _ => none
  | .timeout task =>
    match f.holding[task]? with
    | some (.executing stage) => some { f.release task with torn := f.torn || stage.isTruncating }
    | _ => none
  | .reported task =>
    match f.holding[task]? with
    | some .reporting => some (f.release task)
    | _ => none

end Flights

/-- A data shard's catchups beside shard 0, with the executions on shard 0 counted. -/
def catchupFlights (cfg : NodeConfig) : Companion Flights FlightAction where
  observe := fun _ n a _ f =>
    match a with
    | .restart =>
      { f with zero := 0, mail := 0, spawned := 0, s3CatchupInFlight := false, holding := [] }
    | .beginAttempt =>
      if n.shutdownRequested || cfg.numShards ≤ 1 then f else { f with mail := f.mail + 1 }
    | .enterCatchup => { f with zero := f.zero + 1 }
    | .attemptDone _ _ _ => { f with zero := f.zero - 1 }
    | _ => f
  step := Flights.step

/-- A timeout fires only outside the guarded part of `truncate_wal`. -/
def TimesOutOutside (s : NodeBeside Flights) : BesideAction FlightAction → Prop
  | .beside (.timeout task) => s.beside.holding[task]?.all (fun t =>
      match t with
      | .executing stage => !stage.isTruncating
      | .reporting => true) = true
  | _ => True

instance : DecidableRel TimesOutOutside := fun s a => by
  induction a using BesideAction.casesOn with
  | beside b => induction b using FlightAction.casesOn <;> dsimp only [TimesOutOutside] <;>
    infer_instance
  | _ => dsimp only [TimesOutOutside]; infer_instance

def OrchestratorPoint.isAttempting : OrchestratorPoint → Bool
  | .attempting _ _ _ _ => true
  | _ => false

/-- The loop on shard 0 waits for the one execution it started, and the tasks past the guard are as
many as the flag says. -/
structure FlightInv (n : NodeState) (f : Flights) : Prop where
  zero : f.zero = 0 ∨ f.zero = 1 ∧ n.point.isAttempting = true
  guarded : f.holding.length = f.s3CatchupInFlight.toNat
  whole : f.torn = false ∧ f.overTorn = false

section Steps

variable {cfg : NodeConfig} {now : ℕ} {w w' : ElectionWorld} {n n' : NodeState} {a : NodeAction}
  {f f' : Flights}

theorem NodeState.renewalDone_point (stored : ℕ) (result : Except LeaseStoreError ElectionOutcome) :
    (n.renewalDone now stored result).point = n.point := by
  cases result <;> rfl

/-- The loop leaves an attempt when it is done; the handlers leave the loop where it is. -/
theorem NodeState.attempting_stays (attempting : n.point.isAttempting = true)
    (running : ∀ own messages id, a ≠ .attemptDone own messages id) (alive : a ≠ .restart)
    (h : n.step cfg now w a = some (w', n')) : n'.point = n.point := by
  cases hpoint : n.point <;> rw [hpoint] at attempting <;> cases attempting
  cases a
  all_goals simp only [NodeState.step] at h
  case attemptDone own messages id => exact absurd rfl (running own messages id)
  case restart => exact absurd rfl alive
  case renewOnDemand id =>
    split at h
    · obtain ⟨-, -, rfl⟩ := NodeState.beginCall_eq h
      exact hpoint
    · cases h
  case renewalReturned retry =>
    split at h
    · split at h
      · obtain ⟨-, -, rfl⟩ := NodeState.beginCall_eq h
        exact hpoint
      · cases h
        exact (NodeState.renewalDone_point ..).trans hpoint
      · cases h
    · cases h
  case resumeElection id =>
    split at h
    · obtain ⟨w₁, -, eq⟩ := Option.map_eq_some_iff.mp h
      cases eq
      exact hpoint
    · cases h
  case heartbeat ts epoch =>
    cases h
    unfold NodeState.handleHeartbeat
    split
    · exact hpoint
    · split
      · exact hpoint
      · split <;> exact hpoint
  case heartbeatReconciled handler =>
    split at h <;> cases h
    exact hpoint
  case kick =>
    cases h
    unfold NodeState.handleKickFollower
    split
    · split <;> exact hpoint
    · exact hpoint
  case staleLease epoch =>
    cases h
    unfold NodeState.handleStaleLease
    split <;> exact hpoint
  case requestShutdown =>
    cases h
    exact hpoint
  all_goals
    simp only [hpoint] at h
    cases h

theorem FlightInv.node (inv : FlightInv n f) (h : n.step cfg now w a = some (w', n')) :
    FlightInv n' ((catchupFlights cfg).observe now n a n' f) := by
  -- a step that does not start, end or forget an attempt leaves the count alone
  have stays : (∀ own messages id, a ≠ .attemptDone own messages id) → a ≠ .restart →
      f.zero = 0 ∨ f.zero = 1 ∧ n'.point.isAttempting = true := by
    intro running alive
    rcases inv.zero with none | ⟨one, attempting⟩
    · exact .inl none
    · refine .inr ⟨one, ?_⟩
      rw [NodeState.attempting_stays attempting running alive h]
      exact attempting
  cases a with
  | restart => exact ⟨.inl rfl, rfl, inv.whole⟩
  | attemptDone own messages id =>
    refine ⟨.inl ?_, inv.guarded, inv.whole⟩
    have := inv.zero
    simp only [catchupFlights]
    omega
  | enterCatchup =>
    simp only [NodeState.step] at h
    split at h <;> cases h
    next hpoint =>
      have none : f.zero = 0 := by
        rcases inv.zero with none | ⟨-, attempting⟩
        · exact none
        · rw [hpoint] at attempting
          cases attempting
      exact ⟨.inr ⟨by simp only [catchupFlights, none], rfl⟩, inv.guarded, inv.whole⟩
  | beginAttempt =>
    have zero := stays (fun _ _ _ h => by cases h) (fun h => by cases h)
    simp only [catchupFlights]
    split <;> exact ⟨zero, inv.guarded, inv.whole⟩
  | _ => exact ⟨stays (fun _ _ _ h => by cases h) (fun h => by cases h), inv.guarded, inv.whole⟩

/-- The flag is up while a task holds the guard, and then it is the only one. -/
theorem FlightInv.release (inv : FlightInv n f) {task : ℕ} {t}
    (holds : f.holding[task]? = some t) : FlightInv n (f.release task) := by
  obtain ⟨bound, -⟩ := List.getElem?_eq_some_iff.mp holds
  have guarded := inv.guarded
  refine ⟨inv.zero, ?_, inv.whole⟩
  have one := Bool.toNat_le f.s3CatchupInFlight
  simp only [Flights.release, List.length_eraseIdx_of_lt bound, Bool.toNat_false]
  omega

theorem FlightInv.set (inv : FlightInv n f) (task : ℕ) (t : CatchupTask) :
    FlightInv n { f with holding := f.holding.set task t } :=
  ⟨inv.zero, by rw [List.length_set]; exact inv.guarded, inv.whole⟩

theorem FlightInv.flight (inv : FlightInv n f) {b : FlightAction}
    (outside : ∀ task stage, b = .timeout task → f.holding[task]? = some (.executing stage) →
      stage.isTruncating = false) (h : f.step b = some f') : FlightInv n f' := by
  cases b
  all_goals simp only [Flights.step] at h
  case enterS3Catchup =>
    split at h <;> cases h
    exact ⟨inv.zero, inv.guarded, inv.whole⟩
  case tryEnter =>
    split at h
    next =>
      split at h
      next => cases h; exact ⟨inv.zero, inv.guarded, inv.whole⟩
      next free =>
        cases h
        have none := inv.guarded
        rw [Bool.eq_false_iff.mpr free] at none
        refine ⟨inv.zero, ?_, inv.whole.1, ?_⟩
        · rw [List.length_append, none]; rfl
        · rw [inv.whole.1, inv.whole.2]; rfl
    next => cases h
  case advance task stage =>
    split at h
    next =>
      split at h <;> cases h
      exact inv.set task _
    next => cases h
  case finish task =>
    split at h <;> cases h
    exact inv.set task _
  case timeout task =>
    split at h
    next stage holds =>
      cases h
      have released := inv.release holds
      refine ⟨released.zero, released.guarded, ?_, inv.whole.2⟩
      rw [inv.whole.1, outside task stage rfl holds]; rfl
    next => cases h
  case reported task =>
    split at h
    next holds => cases h; exact inv.release holds
    next => cases h

end Steps

/-- **One catchup per shard.**  In every run in which no timeout fires inside the guarded part of
`truncate_wal`, at most one catchup is in progress on shard 0 and on the data shard, and none has
started over a truncation that a timeout left half done. -/
theorem one_catchup_per_shard {cfg : NodeConfig} {w : ElectionWorld} {history : NodeHistory}
    {s : NodeBeside Flights}
    (run : Reaches (NodeBeside.step cfg (catchupFlights cfg)) TimesOutOutside
      (.boot w history .idle) s) :
    s.beside.zero ≤ 1 ∧ s.beside.holding.countP CatchupTask.isExecuting ≤ 1 ∧
      s.beside.overTorn = false := by
  have inv := NodeBeside.invariant (I := FlightInv) (fun s now a w' n' inv _ h => inv.node h)
    (fun s b f' inv outside h => ?_) run ⟨.inl rfl, rfl, rfl, rfl⟩
  · refine ⟨?_, ?_, inv.whole.2⟩
    · have := inv.zero
      omega
    · have counted := List.countP_le_length (p := CatchupTask.isExecuting) (l := s.beside.holding)
      rw [inv.guarded] at counted
      exact le_trans counted (Bool.toNat_le _)
  · refine inv.flight (fun task stage eq holds => ?_) h
    subst eq
    simp only [TimesOutOutside, holds, Option.all_some, Bool.not_eq_true'] at outside
    exact outside

/-- A node with one data shard. -/
def twoShards : NodeConfig := { soloConfig with numShards := 2 }

/-- The first catchup of the data shard takes the steps and is timed out, as is the barrier on shard
0; the next attempt starts another. -/
def timedOutAttempt (steps : List (BesideAction FlightAction)) : List (BesideAction FlightAction) :=
  tasks 500 [.orchestrate, .beginAttempt, .enterCatchup] ++
    [.beside .enterS3Catchup, .beside .tryEnter, .beside (.advance 0 .rollbackLock)] ++ steps ++
    [.beside (.timeout 0)] ++
    tasks 100000 [.attemptDone (.ok ⟨0, 0, 1, .caught, false⟩) [] 0, .beginAttempt] ++
    [.beside .enterS3Catchup, .beside .tryEnter]

/-- Timed out at the rollback lock, with nothing done yet. -/
theorem one_catchup_per_shard_atLock :
    ∃ s, Reaches (NodeBeside.step twoShards (catchupFlights twoShards)) TimesOutOutside
        (.boot peerLease ⟨[], [], [], [], []⟩ .idle) s ∧
      s.beside.holding = [.executing .outside] ∧ s.beside.zero ≤ 1 ∧ s.beside.overTorn = false := by
  refine exists_and_of_exec (timedOutAttempt []) (by decide +kernel) ?_
  intro s run _
  obtain ⟨zero, -, whole⟩ := one_catchup_per_shard run
  exact ⟨zero, whole⟩

/-- Timed out while the rewound headers are written: the cursors in memory are rewound, the headers
on disk are not synced, the carry-over and the chain tips are the old ones, and the next catchup
runs. -/
theorem catchup_starts_over_torn_truncation :
    ∃ s, Reaches (NodeBeside.step twoShards (catchupFlights twoShards)) Always
        (.boot peerLease ⟨[], [], [], [], []⟩ .idle) s ∧
      (s.beside.holding, s.beside.torn, s.beside.overTorn) = ([.executing .outside], true, true) :=
  exists_of_exec (timedOutAttempt [.beside (.advance 0 (.truncating .lockWriter)),
    .beside (.advance 0 (.truncating .writeHeaders))]) (by decide +kernel)

end Celeriant
