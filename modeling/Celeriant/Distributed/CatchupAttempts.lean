import Celeriant.Distributed.NodeStatus
import Celeriant.Replication.S3Catchup
import Mathlib.Data.List.DropRight
import Mathlib.Order.Interval.Finset.Nat

/-!
# Attempts of a node's S3 catchup

A catchup run asks every shard to catch up, waits for their completions and decides whether the run
is over. Completions are tagged with the generation of the attempt; stale, foreign and repeated ones
are dropped. A run ends Caught only when every shard reported Caught in one attempt.

## Main results

* `everyShardCaught_of_assess`: an attempt that is assessed Caught was Caught on every shard
* `caught_of_runS3Catchup`
* `AttemptTracker.decisions_by_history`
-/

namespace Celeriant

open List

/-- The role of an attempt, from the status at its start. -/
def roleForStatus (status : NodeStatus) : CatchupRole :=
  if status.isPromoting then .promoting
  else
    match status with
    | .bootCatchup => .boot
    | _ => .following

/-- The classes of catchup errors the assessment tells apart. -/
inductive CatchupErrorClass
  | diskFull
  | retriable
  | fatal
  deriving DecidableEq, Repr

/-- What a shard reports at the end of its catchup. -/
structure CatchupCompletionMsg where
  shardId : ℕ
  attempt : ℕ
  result : Except CatchupErrorClass S3CatchupResult
  deriving Repr

namespace CatchupCompletionMsg

variable (m : CatchupCompletionMsg)

def isCaught : Bool :=
  match m.result with
  | .ok r => r.completion = .caught
  | .error _ => false

/-- The shard was reached but did not drain. -/
def isUndrained : Bool :=
  match m.result with
  | .ok r => r.completion = .retry
  | .error _ => false

def hasError (c : CatchupErrorClass) : Bool :=
  match m.result with
  | .ok _ => false
  | .error e => e = c

/-- Whether the result is a Retry that applied nothing; an error says nothing. -/
def stalled : Option Bool :=
  match m.result with
  | .ok r => some (r.completion = .retry ∧ r.batchesApplied = 0)
  | .error _ => none

theorem isCaught_iff : m.isCaught = true ↔ m.hasError .fatal = false ∧
    m.isUndrained = false ∧ m.hasError .retriable = false ∧ m.hasError .diskFull = false := by
  unfold isCaught isUndrained hasError
  cases m.result with
  | ok r => cases completion : r.completion <;> simp [completion]
  | error e => cases e <;> simp

end CatchupCompletionMsg

/-! ## The completion barrier -/

section Barrier

variable (generation shardCount : ℕ)

/-- The barrier takes the first completion of every other shard that carries its generation. -/
def acceptCompletion (results : List CatchupCompletionMsg) (m : CatchupCompletionMsg) :
    List CatchupCompletionMsg :=
  if results.length < shardCount - 1 ∧ m.attempt = generation ∧ m.shardId ≠ 0 ∧
      m.shardId < shardCount ∧ m.shardId ∉ results.map (·.shardId) then results ++ [m]
  else results

/-- The completions that the barrier counts. -/
def awaitCompletions (messages : List CatchupCompletionMsg) : List CatchupCompletionMsg :=
  messages.foldl (acceptCompletion generation shardCount) []

/-- The shards that have not reported when the barrier gives up. -/
def unreported (results : List CatchupCompletionMsg) : List ℕ :=
  if results.length < shardCount - 1 then
    (List.range' 1 (shardCount - 1)).filter fun id => id ∉ results.map (·.shardId)
  else []

variable {generation shardCount}

/-- The accepted completions come from distinct other shards. -/
theorem awaitCompletions_shards (generation shardCount : ℕ) (messages : List CatchupCompletionMsg) :
    ((awaitCompletions generation shardCount messages).map (·.shardId)).Nodup ∧
      ∀ id ∈ (awaitCompletions generation shardCount messages).map (·.shardId),
        id ∈ Finset.Ico 1 shardCount := by
  refine List.foldlRecOn messages (acceptCompletion generation shardCount)
    (motive := fun results => (results.map (·.shardId)).Nodup ∧
      ∀ id ∈ results.map (·.shardId), id ∈ Finset.Ico 1 shardCount) ?_ ?_
  · exact ⟨nodup_nil, fun id h => absurd h not_mem_nil⟩
  · rintro results ⟨nodup, others⟩ m -
    unfold acceptCompletion
    split
    next ok =>
      obtain ⟨-, -, notZero, inRange, fresh⟩ := ok
      rw [map_append, map_cons, map_nil]
      refine ⟨?_, fun id hid => ?_⟩
      · exact nodup_append.mpr ⟨nodup, nodup_singleton _, fun a ha b hb => by
          rw [mem_singleton.mp hb]
          exact fun eq => fresh (eq ▸ ha)⟩
      · rcases mem_append.mp hid with hid | hid
        · exact others id hid
        · rw [mem_singleton.mp hid]
          exact Finset.mem_Ico.mpr ⟨Nat.one_le_iff_ne_zero.mpr notZero, inRange⟩
    · exact ⟨nodup, others⟩

/-- The accepted completions were received and carry the barrier's generation. -/
theorem awaitCompletions_received {messages} :
    ∀ m ∈ awaitCompletions generation shardCount messages,
      m ∈ messages ∧ m.attempt = generation := by
  refine List.foldlRecOn messages (acceptCompletion generation shardCount)
    (motive := fun results => ∀ m ∈ results, m ∈ messages ∧ m.attempt = generation) ?_ ?_
  · exact fun m h => absurd h not_mem_nil
  · intro results received m' hm' m hm
    unfold acceptCompletion at hm
    split at hm
    next ok =>
      rcases mem_append.mp hm with hm | hm
      · exact received m hm
      · obtain rfl := mem_singleton.mp hm
        exact ⟨hm', ok.2.1⟩
    · exact received m hm

/-- When no shard is unreported, every other shard is among the completions. -/
theorem mem_of_unreported_nil {messages}
    (complete : unreported shardCount (awaitCompletions generation shardCount messages) = [])
    {id} (other : id ≠ 0) (inRange : id < shardCount) :
    id ∈ (awaitCompletions generation shardCount messages).map (·.shardId) := by
  obtain ⟨nodup, others⟩ := awaitCompletions_shards generation shardCount messages
  set results := awaitCompletions generation shardCount messages
  unfold unreported at complete
  split at complete
  · by_contra missing
    refine filter_eq_nil_iff.mp complete id ?_ (by simpa using missing)
    exact mem_range'_1.mpr ⟨Nat.one_le_iff_ne_zero.mpr other, by omega⟩
  next full =>
    -- as many distinct shards as there are: all of them
    have subset : (results.map (·.shardId)).toFinset ⊆ Finset.Ico 1 shardCount :=
      fun id hid => others id (mem_toFinset.mp hid)
    have card : (Finset.Ico 1 shardCount).card ≤ (results.map (·.shardId)).toFinset.card := by
      rw [toFinset_card_of_nodup nodup, Nat.card_Ico, length_map]
      omega
    rw [← mem_toFinset, Finset.eq_of_subset_of_card_le subset card, Finset.mem_Ico]
    exact ⟨Nat.one_le_iff_ne_zero.mpr other, inRange⟩

end Barrier

/-! ## The decision -/

def maxStalledAttempts : ℕ := 4

def maxS3UnreachableRounds : ℕ := 4

/-- What becomes of the run after an attempt. -/
inductive AttemptDecision
  | caught
  | shutdown
  | stallBail
  | unreachableBail
  | continue
  deriving DecidableEq, Repr

/-- The counters of one run; a shard without an entry counts zero. -/
structure AttemptTracker where
  perShardStalled : ℕ → ℕ
  consecutiveS3Unreachable : ℕ

namespace AttemptTracker

def new : AttemptTracker := ⟨fun _ => 0, 0⟩

variable (t : AttemptTracker)

/-- One shard's result: a zero-progress Retry counts, anything else but an error resets, and an
error leaves the count. Answers whether the shard has used up its budget. -/
def countStall (role : CatchupRole) (m : CatchupCompletionMsg) : AttemptTracker × Bool :=
  match m.result with
  | .error _ => (t, false)
  | .ok r =>
    if r.completion = .retry ∧ r.batchesApplied = 0 then
      if role ≠ .boot ∨ r.stalledAwaitingS3 then
        let count := t.perShardStalled m.shardId + 1
        ({ t with perShardStalled := Function.update t.perShardStalled m.shardId count },
          (if role = .boot then 1 else maxStalledAttempts) ≤ count)
      else (t, false)
    else ({ t with perShardStalled := Function.update t.perShardStalled m.shardId 0 }, false)

/-- All shards' results, in the order they were reported. -/
def countStalls (role : CatchupRole) : List CatchupCompletionMsg → AttemptTracker →
    AttemptTracker × Bool
  | [], t => (t, false)
  | m :: ms, t =>
    let (t, bails) := t.countStall role m
    let (t, rest) := countStalls role ms t
    (t, bails || rest)

def assess (role : CatchupRole) (results : List CatchupCompletionMsg) (timedOut : List ℕ) :
    AttemptDecision × AttemptTracker :=
  let undrained := results.any (·.isUndrained)
  let s3Error := results.any (·.hasError .retriable)
  let diskFull := results.any (·.hasError .diskFull)
  if results.any (·.hasError .fatal) then (.shutdown, t)
  else if timedOut ≠ [] then (if role = .boot then .continue else .stallBail, t)
  else if !undrained && !s3Error && !diskFull then (.caught, t)
  else
    let (t, bails) := countStalls role results t
    if bails then (.stallBail, t)
    else if s3Error && !undrained then
      let t := { t with consecutiveS3Unreachable := t.consecutiveS3Unreachable + 1 }
      if maxS3UnreachableRounds ≤ t.consecutiveS3Unreachable then (.unreachableBail, t)
      else (.continue, t)
    else (.continue, { t with consecutiveS3Unreachable := 0 })

/-- Without a fatal error the three flags are down exactly when every result is Caught. -/
theorem clean_iff {results : List CatchupCompletionMsg}
    (noFatal : ¬ results.any (·.hasError .fatal) = true) :
    (!results.any (·.isUndrained) && !results.any (·.hasError .retriable) &&
      !results.any (·.hasError .diskFull)) = true ↔ ∀ m ∈ results, m.isCaught = true := by
  simp only [Bool.and_eq_true, Bool.not_eq_true', any_eq_false, Bool.not_eq_true,
    CatchupCompletionMsg.isCaught_iff] at noFatal ⊢
  constructor
  · rintro ⟨⟨undrained, retriable⟩, diskFull⟩ m mem
    exact ⟨noFatal m mem, undrained m mem, retriable m mem, diskFull m mem⟩
  · intro caught
    exact ⟨⟨fun m mem => (caught m mem).2.1, fun m mem => (caught m mem).2.2.1⟩,
      fun m mem => (caught m mem).2.2.2⟩

variable {t}

/-- A Caught assessment: nobody timed out and every reported shard is Caught. -/
theorem caught_of_assess {role results}
    {timedOut} (h : (t.assess role results timedOut).1 = .caught) :
    timedOut = [] ∧ ∀ m ∈ results, m.isCaught := by
  unfold assess at h
  dsimp only at h
  split at h
  · cases h
  next noFatal =>
    split at h
    · split at h <;> cases h
    next complete =>
      split at h
      next clean => exact ⟨not_not.mp complete, (clean_iff noFatal).mp clean⟩
      next =>
        repeat' split at h
        all_goals cases h

end AttemptTracker

/-- Every shard of the node reported Caught. -/
def EveryShardCaught (shardCount : ℕ) (results : List CatchupCompletionMsg) : Prop :=
  ∀ id < shardCount, ∃ m ∈ results, m.shardId = id ∧ m.isCaught

instance (shardCount : ℕ) (results : List CatchupCompletionMsg) :
    Decidable (EveryShardCaught shardCount results) := by
  unfold EveryShardCaught
  infer_instance

/-- **An attempt that is assessed Caught was Caught on every shard.** -/
theorem everyShardCaught_of_assess {t : AttemptTracker} {role}
    {generation shardCount own} (shardZero : own.shardId = 0) {messages}
    (h : (t.assess role (own :: awaitCompletions generation shardCount messages)
      (unreported shardCount (awaitCompletions generation shardCount messages))).1 = .caught) :
    EveryShardCaught shardCount (own :: awaitCompletions generation shardCount messages) := by
  obtain ⟨complete, caught⟩ := AttemptTracker.caught_of_assess h
  intro id inRange
  by_cases other : id = 0
  · exact ⟨own, mem_cons_self, shardZero.trans other.symm, caught own mem_cons_self⟩
  · obtain ⟨m, hm, rfl⟩ := mem_map.mp (mem_of_unreported_nil complete other inRange)
    exact ⟨m, mem_cons_of_mem _ hm, rfl, caught m (mem_cons_of_mem _ hm)⟩

/-! ## A run of attempts -/

/-- What an attempt meets: the status at its start, its generation, shard 0's own result and the
completions that the channel delivers until the barrier ends. The channel outlives the attempts, so
these are any messages; a superseded promotion ends the run behind the attempt. -/
structure CatchupAttempt where
  status : NodeStatus
  generation : ℕ
  shardZero : Except CatchupErrorClass S3CatchupResult
  received : List CatchupCompletionMsg
  superseded : Bool

namespace CatchupAttempt

variable (shardCount : ℕ) (a : CatchupAttempt)

/-- The results that the attempt is assessed on. -/
def results : List CatchupCompletionMsg :=
  ⟨0, a.generation, a.shardZero⟩ :: awaitCompletions a.generation shardCount a.received

/-- The shards that did not report in time. -/
def timedOut : List ℕ := unreported shardCount (awaitCompletions a.generation shardCount a.received)

/-- What the attempt comes to. -/
def assess (t : AttemptTracker) : AttemptDecision × AttemptTracker :=
  t.assess (roleForStatus a.status) (a.results shardCount) (a.timedOut shardCount)

end CatchupAttempt

/-- The attempts of a run with their decisions. A decision other than Continue ends the run. -/
def runS3Catchup (shardCount : ℕ) :
    AttemptTracker → List CatchupAttempt → List (CatchupAttempt × AttemptDecision)
  | _, [] => []
  | t, a :: rest =>
    let assessed := a.assess shardCount t
    (a, assessed.1) :: if assessed.1 = .continue ∧ !a.superseded then
      runS3Catchup shardCount assessed.2 rest else []

/-- Every attempt of a run is decided by an assessment of its own results. -/
theorem assess_of_runS3Catchup {shardCount attempts} {a decision} :
    ∀ {t}, (a, decision) ∈ runS3Catchup shardCount t attempts →
      ∃ t', (a.assess shardCount t').1 = decision := by
  induction attempts with
  | nil => exact fun h => absurd h not_mem_nil
  | cons b rest ih =>
    intro t h
    rcases mem_cons.mp h with first | later
    · obtain ⟨rfl, rfl⟩ := Prod.mk.inj first
      exact ⟨t, rfl⟩
    · exact ih (mem_ite_nil_right.mp later).2

/-- **A Caught attempt counted every shard, and nothing else.** In every run over any completions,
each shard of a Caught attempt reported Caught for the generation of the attempt: shard 0 by its own
result, the others by a completion received from the channel. No shard is counted twice or missing,
and no completion of another generation is counted. -/
theorem caught_of_runS3Catchup {shardCount : ℕ} {t : AttemptTracker}
    {attempts : List CatchupAttempt} {a : CatchupAttempt}
    (caught : (a, .caught) ∈ runS3Catchup shardCount t attempts) :
    (∀ id < shardCount, ∃ m ∈ a.results shardCount,
      m.shardId = id ∧ m.attempt = a.generation ∧ m.isCaught ∧ (id ≠ 0 → m ∈ a.received)) ∧
    ((a.results shardCount).map (·.shardId)).Nodup ∧
    (∀ m ∈ a.results shardCount, m.attempt = a.generation) ∧ a.timedOut shardCount = [] := by
  obtain ⟨t', decided⟩ := assess_of_runS3Catchup caught
  have generation : ∀ m ∈ a.results shardCount, m.attempt = a.generation := by
    intro m hm
    rcases mem_cons.mp hm with rfl | hm
    · rfl
    · exact (awaitCompletions_received m hm).2
  obtain ⟨nodup, others⟩ := awaitCompletions_shards a.generation shardCount a.received
  refine ⟨fun id inRange => ?_, ?_, generation, (AttemptTracker.caught_of_assess decided).1⟩
  · obtain ⟨m, hm, rfl, isCaught⟩ := everyShardCaught_of_assess rfl decided id inRange
    refine ⟨m, hm, rfl, generation m hm, isCaught, fun other => ?_⟩
    rcases mem_cons.mp hm with rfl | hm
    · exact absurd rfl other
    · exact (awaitCompletions_received m hm).1
  · refine nodup_cons.mpr ⟨fun zero => ?_, nodup⟩
    exact absurd (Finset.mem_Ico.mp (others 0 zero)).1 (by decide)

/-- Two shards: a late completion of generation 6 and a repeated one do not count. -/
theorem caught_of_runS3Catchup_two :
    let r : S3CatchupResult := ⟨0, 0, 1, .caught, false⟩
    let a : CatchupAttempt :=
      ⟨.follower 1, 7, .ok r, [⟨1, 6, .ok r⟩, ⟨1, 7, .ok r⟩, ⟨1, 7, .ok r⟩], false⟩
    (a, .caught) ∈ runS3Catchup 2 .new [a] ∧ (∀ id < 2, ∃ m ∈ a.results 2,
      m.shardId = id ∧ m.attempt = 7 ∧ m.isCaught ∧ (id ≠ 0 → m ∈ a.received)) :=
  have caught : _ ∈ runS3Catchup 2 .new [_] := mem_cons_self
  ⟨caught, (caught_of_runS3Catchup caught).1⟩

/-! ## Budgets over the history -/

/-- The zero-progress Retries of a shard since its last result with progress or Caught. -/
def stallsSince (shard : ℕ) (history : List CatchupCompletionMsg) : ℕ :=
  (((history.filter (·.shardId = shard)).filterMap (·.stalled)).rtakeWhile id).length

/-- Some result of an attempt is the fourth zero-progress Retry of its shard, behind the history and
the results before it. -/
def FourthStall (history : List CatchupCompletionMsg) : List CatchupCompletionMsg → Prop
  | [] => False
  | m :: results =>
    (m.stalled = some true ∧ stallsSince m.shardId (history ++ [m]) = 4) ∨
      FourthStall (history ++ [m]) results

/-- An attempt with a retriable error and without a Retry. -/
def noContact (results : List CatchupCompletionMsg) : Bool :=
  results.any (·.hasError .retriable) && !results.any (·.isUndrained)

theorem stallsSince_concat (shard : ℕ) (history : List CatchupCompletionMsg)
    (m : CatchupCompletionMsg) :
    stallsSince shard (history ++ [m]) =
      if m.shardId = shard then
        match m.stalled with
        | none => stallsSince shard history
        | some true => stallsSince shard history + 1
        | some false => 0
      else stallsSince shard history := by
  unfold stallsSince
  by_cases own : m.shardId = shard
  · match stalled : m.stalled with
    | none | some true | some false => simp [own, stalled]
  · simp [own]

namespace AttemptTracker

variable {t t' : AttemptTracker} {role : CatchupRole} {history : List CatchupCompletionMsg}
  {alone : ℕ}

/-- The counters are those of the history, and no shard has used up its budget. -/
structure Counts (t : AttemptTracker) (history : List CatchupCompletionMsg) (alone : ℕ) : Prop where
  stalled : ∀ id, t.perShardStalled id = stallsSince id history ∧ t.perShardStalled id < 4
  unreachable : t.consecutiveS3Unreachable = alone

theorem Counts.countStall (counts : t.Counts history alone) (notBoot : role ≠ .boot)
    (m : CatchupCompletionMsg) :
    ((t.countStall role m).2 = true ↔
      m.stalled = some true ∧ stallsSince m.shardId (history ++ [m]) = 4) ∧
    ((t.countStall role m).2 = false → (t.countStall role m).1.Counts (history ++ [m]) alone) := by
  obtain ⟨own, below⟩ := counts.stalled m.shardId
  -- an update of the shard's own counter is what the history says
  have updated {n : ℕ} (new : stallsSince m.shardId (history ++ [m]) = n) (low : n < 4) :
      Counts { t with perShardStalled := Function.update t.perShardStalled m.shardId n }
        (history ++ [m]) alone := by
    refine ⟨fun id => ?_, counts.unreachable⟩
    dsimp only
    by_cases same : id = m.shardId
    · subst same
      rw [Function.update_self, new]
      exact ⟨rfl, low⟩
    · rw [stallsSince_concat, if_neg (Ne.symm same), Function.update_of_ne same]
      exact counts.stalled id
  unfold AttemptTracker.countStall
  cases result : m.result with
  | error e =>
    have quiet : m.stalled = none := by simp [CatchupCompletionMsg.stalled, result]
    refine ⟨by simp [quiet], fun _ => ⟨fun id => ?_, counts.unreachable⟩⟩
    simpa [stallsSince_concat, quiet] using counts.stalled id
  | ok r =>
    by_cases stall : r.completion = .retry ∧ r.batchesApplied = 0
    · have counted : m.stalled = some true := by simp [CatchupCompletionMsg.stalled, result, stall]
      have next : stallsSince m.shardId (history ++ [m]) = t.perShardStalled m.shardId + 1 := by
        simp [stallsSince_concat, counted, own]
      simp only [if_pos stall, if_pos (Or.inl notBoot : role ≠ .boot ∨ _), if_neg notBoot,
        decide_eq_true_eq, decide_eq_false_iff_not, maxStalledAttempts, Nat.not_le]
      exact ⟨⟨fun _ => ⟨counted, by omega⟩, fun h => by omega⟩, updated next⟩
    · have moved : m.stalled = some false := by simp [CatchupCompletionMsg.stalled, result, stall]
      simp only [if_neg stall]
      exact ⟨by simp [moved], fun _ => updated (by simp [stallsSince_concat, moved]) (by decide)⟩

/-- An attempt uses up a budget with a fourth stall. -/
theorem Counts.countStalls (counts : t.Counts history alone) (notBoot : role ≠ .boot)
    (results : List CatchupCompletionMsg) :
    ((AttemptTracker.countStalls role results t).2 = true ↔ FourthStall history results) ∧
    ((AttemptTracker.countStalls role results t).2 = false →
      (AttemptTracker.countStalls role results t).1.Counts (history ++ results) alone) := by
  induction results generalizing t history with
  | nil => exact ⟨⟨nofun, False.elim⟩, fun _ => by rwa [append_nil]⟩
  | cons m results ih =>
    obtain ⟨bails, counts'⟩ := counts.countStall notBoot m
    rw [FourthStall, ← bails, AttemptTracker.countStalls]
    dsimp only
    cases first : (t.countStall role m).2 with
    | true => simp
    | false =>
      obtain ⟨later, rest⟩ := ih (counts' first)
      rw [append_assoc] at rest
      simpa using ⟨later, rest⟩

/-- **The decision by the history.** -/
theorem Counts.assess (counts : t.Counts history alone) (notBoot : role ≠ .boot)
    (results : List CatchupCompletionMsg) :
    ((t.assess role results []).1 = .stallBail ↔ results.any (·.hasError .fatal) = false ∧
      ¬ (∀ m ∈ results, m.isCaught = true) ∧ FourthStall history results) ∧
    ((t.assess role results []).1 = .unreachableBail ↔ results.any (·.hasError .fatal) = false ∧
      ¬ FourthStall history results ∧ noContact results = true ∧ 4 ≤ alone + 1) ∧
    ((t.assess role results []).1 = .caught ↔ ∀ m ∈ results, m.isCaught = true) ∧
    ((t.assess role results []).1 = .continue →
      (t.assess role results []).2.Counts (history ++ results)
        (if noContact results then alone + 1 else 0)) := by
  obtain ⟨bails, goesOn⟩ := counts.countStalls notBoot results
  rw [← bails]
  unfold AttemptTracker.assess
  dsimp only
  by_cases fatal : results.any (·.hasError .fatal) = true
  · obtain ⟨m, mem, error⟩ := any_eq_true.mp fatal
    have notAll : ¬ ∀ m ∈ results, m.isCaught = true := fun caught => by
      simp [(m.isCaught_iff.mp (caught m mem)).1] at error
    simp [fatal, notAll]
  have clean := clean_iff fatal
  rw [if_neg fatal, if_neg (not_not.mpr rfl)]
  by_cases caught : ∀ m ∈ results, m.isCaught = true
  · have down := clean.mpr caught
    simp only [Bool.and_eq_true, Bool.not_eq_true'] at down
    have all := iff_true_intro caught
    simp [-not_forall, noContact, down, all]
  rw [if_neg fun h => caught (clean.mp h)]
  cases bailed : (AttemptTracker.countStalls role results t).2 with
  | true => simp [fatal, caught]
  | false =>
    have next := goesOn bailed
    rw [← noContact]
    cases noContact results with
    | true =>
      by_cases last : 4 ≤ alone + 1
      · simp [last, next.unreachable, maxS3UnreachableRounds, fatal, caught]
      · have := next.unreachable
        simp [last, this, maxS3UnreachableRounds, caught]
        exact ⟨next.stalled, rfl⟩
    | false =>
      simp [caught]
      exact ⟨next.stalled, rfl⟩

/-- The tracker behind attempts that were all decided Continue. -/
def continues (t : AttemptTracker) :
    List (CatchupRole × List CatchupCompletionMsg) → Option AttemptTracker
  | [] => some t
  | (role, results) :: rest =>
    match t.assess role results [] with
    | (.continue, t') => t'.continues rest
    | _ => none

theorem Counts.continues {before attempts}
    (counts : t.Counts (before.flatMap (·.2)) (before.rtakeWhile fun a => noContact a.2).length)
    (notBoot : ∀ a ∈ attempts, a.1 ≠ .boot) (run : t.continues attempts = some t') :
    t'.Counts ((before ++ attempts).flatMap (·.2))
      ((before ++ attempts).rtakeWhile fun a => noContact a.2).length := by
  induction attempts generalizing t before with
  | nil =>
    cases run
    rwa [append_nil]
  | cons a attempts ih =>
    obtain ⟨role, results⟩ := a
    obtain ⟨notBoot, rest⟩ := forall_mem_cons.mp notBoot
    rw [AttemptTracker.continues] at run
    split at run
    next next decided =>
      have counted := (counts.assess notBoot results).2.2.2 (by rw [decided])
      rw [decided] at counted
      rw [append_cons]
      refine ih ?_ rest run
      rw [flatMap_append, flatMap_singleton, rtakeWhile_concat]
      simpa [apply_ite List.length] using counted
    next => cases run

/-- **Attempts are bounded per shard, and shards do not mask each other.** After any attempts that
were decided Continue, an attempt ends in StallBail exactly when it has no fatal error, is not all
Caught and some shard reports its fourth zero-progress Retry; in UnreachableBail exactly when it has
no fatal error and no such shard, and it and the three before it each had a retriable error and no
Retry; and in Caught exactly when every result is Caught. -/
theorem decisions_by_history {attempts : List (CatchupRole × List CatchupCompletionMsg)}
    (run : new.continues attempts = some t) (notBoot : ∀ a ∈ attempts, a.1 ≠ .boot)
    (notBoot' : role ≠ .boot) (results : List CatchupCompletionMsg) :
    ((t.assess role results []).1 = .stallBail ↔ results.any (·.hasError .fatal) = false ∧
      ¬ (∀ m ∈ results, m.isCaught = true) ∧ FourthStall (attempts.flatMap (·.2)) results) ∧
    ((t.assess role results []).1 = .unreachableBail ↔ results.any (·.hasError .fatal) = false ∧
      ¬ FourthStall (attempts.flatMap (·.2)) results ∧
      4 ≤ ((attempts ++ [(role, results)]).rtakeWhile fun a => noContact a.2).length) ∧
    ((t.assess role results []).1 = .caught ↔ ∀ m ∈ results, m.isCaught = true) := by
  have start : new.Counts [] 0 := ⟨fun _ => ⟨rfl, Nat.zero_lt_succ _⟩, rfl⟩
  have counts := @Counts.continues _ _ [] _ start notBoot run
  obtain ⟨stall, unreachable, caught, -⟩ := counts.assess notBoot' results
  refine ⟨stall, unreachable.trans ?_, caught⟩
  rw [rtakeWhile_concat]
  cases noContact results <;> simp

/-- The fourth stall of shard 1, with errors and the progress of shard 0 in between. -/
theorem decisions_by_history_fourth :
    let moved : CatchupCompletionMsg := ⟨0, 1, .ok ⟨1, 0, 1, .retry, false⟩⟩
    let stall : CatchupCompletionMsg := ⟨1, 1, .ok ⟨0, 0, 1, .retry, false⟩⟩
    let attempts : List (CatchupRole × List CatchupCompletionMsg) :=
      [(.following, [moved, stall]), (.following, [moved, ⟨1, 1, .error .retriable⟩]),
        (.promoting, [moved, stall]), (.following, [moved, stall])]
    ∃ t, new.continues attempts = some t ∧ (t.assess .following [moved, stall] []).1 = .stallBail ∧
      FourthStall (attempts.flatMap (·.2)) [moved, stall] :=
  have following : CatchupRole.following ≠ .boot := by decide
  ⟨_, rfl, rfl, ((decisions_by_history rfl (by decide) following _).1.mp rfl).2.2⟩

/-- After three attempts without contact, a fatal error of shard 1 beside a retriable one of shard 0
shuts down. -/
theorem fatal_beside_fourth_unreachable :
    let error (shard : ℕ) (e : CatchupErrorClass) : CatchupCompletionMsg := ⟨shard, 1, .error e⟩
    let lost := [error 0 .retriable, error 1 .retriable]
    let fatal := [error 0 .retriable, error 1 .fatal]
    ∃ t, new.continues (List.replicate 3 (.following, lost)) = some t ∧
      noContact lost = true ∧ noContact fatal = true ∧
      (t.assess .following fatal []).1 = .shutdown :=
  ⟨_, rfl, rfl, rfl, rfl⟩

end AttemptTracker

end Celeriant
