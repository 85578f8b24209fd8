import Celeriant.Replication.ApplyBatch
import Mathlib.Algebra.Ring.Nat

/-!
# Catching up from S3

A node that is behind reads the peer's fallback files: `catchup_from_s3` lists them, downloads those
that cover the next entry, applies the best one, and lists again, until a round makes no progress.
Then `no_progress_verdict` decides from the round's listing whether the node is caught up, must wait
for the listing to settle, or must come back later. Files that were applied *or given up* are in one
set of processed paths, and the verdict looks at the unprocessed ones only.

An invocation is a run of three kinds of steps: the listing that opens a round, one pass of the
inner loop, and the end of the round. What S3 and the disk answer is an argument of the step: the
listings, the downloads (a path may hold other bytes at another time), the outcome of truncations
and fsyncs, and the answer of the search for a common ancestor. `order` is the order in which the
covering candidates of a pass are visited.

## Main definitions

* `noProgressVerdict`, `CatchupConfig.candidates`, `drainSettleBarrier`
* `readCovering`, `dedupe`, `pickBest`: the choice of the batch to apply
* `S3Catchup`, `S3Catchup.step`: an invocation of `catchup_from_s3`
-/

namespace Celeriant

open HashChain

/-- What a catchup reports. -/
inductive CatchupCompletion
  | caught
  | retry
  deriving DecidableEq, Repr

/-- Who catches up. -/
inductive CatchupRole
  | promoting
  | following
  | boot
  deriving DecidableEq, Repr

/-- What to do after a round without progress. -/
inductive NoProgressVerdict
  | caughtNow
  | drainThenCaught
  | awaitMore
  deriving DecidableEq, Repr

/-- What a round without progress means. -/
def noProgressVerdict (anyPeerCandidatesVisible unprocessedAtOrAhead : Bool) (role : CatchupRole)
    (nextBeyondObservedLeader : Bool) : NoProgressVerdict :=
  if unprocessedAtOrAhead then .awaitMore
  else if role ≠ .promoting ∧ ¬ nextBeyondObservedLeader then .awaitMore
  else if ¬ anyPeerCandidatesVisible then .caughtNow
  else
    match role with
    | .promoting => .drainThenCaught
    | .following | .boot => .caughtNow

def drainMaxRounds : ℕ := 2

def promotingMaxDrainContinues : ℕ := 2

def maxConsumeRounds : ℕ := 8

def liveTailEpsilonEntries : ℕ := 5000

/-! ## Files -/

/-- What the name of a fallback file says. -/
structure FallbackName where
  shardId : ℕ
  startWalSeq : ℕ
  endWalSeq : ℕ
  nodeId : ℕ
  deriving DecidableEq, Repr

/-- A listed object. -/
structure S3ObjectRef (P : Type*) where
  path : P
  size : ℕ
  deriving DecidableEq, Repr

/-- A listed file with the range of its name. -/
structure CatchupCandidate (P : Type*) where
  path : P
  size : ℕ
  startWalSeq : ℕ
  endWalSeq : ℕ
  deriving DecidableEq, Repr

/-- The content of a file. -/
structure FallbackBatch (H B D : Type*) where
  leaseEpoch : ℕ
  uploadSequence : ℕ
  items : List (ReplicationBatchItem H B D)
  deriving DecidableEq, Repr

namespace FallbackBatch

variable {H B D : Type*} (b : FallbackBatch H B D)

/-- Every adjacent pair of items differs by exactly one in `wal_seq`. -/
def isBatchContiguous : Bool := (firstGap (E := Unit) 0 b.items).isNone

/-- All items are of the file's epoch. -/
def isBatchLeaseConsistent : Bool :=
  b.items.all fun item => item.metablock.content.leaseEpoch = b.leaseEpoch

/-- `(lease_epoch, upload_sequence)` in lexicographic order. -/
def keyLt (c : FallbackBatch H B D) : Bool :=
  b.leaseEpoch < c.leaseEpoch ||
    (b.leaseEpoch = c.leaseEpoch && b.uploadSequence < c.uploadSequence)

end FallbackBatch

/-- The answer to a download: an error, or bytes and the batch they decode to, if any. -/
inductive Download (H B D : Type*)
  | failed
  | data (bytes : ℕ) (batch : Option (FallbackBatch H B D))

/-- The errors that end a catchup. -/
inductive S3CatchupError (H E F : Type*)
  | s3ListFailed
  | s3GetFailed
  | applyFailed (error : ApplyBatchError H E)
  | fsyncFailed (error : F)
  | truncationFailed (error : F)
  deriving DecidableEq, Repr

/-- What an invocation is given. -/
structure CatchupConfig (H B D X E P : Type*) where
  hash : Metablock H B → H
  serialise : ℕ → D → Except E (Option X)
  parseFallbackPath : P → Option FallbackName
  nodeId : ℕ
  peerNodeId : Option ℕ
  maxCatchupGapBytes : Option ℕ
  role : CatchupRole
  catchupTargetWalSeq : ℕ

namespace CatchupConfig

variable {H B D X E P : Type*} (cfg : CatchupConfig H B D X E P)

/-- Batches of this node and of unknown nodes are not read. -/
def isPeer (nodeId : ℕ) : Bool :=
  nodeId ≠ cfg.nodeId && cfg.peerNodeId.all (· = nodeId)

/-- The candidate behind a listed object. -/
def candidate (obj : S3ObjectRef P) : Option (CatchupCandidate P) :=
  match cfg.parseFallbackPath obj.path with
  | none => none
  | some name =>
    if cfg.isPeer name.nodeId then some ⟨obj.path, obj.size, name.startWalSeq, name.endWalSeq⟩
    else none

/-- The peer files of a listing. -/
def candidates (objects : List (S3ObjectRef P)) : List (CatchupCandidate P) :=
  objects.filterMap cfg.candidate

variable [DecidableEq P] {F : Type*}

/-- Lists again up to `rounds` times, from the given listing on. Answers whether a peer file showed
up that is neither processed nor seen, and the last listing. -/
def drainSettleBarrier (relist : ℕ → Option (List (S3ObjectRef P)))
    (processedPaths seenPaths : List P) : ℕ → ℕ → List (CatchupCandidate P) →
      Except (S3CatchupError H E F) (Bool × List (CatchupCandidate P))
  | 0, _, last => .ok (false, last)
  | rounds + 1, round, _ =>
    match relist round with
    | none => .error .s3ListFailed
    | some objects =>
      let listing := cfg.candidates objects
      if listing.any fun c => c.path ∉ processedPaths ∧ c.path ∉ seenPaths then .ok (true, listing)
      else drainSettleBarrier relist processedPaths seenPaths rounds (round + 1) listing

end CatchupConfig

/-! ## Choosing a batch -/

section Choice

variable {H B D P : Type*}

/-- What the downloads of a pass gave: the candidates that were given up as corrupt, as having a gap
or as mixing lease epochs, and the batches of the others. -/
structure ReadCovering (H B D P : Type*) where
  bytes : ℕ
  unreadable : List (CatchupCandidate P)
  downloaded : List (FallbackBatch H B D × CatchupCandidate P)

/-- Downloads the candidates in order; `none` when a download fails. -/
def readCovering (download : P → Download H B D) :
    List (CatchupCandidate P) → Option (ReadCovering H B D P)
  | [] => some ⟨0, [], []⟩
  | c :: cs =>
    match download c.path with
    | .failed => none
    | .data bytes batch =>
      match readCovering download cs with
      | none => none
      | some read =>
        match batch.filter fun b => b.isBatchContiguous && b.isBatchLeaseConsistent with
        | none => some ⟨bytes + read.bytes, c :: read.unreadable, read.downloaded⟩
        | some batch => some ⟨bytes + read.bytes, read.unreadable, (batch, c) :: read.downloaded⟩

/-- The winner of each start, and the losers. -/
structure Deduped (H B D P : Type*) where
  byStart : List (FallbackBatch H B D × CatchupCandidate P)
  losers : List (CatchupCandidate P)

/-- The later of two batches with one start wins when its key is greater. -/
def Deduped.insert (d : Deduped H B D P) (x : FallbackBatch H B D × CatchupCandidate P) :
    Deduped H B D P :=
  match d.byStart.find? fun w => w.2.startWalSeq = x.2.startWalSeq with
  | none => { d with byStart := d.byStart ++ [x] }
  | some prev =>
    if prev.1.keyLt x.1 then
      { byStart := d.byStart.map fun w => if w.2.startWalSeq = x.2.startWalSeq then x else w
        losers := d.losers ++ [prev.2] }
    else { d with losers := d.losers ++ [x.2] }

def dedupe (downloaded : List (FallbackBatch H B D × CatchupCandidate P)) : Deduped H B D P :=
  downloaded.foldl Deduped.insert ⟨[], []⟩

/-- A batch replaces the best so far unless its key is smaller. -/
def better (best : Option (FallbackBatch H B D × CatchupCandidate P))
    (x : FallbackBatch H B D × CatchupCandidate P) :
    Option (FallbackBatch H B D × CatchupCandidate P) :=
  match best with
  | none => some x
  | some b => if x.1.keyLt b.1 then some b else some x

/-- The last of the batches with the greatest key. -/
def pickBest (batches : List (FallbackBatch H B D × CatchupCandidate P)) :
    Option (FallbackBatch H B D × CatchupCandidate P) :=
  batches.foldl better none

end Choice

/-- Truncation at a divergent entry, back to the common ancestor; the queues are emptied. -/
def ShardLog.truncateWal {H B D X : Type*} (s : ShardLog H B D X) (ancestorHash : H)
    (divergentWalSeq : ℕ) : ShardLog H B D X where
  log :=
    { entryAt := fun n => if n < divergentWalSeq then s.log.entryAt n else none
      walSeq := divergentWalSeq - 1
      tipHash := ancestorHash }
  pendingAppendQueue := []

/-! ## An invocation -/

/-- The counters of a catchup and its end. -/
structure S3CatchupResult where
  batchesApplied : ℕ
  bytesDownloaded : ℕ
  rounds : ℕ
  completion : CatchupCompletion
  stalledAwaitingS3 : Bool
  deriving DecidableEq, Repr

/-- The ways out of the loop. -/
inductive CatchupExit (H E F : Type*)
  | roundCap
  | liveTailYield
  | largeGap
  | caughtNow
  | settled
  | drainCap
  | stalled
  | failed (error : S3CatchupError H E F)
  deriving DecidableEq, Repr

def CatchupExit.completion {H E F : Type*} : CatchupExit H E F → CatchupCompletion
  | liveTailYield | caughtNow | settled => .caught
  | roundCap | largeGap | drainCap | stalled | failed _ => .retry

def CatchupExit.isStalled {H E F : Type*} : CatchupExit H E F → Bool
  | stalled => true
  | _ => false

/-- Where the invocation is. -/
inductive CatchupPhase (H E F : Type*)
  /-- the top of the outer loop -/
  | listing
  /-- the top of the inner loop -/
  | consuming
  /-- behind the inner loop -/
  | roundEnd
  | finished (exit : CatchupExit H E F)
  deriving DecidableEq, Repr

/-- The state of an invocation. -/
structure S3Catchup (H B D X E F P : Type*) where
  shardLog : ShardLog H B D X
  nextWalSeq : ℕ
  processedPaths : List P
  /-- the peer files of the round's listing -/
  entries : List (CatchupCandidate P)
  remainingBytes : ℕ
  /-- `batches_applied` at the start of the round -/
  innerApplied : ℕ
  truncated : Bool
  drainContinues : ℕ
  liveTailYieldedWalSeq : ℕ
  result : S3CatchupResult
  phase : CatchupPhase H E F
  /-- history: the peer files of the last listing, those of the settle barrier included -/
  lastListing : List (CatchupCandidate P)

namespace S3Catchup

variable {H B D X E F P : Type*} [DecidableEq H] [DecidableEq P]

/-- The start of an invocation. -/
def start (shardLog : ShardLog H B D X) (liveTailYieldedWalSeq : ℕ) :
    S3Catchup H B D X E F P where
  shardLog := shardLog
  nextWalSeq := shardLog.log.walSeq + 1
  processedPaths := []
  entries := []
  remainingBytes := 0
  innerApplied := 0
  truncated := false
  drainContinues := 0
  liveTailYieldedWalSeq := liveTailYieldedWalSeq
  result := ⟨0, 0, 0, .retry, false⟩
  phase := .listing
  lastListing := []

variable (cfg : CatchupConfig H B D X E P) (s : S3Catchup H B D X E F P)

def finish (exit : CatchupExit H E F) : S3Catchup H B D X E F P :=
  { s with
    result :=
      { s.result with
        completion := exit.completion
        stalledAwaitingS3 := exit.isStalled }
    phase := .finished exit }

/-- The unprocessed candidates that could supply the next entry. -/
def covering : List (CatchupCandidate P) :=
  s.entries.filter fun c =>
    c.startWalSeq ≤ s.nextWalSeq ∧ s.nextWalSeq ≤ c.endWalSeq ∧ c.path ∉ s.processedPaths

/-- The greatest end of an unprocessed candidate. -/
def maxVisibleEnd : ℕ :=
  ((s.entries.filter fun c => c.path ∉ s.processedPaths).map (·.endWalSeq)).foldl max 0

/-- A follower at or past the target leaves a short tail to TCP, once per position. -/
def yieldsToLiveTail : Bool :=
  cfg.role = .following && cfg.catchupTargetWalSeq < s.nextWalSeq && !s.covering.isEmpty &&
    s.maxVisibleEnd - s.nextWalSeq < liveTailEpsilonEntries &&
    s.liveTailYieldedWalSeq ≠ s.nextWalSeq

/-- The round's listing is taken over. -/
def openRound (listing : List (CatchupCandidate P)) : S3Catchup H B D X E F P :=
  { s with
    entries := listing
    lastListing := listing
    remainingBytes :=
      ((listing.filter fun c => s.nextWalSeq ≤ c.endWalSeq).map (·.size)).sum
    innerApplied := s.result.batchesApplied
    truncated := false
    phase := .consuming }

/-- The head of a round: the cap, the listing and the live-tail gate. -/
def list (objects : Option (List (S3ObjectRef P))) : S3Catchup H B D X E F P :=
  if maxConsumeRounds ≤ s.result.rounds then s.finish .roundCap
  else
    let s := { s with result := { s.result with rounds := s.result.rounds + 1 } }
    match objects with
    | none => s.finish (.failed .s3ListFailed)
    | some objects =>
      let s := s.openRound (cfg.candidates objects)
      if s.yieldsToLiveTail cfg then
        finish { s with liveTailYieldedWalSeq := s.nextWalSeq } .liveTailYield
      else s

/-- The best batch of a pass does not continue the local tip: back to the common ancestor, or the
candidate is given up. -/
def handleDivergence (candidate : CatchupCandidate P) (divergence : Option (H × ℕ))
    (truncation : Option F) : S3Catchup H B D X E F P :=
  match divergence with
  | none =>
    { s with processedPaths := s.processedPaths ++ [candidate.path], phase := .roundEnd }
  | some (ancestorHash, divergentWalSeq) =>
    match truncation with
    | some e => s.finish (.failed (.truncationFailed e))
    | none =>
      let shardLog := s.shardLog.truncateWal ancestorHash divergentWalSeq
      { s with
        shardLog := shardLog
        truncated := true
        nextWalSeq := shardLog.log.walSeq + 1
        phase := .roundEnd }

/-- The best batch of a pass continues the local tip: apply and fsync. -/
def applyBatch (items : List (ReplicationBatchItem H B D)) (candidate : CatchupCandidate P)
    (fsync : Option F) : S3Catchup H B D X E F P :=
  match applyExternalBatch cfg.serialise s.shardLog.log s.shardLog.pendingAppendQueue items with
  | .error e => s.finish (.failed (.applyFailed e))
  | .ok queue =>
    match fsync with
    | some e => s.finish (.failed (.fsyncFailed e))
    | none =>
      { s with
        shardLog := ShardLog.sync cfg.hash { s.shardLog with pendingAppendQueue := queue }
        processedPaths := s.processedPaths ++ [candidate.path]
        result := { s.result with batchesApplied := s.result.batchesApplied + 1 }
        nextWalSeq := candidate.endWalSeq + 1 }

/-- The rest of a pass, once a batch is chosen. -/
def consumeBest (batch : FallbackBatch H B D) (candidate : CatchupCandidate P)
    (divergence : Option (H × ℕ)) (truncation fsync : Option F) : S3Catchup H B D X E F P :=
  match newItems s.shardLog.log.walSeq batch.items with
  | [] =>
    if candidate.endWalSeq + 1 ≤ s.nextWalSeq then { s with phase := .roundEnd }
    else { s with nextWalSeq := candidate.endWalSeq + 1 }
  | first :: rest =>
    if first.metablock.previousTipHash ≠ s.shardLog.log.tipHash then
      s.handleDivergence candidate divergence truncation
    else s.applyBatch cfg (first :: rest) candidate fsync

/-- Files that lost or could not be read are processed. -/
def giveUp (bytes : ℕ) (given : List (CatchupCandidate P)) : S3Catchup H B D X E F P :=
  { s with
    processedPaths := s.processedPaths ++ given.map (·.path)
    result := { s.result with bytesDownloaded := s.result.bytesDownloaded + bytes } }

/-- One pass of the inner loop. -/
def consume (order : List (CatchupCandidate P)) (download : P → Download H B D)
    (divergence : Option (H × ℕ)) (truncation fsync : Option F) : S3Catchup H B D X E F P :=
  if s.covering.isEmpty then { s with phase := .roundEnd }
  else
    match readCovering download order with
    | none => s.finish (.failed .s3GetFailed)
    | some read =>
      let deduped := dedupe read.downloaded
      let s := s.giveUp read.bytes (read.unreadable ++ deduped.losers)
      match pickBest deduped.byStart with
      | none => { s with phase := .roundEnd }
      | some (batch, candidate) =>
        s.consumeBest cfg batch candidate divergence truncation fsync

/-- A late file was found: another round, unless a promotion has spent its share. -/
def drainContinue : S3Catchup H B D X E F P :=
  let s := { s with drainContinues := s.drainContinues + 1 }
  if cfg.role = .promoting ∧ promotingMaxDrainContinues ≤ s.drainContinues then s.finish .drainCap
  else { s with phase := .listing }

/-- The settle barrier; `exit` is taken when no late file shows up. -/
def drain (relist : ℕ → Option (List (S3ObjectRef P))) (exit : CatchupExit H E F) :
    S3Catchup H B D X E F P :=
  match cfg.drainSettleBarrier relist s.processedPaths (s.entries.map (·.path)) drainMaxRounds 0
      s.entries with
  | .error e => s.finish (.failed e)
  | .ok (late, listing) =>
    let s := { s with lastListing := listing }
    if late then s.drainContinue cfg else s.finish exit

/-- Whether an unprocessed candidate ends at or ahead of the next entry. -/
def unprocessedAtOrAhead : Bool :=
  s.entries.any fun c => s.nextWalSeq ≤ c.endWalSeq ∧ c.path ∉ s.processedPaths

/-- The end of a round. -/
def endRound (relist : ℕ → Option (List (S3ObjectRef P))) : S3Catchup H B D X E F P :=
  if s.truncated ∨ s.result.batchesApplied ≠ s.innerApplied then { s with phase := .listing }
  else if cfg.maxCatchupGapBytes.any (· ≤ s.remainingBytes) then s.finish .largeGap
  else
    match noProgressVerdict (!s.entries.isEmpty) s.unprocessedAtOrAhead cfg.role
        (cfg.catchupTargetWalSeq < s.nextWalSeq) with
    | .caughtNow => s.finish .caughtNow
    | .drainThenCaught => s.drain cfg relist .settled
    | .awaitMore => s.drain cfg relist .stalled

/-- The steps of an invocation, with what S3 and the disk answer. -/
inductive Action (H B D F P : Type*)
  | list (objects : Option (List (S3ObjectRef P)))
  | consume (order : List (CatchupCandidate P)) (download : P → Download H B D)
      (divergence : Option (H × ℕ)) (truncation fsync : Option F)
  | endRound (relist : ℕ → Option (List (S3ObjectRef P)))

/-- A listing, a pass, or the end of a round. -/
def step : Action H B D F P → Option (S3Catchup H B D X E F P)
  | .list objects =>
    match s.phase with
    | .listing => some (s.list cfg objects)
    | _ => none
  | .consume order download divergence truncation fsync =>
    match s.phase with
    | .consuming =>
      if order.isPerm s.covering then
        some (s.consume cfg order download divergence truncation fsync)
      else none
    | _ => none
  | .endRound relist =>
    match s.phase with
    | .roundEnd => some (s.endRound cfg relist)
    | _ => none

end S3Catchup

end Celeriant
