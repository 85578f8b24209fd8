import Celeriant.Replication.OverlappingBatches
import Celeriant.Shard.Machine

/-!
# The parked queue of a follower

A follower fsyncs a batch and parks its read-side commit until the leader's confirmed index covers
it. `handle_replication_batch` drains the parked queue before its fsync and again after it; a
rotation in between opens a segment without a read cursor, and may evict older segments from the
cache of open files. The queue is meant to hold exactly the durable entries above the committed read
position. It does not when a confirmed batch lies in a segment that is no longer cached:
`commit_pcd` then moves no cursor, and the batch is popped all the same
(`evicted_segment_loses_parked_entry`).

One call of the handler is one step. The guards, the apply and the promotion floor are those of
`FollowerShard.startBatch`, the drain is that of `Shard.drainParkedCommits`; the outcome of the
fsync, the rotation and what the cache evicts are inputs.

## Main results

* `ParkingFollower.shard_handleCall`: log and floor are those of `FollowerShard.handleBatchAt`
* `follower_never_ahead`
-/

namespace Celeriant

open HashChain Transition Function List

/-! ## Read cursors -/

/-- The newest read cursor over the segments up to a log id, with its segment. -/
def newestCursor (read : ℕ → Option ℕ) : ℕ → Option (ℕ × ℕ)
  | 0 => none
  | logId + 1 =>
    match read (logId + 1) with
    | some walSeq => some (logId + 1, walSeq)
    | none => newestCursor read logId

/-- The read position of the segments up to a log id. -/
def readPosition (read : ℕ → Option ℕ) (logId : ℕ) : ℕ :=
  ((newestCursor read logId).map Prod.snd).getD 0

section Cursors

variable {read : ℕ → Option ℕ} {n g : ℕ}

theorem readPosition_of_newestCursor {p} (h : newestCursor read n = some p) :
    readPosition read n = p.2 := by
  rw [readPosition, h]
  rfl

theorem newestCursor_congr {read'} (same : ∀ g ≤ n, read' g = read g) :
    newestCursor read' n = newestCursor read n := by
  induction n with
  | zero => rfl
  | succ n ih =>
    rw [newestCursor, newestCursor, same (n + 1) le_rfl,
      ih fun g below => same g (Nat.le_succ_of_le below)]

theorem logId_le_of_newestCursor {p} (h : newestCursor read n = some p) : p.1 ≤ n := by
  induction n with
  | zero => cases h
  | succ n ih =>
    rw [newestCursor] at h
    split at h
    · cases h
      exact le_rfl
    · exact Nat.le_succ_of_le (ih h)

/-- A cursor that is set at or above the newest one is the newest. -/
theorem newestCursor_update (v : ℕ) (positive : 0 < g) (below : g ≤ n)
    (newest : ∀ p, newestCursor read n = some p → p.1 ≤ g) :
    newestCursor (update read g (some v)) n = some (g, v) := by
  induction n with
  | zero => omega
  | succ n ih =>
    rw [newestCursor]
    by_cases top : g = n + 1
    · subst top
      rw [update_self]
    · rw [update_of_ne (Ne.symm top)]
      cases cursor : read (n + 1) with
      | some r =>
        have := newest (n + 1, r) (by rw [newestCursor, cursor])
        omega
      | none =>
        refine ih (by omega) fun p hp => newest p ?_
        rw [newestCursor, cursor]
        exact hp

/-- Another segment may fall back to what its header has. -/
theorem newestCursor_fallback {header} (other : ∀ p, newestCursor read n = some p → p.1 ≠ g)
    (lags : read g = none → header = none) :
    newestCursor (update read g header) n = newestCursor read n := by
  induction n with
  | zero => rfl
  | succ n ih =>
    rw [newestCursor, newestCursor]
    by_cases top : n + 1 = g
    · subst top
      cases cursor : read (n + 1) with
      | some r => exact absurd rfl (other (n + 1, r) (by rw [newestCursor, cursor]))
      | none =>
        rw [update_self, lags cursor]
        refine newestCursor_congr fun h below => ?_
        exact update_of_ne (by omega) _ _
    · rw [update_of_ne top]
      cases cursor : read (n + 1) with
      | some r => rfl
      | none =>
        refine ih fun p hp => other p ?_
        rw [newestCursor, cursor]
        exact hp

end Cursors

/-- A durable batch whose commit is parked: its segment, the numbers of its metablocks and the write
cursor it ended with. -/
structure ParkedBatch where
  logId : ℕ
  numbers : List ℕ
  tip : ℕ
  deriving DecidableEq, Repr

/-- A follower with its cursors and parked queue. -/
structure ParkingFollower (H B D X : Type*) where
  shard : FollowerShard H B D X
  activeLogId : ℕ
  /-- the read cursor of a segment: in memory when it is open, of its header otherwise -/
  read : ℕ → Option ℕ
  headerRead : ℕ → Option ℕ
  /-- the sealed segments in the cache of open files -/
  cached : ℕ → Bool
  parkedCommits : List ParkedBatch

/-- How the fsync of a call ends. -/
inductive FsyncOutcome
  /-- the gate was not free in time: nothing is captured -/
  | gateTimeout
  /-- the cycle ran; a rotation comes with the segments it evicts -/
  | completed (rotation : Option (List ℕ)) (ok : Bool)
  deriving DecidableEq, Repr

def FsyncOutcome.fails : FsyncOutcome → Bool
  | gateTimeout => true
  | completed _ ok => !ok

/-- What the sidecar sweep does to the cache of open files. -/
inductive CacheMove
  | load (logId : ℕ)
  | evict (logId : ℕ)
  deriving DecidableEq, Repr

/-- One call of the handler, with what happens to it. -/
structure HandlerCall (H B D : Type*) where
  clock : Option ℕ
  request : ReplicationBatchRequest H B D
  fsync : FsyncOutcome
  /-- the header fsync of an advanced read cursor succeeds -/
  persisted : Bool
  sweep : List CacheMove

namespace ParkingFollower

variable {H B D X E : Type*} (hash : Metablock H B → H) (serialise : ℕ → D → Except E (Option X))
  (s : ParkingFollower H B D X)

/-- The durable write position. -/
def write : ℕ := s.shard.shardLog.log.walSeq

/-- The committed read position: the newest read cursor over all segments. -/
def committedRead : ℕ := readPosition s.read s.activeLogId

/-- The read position of the active segment, as the drain reads it. -/
def activeRead : ℕ := (s.read s.activeLogId).getD 0

/-- The cursor half of `commit_pcd`: a segment that is not cached keeps its cursor. -/
def commitPcd (read : ℕ → Option ℕ) (batch : ParkedBatch) : ℕ → Option ℕ :=
  if batch.logId = s.activeLogId ∨ s.cached batch.logId = true then
    update read batch.logId (some batch.tip)
  else read

/-- The loop of `drain_parked_commits_up_to`, with the commits of what it pops. -/
def drainUpTo (target : ℕ) :
    List ParkedBatch → (ℕ → Option ℕ) → List ParkedBatch × (ℕ → Option ℕ)
  | [], read => ([], read)
  | batch :: parked, read =>
    if batch.tip ≤ target then drainUpTo target parked (s.commitPcd read batch)
    else (batch :: parked, read)

/-- `drain_parked_commits`. -/
def drainParkedCommits (leaderConfirmedWalSeq : ℕ) : ParkingFollower H B D X :=
  let target := min leaderConfirmedWalSeq s.write
  if target ≤ s.activeRead then s
  else
    let (parked, read) := s.drainUpTo target s.parkedCommits s.read
    let drained := { s with parkedCommits := parked, read := read }
    -- the cold prefix after a restart
    if drained.activeRead < target ∧ target = s.write ∧ parked = [] then
      { drained with read := update read s.activeLogId (some s.write) }
    else drained

/-- The active segment is not in the cache of sealed ones. -/
def evict (logId : ℕ) : ParkingFollower H B D X :=
  if logId = s.activeLogId then s
  else
    { s with
      cached := update s.cached logId false
      read := update s.read logId (s.headerRead logId) }

def moveCache : CacheMove → ParkingFollower H B D X
  | .load logId => { s with cached := update s.cached logId true }
  | .evict logId => s.evict logId

/-- The new segment has no read cursor. -/
def rotate (evicted : List ℕ) : ParkingFollower H B D X :=
  evicted.foldl evict
    { s with
      activeLogId := s.activeLogId + 1
      read := update s.read (s.activeLogId + 1) none
      headerRead := update s.headerRead (s.activeLogId + 1) none
      cached := update s.cached s.activeLogId true }

/-- `sync` and `commit_sync` under `DeferToLeaderConfirmed`; the header carries the read cursor. -/
def commitSync : ParkingFollower H B D X :=
  let count := s.shard.shardLog.pendingAppendQueue.length
  { s with
    shard := { s.shard with shardLog := s.shard.shardLog.sync hash }
    headerRead := update s.headerRead s.activeLogId (s.read s.activeLogId)
    parkedCommits := s.parkedCommits ++
      [⟨s.activeLogId, List.range' (s.write + 1) count, s.write + count⟩] }

/-- A failed cycle: what was captured is dropped. -/
def rollbackSync : ParkingFollower H B D X :=
  { s with shard := { s.shard with shardLog := s.shard.shardLog.rollback } }

/-- `sync_durable` of a follower, and whether it succeeds. -/
def syncDurable : FsyncOutcome → Bool × ParkingFollower H B D X
  | .gateTimeout => (false, s)
  | .completed rotation ok =>
    if s.shard.shardLog.pendingAppendQueue.isEmpty then (true, s)
    else
      let rotated := (rotation.map s.rotate).getD s
      if ok then (true, rotated.commitSync hash) else (false, rotated.rollbackSync)

/-- The header of the active segment is written, or not. -/
def persistReadCursor (persisted : Bool) : ParkingFollower H B D X :=
  if persisted then
    { s with headerRead := update s.headerRead s.activeLogId (s.read s.activeLogId) }
  else s

/-- What follows the last drain of a call. -/
def finish (call : HandlerCall H B D) : ParkingFollower H B D X :=
  call.sweep.foldl moveCache (s.persistReadCursor call.persisted)

/-- The handler from where its start has ended, and whether it answers Success. -/
def resume (call : HandlerCall H B D) :
    Option (Except (FollowerReplicationWriteError E Unit) (ReplicationResult H B)) ×
      FollowerShard H B D X → Bool × ParkingFollower H B D X
  -- a commit notify
  | (some (.ok (.success _)), shard) =>
    (true, ({ s with shard }.drainParkedCommits call.request.leaderConfirmedWalSeq).finish call)
  | (some _, shard) => (false, { s with shard })
  | (none, shard) =>
    let drained := { s with shard }.drainParkedCommits call.request.leaderConfirmedWalSeq
    let (synced, s) := drained.syncDurable hash call.fsync
    if synced then
      (true, (s.drainParkedCommits call.request.leaderConfirmedWalSeq).finish call)
    else (false, s)

/-- `handle_replication_batch`. -/
def handleCall [DecidableEq H] (call : HandlerCall H B D) : Bool × ParkingFollower H B D X :=
  match call.clock with
  | none => (false, s)
  | some now => s.resume hash call (s.shard.startBatch serialise now call.request)

/-- The queue holds exactly the durable entries above the committed read position, in order: batch
by batch, in log order, none of them in a segment older than that of the newest cursor. -/
structure Lag (activeLogId write : ℕ) (read : ℕ → Option ℕ) (parked : List ParkedBatch) : Prop where
  behind : readPosition read activeLogId ≤ write
  numbers : parked.flatMap (·.numbers) =
    List.range' (readPosition read activeLogId + 1) (write - readPosition read activeLogId)
  tips : ∀ b ∈ parked, b.numbers.getLast? = some b.tip
  order : parked.Pairwise (·.logId ≤ ·.logId)
  placed : ∀ b ∈ parked, 0 < b.logId ∧ b.logId ≤ activeLogId ∧
    ∀ p, newestCursor read activeLogId = some p → p.1 ≤ b.logId

/-- The queue holds the entries above the read position. -/
structure Gap : Prop where
  lag : Lag s.activeLogId s.write s.read s.parkedCommits
  /-- a header has a read cursor only when the segment has one -/
  headers : ∀ g, s.read g = none → s.headerRead g = none
  active : 0 < s.activeLogId

/-- The segments that a call takes out of the cache. -/
def evictions (call : HandlerCall H B D) : List ℕ :=
  (match call.fsync with
    | .completed (some evicted) _ => evicted
    | _ => []) ++
  call.sweep.filterMap fun
    | .evict logId => some logId
    | .load _ => none

/-- Every parked batch that the call confirms is in an open segment; no segment is evicted whose
cursor the call may move or that has the newest one; a call whose fsync fails raises no floor; and
the confirmed index is not the largest `u64`. -/
structure SmoothCall (call : HandlerCall H B D) : Prop where
  opened : ∀ b ∈ s.parkedCommits, b.tip ≤ call.request.leaderConfirmedWalSeq →
    b.logId = s.activeLogId ∨ s.cached b.logId = true
  evicted : ∀ g ∈ evictions call, g ≠ s.activeLogId ∧
    (∀ p, newestCursor s.read s.activeLogId = some p → p.1 ≠ g) ∧
    ∀ b ∈ s.parkedCommits, b.tip ≤ call.request.leaderConfirmedWalSeq → b.logId ≠ g
  floor : call.fsync.fails = true →
    call.request.leaderConfirmedWalSeq + 1 ≤ s.shard.lastReceivedReplicationWalSeq
  small : call.request.leaderConfirmedWalSeq < u64Max

/-- What a call must find and do, when its batch passes the guards. -/
def Smooth (call : HandlerCall H B D) : Prop :=
  ∀ now ∈ call.clock, s.shard.Admits now call.request → s.SmoothCall call

/-! ## A drain -/

section Drain

variable {s} {active w target : ℕ} {read : ℕ → Option ℕ} {b : ParkedBatch}
  {parked : List ParkedBatch}

/-- A first batch of the queue starts right above the read position and ends at its tip. -/
theorem Lag.head (lag : Lag active w read (b :: parked)) :
    readPosition read active < b.tip ∧ b.tip ≤ w ∧
      parked.flatMap (·.numbers) = List.range' (b.tip + 1) (w - b.tip) := by
  have numbers := lag.numbers
  rw [flatMap_cons] at numbers
  set r := readPosition read active
  set k := b.numbers.length with hk
  have length := congrArg List.length numbers
  simp only [length_append, length_range', ← hk] at length
  -- the numbers of the batch are the first of the range
  have cut : List.range' (r + 1) (w - r) =
      List.range' (r + 1) k ++ List.range' (r + 1 + k) (w - r - k) := by
    rw [List.range'_append_1]
    congr 1
    omega
  rw [cut] at numbers
  obtain ⟨first, rest⟩ := append_inj numbers (by simp [← hk])
  have last := lag.tips b mem_cons_self
  have tip : b.tip = r + k ∧ 0 < k := by
    rw [first, List.getLast?_range'] at last
    split at last
    · cases last
    · have := Option.some.inj last
      omega
  obtain ⟨tip, positive⟩ := tip
  refine ⟨by omega, by omega, ?_⟩
  rw [rest, tip]
  congr 1
  · omega
  · omega

/-- The commit of the first batch moves the read position to its tip. -/
theorem Lag.commit (lag : Lag active w read (b :: parked)) :
    newestCursor (update read b.logId (some b.tip)) active = some (b.logId, b.tip) ∧
      Lag active w (update read b.logId (some b.tip)) parked := by
  obtain ⟨positive, below, newest⟩ := lag.placed b mem_cons_self
  have cursor := newestCursor_update b.tip positive below newest
  have position := readPosition_of_newestCursor cursor
  obtain ⟨-, durable, rest⟩ := lag.head
  obtain ⟨later, order⟩ := pairwise_cons.mp lag.order
  refine ⟨cursor, ?_, ?_, ?_, order, ?_⟩
  · rw [position]
    exact durable
  · rw [position]
    exact rest
  · intro b' hb'
    exact lag.tips b' (mem_cons_of_mem _ hb')
  · intro b' hb'
    obtain ⟨positive', below', -⟩ := lag.placed b' (mem_cons_of_mem _ hb')
    refine ⟨positive', below', ?_⟩
    intro p hp
    rw [cursor] at hp
    cases hp
    exact later b' hb'

/-- What a drain of open segments does to cursors and queue. -/
structure Drained (active w target : ℕ) (read read' : ℕ → Option ℕ)
    (parked parked' : List ParkedBatch) : Prop where
  lag : Lag active w read' parked'
  grows : readPosition read active ≤ readPosition read' active
  bounded : readPosition read' active ≤ max (readPosition read active) target
  newest : ∀ p, newestCursor read' active = some p → p.1 = active ∨
    newestCursor read active = some p ∨ ∃ b ∈ parked, b.tip ≤ target ∧ p.1 = b.logId
  cursors : ∀ g, read' g = none → read g = none
  remaining : parked' ⊆ parked

theorem Lag.drained (lag : Lag s.activeLogId w read parked)
    (opened : ∀ b ∈ parked, b.tip ≤ target → b.logId = s.activeLogId ∨ s.cached b.logId = true) :
    Drained s.activeLogId w target read (s.drainUpTo target parked read).2 parked
      (s.drainUpTo target parked read).1 := by
  induction parked generalizing read with
  | nil =>
    exact ⟨lag, le_rfl, Nat.le_max_left _ _, fun p hp => .inr (.inl hp), fun g => id, fun _ => id⟩
  | cons b parked ih =>
    rw [drainUpTo]
    split
    next covered =>
      have committed : s.commitPcd read b = update read b.logId (some b.tip) :=
        if_pos (opened b mem_cons_self covered)
      rw [committed]
      obtain ⟨cursor, rest⟩ := lag.commit
      have position := readPosition_of_newestCursor cursor
      have above := lag.head.1
      have inner := ih rest fun b' hb' => opened b' (mem_cons_of_mem _ hb')
      have grows := inner.grows
      have bounded := inner.bounded
      rw [position] at grows bounded
      refine ⟨inner.lag, by omega, by omega, ?_, ?_, ?_⟩
      · intro p hp
        refine (inner.newest p hp).imp_right fun older => .inr ?_
        rcases older with old | ⟨b', hb', covered', segment⟩
        · rw [cursor] at old
          cases old
          exact ⟨b, mem_cons_self, covered, rfl⟩
        · exact ⟨b', mem_cons_of_mem _ hb', covered', segment⟩
      · intro g none
        have := inner.cursors g none
        by_cases same : g = b.logId
        · rw [same, update_self] at this
          cases this
        · rwa [update_of_ne same] at this
      · exact fun b' hb' => mem_cons_of_mem _ (inner.remaining hb')
    · exact ⟨lag, le_rfl, Nat.le_max_left _ _, fun p hp => .inr (.inl hp), fun g => id, fun _ => id⟩

/-- The queue depends on the newest cursor only. -/
theorem Lag.congr (lag : Lag active w read parked) {active'} {read' : ℕ → Option ℕ}
    (same : newestCursor read' active' = newestCursor read active) (later : active ≤ active') :
    Lag active' w read' parked := by
  obtain ⟨behind, numbers, tips, order, placed⟩ := lag
  have position : readPosition read' active' = readPosition read active := by
    simp only [readPosition, same]
  refine ⟨position ▸ behind, position ▸ numbers, tips, order, fun b hb => ?_⟩
  obtain ⟨positive, below, newest⟩ := placed b hb
  exact ⟨positive, le_trans below later, same ▸ newest⟩

theorem Lag.nil (position : readPosition read active = w) : Lag active w read [] where
  behind := le_of_eq position
  numbers := by
    rw [position, Nat.sub_self]
    rfl
  tips := nofun
  order := .nil
  placed := nofun

/-- An empty queue leaves no gap. -/
theorem Lag.position_of_nil (lag : Lag active w read []) : readPosition read active = w := by
  have numbers := lag.numbers
  have behind := lag.behind
  have length := congrArg List.length numbers
  simp only [flatMap_nil, length_nil, length_range'] at length
  omega

/-- Nothing is parked: the position is the write position already, and the active segment gets
it. -/
theorem Drained.cold {read'} (drained : Drained active w target read read' parked [])
    (positive : 0 < active) :
    Drained active w target read (update read' active (some w)) parked [] := by
  have cursor : newestCursor (update read' active (some w)) active = some (active, w) :=
    newestCursor_update w positive le_rfl fun p hp => logId_le_of_newestCursor hp
  have position := readPosition_of_newestCursor cursor
  have same := position.trans drained.lag.position_of_nil.symm
  refine ⟨.nil position, same ▸ drained.grows, same ▸ drained.bounded, ?_, ?_, drained.remaining⟩
  · intro p hp
    rw [cursor] at hp
    cases hp
    exact .inl rfl
  · intro g none
    rw [update_apply] at none
    split at none
    · cases none
    · exact drained.cursors g none

end Drain

/-! ## Inside a call -/

theorem shard_moveCache (move : CacheMove) : (s.moveCache move).shard = s.shard := by
  cases move with
  | load => rfl
  | evict =>
    rw [moveCache, evict]
    split <;> rfl

theorem shard_moveAll (moves : List CacheMove) : (moves.foldl moveCache s).shard = s.shard := by
  induction moves generalizing s with
  | nil => rfl
  | cons move moves ih => rw [foldl_cons, ih, shard_moveCache]

/-- A rotation evicts as a sweep does. -/
theorem foldl_evict (gs : List ℕ) : gs.foldl evict s = (gs.map .evict).foldl moveCache s := by
  rw [foldl_map]
  rfl

theorem shard_rotation (rotation : Option (List ℕ)) :
    ((rotation.map s.rotate).getD s).shard = s.shard := by
  cases rotation with
  | none => rfl
  | some gs => exact (congrArg shard (foldl_evict _ gs)).trans (shard_moveAll _ _)

theorem shard_drainParkedCommits (c : ℕ) : (s.drainParkedCommits c).shard = s.shard := by
  unfold drainParkedCommits
  dsimp only
  split
  · rfl
  · split <;> rfl

theorem activeLogId_drainParkedCommits (c : ℕ) :
    (s.drainParkedCommits c).activeLogId = s.activeLogId := by
  unfold drainParkedCommits
  dsimp only
  split
  · rfl
  · split <;> rfl

theorem shard_finish (call : HandlerCall H B D) : (s.finish call).shard = s.shard := by
  rw [finish, shard_moveAll, persistReadCursor]
  split <;> rfl

/-- A state inside a call that is to confirm `c` and evicts the given segments: what may still be
committed is open and stays so, and the newest cursor is not evicted. -/
structure Ready (c : ℕ) (evicted : List ℕ) : Prop where
  gap : s.Gap
  safe : ∀ p, newestCursor s.read s.activeLogId = some p → p.1 = s.activeLogId ∨ p.1 ∉ evicted
  opened : ∀ b ∈ s.parkedCommits, b.tip ≤ c →
    b.logId = s.activeLogId ∨ s.cached b.logId = true ∧ b.logId ∉ evicted

/-- The read position moved forward, and not beyond `c`. -/
structure Progress (c : ℕ) (s s' : ParkingFollower H B D X) : Prop where
  grows : s.committedRead ≤ s'.committedRead
  bounded : s'.committedRead ≤ max s.committedRead c

/-- A part of a call ends ready, further on. -/
structure Proceeds (c : ℕ) (evicted : List ℕ) (s s' : ParkingFollower H B D X) : Prop where
  ready : s'.Ready c evicted
  progress : Progress c s s'

section Calls

variable {s} {t u : ParkingFollower H B D X} {c : ℕ} {evicted : List ℕ}

theorem Progress.refl (c : ℕ) (s : ParkingFollower H B D X) : Progress c s s :=
  ⟨le_rfl, Nat.le_max_left _ _⟩

theorem Progress.trans (h : Progress c s t) (k : Progress c t u) : Progress c s u :=
  ⟨h.grows.trans k.grows, by
    have := h.bounded
    have := k.bounded
    omega⟩

theorem Progress.of_newestCursor (same : newestCursor t.read t.activeLogId =
    newestCursor s.read s.activeLogId) : Progress c s t := by
  have position : t.committedRead = s.committedRead := by
    simp only [committedRead, readPosition, same]
  refine ⟨le_of_eq position.symm, ?_⟩
  rw [position]
  exact Nat.le_max_left _ _

theorem Ready.refl (ready : s.Ready c evicted) : Proceeds c evicted s s := ⟨ready, .refl c s⟩

theorem Proceeds.trans (h : Proceeds c evicted s t) (k : Proceeds c evicted t u) :
    Proceeds c evicted s u :=
  ⟨k.ready, h.progress.trans k.progress⟩

/-- A cursor that is missing is missing in the header, after both were set. -/
theorem headers_update {read header} (h : ∀ g, read g = none → header g = none)
    (k : ℕ) {v w : Option ℕ} (new : v = none → w = none) (g : ℕ)
    (missing : update read k v g = none) : update header k w g = none := by
  rw [update_apply] at missing ⊢
  split at missing
  · rw [if_pos ‹_›]
    exact new missing
  · rw [if_neg ‹_›]
    exact h g missing

theorem headers_written {read header : ℕ → Option ℕ} (h : ∀ g, read g = none → header g = none)
    (k g : ℕ) (missing : read g = none) : update header k (read k) g = none :=
  headers_update h k (v := read k) id g (by rwa [update_eq_self])

/-- **A drain keeps the gap and moves the read position up to the confirmed index.** -/
theorem Ready.drainParkedCommits (ready : s.Ready c evicted) :
    Proceeds c evicted s (s.drainParkedCommits c) := by
  have proceeds {read : ℕ → Option ℕ} {parked : List ParkedBatch}
      (drained : Drained s.activeLogId s.write (min c s.write) s.read read s.parkedCommits parked) :
      Proceeds c evicted s { s with parkedCommits := parked, read := read } := by
    have bounded : readPosition read s.activeLogId ≤ max s.committedRead (min c s.write) :=
      drained.bounded
    refine ⟨⟨⟨drained.lag, ?_, ready.gap.active⟩, ?_, ?_⟩, drained.grows, by
      change readPosition read s.activeLogId ≤ _
      omega⟩
    · exact fun g none => ready.gap.headers g (drained.cursors g none)
    · intro p hp
      rcases drained.newest p hp with active | old | ⟨b, hb, covered, segment⟩
      · exact .inl active
      · exact ready.safe p old
      · rw [segment]
        exact (ready.opened b hb (by omega)).imp_right And.right
    · exact fun b hb => ready.opened b (drained.remaining hb)
  unfold ParkingFollower.drainParkedCommits
  dsimp only
  split
  · exact ready.refl
  have drained : Drained s.activeLogId s.write (min c s.write) s.read
      (s.drainUpTo (min c s.write) s.parkedCommits s.read).2 s.parkedCommits
      (s.drainUpTo (min c s.write) s.parkedCommits s.read).1 := by
    apply ready.gap.lag.drained
    intro b hb covered
    exact (ready.opened b hb (by omega)).imp_right And.left
  split
  next cold =>
    rw [cold.2.2] at drained ⊢
    exact proceeds (drained.cold ready.gap.active)
  · exact proceeds drained

theorem Ready.evict (ready : s.Ready c evicted) {g} (mem : g ∈ evicted) :
    Proceeds c evicted s (s.evict g) := by
  unfold ParkingFollower.evict
  split
  · exact ready.refl
  next sealed =>
    have same : newestCursor (update s.read g (s.headerRead g)) s.activeLogId =
        newestCursor s.read s.activeLogId := by
      refine newestCursor_fallback ?_ (ready.gap.headers g)
      intro p hp segment
      rcases ready.safe p hp with active | kept
      · exact sealed (segment.symm.trans active)
      · exact kept (segment ▸ mem)
    refine ⟨⟨⟨?_, ?_, ready.gap.active⟩, ?_, ?_⟩, .of_newestCursor same⟩
    · exact ready.gap.lag.congr same le_rfl
    · intro k missing
      have := headers_update ready.gap.headers g id k missing
      rwa [update_eq_self] at this
    · intro p hp
      exact ready.safe p (same ▸ hp)
    · intro b hb covered
      rcases ready.opened b hb covered with active | ⟨cached, kept⟩
      · exact .inl active
      · refine .inr ⟨?_, kept⟩
        have other : b.logId ≠ g := by
          rintro rfl
          exact kept mem
        change update s.cached g false b.logId = true
        rw [update_of_ne other]
        exact cached

theorem cached_update {cached} {k : ℕ} (isCached : cached k = true) (g : ℕ) :
    update cached g true k = true := by
  rw [update_apply]
  split
  · rfl
  · exact isCached

namespace Ready

variable (ready : s.Ready c evicted)
include ready

theorem moveCache {move : CacheMove} (mem : ∀ g, move = .evict g → g ∈ evicted) :
    Proceeds c evicted s (s.moveCache move) := by
  cases move with
  | evict g => exact ready.evict (mem g rfl)
  | load g =>
    refine ⟨⟨⟨ready.gap.lag, ready.gap.headers, ready.gap.active⟩, ready.safe, ?_⟩,
      .of_newestCursor rfl⟩
    intro b hb covered
    refine (ready.opened b hb covered).imp_right fun ⟨cached, old⟩ => ⟨?_, old⟩
    exact cached_update cached g

theorem moveAll {moves : List CacheMove} (mem : ∀ g, .evict g ∈ moves → g ∈ evicted) :
    Proceeds c evicted s (moves.foldl ParkingFollower.moveCache s) := by
  induction moves generalizing s with
  | nil => exact ready.refl
  | cons move moves ih =>
    have first := ready.moveCache fun g h => mem g (h ▸ mem_cons_self)
    exact first.trans (ih first.ready fun g h => mem g (mem_cons_of_mem _ h))

/-- A rotation seals a segment that the call does not evict. -/
theorem rotate (kept : s.activeLogId ∉ evicted) {gs : List ℕ}
    (mem : gs ⊆ evicted) : Proceeds c evicted s (s.rotate gs) := by
  unfold ParkingFollower.rotate
  set opened : ParkingFollower H B D X :=
    { s with
      activeLogId := s.activeLogId + 1
      read := update s.read (s.activeLogId + 1) none
      headerRead := update s.headerRead (s.activeLogId + 1) none
      cached := update s.cached s.activeLogId true }
  have same : newestCursor opened.read opened.activeLogId = newestCursor s.read s.activeLogId := by
    change newestCursor (update s.read (s.activeLogId + 1) none) (s.activeLogId + 1) = _
    rw [newestCursor, update_self]
    exact newestCursor_congr fun g below => update_of_ne (by omega) _ _
  have first : Proceeds c evicted s opened := by
    refine ⟨⟨⟨?_, ?_, Nat.succ_pos _⟩, ?_, ?_⟩, .of_newestCursor same⟩
    · exact ready.gap.lag.congr same (Nat.le_succ _)
    · exact headers_update ready.gap.headers _ id
    · intro p hp
      rcases ready.safe p (same ▸ hp) with active | old
      · exact .inr (active ▸ kept)
      · exact .inr old
    · intro b hb covered
      change _ ∨ update s.cached s.activeLogId true b.logId = true ∧ _
      rcases ready.opened b hb covered with active | ⟨cached, old⟩
      · exact .inr ⟨by rw [active, update_self], active ▸ kept⟩
      · exact .inr ⟨cached_update cached _, old⟩
  rw [foldl_evict]
  have moves : ∀ g, CacheMove.evict g ∈ gs.map .evict → g ∈ evicted := by
    intro g h
    obtain ⟨g', hg', ⟨⟩⟩ := mem_map.mp h
    exact mem hg'
  exact first.trans (first.ready.moveAll moves)

/-- **A successful fsync parks exactly what became durable.** -/
theorem commitSync (nonempty : s.shard.shardLog.pendingAppendQueue ≠ []) :
    Proceeds c evicted s (s.commitSync hash) := by
  obtain ⟨behind, numbers, tips, order, placed⟩ := ready.gap.lag
  set count := s.shard.shardLog.pendingAppendQueue.length with hcount
  have positive : 0 < count := length_pos_of_ne_nil nonempty
  have written : (s.commitSync hash).write = s.write + count := by
    simp [write, ParkingFollower.commitSync, ShardLog.sync, hcount]
  refine ⟨⟨⟨?_, ?_, ready.gap.active⟩, ready.safe, ?_⟩, .of_newestCursor rfl⟩
  · refine ⟨?_, ?_, ?_, ?_, ?_⟩
    · rw [written]
      exact Nat.le_add_right_of_le behind
    · change (s.parkedCommits ++ [_]).flatMap _ =
          List.range' (readPosition s.read s.activeLogId + 1)
        ((s.commitSync hash).write - readPosition s.read s.activeLogId)
      rw [written, flatMap_append, numbers, flatMap_singleton]
      have start : s.write + 1 = readPosition s.read s.activeLogId + 1 +
          (s.write - readPosition s.read s.activeLogId) := by omega
      rw [start, List.range'_append_1]
      congr 1
      omega
    · refine forall_mem_append.mpr ⟨tips, forall_mem_singleton.mpr ?_⟩
      rw [List.getLast?_range', if_neg (by omega)]
      change some _ = some (s.write + count)
      congr 1
      omega
    · refine pairwise_append.mpr ⟨order, pairwise_singleton _ _, ?_⟩
      intro b hb new hnew
      obtain rfl := mem_singleton.mp hnew
      exact (placed b hb).2.1
    · refine forall_mem_append.mpr ⟨placed, forall_mem_singleton.mpr ?_⟩
      exact ⟨ready.gap.active, le_rfl, fun p hp => logId_le_of_newestCursor hp⟩
  · exact headers_written ready.gap.headers s.activeLogId
  · exact forall_mem_append.mpr
      ⟨ready.opened, forall_mem_singleton.mpr fun _ => .inl rfl⟩

theorem rollbackSync :
    Proceeds c evicted s s.rollbackSync :=
  ⟨⟨⟨ready.gap.lag, ready.gap.headers, ready.gap.active⟩, ready.safe, ready.opened⟩,
    .of_newestCursor rfl⟩

/-- The fsync of a call, whatever its outcome. -/
theorem syncDurable (kept : s.activeLogId ∉ evicted)
    (outcome : FsyncOutcome) (mem : ∀ gs ok, outcome = .completed (some gs) ok → gs ⊆ evicted) :
    Proceeds c evicted s (s.syncDurable hash outcome).2 := by
  cases outcome with
  | gateTimeout => exact ready.refl
  | completed rotation ok =>
    rw [ParkingFollower.syncDurable]
    split
    · exact ready.refl
    next nonempty =>
      have queue := shard_rotation s rotation
      have rotated : Proceeds c evicted s ((rotation.map s.rotate).getD s) := by
        cases rotation with
        | none => exact ready.refl
        | some gs => exact ready.rotate kept (mem gs ok rfl)
      split
      · refine rotated.trans (rotated.ready.commitSync hash ?_)
        rw [queue]
        simpa using nonempty
      · exact rotated.trans rotated.ready.rollbackSync

/-- What follows the last drain evicts only what it may. -/
theorem finish (call : HandlerCall H B D)
    (mem : ∀ g, CacheMove.evict g ∈ call.sweep → g ∈ evicted) :
    Proceeds c evicted s (s.finish call) := by
  have persisted : Proceeds c evicted s (s.persistReadCursor call.persisted) := by
    unfold persistReadCursor
    split
    · exact ⟨⟨⟨ready.gap.lag, headers_written ready.gap.headers s.activeLogId, ready.gap.active⟩,
        ready.safe, ready.opened⟩, .of_newestCursor rfl⟩
    · exact ready.refl
  exact persisted.trans (persisted.ready.moveAll mem)

end Ready

variable {call : HandlerCall H B D}

theorem mem_evictions_of_sweep {g : ℕ} (h : CacheMove.evict g ∈ call.sweep) : g ∈ evictions call :=
  mem_append_right _ (mem_filterMap.mpr ⟨_, h, rfl⟩)

/-- A smooth call starts ready. -/
theorem SmoothCall.ready (smooth : s.SmoothCall call) (gap : s.Gap)
    (shard : FollowerShard H B D X) (log : shard.shardLog.log = s.shard.shardLog.log) :
    Ready { s with shard := shard } call.request.leaderConfirmedWalSeq (evictions call) := by
  have written : write { s with shard := shard } = s.write := congrArg WalLog.walSeq log
  refine ⟨⟨?_, gap.headers, gap.active⟩, ?_, ?_⟩
  · rw [written]
    exact gap.lag
  · intro p hp
    refine .inr fun mem => ?_
    exact (smooth.evicted _ mem).2.1 p hp rfl
  · intro b hb covered
    rcases smooth.opened b hb covered with active | cached
    · exact .inl active
    · refine .inr ⟨cached, fun mem => ?_⟩
      exact (smooth.evicted _ mem).2.2 b hb covered rfl

theorem floor_syncDurable (outcome : FsyncOutcome) :
    (s.syncDurable hash outcome).2.shard.lastReceivedReplicationWalSeq =
      s.shard.lastReceivedReplicationWalSeq := by
  cases outcome with
  | gateTimeout => rfl
  | completed rotation ok =>
    rw [syncDurable]
    split
    · rfl
    · have rotated := congrArg FollowerShard.lastReceivedReplicationWalSeq
        (shard_rotation s rotation)
      cases ok with
      | false => exact rotated
      | true => exact rotated

/-- Only a failed outcome fails. -/
theorem fails_of_syncDurable {outcome : FsyncOutcome}
    (h : (s.syncDurable hash outcome).1 = false) : outcome.fails = true := by
  cases outcome with
  | gateTimeout => rfl
  | completed rotation ok =>
    cases ok with
    | false => rfl
    | true =>
      rw [syncDurable] at h
      split at h <;> cases h

/-- What a call does to the floor: nothing, or it is raised with the answer Success. -/
def FloorRaised (c : ℕ) (s : ParkingFollower H B D X) (result : Bool × ParkingFollower H B D X) :
    Prop :=
  result.2.shard.lastReceivedReplicationWalSeq =
    if result.1 then max s.shard.lastReceivedReplicationWalSeq (c + 1)
    else s.shard.lastReceivedReplicationWalSeq

/-- A call that enqueued and waits for its fsync. -/
theorem SmoothCall.resume_enqueued (smooth : s.SmoothCall call)
    (gap : s.Gap) (queue : List (ShardLogQueueItem H B D X)) :
    let shard := { s.shard.updatePromotionFloor call.request.leaderConfirmedWalSeq with
      shardLog := { s.shard.shardLog with pendingAppendQueue := queue } }
    let result := s.resume (E := E) hash call (none, shard)
    result.2.Gap ∧ Progress call.request.leaderConfirmedWalSeq s result.2 ∧
      FloorRaised call.request.leaderConfirmedWalSeq s result := by
  intro shard result
  set c := call.request.leaderConfirmedWalSeq with hc
  have raised : shard.lastReceivedReplicationWalSeq =
      max s.shard.lastReceivedReplicationWalSeq (c + 1) := by
    change max _ (satAdd c 1) = _
    rw [satAdd_eq smooth.small]
  have ready : Ready { s with shard := shard } c (evictions call) := smooth.ready gap shard rfl
  have drained := ready.drainParkedCommits
  have active : (drainParkedCommits { s with shard := shard } c).activeLogId =
      s.activeLogId := activeLogId_drainParkedCommits _ _
  have kept : (drainParkedCommits { s with shard := shard } c).activeLogId ∉
      evictions call := by
    rw [active]
    intro mem
    exact (smooth.evicted _ mem).1 rfl
  have synced := drained.trans (drained.ready.syncDurable hash kept call.fsync (by
    intro gs ok outcome g hg
    refine mem_append_left _ ?_
    rw [outcome]
    exact hg))
  have floor : ((drainParkedCommits { s with shard := shard } c).syncDurable hash
      call.fsync).2.shard.lastReceivedReplicationWalSeq = shard.lastReceivedReplicationWalSeq := by
    rw [floor_syncDurable, shard_drainParkedCommits]
  have begun : Progress c s { s with shard := shard } := .of_newestCursor rfl
  unfold result resume FloorRaised
  dsimp only
  split
  · have again := synced.trans synced.ready.drainParkedCommits
    have finished := again.trans (again.ready.finish call fun g => mem_evictions_of_sweep)
    refine ⟨finished.ready.gap, begun.trans finished.progress, ?_⟩
    rw [shard_finish, shard_drainParkedCommits, floor]
    exact raised
  next failed =>
    refine ⟨synced.ready.gap, begun.trans synced.progress, ?_⟩
    have := smooth.floor (fails_of_syncDurable hash (by simpa using failed))
    rw [floor, raised]
    exact Nat.max_eq_left this

/-- **One smooth call**: the gap is kept, the read position moves up to the confirmed index, and the
floor is raised exactly when Success is answered. -/
theorem Gap.handleCall [DecidableEq H] (gap : s.Gap) (smooth : s.Smooth call) :
    (s.handleCall hash serialise call).2.Gap ∧
      Progress call.request.leaderConfirmedWalSeq s (s.handleCall hash serialise call).2 ∧
      FloorRaised call.request.leaderConfirmedWalSeq s (s.handleCall hash serialise call) := by
  unfold ParkingFollower.handleCall
  cases clock : call.clock with
  | none => exact ⟨gap, .refl _ s, rfl⟩
  | some now =>
    dsimp only
    rcases FollowerShard.startBatch_outcomes (F := Unit)
      (s := s.shard) serialise now call.request with
      ⟨-, rejection, refused⟩ | ⟨admits, failed | notify | ⟨queue, enqueued⟩⟩
    · rw [refused]
      exact ⟨gap, .refl _ s, rfl⟩
    · obtain ⟨answer, shard, started, notSuccess, log, floor⟩ := failed
      rw [started]
      have unanswered : s.resume hash call (some answer, shard) =
        (false, { s with shard := shard }) := by
        cases answer with
        | error e => rfl
        | ok result =>
          cases result with
          | success last => exact absurd rfl (notSuccess last)
          | rejected rejection => rfl
      rw [unanswered]
      have written : write { s with shard := shard } = s.write := by
        simp only [write, log]
      refine ⟨⟨?_, gap.headers, gap.active⟩, .of_newestCursor rfl, floor⟩
      rw [written]
      exact gap.lag
    · rw [notify]
      have smooth := smooth now (by simp [clock]) admits
      set shard := s.shard.updatePromotionFloor call.request.leaderConfirmedWalSeq
      have begun : Progress call.request.leaderConfirmedWalSeq s { s with shard := shard } :=
        .of_newestCursor rfl
      have drained := (smooth.ready gap shard rfl).drainParkedCommits
      have finished := drained.trans (drained.ready.finish call fun g => mem_evictions_of_sweep)
      refine ⟨finished.ready.gap, begun.trans finished.progress, ?_⟩
      unfold FloorRaised resume
      rw [shard_finish, shard_drainParkedCommits]
      change max _ (satAdd _ 1) = _
      rw [satAdd_eq smooth.small]
      rfl
    · rw [enqueued]
      exact (smooth now (by simp [clock]) admits).resume_enqueued hash gap queue

/-- **The follower's log and floor are those of the handler without cursors**, when its fsync cycle
runs. -/
theorem shard_handleCall [DecidableEq H] {now : ℕ}
    {rotation : Option (List ℕ)} {ok} (clock : call.clock = some now)
    (cycle : call.fsync = .completed rotation ok) :
    (s.handleCall hash serialise call).2.shard =
      (s.shard.handleBatchAt hash serialise now (if ok then none else some ()) call.request).2 := by
  rw [FollowerShard.handleBatchAt_eq, handleCall, clock]
  dsimp only
  generalize s.shard.startBatch serialise now call.request = started
  obtain ⟨answer, shard⟩ := started
  cases answer with
  | some answer =>
    unfold resume
    split
    next h =>
      cases h
      rw [shard_finish, shard_drainParkedCommits]
    next h =>
      cases h
      rfl
    next h => cases h
  | none =>
    unfold resume
    dsimp only
    rw [cycle]
    have drained : (drainParkedCommits { s with shard := shard }
        call.request.leaderConfirmedWalSeq).shard = shard := shard_drainParkedCommits _ _
    generalize drainParkedCommits { s with shard := shard }
      call.request.leaderConfirmedWalSeq = t at drained
    have rotated := (shard_rotation t rotation).trans drained
    rw [syncDurable]
    split
    next empty =>
      -- nothing was queued: sync and rollback leave an empty queue as it is
      rw [drained] at empty
      have nothing : shard.shardLog.pendingAppendQueue = [] := by simpa using empty
      rw [if_pos rfl, shard_finish, shard_drainParkedCommits, drained]
      obtain ⟨nodeStatus, catchup, drift, target, floor, ⟨log, queue⟩⟩ := shard
      cases nothing
      cases ok with
      | true => rfl
      | false => rfl
    · cases ok with
      | true =>
        rw [if_pos rfl, if_pos rfl, shard_finish, shard_drainParkedCommits]
        unfold commitSync
        dsimp only
        rw [rotated]
        rfl
      | false =>
        unfold rollbackSync
        simp only [Bool.false_eq_true, if_false]
        rw [rotated]

end Calls

/-! ## The machine of the shard -/

section Machine

variable {H B D X : Type*} (f : ParkingFollower H B D X)

/-- The read cursors of the segments of a shard, and which of the segments are open. -/
structure SameCursors (read : ℕ → Option ℕ) (c : LogSegmentsCache) : Prop where
  activeLogId : c.activeLogId = f.activeLogId
  cached : ∀ g, (c.files g).cached = f.cached g
  read : ∀ g, (c.files g).metadata.read = read g

/-- The queued batches, by segment and tip. -/
def SameQueue (ps : List PendingCommitData) (bs : List ParkedBatch) : Prop :=
  ps.map (fun p => (p.logId, p.tip)) = bs.map fun b => (b.logId, b.tip)

/-- The shard of the machine has the follower's cursors and queue. -/
structure Mirrors (s : Shard) : Prop where
  cursors : f.SameCursors f.read s.segments
  write : s.segments.active.write = f.write
  parked : SameQueue s.cache.parkedCommits f.parkedCommits

variable {f} {c : LogSegmentsCache} {read : ℕ → Option ℕ}

theorem SameCursors.commitPcd (h : f.SameCursors read c) {p : PendingCommitData} {b : ParkedBatch}
    (logId : p.logId = b.logId) (tip : p.tip = b.tip) :
    f.SameCursors (f.commitPcd read b) (c.commitPcd p) := by
  have found : c.IsCached p.logId ↔ b.logId = f.activeLogId ∨ f.cached b.logId = true := by
    rw [LogSegmentsCache.IsCached, h.cached, h.activeLogId, logId]
  rw [LogSegmentsCache.commitPcd, ParkingFollower.commitPcd, ← logId, ← tip]
  rw [← logId] at found
  by_cases isOpen : c.IsCached p.logId
  · rw [if_pos isOpen, if_pos (found.mp isOpen)]
    refine ⟨h.activeLogId, fun g => ?_, fun g => ?_⟩ <;>
      by_cases here : g = p.logId <;>
      simp [LogSegmentsCache.setMetadata, LogSegmentsCache.setFile, here, h.cached, h.read,
        PendingCommitData.tip]
  · rw [if_neg isOpen, if_neg (mt found.mpr isOpen)]
    exact h

theorem SameCursors.drainUpTo (h : f.SameCursors read c) {ps : List PendingCommitData}
    {bs : List ParkedBatch} (parked : SameQueue ps bs) (target : ℕ) :
    f.SameCursors (f.drainUpTo target bs read).2
        (c.commitPcds (ps.takeWhile fun p => p.tip ≤ target)) ∧
      SameQueue (ps.dropWhile fun p => p.tip ≤ target) (f.drainUpTo target bs read).1 := by
  induction ps generalizing bs c read with
  | nil =>
    obtain rfl : bs = [] := by simpa [SameQueue] using parked.symm
    exact ⟨h, rfl⟩
  | cons p ps ih =>
    cases bs with
    | nil => cases parked
    | cons b bs =>
      obtain ⟨batch, rest⟩ := List.cons.inj parked
      obtain ⟨logId, tip⟩ := Prod.mk.inj batch
      rw [List.takeWhile_cons, List.dropWhile_cons, ParkingFollower.drainUpTo, ← tip]
      by_cases confirmed : p.tip ≤ target
      · simp only [confirmed, decide_true, if_true]
        exact ih (h.commitPcd logId tip) rest
      · simp only [confirmed, decide_false, Bool.false_eq_true, if_false]
        exact ⟨h, parked⟩

theorem SameCursors.readWalSeq (h : f.SameCursors read c) :
    c.active.readWalSeq = (read f.activeLogId).getD 0 := by
  rw [← h.read, ← h.activeLogId]
  rfl

/-- The cold prefix after a restart. -/
theorem SameCursors.advance (h : f.SameCursors read c) {n} (write : c.active.write = n) :
    f.SameCursors (update read f.activeLogId (some n))
      (c.updateActive (·.advanceVisiblePosition)) := by
  subst write
  refine ⟨h.activeLogId, fun g => ?_, fun g => ?_⟩ <;>
    by_cases here : g = f.activeLogId <;>
    simp [LogSegmentsCache.updateActive, LogSegmentsCache.setMetadata, LogSegmentsCache.setFile,
      LogSegmentFileMetadata.advanceVisiblePosition, h.activeLogId, here, h.cached, h.read]

/-- **A drain is that of the machine of the shard.** -/
theorem Mirrors.drainParkedCommits {s : Shard} (h : f.Mirrors s) (n : ℕ) :
    (f.drainParkedCommits n).Mirrors (s.drainParkedCommits n) := by
  obtain ⟨cursors, write, parked⟩ := h
  unfold Shard.drainParkedCommits ParkingFollower.drainParkedCommits
  have current : s.segments.active.readWalSeq = f.activeRead := cursors.readWalSeq
  simp only [write, current]
  by_cases done : min n f.write ≤ f.activeRead
  · rw [if_pos done, if_pos done]
    exact ⟨cursors, write, parked⟩
  rw [if_neg done, if_neg done]
  obtain ⟨drained, queue⟩ := cursors.drainUpTo parked (min n f.write)
  have read' : (s.commitParkedUpTo (min n f.write)).segments.active.readWalSeq =
      activeRead { f with
        parkedCommits := (f.drainUpTo (min n f.write) f.parkedCommits f.read).1
        read := (f.drainUpTo (min n f.write) f.parkedCommits f.read).2 } := drained.readWalSeq
  have write' : (s.commitParkedUpTo (min n f.write)).segments.active.write = f.write :=
    (LogSegmentsCache.commitPcds_sameTips _).active_write.trans write
  have empty : (s.commitParkedUpTo (min n f.write)).cache.parkedCommits = [] ↔
      (f.drainUpTo (min n f.write) f.parkedCommits f.read).1 = [] := by
    rw [← List.map_eq_nil_iff, ← List.map_eq_nil_iff (l := (f.drainUpTo _ _ _).1)]
    exact iff_of_eq (congrArg (· = []) queue)
  simp only [read', write', empty]
  split
  · obtain ⟨activeLogId, cached, read⟩ := drained.advance write'
    refine ⟨⟨activeLogId, cached, read⟩, Eq.trans ?_ write', queue⟩
    exact congrArg (·.write) (LogSegmentsCache.updateActive_active _ _)
  · exact ⟨⟨drained.activeLogId, drained.cached, drained.read⟩, write', queue⟩

end Machine

end ParkingFollower

/-! ## Whole runs -/

/-- A follower with the confirmed indexes it has received, and those of the batches it accepted. -/
structure WatchedFollower (H B D X : Type*) where
  follower : ParkingFollower H B D X
  received : List ℕ
  accepted : List ℕ

namespace WatchedFollower

variable {H B D X E : Type*} [DecidableEq H]
  (hash : Metablock H B → H) (serialise : ℕ → D → Except E (Option X))

def step (w : WatchedFollower H B D X) (call : HandlerCall H B D) :
    Option (WatchedFollower H B D X) :=
  let (accepted, follower) := w.follower.handleCall hash serialise call
  some
    { follower
      received := call.request.leaderConfirmedWalSeq :: w.received
      accepted :=
        if accepted then call.request.leaderConfirmedWalSeq :: w.accepted else w.accepted }

omit [DecidableEq H] in
/-- The condition on a call. -/
def Smooth (w : WatchedFollower H B D X) (call : HandlerCall H B D) : Prop := w.follower.Smooth call

/-- **The read position is covered** by the log and by what was confirmed, the queue holds the gap,
and the floor is the maximum of what was accepted. -/
structure NeverAhead (s₀ : ParkingFollower H B D X) (w : WatchedFollower H B D X) : Prop where
  durable : w.follower.committedRead ≤ w.follower.write
  confirmed : w.follower.committedRead ≤ w.received.foldr max s₀.committedRead
  gap : w.follower.Gap
  floor : w.follower.shard.lastReceivedReplicationWalSeq =
    w.accepted.foldr (fun c floor => max (c + 1) floor) s₀.shard.lastReceivedReplicationWalSeq

variable {hash serialise}
  {s₀ : ParkingFollower H B D X} {w w' : WatchedFollower H B D X} {call : HandlerCall H B D}

/-- One call. -/
theorem NeverAhead.step (ahead : NeverAhead s₀ w) (smooth : w.Smooth call)
    (h : w.step hash serialise call = some w') :
    NeverAhead s₀ w' ∧ w.follower.committedRead ≤ w'.follower.committedRead := by
  obtain ⟨gap, progress, floor⟩ := ahead.gap.handleCall hash serialise smooth
  rw [WatchedFollower.step] at h
  generalize w.follower.handleCall hash serialise call = result at gap progress floor h
  cases h
  have confirmed := ahead.confirmed
  have bounded := progress.bounded
  refine ⟨⟨gap.lag.behind, ?_, gap, ?_⟩, progress.grows⟩
  · rw [foldr_cons]
    dsimp only at bounded ⊢
    omega
  · unfold ParkingFollower.FloorRaised at floor
    rw [ahead.floor] at floor
    rw [floor]
    split
    · exact Nat.max_comm _ _
    · rfl

end WatchedFollower

/-- **A follower is never ahead.** From a follower whose parked queue holds exactly the durable
entries above its read position, in every run of smooth calls: the read position is at most the
write position and at most the largest confirmed index received (or the position at the start), the
queue holds exactly the entries above it, the floor is the maximum over the accepted batches, and
the read position never decreases from there on. -/
theorem follower_never_ahead {H B D X E : Type*} [DecidableEq H] (hash : Metablock H B → H)
    (serialise : ℕ → D → Except E (Option X)) (s₀ : ParkingFollower H B D X) (gap : s₀.Gap)
    (w : WatchedFollower H B D X)
    (run : Reaches (WatchedFollower.step hash serialise) WatchedFollower.Smooth ⟨s₀, [], []⟩ w) :
    WatchedFollower.NeverAhead s₀ w ∧
      ∀ w', Reaches (WatchedFollower.step hash serialise) WatchedFollower.Smooth w w' →
        w.follower.committedRead ≤ w'.follower.committedRead := by
  have ahead : WatchedFollower.NeverAhead s₀ w := by
    refine run.invariant (I := WatchedFollower.NeverAhead s₀) ?_ ?_
    · intro w call w' ahead smooth step
      exact (ahead.step smooth step).1
    · exact ⟨gap.lag.behind, le_rfl, gap, rfl⟩
  refine ⟨ahead, ?_⟩
  intro w' continued
  refine continued.related (I := WatchedFollower.NeverAhead s₀)
    (R := fun w w' => w.follower.committedRead ≤ w'.follower.committedRead)
    (fun _ => le_rfl) (fun _ _ _ => le_trans) ?_ ?_ ahead
  · intro w call w' ahead smooth step
    exact (ahead.step smooth step).1
  · intro w call w' ahead smooth step
    exact (ahead.step smooth step).2

section Eviction

open ParkingFollower

instance {H B D X : Type*} (s : ParkingFollower H B D X) (call : HandlerCall H B D) :
    Decidable (s.SmoothCall call) :=
  decidable_of_iff
    ((∀ b ∈ s.parkedCommits, b.tip ≤ call.request.leaderConfirmedWalSeq →
        b.logId = s.activeLogId ∨ s.cached b.logId = true) ∧
      (∀ g ∈ evictions call, g ≠ s.activeLogId ∧
        (∀ p ∈ newestCursor s.read s.activeLogId, p.1 ≠ g) ∧
        ∀ b ∈ s.parkedCommits, b.tip ≤ call.request.leaderConfirmedWalSeq → b.logId ≠ g) ∧
      (call.fsync.fails = true →
        call.request.leaderConfirmedWalSeq + 1 ≤ s.shard.lastReceivedReplicationWalSeq) ∧
      call.request.leaderConfirmedWalSeq < u64Max)
    ⟨fun h => ⟨h.1, h.2.1, h.2.2.1, h.2.2.2⟩, fun h => ⟨h.opened, h.evicted, h.floor, h.small⟩⟩

instance : DecidableRel (WatchedFollower.Smooth : WatchedFollower ℕ ℕ Unit Unit → _ → Prop) :=
  fun w call => inferInstanceAs (Decidable
    (∀ now ∈ call.clock, w.follower.shard.Admits now call.request → w.follower.SmoothCall call))

/-- A follower with an empty log in its first segment. -/
def freshFollower : ParkingFollower ℕ ℕ Unit Unit where
  shard := FollowerShard.followerHolding []
  activeLogId := 1
  read := fun _ => none
  headerRead := fun _ => none
  cached := fun _ => false
  parkedCommits := []

theorem gap_freshFollower : freshFollower.Gap :=
  ⟨.nil rfl, fun _ _ => rfl, by decide⟩

/-- A batch from entry 1 on, with a rotation before its fsync or not. -/
def parkingCall (bodies : List ℕ) (leaderConfirmedWalSeq : ℕ) (rotation : Option (List ℕ)) :
    HandlerCall ℕ ℕ Unit where
  clock := some 105
  request := { FollowerShard.batchFromOne bodies with leaderConfirmedWalSeq }
  fsync := .completed rotation true
  persisted := true
  sweep := []

/-- Three entries in three segments; the notify confirms the first. -/
theorem follower_never_ahead_rotations :
    ∃ w, Reaches (WatchedFollower.step sumHash noCodec) WatchedFollower.Smooth
        ⟨freshFollower, [], []⟩ w ∧
      (w.follower.committedRead = 1 ∧ w.follower.parkedCommits.map (·.numbers) = [[2], [3]]) ∧
      WatchedFollower.NeverAhead freshFollower w := by
  refine exists_and_of_exec [parkingCall [7] 0 none, parkingCall [7, 8] 0 (some []),
    parkingCall [7, 8, 9] 0 (some []), parkingCall [] 1 none] (by decide +kernel) ?_
  intro w run _
  exact (follower_never_ahead sumHash noCodec freshFollower gap_freshFollower w run).1

/-- **A confirmed batch in an evicted segment is lost from the queue.** As above, but the second
rotation evicts the first segment. The notify that confirms entry 1 pops its batch and moves no
cursor: the read position stays 0, entry 1 is durable, and the queue holds entries 2 and 3. -/
theorem evicted_segment_loses_parked_entry :
    ∃ w, Reaches (WatchedFollower.step sumHash noCodec) Always ⟨freshFollower, [], []⟩ w ∧
      (w.follower.committedRead = 0 ∧ w.follower.write = 3 ∧
        w.follower.parkedCommits.map (·.numbers) = [[2], [3]]) ∧
      ¬ w.follower.Gap := by
  refine exists_and_of_exec [parkingCall [7] 0 none, parkingCall [7, 8] 0 (some []),
    parkingCall [7, 8, 9] 0 (some [1]), parkingCall [] 1 none] (by decide +kernel) ?_
  rintro w - ⟨position, written, parked⟩ gap
  have numbers := gap.lag.numbers
  rw [show readPosition w.follower.read w.follower.activeLogId = 0 from position, written,
    flatMap_def, parked] at numbers
  exact absurd numbers (by decide)

end Eviction

end Celeriant
