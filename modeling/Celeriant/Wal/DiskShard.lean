import Celeriant.Lib.Transition
import Celeriant.Wal.SegmentFile

/-!
# A shard on disk

The segment files of a shard, the metadata of the active segment in memory and that of the sealed
segments in the LRU cache. The steps are the operations that move a cursor or write a file, each run
to its end under the fsync gate: an fsync of a batch with the rotation it may need, a truncation
with the unwinding to a sealed segment, a cull, the header-only sync, commits that move a read
cursor, evictions and reloads of sealed segments, and a restart.

An interrupted group of writes leaves any part of its bytes, and each header copy unchanged, torn or
new. The memory keeps what the code has assigned before the error: an interrupted fsync leaves the
metadata as they were, an interrupted truncation has already rewound them. A crash is an interrupted
operation followed by a restart.

A truncation is given by its segment and the block it starts at; the number and the previous hash
are those of that block, or those of the write cursor behind the last block. The barrier that can
refuse a truncation is left out: a refusal changes nothing.

## Main definitions

* `WalConfig`, `DiskShard`, `DiskShard.step`
* `DiskShard.readLog`: the metablocks of all segments in order
-/

namespace Celeriant.Wal

open HashChain ByteFile Transition Function

/-- The serialisation, the entry hash and the size of a segment file. -/
structure WalConfig (β H C : Type*) where
  codec : MetablockCodec β H C
  hash : Entry H C → H
  genesisHash : H
  preallocateBytes : ℕ
  aligned : minWriteAlignment ∣ preallocateBytes
  large : 2 * headerBlockSizeBytes < preallocateBytes

/-- What becomes of a header copy when the write of the headers is interrupted. -/
inductive HeaderFate
  | kept
  | torn
  | written
  deriving DecidableEq, Repr

def HeaderFate.apply {α : Type*} (header : α) (slot : HeaderSlot α) : HeaderFate → HeaderSlot α
  | kept => slot
  | torn => .torn
  | written => .valid header

/-- The fates of the front and the rear copy; `none` when both are written and synced. -/
abbrev HeaderOutcome := Option (HeaderFate × HeaderFate)

/-- How the write of a batch is interrupted: which bytes of which write reached the file. -/
structure Interruption where
  reached : ℕ → ℕ → Bool
  front : HeaderFate
  rear : HeaderFate

/-- How a rotation fails: what is left of the new file, if it is left. -/
abbrev RotationFailure := Option (HeaderFate × HeaderFate)

namespace SegmentFile

variable {β H : Type*} (f : SegmentFile β H)

/-- Both copies, or what became of each. -/
def writeDualShardLogHeader (header : ShardLogHeader H) : HeaderOutcome → SegmentFile β H
  | none => { f with front := .valid header, rear := .valid header }
  | some (front, rear) =>
    { f with front := front.apply header f.front, rear := rear.apply header f.rear }

@[simp] theorem bytes_writeDualShardLogHeader (header : ShardLogHeader H)
    (outcome : HeaderOutcome) :
    (f.writeDualShardLogHeader header outcome).bytes = f.bytes := by
  rcases outcome with _ | ⟨front, rear⟩ <;> rfl

end SegmentFile

namespace WalConfig

variable {β H C : Type*} (cfg : WalConfig β H C)

/-- A preallocated file without headers. -/
def createFile : SegmentFile β H := ⟨cfg.preallocateBytes, fun _ => cfg.codec.zero, .zero, .zero⟩

/-- The header of a new file. -/
def newHeader (walSeq : ℕ) (tipHash : H) (advanceRead : Bool) : ShardLogHeader H :=
  let write : HeaderCursor H :=
    ⟨headerBlockSizeBytes, cfg.preallocateBytes - headerBlockSizeBytes, walSeq, tipHash⟩
  ⟨write, if advanceRead then some write else none⟩

/-- A new file that is set up. -/
def newFile (walSeq : ℕ) (tipHash : H) (advanceRead : Bool) : SegmentFile β H :=
  cfg.createFile.writeDualShardLogHeader (cfg.newHeader walSeq tipHash advanceRead) none

/-- A new file in which a header has been written, wholly or in part. -/
def HeaderWritten (f : SegmentFile β H) : Prop :=
  ∃ walSeq tipHash advanceRead outcome,
    f = cfg.createFile.writeDualShardLogHeader (cfg.newHeader walSeq tipHash advanceRead) outcome

/-- The space a batch needs, alignment included. -/
def totalRequired (items : List (QueueItem β C)) : ℕ :=
  let metablocks := bufferSizeMetablocks cfg.codec items
  bufferSizeDatablocks items + metablocks +
    (alignUp minWriteAlignment metablocks - metablocks) + minWriteAlignment - 1

end WalConfig

/-- The files of a shard and its metadata in memory. -/
structure DiskShard (β H : Type*) where
  files : ℕ → Option (SegmentFile β H)
  /-- no file has a greater id -/
  newestLogId : ℕ
  active : SegmentMetadata β H
  cached : ℕ → Option (SegmentMetadata β H)

/-- The cursor a cull goes to. -/
inductive CullTarget (H : Type*)
  | writeToRead (cursor : LogSegmentCursor H)
  | bothToAckBarrier (cursor : LogSegmentCursor H)

def CullTarget.cursor {H : Type*} : CullTarget H → LogSegmentCursor H
  | writeToRead cursor => cursor
  | bothToAckBarrier cursor => cursor

/-- The record that a cull leaves. -/
def CullTarget.moved {β H : Type*} (target : CullTarget H) (m : SegmentMetadata β H) :
    SegmentMetadata β H :=
  match target with
  | writeToRead cursor => { m with write := cursor }
  | bothToAckBarrier cursor => { m with write := cursor, read := some cursor }

theorem CullTarget.logId_moved {β H : Type*} (target : CullTarget H) (m : SegmentMetadata β H) :
    (target.moved m).logId = m.logId := by
  cases target <;> rfl

theorem CullTarget.write_moved {β H : Type*} (target : CullTarget H) (m : SegmentMetadata β H) :
    (target.moved m).write = target.cursor := by
  cases target <;> rfl

theorem CullTarget.carryOver_moved {β H : Type*} (target : CullTarget H) (m : SegmentMetadata β H) :
    (target.moved m).datablocksCarryOver = m.datablocksCarryOver := by
  cases target <;> rfl

namespace DiskShard

variable {β H C : Type*} (cfg : WalConfig β H C) (s : DiskShard β H)

def setFile (g : ℕ) (f : SegmentFile β H) : DiskShard β H :=
  { s with files := update s.files g (some f), newestLogId := max s.newestLogId g }

@[simp] theorem files_setFile_self (g : ℕ) (f : SegmentFile β H) :
    (s.setFile g f).files g = some f := update_self ..

theorem files_setFile_of_ne {g g'} (ne : g' ≠ g) (f : SegmentFile β H) :
    (s.setFile g f).files g' = s.files g' := update_of_ne ne ..

/-! ## Fsync -/

/-- `sync` on the active segment; the error paths before the first write change nothing. -/
def syncActive (items : List (QueueItem β C)) (fullCommit : Bool)
    (interruption : Option Interruption) : DiskShard β H :=
  match s.files s.active.logId with
  | none => s
  | some f =>
    match sync cfg.codec cfg.hash s.active items fullCommit with
    | .error _ => s
    | .ok plan =>
      let header := plan.metadata.toShardLogHeader
      match interruption with
      | none =>
        let written := { f with bytes := applyAll plan.writes f.bytes }
        { s.setFile s.active.logId (written.writeDualShardLogHeader header none) with
          active := plan.metadata }
      | some i =>
        let written := { f with bytes := applySome i.reached 0 plan.writes f.bytes }
        s.setFile s.active.logId
          (written.writeDualShardLogHeader header (some (i.front, i.rear)))

/-- The new active segment of a rotation. -/
def rotated : DiskShard β H :=
  let g := s.active.logId + 1
  let f := cfg.newFile s.active.write.walSeq s.active.write.tipHash false
  { s.setFile g f with
    active :=
      { logId := g
        fileLen := cfg.preallocateBytes
        write :=
          { (cfg.newHeader s.active.write.walSeq s.active.write.tipHash false).write with logId :=
            g }
        read := none
        datablocksCarryOver :=
          f.readDatablocksCarryOverBytes (cfg.preallocateBytes - headerBlockSizeBytes) }
    cached := update s.cached s.active.logId (some s.active) }

theorem files_rotated : (s.rotated cfg).files = update s.files (s.active.logId + 1)
    (some (cfg.newFile s.active.write.walSeq s.active.write.tipHash false)) := rfl

theorem logId_rotated : (s.rotated cfg).active.logId = s.active.logId + 1 := rfl

theorem cached_rotated :
    (s.rotated cfg).cached = update s.cached s.active.logId (some s.active) := rfl

theorem carryOver_rotated : (s.rotated cfg).active.datablocksCarryOver =
    (cfg.newFile s.active.write.walSeq s.active.write.tipHash false).readDatablocksCarryOverBytes
      (cfg.preallocateBytes - headerBlockSizeBytes) := by
  simp only [rotated]

/-- The new segment is as its file opens. -/
theorem openSegment_rotated :
    (cfg.newFile s.active.write.walSeq s.active.write.tipHash false).openSegment
      (s.active.logId + 1) false = some (s.rotated cfg).active := rfl

/-- Rotation: the state, and whether it went through. A file of the next id is in the way unless it
is an orphan. -/
def rotateToNextLog (failure : Option RotationFailure) : DiskShard β H × Bool :=
  let g := s.active.logId + 1
  if (s.files g).any fun f => !f.isZeroDualHeaderOrphan then (s, false)
  else
    match failure with
    | none => (s.rotated cfg, true)
    | some none => ({ s with files := update s.files g none }, false)
    | some (some fates) =>
      (s.setFile g (cfg.createFile.writeDualShardLogHeader
        (cfg.newHeader s.active.write.walSeq s.active.write.tipHash false) (some fates)), false)

/-- The rotation if it is needed, then the sync. -/
def commitFsyncWithRollback (items : List (QueueItem β C)) (fullCommit : Bool)
    (rotation : Option RotationFailure) (interruption : Option Interruption) : DiskShard β H :=
  if s.active.availableSpace < cfg.totalRequired items then
    if cfg.preallocateBytes - cfg.totalRequired items - headerBlockSizeBytes * 2 = 0 then s
    else
      match s.rotateToNextLog cfg rotation with
      | (s, true) => s.syncActive cfg items fullCommit interruption
      | (s, false) => s
  else s.syncActive cfg items fullCommit interruption

/-! ## Segments -/

/-- The metadata of a segment: in memory, or as its header gives them. -/
def segmentMetadata (g : ℕ) : Option (SegmentMetadata β H) :=
  if g = s.active.logId then some s.active
  else (s.cached g).or ((s.files g).bind (·.openSegment g true))

/-- The number of metablocks below a cursor. -/
def blockCount (m : SegmentMetadata β H) : ℕ :=
  (m.write.metablocksPosition - headerBlockSizeBytes) / cfg.codec.fixedBlockSizeBytes

/-- The metablocks below the write cursor. -/
def readSegment (g : ℕ) : Option (List (StoredMetablock H C)) :=
  match s.files g, s.segmentMetadata g with
  | some f, some m => readMetablocks cfg.codec f.bytes m.write.metablocksPosition
  | _, _ => none

/-- The metablocks of the segments up to the given one, in order. -/
def readLog : ℕ → Option (List (StoredMetablock H C))
  | 0 => some []
  | g + 1 =>
    match readLog g, s.readSegment cfg (g + 1) with
    | some front, some segment => some (front ++ segment)
    | _, _ => none

/-! ## Truncation and culls -/

def blockPosition (k : ℕ) : ℕ := headerBlockSizeBytes + k * cfg.codec.fixedBlockSizeBytes

/-- The number and the previous hash of the block a truncation starts at, or of the one that would
come next. -/
def divergence (g k : ℕ) : Option (ℕ × H) :=
  match s.files g, s.segmentMetadata g with
  | some f, some m =>
    if k < blockCount cfg m then
      (cfg.codec.decode (readAt f.bytes (blockPosition cfg k) cfg.codec.fixedBlockSizeBytes)).map
        fun block => (block.entry.walSeq, block.entry.previousTipHash)
    else if k = blockCount cfg m then some (m.write.walSeq + 1, m.write.tipHash)
    else none
  | _, _ => none

/-- The active segment and those between are discarded. `deleted` says after how many files the
deletion stops; the result says whether it went through. -/
def unwindActiveToSealed (g : ℕ) (deleted : Option ℕ) : Option (DiskShard β H × Bool) :=
  (s.segmentMetadata g).map fun target =>
    let last := (deleted.map (g + ·)).getD s.active.logId
    ({ files := fun g' => if g < g' ∧ g' ≤ min last s.active.logId then none else s.files g'
       newestLogId := s.newestLogId
       active := target
       cached := fun g' => if g ≤ g' then none else s.cached g' }, deleted.isNone)

/-- Rewinds a cursor; the datablock position stays. -/
def rewindCursor (c : LogSegmentCursor H) (position walSeq : ℕ) (tipHash : H) :
    LogSegmentCursor H :=
  { c with metablocksPosition := position, walSeq := walSeq, tipHash := tipHash }

/-- Both headers of the active segment are written. -/
def writeActiveHeader (outcome : HeaderOutcome) : DiskShard β H :=
  match s.files s.active.logId with
  | none => s
  | some f =>
    s.setFile s.active.logId (f.writeDualShardLogHeader s.active.toShardLogHeader outcome)

/-- The carry-over buffer is read again. -/
def refreshCarryOver : DiskShard β H :=
  match s.files s.active.logId with
  | none => s
  | some f =>
    { s with
      active :=
        { s.active with
          datablocksCarryOver :=
            f.readDatablocksCarryOverBytes s.active.write.datablocksPosition } }

/-- The rewind of the active segment and what follows it. -/
def rewindActive (position divergentWalSeq : ℕ) (ancestorHash : H) (outcome : HeaderOutcome) :
    DiskShard β H :=
  let rewind := fun c => rewindCursor c position (divergentWalSeq - 1) ancestorHash
  let s := { s with
    active := { s.active with write := rewind s.active.write, read := s.active.read.map rewind } }
  match outcome with
  | none => (s.writeActiveHeader none).refreshCarryOver
  | some fates => s.writeActiveHeader (some fates)

/-- Truncation at the `k`-th block of segment `g`. -/
def truncateWal (g k : ℕ) (deleted : Option ℕ) (outcome : HeaderOutcome) : DiskShard β H :=
  match s.divergence cfg g k with
  | none => s
  | some (walSeq, ancestorHash) =>
    if g = s.active.logId then s.rewindActive (blockPosition cfg k) walSeq ancestorHash outcome
    else if s.active.logId < g then s
    else
      match s.unwindActiveToSealed g deleted with
      | none => s
      | some (s, false) => s
      | some (s, true) => s.rewindActive (blockPosition cfg k) walSeq ancestorHash outcome

/-- `cull_tail`: the cursors are moved, and the header is written. -/
def cullTail (target : CullTarget H) (outcome : HeaderOutcome) : DiskShard β H :=
  ({ s with active := target.moved s.active } : DiskShard β H).writeActiveHeader outcome

/-! ## Commits, the cache and restarts -/

/-- A commit moves the read cursor of a segment in memory. -/
def commitRead (g : ℕ) (cursor : LogSegmentCursor H) : DiskShard β H :=
  if g = s.active.logId then { s with active := { s.active with read := some cursor } }
  else
    match s.cached g with
    | none => s
    | some m => { s with cached := update s.cached g (some { m with read := some cursor }) }

def evictFromLru (g : ℕ) : DiskShard β H := { s with cached := update s.cached g none }

/-- A sealed segment is brought into the cache. -/
def load (g : ℕ) : DiskShard β H :=
  if s.active.logId ≤ g then s
  else
    match s.segmentMetadata g with
    | none => s
    | some m => { s with cached := update s.cached g (some m) }

/-- The greatest id of a file, from the given one down. -/
def findLatestLogFile (files : ℕ → Option (SegmentFile β H)) : ℕ → Option ℕ
  | 0 => (files 0).map fun _ => 0
  | g + 1 => if (files (g + 1)).isSome then some (g + 1) else findLatestLogFile files g

/-- A first file is made, with the id given. -/
def createFirst (files : ℕ → Option (SegmentFile β H)) (newestLogId g : ℕ) :
    Option (DiskShard β H) :=
  let f := cfg.newFile 0 cfg.genesisHash true
  (f.openSegment g true).map fun m =>
    ⟨update files g (some f), max newestLogId g, m, fun _ => none⟩

/-- Opens the newest file; orphans are deleted and the file before is tried. -/
def readyUp (files : ℕ → Option (SegmentFile β H)) (newestLogId : ℕ) : ℕ → Option (DiskShard β H)
  | 0 => none
  | g + 1 =>
    match files (g + 1) with
    | none => createFirst cfg files newestLogId (g + 1)
    | some f =>
      match f.openSegment (g + 1) true with
      | some m => some ⟨files, newestLogId, m, fun _ => none⟩
      | none =>
        if f.isZeroDualHeaderOrphan then
          let files := update files (g + 1) none
          if g = 0 then createFirst cfg files newestLogId 1 else readyUp files newestLogId g
        else none

/-- The shard is opened from its files. -/
def restart : Option (DiskShard β H) :=
  readyUp cfg s.files s.newestLogId ((findLatestLogFile s.files s.newestLogId).getD 1)

/-- A shard that starts on an empty directory. -/
def start : DiskShard β H where
  files := update (fun _ => none) 1 (some (cfg.newFile 0 cfg.genesisHash true))
  newestLogId := 1
  active :=
    { logId := 1
      fileLen := cfg.preallocateBytes
      write := { (cfg.newHeader 0 cfg.genesisHash true).write with logId := 1 }
      read := some { (cfg.newHeader 0 cfg.genesisHash true).write with logId := 1 }
      datablocksCarryOver :=
        (cfg.newFile 0 cfg.genesisHash true).readDatablocksCarryOverBytes
          (cfg.preallocateBytes - headerBlockSizeBytes) }
  cached := fun _ => none

/-- The operations of a shard, with how they fail. -/
inductive Action (β H C : Type*)
  | fsync (items : List (QueueItem β C)) (fullCommit : Bool) (rotation : Option RotationFailure)
      (interruption : Option Interruption)
  | truncateWal (g k : ℕ) (deleted : Option ℕ) (outcome : HeaderOutcome)
  | cullTail (target : CullTarget H) (outcome : HeaderOutcome)
  | syncHeaderOnly (outcome : HeaderOutcome)
  | commitRead (g : ℕ) (cursor : LogSegmentCursor H)
  | evictFromLru (g : ℕ)
  | load (g : ℕ)
  | restart

/-- One operation, run to its end. -/
def step : Action β H C → Option (DiskShard β H)
  | .fsync items fullCommit rotation interruption =>
    some (s.commitFsyncWithRollback cfg items fullCommit rotation interruption)
  | .truncateWal g k deleted outcome => some (s.truncateWal cfg g k deleted outcome)
  | .cullTail target outcome => some (s.cullTail target outcome)
  | .syncHeaderOnly outcome => some (s.writeActiveHeader outcome)
  | .commitRead g cursor => some (s.commitRead g cursor)
  | .evictFromLru g => some (s.evictFromLru g)
  | .load g => some (s.load g)
  | .restart => s.restart cfg

/-! ## What the steps do -/

section Spec

variable {cfg s} {items : List (QueueItem β C)} {t : DiskShard β H}

/-- A batch that fits leaves its metablocks below the datablock cursor. -/
theorem fits_of_space {m : SegmentMetadata β H}
    (space : cfg.totalRequired items ≤ m.availableSpace) :
    m.write.metablocksPosition + alignUp minWriteAlignment (bufferSizeMetablocks cfg.codec items) ≤
      m.write.datablocksPosition := by
  have sector : minWriteAlignment = 4096 := rfl
  unfold WalConfig.totalRequired at space
  unfold SegmentMetadata.availableSpace at space
  dsimp only at space
  omega

variable (cfg s) in
theorem rotateToNextLog_cases (failure : Option RotationFailure) :
    s.rotateToNextLog cfg failure = (s, false) ∨
    (∃ f n, (∀ f', f = some f' → cfg.HeaderWritten f') ∧ s.rotateToNextLog cfg failure =
      ({ s with files := update s.files (s.active.logId + 1) f, newestLogId := n }, false)) ∨
    s.rotateToNextLog cfg failure = (s.rotated cfg, true) := by
  unfold rotateToNextLog
  dsimp only
  split
  · exact .inl rfl
  · rcases failure with _ | _ | fates
    · exact .inr (.inr rfl)
    · exact .inr (.inl ⟨none, s.newestLogId, nofun, rfl⟩)
    · exact .inr (.inl ⟨_, _, fun f' same => ⟨_, _, _, _, Option.some.inj same.symm⟩, rfl⟩)

/-- **What an fsync does**: it changes nothing, leaves a failed rotation behind, or lays the batch
out in the active segment or in the one it rotates to. -/
theorem commitFsync_cases (items : List (QueueItem β C)) (fullCommit : Bool)
    (rotation : Option RotationFailure) (interruption : Option Interruption)
    (fsync : s.commitFsyncWithRollback cfg items fullCommit rotation interruption = t) :
    t = s ∨
    (∃ f n, (∀ f', f = some f' → cfg.HeaderWritten f') ∧ t =
      { s with files := update s.files (s.active.logId + 1) f, newestLogId := n }) ∨
    (cfg.totalRequired items ≤ s.active.availableSpace ∧
      t = s.syncActive cfg items fullCommit interruption) ∨
    (cfg.totalRequired items ≤ (s.rotated cfg).active.availableSpace ∧
      t = (s.rotated cfg).syncActive cfg items fullCommit interruption) := by
  unfold commitFsyncWithRollback at fsync
  split at fsync
  · split at fsync
    · exact .inl fsync.symm
    next large =>
      have space : (s.rotated cfg).active.availableSpace =
          cfg.preallocateBytes - headerBlockSizeBytes - headerBlockSizeBytes := rfl
      obtain none | ⟨f, n, created, left⟩ | rotated := rotateToNextLog_cases cfg s rotation
      · rw [none] at fsync
        exact .inl fsync.symm
      · rw [left] at fsync
        exact .inr (.inl ⟨f, n, created, fsync.symm⟩)
      · rw [rotated] at fsync
        exact .inr (.inr (.inr ⟨by omega, fsync.symm⟩))
  next space => exact .inr (.inr (.inl ⟨by omega, fsync.symm⟩))

/-- **What the write of a batch does**: nothing, or it goes through, or it is interrupted. -/
theorem syncActive_cases (items : List (QueueItem β C)) (fullCommit : Bool)
    (interruption : Option Interruption)
    (synced : s.syncActive cfg items fullCommit interruption = t) :
    t = s ∨ ∃ f plan datablocks, s.files s.active.logId = some f ∧
      Lays cfg.codec cfg.hash s.active items plan datablocks ∧
      ((interruption = none ∧ t =
        { s.setFile s.active.logId
            ({ f with bytes := applyAll plan.writes f.bytes }.writeDualShardLogHeader
              plan.metadata.toShardLogHeader none) with
          active := plan.metadata }) ∨
      ∃ bytes' fates, Landed f.bytes plan.writes bytes' ∧ t =
        s.setFile s.active.logId
          ({ f with bytes := bytes' }.writeDualShardLogHeader plan.metadata.toShardLogHeader
            (some fates))) := by
  unfold syncActive at synced
  split at synced
  · exact .inl synced.symm
  next f file =>
    split at synced
    · exact .inl synced.symm
    next plan planned =>
      obtain ⟨datablocks, lays⟩ := sync_ok planned
      refine .inr ⟨f, plan, datablocks, file, lays, ?_⟩
      rcases interruption with _ | i
      · exact .inl ⟨rfl, synced.symm⟩
      · exact .inr ⟨_, _, landed_applySome i.reached 0 plan.writes f.bytes, synced.symm⟩

/-- **What an fsync does to the active file**: nothing, or some of the writes of the batch. -/
theorem commitFsync_activeFile {fullCommit} {rotation interruption}
    (fsync : s.commitFsyncWithRollback cfg items fullCommit rotation interruption = t)
    {f} (file : s.files s.active.logId = some f) :
    ∃ f', t.files s.active.logId = some f' ∧ (f'.bytes = f.bytes ∨
      cfg.totalRequired items ≤ s.active.availableSpace ∧ ∃ plan datablocks,
        Lays cfg.codec cfg.hash s.active items plan datablocks ∧
        Landed f.bytes plan.writes f'.bytes) := by
  obtain rfl | ⟨new, n, -, rfl⟩ | ⟨space, synced⟩ | ⟨space, synced⟩ :=
    commitFsync_cases _ _ _ _ fsync
  · exact ⟨f, file, .inl rfl⟩
  · exact ⟨f, (update_of_ne (by omega) ..).trans file, .inl rfl⟩
  · obtain rfl | ⟨f', plan, datablocks, found, lays, done⟩ := syncActive_cases _ _ _ synced.symm
    · exact ⟨f, file, .inl rfl⟩
    obtain rfl : f = f' := Option.some.inj (file.symm.trans found)
    rcases done with ⟨-, rfl⟩ | ⟨bytes', fates, landed, rfl⟩
    · refine ⟨_, s.files_setFile_self _ _, .inr ⟨space, plan, datablocks, lays, ?_⟩⟩
      exact landed_applyAll f.bytes plan.writes
    · refine ⟨_, s.files_setFile_self _ _, .inr ⟨space, plan, datablocks, lays, ?_⟩⟩
      rw [SegmentFile.bytes_writeDualShardLogHeader]
      exact landed
  · -- after a rotation the batch goes to the new file
    have unmoved : (s.rotated cfg).files s.active.logId = some f := by
      rw [files_rotated, update_of_ne (by omega), file]
    have other : s.active.logId ≠ (s.rotated cfg).active.logId := by
      rw [logId_rotated]
      omega
    obtain rfl | ⟨f', plan, datablocks, -, -, ⟨-, rfl⟩ | ⟨bytes', fates, -, rfl⟩⟩ :=
      syncActive_cases _ _ _ synced.symm
    · exact ⟨f, unmoved, .inl rfl⟩
    · exact ⟨f, (files_setFile_of_ne _ other _).trans unmoved, .inl rfl⟩
    · exact ⟨f, (files_setFile_of_ne _ other _).trans unmoved, .inl rfl⟩

/-- **What a truncation does**: nothing, or it rewinds the active segment, or it unwinds to a sealed
segment and rewinds that, unless the deletion of the others fails. -/
theorem truncateWal_cases {g k deleted outcome}
    (truncated : s.truncateWal cfg g k deleted outcome = t) :
    t = s ∨ ∃ walSeq ancestorHash, s.divergence cfg g k = some (walSeq, ancestorHash) ∧
      ((g = s.active.logId ∧
        t = s.rewindActive (blockPosition cfg k) walSeq ancestorHash outcome) ∨
      g < s.active.logId ∧ ∃ u complete, s.unwindActiveToSealed g deleted = some (u, complete) ∧
        (t = u ∨ t = u.rewindActive (blockPosition cfg k) walSeq ancestorHash outcome)) := by
  unfold truncateWal at truncated
  split at truncated
  · exact .inl truncated.symm
  next walSeq ancestorHash point =>
    split at truncated
    next same => exact .inr ⟨walSeq, ancestorHash, point, .inl ⟨same, truncated.symm⟩⟩
    next other =>
      split at truncated
      · exact .inl truncated.symm
      next notAbove =>
        have below : g < s.active.logId := by omega
        split at truncated
        · exact .inl truncated.symm
        next u unwound =>
          exact .inr ⟨walSeq, ancestorHash, point,
            .inr ⟨below, u, false, unwound, .inl truncated.symm⟩⟩
        next u unwound =>
          exact .inr ⟨walSeq, ancestorHash, point,
            .inr ⟨below, u, true, unwound, .inr truncated.symm⟩⟩

/-- An unwinding makes the target active, and keeps the files up to it. -/
theorem unwind_eq_some {g deleted u complete}
    (unwound : s.unwindActiveToSealed g deleted = some (u, complete)) :
    s.segmentMetadata g = some u.active ∧ (∀ g' ≤ g, u.files g' = s.files g') ∧
      (∀ g' f, u.files g' = some f → s.files g' = some f) ∧
      (∀ g', u.cached g' = if g ≤ g' then none else s.cached g') := by
  obtain ⟨target, metadata, unwinds⟩ := Option.map_eq_some_iff.mp unwound
  cases unwinds
  refine ⟨metadata, fun g' le => if_neg (by omega), fun g' f found => ?_, fun _ => rfl⟩
  dsimp only at found
  split at found
  · cases found
  · exact found

end Spec

end DiskShard

/-! ## A small shard

Blocks whose first byte is the metablock itself, in files of sixteen sectors. -/

namespace Sample

inductive Cell
  | zero
  | block (m : StoredMetablock ℕ ℕ)
  | data (n : ℕ)
  deriving DecidableEq, Repr

def codec : MetablockCodec Cell ℕ ℕ where
  fixedBlockSizeBytes := 1024
  zero := .zero
  encode m := .block m :: List.replicate 1023 .zero
  decode
    | .block m :: _ => some m
    | _ => none
  block_pos := by decide
  length_encode m := by rw [List.length_cons, List.length_replicate]
  decode_encode m := rfl

def config : WalConfig Cell ℕ ℕ where
  codec := codec
  hash e := 10 * e.walSeq + e.content
  genesisHash := 0
  preallocateBytes := 65536
  aligned := by decide
  large := by decide

/-- An item with an external datablock of equal bytes. -/
def external (content size : ℕ) : QueueItem Cell ℕ :=
  ⟨content, some (List.replicate size (.data content)), 0⟩

/-- An item without external bytes. -/
def inline (content : ℕ) : QueueItem Cell ℕ := ⟨content, none, 0⟩

/-- An fsync that goes through. -/
def fsync (items : List (QueueItem Cell ℕ)) (fullCommit : Bool) : DiskShard.Action Cell ℕ ℕ :=
  .fsync items fullCommit none none

end Sample

end Celeriant.Wal
