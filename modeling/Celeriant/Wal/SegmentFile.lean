import Celeriant.Lib.ByteFile
import Celeriant.Lib.HashChain

/-!
# The bytes of a segment file

A segment file starts and ends with a copy of its header. Behind the front copy the metablocks grow
upwards, in blocks of one size; in front of the rear copy the external datablocks grow downwards.
The write cursor of the header says where both end. `sync` lays out a batch: the datablocks below
the datablock cursor, the first item highest, then the metablocks, stamped with the positions of the
datablocks and chained, and at last both headers.

Writes cover whole sectors. A datablock that ends inside a sector is rewritten together with the
next batch, from a copy of its bytes in memory, the *carry-over* buffer.

The serialisation of a metablock is given by a codec. A header slot is zero, valid or torn, since a
torn one does not pass its checksum. The external bytes of a queued item are there exactly when its
datablock is external. The per-aggregate backlinks, the bloom filters, and the barrier and the
promotion floor of a header are left out.

## Main results

* `sync_ok`: what a batch that is laid out has checked, and what it writes
* `Lays.readBlocks_applyAll`: its metablocks read back
* `Lays.eq_below`: what lies below the metablock cursor stays
-/

namespace Celeriant.Wal

open HashChain ByteFile List Option

def headerBlockSizeBytes : ℕ := 4096

def minWriteAlignment : ℕ := 4096

/-- A metablock as it is stored: the hashed part and the node-local position of its datablock. -/
structure StoredMetablock (H C : Type*) where
  entry : Entry H C
  datablockPosition : ℕ
  deriving DecidableEq, Repr

/-- How metablocks are serialised. `zero` is the padding byte. -/
structure MetablockCodec (β H C : Type*) where
  fixedBlockSizeBytes : ℕ
  zero : β
  encode : StoredMetablock H C → List β
  decode : List β → Option (StoredMetablock H C)
  block_pos : 0 < fixedBlockSizeBytes
  length_encode : ∀ m, (encode m).length = fixedBlockSizeBytes
  decode_encode : ∀ m, decode (encode m) = some m

/-- An item of the append queue. An item without external bytes keeps the position it came with. -/
structure QueueItem (β C : Type*) where
  content : C
  datablockBytes : Option (List β)
  datablockPosition : ℕ
  deriving DecidableEq, Repr

/-- `zero` and unreadable headers are told apart: a file with two zero headers is an orphan. -/
inductive HeaderSlot (α : Type*)
  | zero
  | torn
  | valid (header : α)
  deriving DecidableEq, Repr

def HeaderSlot.header? {α : Type*} : HeaderSlot α → Option α
  | zero | torn => none
  | valid header => some header

/-- A position in the log and in the file. -/
structure HeaderCursor (H : Type*) where
  metablocksPosition : ℕ
  datablocksPosition : ℕ
  walSeq : ℕ
  tipHash : H
  deriving DecidableEq, Repr

/-- A zero read cursor says that there is none. -/
structure ShardLogHeader (H : Type*) where
  write : HeaderCursor H
  read : Option (HeaderCursor H)
  deriving DecidableEq, Repr

/-- A cursor in memory also names its segment. -/
structure LogSegmentCursor (H : Type*) extends HeaderCursor H where
  logId : ℕ
  deriving DecidableEq, Repr

/-- The cursors of a segment in memory. -/
structure SegmentMetadata (β H : Type*) where
  logId : ℕ
  fileLen : ℕ
  write : LogSegmentCursor H
  read : Option (LogSegmentCursor H)
  datablocksCarryOver : Option (List β)
  deriving DecidableEq, Repr

/-- The bytes of a segment, and its two headers. -/
structure SegmentFile (β H : Type*) where
  length : ℕ
  bytes : ℕ → β
  front : HeaderSlot (ShardLogHeader H)
  rear : HeaderSlot (ShardLogHeader H)

namespace SegmentMetadata

variable {β H : Type*} (m : SegmentMetadata β H)

/-- Between the metablocks and the datablocks. -/
def availableSpace : ℕ := m.write.datablocksPosition - m.write.metablocksPosition

def toShardLogHeader : ShardLogHeader H :=
  ⟨m.write.toHeaderCursor, m.read.map (·.toHeaderCursor)⟩

def advanceVisiblePosition : SegmentMetadata β H := { m with read := some m.write }

end SegmentMetadata

namespace SegmentFile

variable {β H : Type*} (f : SegmentFile β H)

/-- The front copy, or the rear one when the front one is unreadable. -/
def loadHeaderDetectingCorruption : Option (ShardLogHeader H) := f.front.header?.or f.rear.header?

/-- A file whose headers were never written. -/
def isZeroDualHeaderOrphan : Bool :=
  match f.front, f.rear with
  | .zero, .zero => true
  | _, _ => false

/-- The size of the part of a sector above a datablock position. -/
def carryOverSize (datablocksPosition : ℕ) : ℕ :=
  alignUp minWriteAlignment datablocksPosition - datablocksPosition

/-- The bytes from a datablock position to the end of its sector. -/
def readDatablocksCarryOverBytes (datablocksPosition : ℕ) : Option (List β) :=
  if 0 < carryOverSize datablocksPosition then
    some (readAt f.bytes datablocksPosition (carryOverSize datablocksPosition))
  else none

/-- The metadata of a segment that is opened. -/
def openSegment (logId : ℕ) (advanceRead : Bool) : Option (SegmentMetadata β H) :=
  f.loadHeaderDetectingCorruption.map fun header =>
    { logId := logId
      fileLen := f.length
      write := { header.write with logId := logId }
      read := if advanceRead then header.read.map fun c => { c with logId := logId } else none
      datablocksCarryOver := f.readDatablocksCarryOverBytes header.write.datablocksPosition }

end SegmentFile

/-! ## Laying out a batch -/

section Sync

variable {β H C : Type*} (codec : MetablockCodec β H C) (hash : Entry H C → H)

/-- The external bytes of a batch. -/
def bufferSizeDatablocks (items : List (QueueItem β C)) : ℕ :=
  (items.map fun item => (item.datablockBytes.map List.length).getD 0).sum

def bufferSizeMetablocks (items : List (QueueItem β C)) : ℕ :=
  items.length * codec.fixedBlockSizeBytes

/-- The external bytes of a batch as they lie in the file: the first item highest. -/
def datablockArea (items : List (QueueItem β C)) : List β :=
  items.reverse.flatMap fun item => item.datablockBytes.getD []

/-- Numbers and chains the items onto the tip and gives the external ones their positions, downwards
from `position`. -/
def storeItems : ℕ → H → ℕ → List (QueueItem β C) → List (StoredMetablock H C)
  | _, _, _, [] => []
  | n, h, position, item :: items =>
    let entry : Entry H C := ⟨n + 1, h, item.content⟩
    match item.datablockBytes with
    | some bytes =>
      ⟨entry, position - bytes.length⟩ ::
        storeItems (n + 1) (hash entry) (position - bytes.length) items
    | none => ⟨entry, item.datablockPosition⟩ :: storeItems (n + 1) (hash entry) position items

/-- Why a batch is not laid out. -/
inductive SyncError
  | overlappingWriteRanges (dataStart dataEnd metaStart metaEnd : ℕ)
  | datablocksCarryOverBufferNotPresent
  deriving DecidableEq, Repr

/-- The metablocks end below the datablocks. -/
def checkBatchWriteRanges (dataStart dataEnd metaStart metaEnd : ℕ) : Except SyncError Unit :=
  if dataStart < dataEnd ∧ metaStart < metaEnd ∧ metaEnd ≤ dataStart then .ok ()
  else .error (.overlappingWriteRanges dataStart dataEnd metaStart metaEnd)

/-- The writes of a batch besides the headers, and the metadata after it. -/
structure SyncPlan (β H : Type*) where
  writes : List (FileWrite β)
  metadata : SegmentMetadata β H

/-- The datablock cursor after a batch, its carry-over buffer and the datablock write, if any. -/
def planDatablocks (m : SegmentMetadata β H) (items : List (QueueItem β C)) :
    Except SyncError (ℕ × Option (List β) × List (FileWrite β)) :=
  let metaStart := m.write.metablocksPosition
  let metaEnd := metaStart + alignUp minWriteAlignment (bufferSizeMetablocks codec items)
  let total := bufferSizeDatablocks items
  if 0 < total then
    let writeTo := alignUp minWriteAlignment m.write.datablocksPosition
    let position := m.write.datablocksPosition - total
    let writeFrom := alignDown minWriteAlignment position
    match checkBatchWriteRanges writeFrom writeTo metaStart metaEnd with
    | .error e => .error e
    | .ok () =>
      let endCarryOver := writeTo - m.write.datablocksPosition
      if 0 < endCarryOver ∧ m.datablocksCarryOver.map List.length ≠ some endCarryOver then
        .error .datablocksCarryOverBufferNotPresent
      else
        let carried := if 0 < endCarryOver then m.datablocksCarryOver.getD [] else []
        let area := datablockArea items ++ carried
        let size := SegmentFile.carryOverSize position
        .ok (position, if 0 < size then some (area.take size) else m.datablocksCarryOver,
          [⟨writeFrom, List.replicate (position - writeFrom) codec.zero ++ area⟩])
  else .ok (m.write.datablocksPosition, m.datablocksCarryOver, [])

/-- The stamped metablocks of a batch. -/
def planMetablocks (m : SegmentMetadata β H) (items : List (QueueItem β C)) :
    List (StoredMetablock H C) :=
  storeItems hash m.write.walSeq m.write.tipHash m.write.datablocksPosition items

/-- The write of the metablocks, padded to whole sectors. -/
def metablocksWrite (m : SegmentMetadata β H) (items : List (QueueItem β C)) : FileWrite β :=
  let content := bufferSizeMetablocks codec items
  ⟨m.write.metablocksPosition,
    (planMetablocks hash m items).flatMap codec.encode ++
      List.replicate (alignUp minWriteAlignment content - content) codec.zero⟩

/-- Lays a batch out: its writes, and the record after them. -/
def sync (m : SegmentMetadata β H) (items : List (QueueItem β C)) (fullCommit : Bool) :
    Except SyncError (SyncPlan β H) :=
  match planDatablocks codec m items with
  | .error e => .error e
  | .ok (datablocksPosition, carryOver, datablocks) =>
    let write : LogSegmentCursor H :=
      { m.write with
        metablocksPosition := m.write.metablocksPosition + bufferSizeMetablocks codec items
        datablocksPosition := datablocksPosition
        walSeq := m.write.walSeq + items.length
        tipHash :=
          tipAfter hash m.write.tipHash ((planMetablocks hash m items).map (·.entry)) }
    let metadata : SegmentMetadata β H :=
      { m with write := write, datablocksCarryOver := carryOver }
    .ok ⟨datablocks ++ [metablocksWrite codec hash m items],
      if fullCommit then metadata.advanceVisiblePosition else metadata⟩

end Sync

/-! ## Reading metablocks -/

section Read

variable {β H C : Type*} (codec : MetablockCodec β H C)

/-- The metablocks from a position on; `none` when one does not decode. -/
def readBlocks (bytes : ℕ → β) : ℕ → ℕ → Option (List (StoredMetablock H C))
  | _, 0 => some []
  | position, count + 1 =>
    match codec.decode (readAt bytes position codec.fixedBlockSizeBytes) with
    | none => none
    | some m => (readBlocks bytes (position + codec.fixedBlockSizeBytes) count).map (m :: ·)

/-- The metablocks below a metablock position. -/
def readMetablocks (bytes : ℕ → β) (metablocksPosition : ℕ) :
    Option (List (StoredMetablock H C)) :=
  readBlocks codec bytes headerBlockSizeBytes
    ((metablocksPosition - headerBlockSizeBytes) / codec.fixedBlockSizeBytes)

variable {codec} {bytes : ℕ → β} {position count : ℕ} {ms : List (StoredMetablock H C)}

theorem readBlocks_congr {bytes'}
    (same : ∀ i, position ≤ i → i < position + count * codec.fixedBlockSizeBytes →
      bytes i = bytes' i) :
    readBlocks codec bytes position count = readBlocks codec bytes' position count := by
  induction count generalizing position with
  | zero => rfl
  | succ count ih =>
    have first : readAt bytes position codec.fixedBlockSizeBytes =
        readAt bytes' position codec.fixedBlockSizeBytes := by
      refine readAt_congr fun i lower upper => same i lower ?_
      rw [Nat.succ_mul]
      omega
    rw [readBlocks, readBlocks, first, ih]
    intro i lower upper
    refine same i (by omega) ?_
    rw [Nat.succ_mul]
    omega

theorem readBlocks_add {count'} {ms'} (front : readBlocks codec bytes position count = some ms)
    (rest : readBlocks codec bytes (position + count * codec.fixedBlockSizeBytes) count' =
      some ms') :
    readBlocks codec bytes position (count + count') = some (ms ++ ms') := by
  induction count generalizing position ms with
  | zero =>
    cases front
    simpa using rest
  | succ count ih =>
    rw [readBlocks] at front
    rw [Nat.succ_add, readBlocks]
    split at front
    · cases front
    next m decoded =>
      obtain ⟨tail, reads, rfl⟩ := map_eq_some_iff.mp front
      have shifted : position + codec.fixedBlockSizeBytes + count * codec.fixedBlockSizeBytes =
          position + (count + 1) * codec.fixedBlockSizeBytes := by
        rw [Nat.succ_mul]
        omega
      rw [ih reads (shifted ▸ rest)]
      rfl

theorem length_of_readBlocks
    (reads : readBlocks codec bytes position count = some ms) : ms.length = count := by
  induction count generalizing position ms with
  | zero =>
    cases reads
    rfl
  | succ count ih =>
    rw [readBlocks] at reads
    split at reads
    · cases reads
    · obtain ⟨tail, rest, rfl⟩ := map_eq_some_iff.mp reads
      rw [length_cons, ih rest]

/-- The first metablocks that are read. -/
theorem readBlocks_take {k}
    (reads : readBlocks codec bytes position count = some ms) (le : k ≤ ms.length) :
    readBlocks codec bytes position k = some (ms.take k) := by
  induction k generalizing position count ms with
  | zero => rfl
  | succ k ih =>
    cases ms with
    | nil => exact absurd le (Nat.not_succ_le_zero k)
    | cons m ms =>
      obtain ⟨count, rfl⟩ : ∃ n, count = n + 1 :=
        ⟨ms.length, (length_of_readBlocks reads).symm⟩
      rw [readBlocks] at reads ⊢
      split at reads
      · cases reads
      next m' decoded =>
        obtain ⟨tail, rest, same⟩ := map_eq_some_iff.mp reads
        cases same
        rw [ih rest (Nat.le_of_succ_le_succ le)]
        rfl

/-- The block at an index decodes to what is read there. -/
theorem decode_of_readBlocks {k} (reads : readBlocks codec bytes position count = some ms)
    (lt : k < count) :
    codec.decode (readAt bytes (position + k * codec.fixedBlockSizeBytes)
      codec.fixedBlockSizeBytes) = ms[k]? := by
  induction count generalizing position k ms with
  | zero => cases lt
  | succ count ih =>
    rw [readBlocks] at reads
    split at reads
    · cases reads
    next m decoded =>
      obtain ⟨tail, rest, rfl⟩ := map_eq_some_iff.mp reads
      cases k with
      | zero => simpa using decoded
      | succ k =>
        have shifted : position + (k + 1) * codec.fixedBlockSizeBytes =
            position + codec.fixedBlockSizeBytes + k * codec.fixedBlockSizeBytes := by
          rw [Nat.succ_mul]
          omega
        rw [shifted, ih rest (by omega)]
        rfl

theorem length_flatMap_encode (ms : List (StoredMetablock H C)) :
    (ms.flatMap codec.encode).length = ms.length * codec.fixedBlockSizeBytes := by
  induction ms with
  | nil => simp
  | cons m ms ih =>
    rw [flatMap_cons, length_append, ih, codec.length_encode, length_cons,
      Nat.succ_mul, Nat.add_comm]

/-- Encoded metablocks read back. -/
theorem readBlocks_of_encoded
    (encoded : readAt bytes position (ms.length * codec.fixedBlockSizeBytes) =
      ms.flatMap codec.encode) :
    readBlocks codec bytes position ms.length = some ms := by
  induction ms generalizing position with
  | nil => rfl
  | cons m ms ih =>
    rw [length_cons, Nat.succ_mul, Nat.add_comm, readAt_add, flatMap_cons] at encoded
    obtain ⟨first, rest⟩ := append_inj encoded (by rw [length_readAt, codec.length_encode])
    rw [length_cons, readBlocks, first, codec.decode_encode, ih rest]
    rfl

end Read

/-! ## What a batch writes -/

section SyncSpec

variable {β H C : Type*} {codec : MetablockCodec β H C} {hash : Entry H C → H}
  {m : SegmentMetadata β H} {items : List (QueueItem β C)}

theorem length_datablockArea : (datablockArea items).length = bufferSizeDatablocks items := by
  unfold datablockArea bufferSizeDatablocks
  rw [length_flatMap, map_reverse, sum_reverse]
  congr 1
  refine map_congr_left fun item _ => ?_
  cases item.datablockBytes <;> rfl

theorem bufferSizeDatablocks_cons (item : QueueItem β C) (items : List (QueueItem β C)) :
    bufferSizeDatablocks (item :: items) =
      (item.datablockBytes.map List.length).getD 0 + bufferSizeDatablocks items := by
  simp [bufferSizeDatablocks]

/-- **Where the external datablocks of a batch lie**: when the file holds the area, each one reads
back at the position stamped, and later ones lie below. -/
theorem storeItems_placed {bytes} (n : ℕ) (h : H) {base position}
    (place : base + bufferSizeDatablocks items = position)
    (area : readAt bytes base (bufferSizeDatablocks items) = datablockArea items) :
    (∀ a ∈ (storeItems hash n h position items).zip (items.map (·.datablockBytes)),
      (n < a.1.entry.walSeq ∧ a.1.entry.walSeq ≤ n + items.length) ∧ ∀ data ∈ a.2,
        base ≤ a.1.datablockPosition ∧ a.1.datablockPosition + data.length ≤ position ∧
        readAt bytes a.1.datablockPosition data.length = data) ∧
    ((storeItems hash n h position items).zip (items.map (·.datablockBytes))).Pairwise fun a a' =>
      a.1.entry.walSeq < a'.1.entry.walSeq ∧ ∀ data ∈ a.2, ∀ data' ∈ a'.2,
        a'.1.datablockPosition + data'.length ≤ a.1.datablockPosition := by
  induction items generalizing n h position with
  | nil => exact ⟨by simp, by simp⟩
  | cons item items ih =>
    have stacked : datablockArea (item :: items) =
        datablockArea items ++ item.datablockBytes.getD [] := by simp [datablockArea]
    rw [bufferSizeDatablocks_cons, Nat.add_comm _ (bufferSizeDatablocks items)] at place area
    rw [storeItems, length_cons, map_cons]
    rw [stacked] at area
    cases own : item.datablockBytes with
    | some own' =>
      simp only [own, map_some, getD_some, zip_cons_cons] at place area ⊢
      rw [readAt_add] at area
      obtain ⟨later, top⟩ := append_inj area (by rw [length_readAt, length_datablockArea])
      -- the item's own bytes lie on top of those of the later items
      have ownPlace : position - own'.length = base + bufferSizeDatablocks items := by omega
      rw [ownPlace]
      obtain ⟨each, order⟩ := ih (n + 1) (hash ⟨n + 1, h, item.content⟩) rfl later
      refine ⟨forall_mem_cons.mpr ⟨⟨by dsimp only; omega, ?_⟩, fun a mem => ?_⟩,
        pairwise_cons.mpr ⟨fun a mem => ?_, order⟩⟩
      · rintro data ⟨⟩
        exact ⟨Nat.le_add_right _ _, by dsimp only; omega, top⟩
      · obtain ⟨numbered, placed⟩ := each a mem
        refine ⟨by omega, fun data isData => ?_⟩
        obtain ⟨lower, upper, reads⟩ := placed data isData
        exact ⟨lower, by omega, reads⟩
      · obtain ⟨numbered, placed⟩ := each a mem
        exact ⟨numbered.1, fun _ _ data isData => (placed data isData).2.1⟩
    | none =>
      simp only [own, map_none, getD_none, zip_cons_cons, Nat.add_zero,
        append_nil] at place area ⊢
      obtain ⟨each, order⟩ := ih (n + 1) (hash ⟨n + 1, h, item.content⟩) place area
      refine ⟨forall_mem_cons.mpr ⟨⟨by dsimp only; omega, by simp⟩, fun a mem => ?_⟩,
        pairwise_cons.mpr ⟨fun a mem => ⟨(each a mem).1.1, by simp⟩, order⟩⟩
      obtain ⟨numbered, placed⟩ := each a mem
      exact ⟨by omega, placed⟩

theorem entries_storeItems (n : ℕ) (h : H) (position : ℕ) (items : List (QueueItem β C)) :
    (storeItems hash n h position items).map (·.entry) =
      stamp hash n h (items.map (·.content)) := by
  induction items generalizing n h position with
  | nil => rfl
  | cons item items ih =>
    rw [storeItems]
    split
    · simp [stamp, ih]
    · simp [stamp, ih]

theorem length_planMetablocks : (planMetablocks hash m items).length = items.length := by
  have entries : (planMetablocks hash m items).map (·.entry) = _ := entries_storeItems _ _ _ items
  simpa using congrArg List.length entries

/-- The stamped metablocks continue the chain of the write cursor. -/
theorem extends_planMetablocks :
    Extends hash m.write.walSeq m.write.tipHash ((planMetablocks hash m items).map (·.entry)) := by
  unfold planMetablocks
  rw [entries_storeItems]
  exact (stamp_eq_iff.mp rfl).2

theorem ending_metablocksWrite :
    (metablocksWrite codec hash m items).ending =
      m.write.metablocksPosition +
        alignUp minWriteAlignment (bufferSizeMetablocks codec items) := by
  have fits : bufferSizeMetablocks codec items ≤
      alignUp minWriteAlignment (bufferSizeMetablocks codec items) := le_alignUp (by decide)
  unfold FileWrite.ending metablocksWrite
  rw [length_append, length_flatMap_encode, length_planMetablocks, length_replicate]
  unfold bufferSizeMetablocks at fits ⊢
  dsimp only
  omega

/-- The ways to lay out the datablocks of a batch. -/
theorem planDatablocks_ok {position : ℕ} {carryOver writes}
    (plan : planDatablocks codec m items = .ok (position, carryOver, writes)) :
    (bufferSizeDatablocks items = 0 ∧ position = m.write.datablocksPosition ∧
      carryOver = m.datablocksCarryOver ∧ writes = []) ∨
    ∃ carried, 0 < bufferSizeDatablocks items ∧
      position = m.write.datablocksPosition - bufferSizeDatablocks items ∧
      m.write.metablocksPosition + alignUp minWriteAlignment (bufferSizeMetablocks codec items) ≤
        alignDown minWriteAlignment position ∧
      carried.length = SegmentFile.carryOverSize m.write.datablocksPosition ∧
      (0 < SegmentFile.carryOverSize m.write.datablocksPosition →
        m.datablocksCarryOver = some carried) ∧
      carryOver = (if 0 < SegmentFile.carryOverSize position then
        some ((datablockArea items ++ carried).take (SegmentFile.carryOverSize position))
        else m.datablocksCarryOver) ∧
      writes = [⟨alignDown minWriteAlignment position,
        List.replicate (position - alignDown minWriteAlignment position) codec.zero ++
          (datablockArea items ++ carried)⟩] := by
  unfold planDatablocks at plan
  dsimp only at plan
  split at plan
  next some' =>
    right
    split at plan
    · cases plan
    next checked =>
      split at plan
      · cases plan
      next present =>
        cases plan
        have ranges : m.write.metablocksPosition +
            alignUp minWriteAlignment (bufferSizeMetablocks codec items) ≤
              alignDown minWriteAlignment
                (m.write.datablocksPosition - bufferSizeDatablocks items) := by
          unfold checkBatchWriteRanges at checked
          split at checked
          next ranges => exact ranges.2.2
          · cases checked
        refine ⟨_, some', rfl, ranges, ?_, ?_, rfl, rfl⟩
        · split
          next carries =>
            have length : m.datablocksCarryOver.map List.length = _ :=
              not_not.mp fun wrong => present ⟨carries, wrong⟩
            obtain ⟨carried, isSome, size⟩ := map_eq_some_iff.mp length
            rw [isSome]
            exact size
          next nothing =>
            unfold SegmentFile.carryOverSize
            simp only [length_nil]
            omega
        · intro carries
          have carries' : 0 < alignUp minWriteAlignment m.write.datablocksPosition -
              m.write.datablocksPosition := carries
          rw [if_pos carries']
          have length : m.datablocksCarryOver.map List.length = _ :=
            not_not.mp fun wrong => present ⟨carries', wrong⟩
          obtain ⟨carried, isSome, -⟩ := map_eq_some_iff.mp length
          rw [isSome]
          rfl
  next none =>
    cases plan
    exact .inl ⟨by omega, rfl, rfl, rfl⟩

/-- **What a batch that is laid out writes, and the metadata after it.** -/
structure Lays (codec : MetablockCodec β H C) (hash : Entry H C → H) (m : SegmentMetadata β H)
    (items : List (QueueItem β C)) (plan : SyncPlan β H) (datablocks : List (FileWrite β)) :
    Prop where
  planned : planDatablocks codec m items =
    .ok (plan.metadata.write.datablocksPosition, plan.metadata.datablocksCarryOver, datablocks)
  writes : plan.writes = datablocks ++ [metablocksWrite codec hash m items]
  logId : plan.metadata.logId = m.logId
  fileLen : plan.metadata.fileLen = m.fileLen
  writeLogId : plan.metadata.write.logId = m.write.logId
  metablocksPosition : plan.metadata.write.metablocksPosition =
    m.write.metablocksPosition + bufferSizeMetablocks codec items
  walSeq : plan.metadata.write.walSeq = m.write.walSeq + items.length
  tipHash : plan.metadata.write.tipHash =
    tipAfter hash m.write.tipHash ((planMetablocks hash m items).map (·.entry))
  read : plan.metadata.read = m.read ∨ plan.metadata.read = some plan.metadata.write

theorem sync_ok {fullCommit : Bool} {plan}
    (synced : sync codec hash m items fullCommit = .ok plan) :
    ∃ datablocks, Lays codec hash m items plan datablocks := by
  unfold sync at synced
  split at synced
  · cases synced
  next position carryOver datablocks planned =>
    cases synced
    refine ⟨datablocks, ?_⟩
    cases fullCommit
    · exact ⟨planned, rfl, rfl, rfl, rfl, rfl, rfl, rfl, .inl rfl⟩
    · exact ⟨planned, rfl, rfl, rfl, rfl, rfl, rfl, rfl, .inr rfl⟩

section Laid

variable {plan : SyncPlan β H} {datablocks : List (FileWrite β)}
  (lays : Lays codec hash m items plan datablocks)
include lays

/-- Datablocks are written above the metablocks of the batch. -/
theorem Lays.datablocks_above {w : FileWrite β} (mem : w ∈ datablocks) :
    (metablocksWrite codec hash m items).ending ≤ w.offset := by
  rw [ending_metablocksWrite]
  rcases planDatablocks_ok lays.planned with ⟨-, -, -, rfl⟩ | ⟨carried, -, -, ranges, -, -, -, rfl⟩
  · cases mem
  · obtain rfl := mem_singleton.mp mem
    exact ranges

/-- Nothing below the metablock cursor is written. -/
theorem Lays.offset_ge {w : FileWrite β} (mem : w ∈ plan.writes) :
    m.write.metablocksPosition ≤ w.offset := by
  rw [lays.writes] at mem
  rcases mem_append.mp mem with datablock | metablock
  · have above := lays.datablocks_above datablock
    rw [ending_metablocksWrite] at above
    omega
  · obtain rfl := mem_singleton.mp metablock
    exact le_rfl

/-- The datablock write, if there is one, is the new datablocks and the bytes carried over, put
right below the end of the sector of the datablock cursor. -/
theorem Lays.datablocks_cases :
    (bufferSizeDatablocks items = 0 ∧ datablocks = [] ∧
      plan.metadata.write.datablocksPosition = m.write.datablocksPosition ∧
      plan.metadata.datablocksCarryOver = m.datablocksCarryOver) ∨
    ∃ (carried zeros : List β) (w : FileWrite β), 0 < bufferSizeDatablocks items ∧
      datablocks = [w] ∧ w.bytes = zeros ++ (datablockArea items ++ carried) ∧
      w.offset + zeros.length = plan.metadata.write.datablocksPosition ∧
      plan.metadata.write.datablocksPosition + bufferSizeDatablocks items =
        m.write.datablocksPosition ∧
      carried.length = SegmentFile.carryOverSize m.write.datablocksPosition ∧
      (0 < SegmentFile.carryOverSize m.write.datablocksPosition →
        m.datablocksCarryOver = some carried) ∧
      plan.metadata.datablocksCarryOver =
        (if 0 < SegmentFile.carryOverSize plan.metadata.write.datablocksPosition then
          some ((datablockArea items ++ carried).take
            (SegmentFile.carryOverSize plan.metadata.write.datablocksPosition))
        else m.datablocksCarryOver) := by
  rcases planDatablocks_ok lays.planned with
    ⟨empty, position, carryOver, rfl⟩ |
      ⟨carried, some', position, ranges, length, isSome, carryOver, rfl⟩
  · exact .inl ⟨empty, rfl, position, carryOver⟩
  · have down : alignDown minWriteAlignment plan.metadata.write.datablocksPosition ≤
        plan.metadata.write.datablocksPosition := alignDown_le
    refine .inr ⟨carried, _, _, some', rfl, rfl, ?_, ?_, length, isSome, carryOver⟩
    · rw [length_replicate]
      exact Nat.add_sub_cancel' down
    · -- a batch with datablocks has metablocks, so the datablocks start above zero
      have nonempty : 0 < items.length := by
        cases items with
        | nil => cases some'
        | cons item items => exact Nat.succ_pos _
      have content : 0 < bufferSizeMetablocks codec items := Nat.mul_pos nonempty codec.block_pos
      have padded : bufferSizeMetablocks codec items ≤
          alignUp minWriteAlignment (bufferSizeMetablocks codec items) := le_alignUp (by decide)
      omega

/-- What lies below the metablock cursor stays, however much of the batch reaches the file. -/
theorem Lays.eq_below {bytes bytes' : ℕ → β} (landed : Landed bytes plan.writes bytes') {i}
    (below : i < m.write.metablocksPosition) : bytes' i = bytes i := by
  refine landed.eq_of_not_covered fun w mem covers => ?_
  have := lays.offset_ge mem
  unfold FileWrite.Covers at covers
  omega

theorem Lays.applyAll_eq (bytes : ℕ → β) :
    applyAll plan.writes bytes =
      (metablocksWrite codec hash m items).apply (applyAll datablocks bytes) := by
  rw [lays.writes]
  exact foldl_append

/-- The write of the datablocks is followed by that of the metablocks, which lies below. -/
theorem Lays.applyAll_above {w : FileWrite β} (one : datablocks = [w]) (bytes : ℕ → β) {i}
    (lower : w.offset ≤ i) : applyAll plan.writes bytes i = w.apply bytes i := by
  rw [lays.applyAll_eq, one]
  refine FileWrite.apply_of_not_covers fun covers => ?_
  have above := lays.datablocks_above (one ▸ mem_singleton_self w)
  unfold FileWrite.Covers at covers
  omega

/-- A batch that is written whole holds its datablock area right above the new cursor. -/
theorem Lays.readAt_area (bytes : ℕ → β) :
    plan.metadata.write.datablocksPosition + bufferSizeDatablocks items =
        m.write.datablocksPosition ∧
      readAt (applyAll plan.writes bytes) plan.metadata.write.datablocksPosition
        (bufferSizeDatablocks items) = datablockArea items := by
  have size : (datablockArea items).length = bufferSizeDatablocks items := length_datablockArea
  rcases lays.datablocks_cases with ⟨none, -, position, -⟩ |
    ⟨carried, zeros, w, -, one, split, offset, total, -⟩
  · rw [none] at size
    rw [position, none, eq_nil_of_length_eq_zero size]
    exact ⟨rfl, rfl⟩
  · refine ⟨total, ?_⟩
    have reads : readAt (w.apply bytes) _ _ = datablockArea items :=
      readAt_apply (split.trans (append_assoc ..).symm)
    rw [offset, size] at reads
    rw [← reads]
    exact readAt_congr fun i lower _ => lays.applyAll_above one _ (by omega)

/-- **The metablocks of the batch read back.** -/
theorem Lays.readBlocks_applyAll (bytes : ℕ → β) :
    readBlocks codec (applyAll plan.writes bytes) m.write.metablocksPosition items.length =
      some (planMetablocks hash m items) := by
  have length : (planMetablocks hash m items).length = items.length := length_planMetablocks
  rw [← length]
  refine readBlocks_of_encoded ?_
  rw [lays.applyAll_eq]
  have split : (metablocksWrite codec hash m items).bytes =
      [] ++ (planMetablocks hash m items).flatMap codec.encode ++
        List.replicate (alignUp minWriteAlignment (bufferSizeMetablocks codec items) -
          bufferSizeMetablocks codec items) codec.zero := rfl
  have reads : readAt ((metablocksWrite codec hash m items).apply (applyAll datablocks bytes)) _ _ =
    _ := readAt_apply split
  rw [length_flatMap_encode] at reads
  exact reads

end Laid

end SyncSpec

end Celeriant.Wal
