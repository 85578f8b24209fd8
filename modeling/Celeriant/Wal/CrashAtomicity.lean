import Celeriant.Wal.CarryOver

/-!
# A crash during an fsync

`sync` writes the datablocks and the metablocks of a batch, waits for both, writes the front copy of
the header, waits, writes the rear copy, waits, and flushes. On storage that is durable when it
acknowledges, a crash therefore interrupts one phase: what came before it is on disk whole, what
comes after it not at all. Opening the segment then finds the state before the batch or the state
after it.

There is no flush between the blocks and the headers. On storage that may keep any part of what was
written since the last flush, the header can be there without the blocks it counts.

Beside a segment stands what was appended to it: the metablocks as they were stamped, and their
external bytes.

## Main results

* `crash_leaves_before_or_after`
* `header_without_blocks`: without the order of the writes this fails
-/

namespace Celeriant.Wal

open HashChain ByteFile Transition List

variable {β H C : Type*} (cfg : WalConfig β H C)

/-- A metablock as it was stamped, and the external bytes it came with. -/
abbrev Appended (β H C : Type*) := StoredMetablock H C × Option (List β)

/-- A segment and what was appended to it. -/
structure OpenSegment (β H C : Type*) where
  file : SegmentFile β H
  metadata : SegmentMetadata β H
  appended : List (Appended β H C)

/-- The entries of a batch. -/
def batchEntries (m : SegmentMetadata β H) (items : List (QueueItem β C)) :
    List (Appended β H C) :=
  (planMetablocks cfg.hash m items).zip (items.map (·.datablockBytes))

namespace OpenSegment

/-- A new segment that continues the chain at the given number and hash. -/
def create (g walSeq : ℕ) (tipHash : H) (advanceRead : Bool) : OpenSegment β H C where
  file := cfg.newFile walSeq tipHash advanceRead
  metadata :=
    { logId := g
      fileLen := cfg.preallocateBytes
      write := { (cfg.newHeader walSeq tipHash advanceRead).write with logId := g }
      read := (cfg.newHeader walSeq tipHash advanceRead).read.map fun c => { c with logId := g }
      datablocksCarryOver := none }
  appended := []

/-- A `sync` that runs to its end. A batch without space would be rotated away, and is not written
to this segment. -/
def append (s : OpenSegment β H C) (batch : List (QueueItem β C) × Bool) :
    Option (OpenSegment β H C) :=
  if cfg.totalRequired batch.1 ≤ s.metadata.availableSpace then
    match sync cfg.codec cfg.hash s.metadata batch.1 batch.2 with
    | .error _ => some s
    | .ok plan =>
      some
        { file := { s.file with bytes := applyAll plan.writes s.file.bytes }.writeDualShardLogHeader
            plan.metadata.toShardLogHeader none
          metadata := plan.metadata
          appended := s.appended ++ batchEntries cfg s.metadata batch.1 }
  else none

/-- What is left of the file when some bytes of the blocks persist and the header copies have the
given fates. -/
def persisted (s : OpenSegment β H C) (items : List (QueueItem β C)) (fullCommit : Bool)
    (outcome : Interruption) : SegmentFile β H :=
  match sync cfg.codec cfg.hash s.metadata items fullCommit with
  | .error _ => s.file
  | .ok plan =>
    { s.file with
      bytes := applySome outcome.reached 0 plan.writes s.file.bytes }.writeDualShardLogHeader
        plan.metadata.toShardLogHeader (some (outcome.front, outcome.rear))

end OpenSegment

/-- Where a crash can strike, when a write that has completed is durable: while the blocks are
written, while the front header is, or while the rear one is. -/
inductive CrashPoint
  | blocks (reached : ℕ → ℕ → Bool)
  | frontHeader (fate : HeaderFate)
  | rearHeader (fate : HeaderFate)

/-- What persists at a crash point. -/
def CrashPoint.outcome : CrashPoint → Interruption
  | blocks reached => ⟨reached, .kept, .kept⟩
  | frontHeader fate => ⟨fun _ _ => true, fate, .kept⟩
  | rearHeader fate => ⟨fun _ _ => true, .written, fate⟩

/-- The entries are in the file with their original bytes, and the cursor ends them; the segment
continues the chain at `n` and `h`. -/
structure OnDisk (n : ℕ) (h : H) (f : SegmentFile β H) (c : HeaderCursor H)
    (appended : List (Appended β H C)) : Prop where
  metablocksPosition : c.metablocksPosition = DiskShard.blockPosition cfg appended.length
  walSeq : c.walSeq = n + appended.length
  tipHash : c.tipHash = tipAfter cfg.hash h (appended.map (·.1.entry))
  metablocks : readBlocks cfg.codec f.bytes headerBlockSizeBytes appended.length =
    some (appended.map (·.1))
  datablocks : ∀ a ∈ appended, ∀ bytes ∈ a.2,
    readAt f.bytes a.1.datablockPosition bytes.length = bytes

variable {cfg}

/-! ## The blocks of a batch -/

theorem length_batchEntries (m : SegmentMetadata β H) (items : List (QueueItem β C)) :
    (batchEntries cfg m items).length = items.length := by
  rw [batchEntries, length_zip, length_planMetablocks, length_map, Nat.min_self]

theorem map_batchEntries (m : SegmentMetadata β H) (items : List (QueueItem β C)) :
    (batchEntries cfg m items).map (·.1) = planMetablocks cfg.hash m items := by
  refine map_fst_zip ?_
  rw [length_planMetablocks, length_map]

/-! ## Runs -/

/-- **The invariant of a segment**: its entries are on disk, the buffer is right, the datablocks lie
above the cursor, and both headers are those in memory. -/
structure SegmentInv (cfg : WalConfig β H C) (n : ℕ) (h : H) (s : OpenSegment β H C) : Prop where
  onDisk : OnDisk cfg n h s.file s.metadata.write.toHeaderCursor s.appended
  carries : Carries s.metadata s.file
  above : ∀ a ∈ s.appended, a.2.isSome → s.metadata.write.datablocksPosition ≤ a.1.datablockPosition
  front : s.file.front = .valid s.metadata.toShardLogHeader
  rear : s.file.rear = .valid s.metadata.toShardLogHeader

section Steps

variable {n : ℕ} {h : H} {s t : OpenSegment β H C} {items : List (QueueItem β C)}
  {plan : SyncPlan β H} {datablocks : List (FileWrite β)} {f : SegmentFile β H}

/-- **The entries before a batch** are kept however much of the batch reaches the file. -/
theorem SegmentInv.keeps (inv : SegmentInv cfg n h s)
    (space : cfg.totalRequired items ≤ s.metadata.availableSpace)
    (lays : Lays cfg.codec cfg.hash s.metadata items plan datablocks)
    (landed : Landed s.file.bytes plan.writes f.bytes) :
    OnDisk cfg n h f s.metadata.write.toHeaderCursor s.appended := by
  refine { inv.onDisk with metablocks := ?_, datablocks := fun a mem bytes isBytes => ?_ }
  · rw [← inv.onDisk.metablocks]
    refine readBlocks_congr fun i _ upper => lays.eq_below landed ?_
    rw [inv.onDisk.metablocksPosition]
    exact upper
  · rw [← inv.onDisk.datablocks a mem bytes isBytes, length_readAt]
    have place := inv.above a mem (Option.isSome_iff_exists.mpr ⟨bytes, isBytes⟩)
    exact readAt_congr fun i lower _ => inv.carries.eq_above lays (DiskShard.fits_of_space space)
      landed (le_trans place lower)

/-- **The entries with the batch** are there when all of it has reached the file. -/
theorem SegmentInv.appends (inv : SegmentInv cfg n h s)
    (space : cfg.totalRequired items ≤ s.metadata.availableSpace)
    (lays : Lays cfg.codec cfg.hash s.metadata items plan datablocks)
    (whole : f.bytes = applyAll plan.writes s.file.bytes) :
    OnDisk cfg n h f plan.metadata.write.toHeaderCursor
        (s.appended ++ batchEntries cfg s.metadata items) ∧
      ∀ a ∈ s.appended ++ batchEntries cfg s.metadata items, a.2.isSome →
        plan.metadata.write.datablocksPosition ≤ a.1.datablockPosition := by
  have landed : Landed s.file.bytes plan.writes f.bytes :=
    whole ▸ landed_applyAll s.file.bytes plan.writes
  have old := inv.keeps space lays landed
  obtain ⟨total, area⟩ := lays.readAt_area s.file.bytes
  rw [← whole] at area
  have new : ∀ a ∈ batchEntries cfg s.metadata items, ∀ content ∈ a.2,
      plan.metadata.write.datablocksPosition ≤ a.1.datablockPosition ∧
        readAt f.bytes a.1.datablockPosition content.length = content := by
    intro a mem content isContent
    obtain ⟨lower, -, reads⟩ := ((storeItems_placed s.metadata.write.walSeq s.metadata.write.tipHash
      total area).1 a mem).2 content isContent
    exact ⟨lower, reads⟩
  refine ⟨⟨?_, ?_, ?_, ?_, fun a mem bytes isBytes => ?_⟩, fun a mem isSome => ?_⟩
  · rw [lays.metablocksPosition, old.metablocksPosition, length_append, length_batchEntries,
      DiskShard.blockPosition, DiskShard.blockPosition, Nat.add_mul, Nat.add_assoc,
      bufferSizeMetablocks]
  · rw [lays.walSeq, old.walSeq, length_append, length_batchEntries, Nat.add_assoc]
  · have entries : (batchEntries cfg s.metadata items).map (·.1.entry) =
        (planMetablocks cfg.hash s.metadata items).map (·.entry) := by
      rw [← map_batchEntries, map_map]
      rfl
    rw [lays.tipHash, old.tipHash, map_append, tipAfter_append, entries]
  · rw [length_append, length_batchEntries, map_append, map_batchEntries]
    refine readBlocks_add old.metablocks ?_
    have start : headerBlockSizeBytes + s.appended.length * cfg.codec.fixedBlockSizeBytes =
        s.metadata.write.metablocksPosition := old.metablocksPosition.symm
    rw [start, whole]
    exact lays.readBlocks_applyAll s.file.bytes
  · rcases mem_append.mp mem with before | mem
    · exact old.datablocks a before bytes isBytes
    · exact (new a mem bytes isBytes).2
  · rcases mem_append.mp mem with before | mem
    · have place := inv.above a before isSome
      omega
    · obtain ⟨content, isContent⟩ := Option.isSome_iff_exists.mp isSome
      exact (new a mem content isContent).1

theorem SegmentInv.create (cfg : WalConfig β H C) (g n : ℕ) (h : H) (advanceRead : Bool) :
    SegmentInv cfg n h (OpenSegment.create cfg g n h advanceRead) := by
  have header : (OpenSegment.create cfg g n h advanceRead).metadata.toShardLogHeader =
      cfg.newHeader n h advanceRead := by
    cases advanceRead <;> simp [OpenSegment.create, SegmentMetadata.toShardLogHeader,
      WalConfig.newHeader]
  refine ⟨⟨?_, rfl, rfl, rfl, (fun a mem => by cases mem)⟩, fun size => ?_,
    (fun a mem => by cases mem), ?_, ?_⟩
  · simp [OpenSegment.create, DiskShard.blockPosition, WalConfig.newHeader]
  · -- a new segment's datablock cursor lies on a sector boundary
    have aligned : minWriteAlignment ∣ cfg.preallocateBytes - headerBlockSizeBytes :=
      Nat.dvd_sub cfg.aligned (Nat.dvd_refl _)
    have nothing :
        ¬ 0 < SegmentFile.carryOverSize (cfg.preallocateBytes - headerBlockSizeBytes) := by
      rw [carryOverSize_of_dvd aligned]
      exact Nat.lt_irrefl 0
    exact absurd size nothing
  · rw [header]
    rfl
  · rw [header]
    rfl

theorem SegmentInv.append (inv : SegmentInv cfg n h s) {batch}
    (appended : s.append cfg batch = some t) : SegmentInv cfg n h t := by
  unfold OpenSegment.append at appended
  split at appended
  next space =>
    split at appended
    · cases appended
      exact inv
    next plan planned =>
      cases appended
      obtain ⟨datablocks, lays⟩ := sync_ok planned
      obtain ⟨onDisk, above⟩ := inv.appends space lays (SegmentFile.bytes_writeDualShardLogHeader
        { s.file with bytes := applyAll plan.writes s.file.bytes }
          plan.metadata.toShardLogHeader none)
      exact ⟨onDisk, inv.carries.of_sync lays (DiskShard.fits_of_space space), above, rfl, rfl⟩
  · cases appended

end Steps

/-- **A crash leaves the state before or the state after.** On storage that is durable when it
acknowledges, after any batches written to a segment, a crash at any point of the next one leaves a
file that loads the header before it, with all entries before it on disk, or the header after it,
with the entries of the batch as well. -/
theorem crash_leaves_before_or_after {g n : ℕ} {h : H} {advanceRead : Bool} {s : OpenSegment β H C}
    (run : Reaches (OpenSegment.append cfg) Always (OpenSegment.create cfg g n h advanceRead) s)
    (items : List (QueueItem β C)) (fullCommit : Bool)
    (space : cfg.totalRequired items ≤ s.metadata.availableSpace) (point : CrashPoint) :
    ((s.persisted cfg items fullCommit point.outcome).loadHeaderDetectingCorruption =
        some s.metadata.toShardLogHeader ∧
      OnDisk cfg n h (s.persisted cfg items fullCommit point.outcome)
        s.metadata.write.toHeaderCursor s.appended) ∨
    ∃ plan, sync cfg.codec cfg.hash s.metadata items fullCommit = .ok plan ∧
      (s.persisted cfg items fullCommit point.outcome).loadHeaderDetectingCorruption =
        some plan.metadata.toShardLogHeader ∧
      OnDisk cfg n h (s.persisted cfg items fullCommit point.outcome)
        plan.metadata.write.toHeaderCursor (s.appended ++ batchEntries cfg s.metadata items) := by
  have inv : SegmentInv cfg n h s :=
    run.invariant (fun _ _ _ inv _ step => inv.append step)
      (SegmentInv.create cfg g n h advanceRead)
  unfold OpenSegment.persisted
  split
  · left
    refine ⟨?_, inv.onDisk⟩
    rw [SegmentFile.loadHeaderDetectingCorruption, inv.front]
    rfl
  next plan planned =>
    obtain ⟨datablocks, lays⟩ := sync_ok planned
    have before : ∀ f : SegmentFile β H, Landed s.file.bytes plan.writes f.bytes →
        OnDisk cfg n h f s.metadata.write.toHeaderCursor s.appended :=
      fun f landed => inv.keeps space lays landed
    have after : ∀ f : SegmentFile β H, f.bytes = applyAll plan.writes s.file.bytes →
        OnDisk cfg n h f plan.metadata.write.toHeaderCursor
          (s.appended ++ batchEntries cfg s.metadata items) :=
      fun f whole => (inv.appends space lays whole).1
    cases point with
    | blocks reached =>
      refine .inl ⟨?_, before _ (landed_applySome reached 0 plan.writes s.file.bytes)⟩
      simp [CrashPoint.outcome, SegmentFile.loadHeaderDetectingCorruption,
        SegmentFile.writeDualShardLogHeader, HeaderFate.apply, inv.front, HeaderSlot.header?]
    | frontHeader fate =>
      -- a torn front copy gives way to the rear one, which is the old header
      cases fate with
      | kept =>
        refine .inl ⟨?_, before _ (landed_applySome _ 0 plan.writes s.file.bytes)⟩
        simp [CrashPoint.outcome, SegmentFile.loadHeaderDetectingCorruption,
          SegmentFile.writeDualShardLogHeader, HeaderFate.apply, inv.front, HeaderSlot.header?]
      | torn =>
        refine .inl ⟨?_, before _ (landed_applySome _ 0 plan.writes s.file.bytes)⟩
        simp [CrashPoint.outcome, SegmentFile.loadHeaderDetectingCorruption,
          SegmentFile.writeDualShardLogHeader, HeaderFate.apply, inv.rear, HeaderSlot.header?]
      | written => exact .inr ⟨plan, planned, rfl, after _ (applySome_all 0 _ s.file.bytes)⟩
    | rearHeader fate =>
      exact .inr ⟨plan, planned, rfl, after _ (applySome_all 0 _ s.file.bytes)⟩

open Sample in
/-- The front header is torn: the rear one still counts one entry, and that entry is there. -/
theorem torn_front_header_leaves_before :
    ∃ s, Reaches (OpenSegment.append config) Always (OpenSegment.create config 1 0 0 true) s ∧
      s.metadata.write.walSeq = 1 ∧
      ((s.persisted config [external 2 5] true
          (CrashPoint.frontHeader .torn).outcome).loadHeaderDetectingCorruption =
          some s.metadata.toShardLogHeader ∧
        OnDisk config 0 0 (s.persisted config [external 2 5] true
          (CrashPoint.frontHeader .torn).outcome) s.metadata.write.toHeaderCursor s.appended ∨
      ∃ plan, sync config.codec config.hash s.metadata [external 2 5] true = .ok plan ∧
        (s.persisted config [external 2 5] true
          (CrashPoint.frontHeader .torn).outcome).loadHeaderDetectingCorruption =
          some plan.metadata.toShardLogHeader ∧
        OnDisk config 0 0 (s.persisted config [external 2 5] true
          (CrashPoint.frontHeader .torn).outcome) plan.metadata.write.toHeaderCursor
          (s.appended ++ batchEntries config s.metadata [external 2 5])) := by
  obtain ⟨s, run, walSeq, space⟩ : ∃ s, Reaches (OpenSegment.append config) Always
      (OpenSegment.create config 1 0 0 true) s ∧ s.metadata.write.walSeq = 1 ∧
      config.totalRequired [external 2 5] ≤ s.metadata.availableSpace :=
    exists_of_exec [([external 1 10], true)] (by decide +kernel)
  exact ⟨s, run, walSeq,
    crash_leaves_before_or_after run [external 2 5] true space (.frontHeader .torn)⟩

open Sample in
/-- **Without the order of the writes** the header can be on disk before the blocks: the segment
opens with an entry that is not there. -/
theorem header_without_blocks :
    ∃ outcome : Interruption, ∃ header,
      ((OpenSegment.create config 1 0 0 true).persisted config [inline 1] true
        outcome).loadHeaderDetectingCorruption = some header ∧
      header.write.walSeq = 1 ∧
      readMetablocks config.codec
        ((OpenSegment.create config 1 0 0 true).persisted config [inline 1]
        true outcome).bytes header.write.metablocksPosition = none := by
  refine ⟨⟨fun _ _ => false, .written, .written⟩, ⟨⟨5120, 61440, 1, 11⟩, some ⟨5120, 61440, 1, 11⟩⟩,
    ?_, rfl, ?_⟩
  · decide +kernel
  · decide +kernel

end Celeriant.Wal
