import Celeriant.Wal.Segmentwise

/-!
# The carry-over buffer

`sync` rewrites the sector the datablock cursor lies in: below the cursor with the new datablocks,
and above it with the bytes in the carry-over buffer. Those bytes belong to committed datablocks, so
the buffer must hold what the file holds there. Opening a segment and truncating read the buffer
from the file, and `sync` sets it to the part of its own write that the next batch will have to
rewrite.

`cull_tail` moves the write cursor, the datablock position with it, and leaves the buffer alone. The
next batch either finds a buffer of the wrong size and fails, or writes the bytes of culled
datablocks over committed ones. And a batch that ends on a sector boundary leaves the old buffer in
place, where nothing has to be carried over.

## Main results

* `carry_over_matches_file`
* `cull_leaves_stale_carry_over`: a cull that moves the cursor breaks both
-/

namespace Celeriant.Wal

open HashChain ByteFile Transition Option

section Segment

variable {β H C : Type*}

/-- The buffer is what has to be carried over, when anything has to be. -/
def Carries (m : SegmentMetadata β H) (f : SegmentFile β H) : Prop :=
  0 < SegmentFile.carryOverSize m.write.datablocksPosition →
    m.datablocksCarryOver = f.readDatablocksCarryOverBytes m.write.datablocksPosition

/-- The buffer is the bytes from the datablock cursor to the end of its sector, and absent when
there are none. -/
def CarryOver (m : SegmentMetadata β H) (f : SegmentFile β H) : Prop :=
  m.datablocksCarryOver = f.readDatablocksCarryOverBytes m.write.datablocksPosition

theorem CarryOver.carries {m} {f : SegmentFile β H} (carry : CarryOver m f) :
    Carries m f := fun _ => carry

theorem carryOver_congr {m m'} {f f' : SegmentFile β H}
    (buffer : m'.datablocksCarryOver = m.datablocksCarryOver)
    (position : m'.write.datablocksPosition = m.write.datablocksPosition)
    (bytes : ∀ i, m.write.datablocksPosition ≤ i → f'.bytes i = f.bytes i) (carry : CarryOver m f) :
    CarryOver m' f' := by
  unfold CarryOver SegmentFile.readDatablocksCarryOverBytes at *
  rw [buffer, position, carry]
  congr 2
  exact readAt_congr fun i lower _ => (bytes i lower).symm

/-- The metadata of an opened segment carry over what the file holds. -/
theorem carryOver_openSegment {f : SegmentFile β H} {g advanceRead}
    {m} (opened : f.openSegment g advanceRead = some m) : CarryOver m f := by
  obtain ⟨header, -, rfl⟩ := map_eq_some_iff.mp opened
  rfl

variable {codec : MetablockCodec β H C} {hash : Entry H C → H} {m : SegmentMetadata β H}
  {items : List (QueueItem β C)} {f : SegmentFile β H}

/-- A right buffer is never missed. -/
theorem Carries.sync_ne_notPresent (carries : Carries m f) (fullCommit : Bool) :
    sync codec hash m items fullCommit ≠ .error .datablocksCarryOverBufferNotPresent := by
  have planned : planDatablocks codec m items ≠ .error .datablocksCarryOverBufferNotPresent := by
    unfold planDatablocks
    dsimp only
    split
    · split
      next e checked =>
        unfold checkBatchWriteRanges at checked
        split at checked
        · cases checked
        · cases checked
          exact fun h => nomatch h
      · split
        next missing =>
          -- the file's bytes have the size that is asked for
          have size : 0 < SegmentFile.carryOverSize m.write.datablocksPosition := missing.1
          refine absurd ?_ missing.2
          rw [carries size, SegmentFile.readDatablocksCarryOverBytes, if_pos size]
          simp [SegmentFile.carryOverSize]
        · exact fun h => nomatch h
    · exact fun h => nomatch h
  unfold sync
  split
  next e failed =>
    intro h
    cases h
    exact planned failed
  · exact fun h => nomatch h

section Laid

variable {plan : SyncPlan β H} {datablocks : List (FileWrite β)}
  (lays : Lays codec hash m items plan datablocks)
  (fits : m.write.metablocksPosition +
    alignUp minWriteAlignment (bufferSizeMetablocks codec items) ≤
    m.write.datablocksPosition)
include lays fits

/-- **No byte from the datablock cursor up changes**, however much of the batch reaches the file. -/
theorem Carries.eq_above (carries : Carries m f) {bytes'}
    (landed : Landed f.bytes plan.writes bytes') {i} (above : m.write.datablocksPosition ≤ i) :
    bytes' i = f.bytes i := by
  rcases landed i with same | ⟨w, mem, covers, byte⟩
  · exact same
  rw [lays.writes] at mem
  rcases List.mem_append.mp mem with datablock | metablock
  · rcases lays.datablocks_cases with ⟨-, none, -, -⟩ |
      ⟨carried, zeros, w', -, one, split, offset, total, length, isSome, -⟩
    · rw [none] at datablock
      cases datablock
    · -- above the cursor the write holds the carried bytes, which are the file's
      rw [one] at datablock
      obtain rfl := List.mem_singleton.mp datablock
      have area : (datablockArea items).length = bufferSizeDatablocks items := length_datablockArea
      have ending : w.ending = m.write.datablocksPosition + carried.length := by
        unfold FileWrite.ending
        rw [split]
        simp only [List.length_append]
        omega
      have inside : i - m.write.datablocksPosition < carried.length := by
        unfold FileWrite.Covers at covers
        omega
      have size : 0 < SegmentFile.carryOverSize m.write.datablocksPosition := by omega
      have buffer := (isSome size).symm.trans (carries size)
      rw [SegmentFile.readDatablocksCarryOverBytes, if_pos size] at buffer
      have index : i - w.offset - zeros.length - (datablockArea items).length =
          i - m.write.datablocksPosition := by omega
      rw [split, List.getElem?_append_right (by omega),
        List.getElem?_append_right (by omega), index,
        some.inj buffer, getElem?_readAt (by omega), Nat.add_sub_cancel' above] at byte
      exact (some.inj byte).symm
  · obtain rfl := List.mem_singleton.mp metablock
    have ending : (metablocksWrite codec hash m items).ending = _ := ending_metablocksWrite
    unfold FileWrite.Covers at covers
    omega

/-- The buffer a batch leaves is what has to be carried over then. -/
theorem Carries.of_sync (carries : Carries m f) :
    Carries plan.metadata { f with bytes := applyAll plan.writes f.bytes } := by
  intro size
  rcases lays.datablocks_cases with ⟨-, none, position, buffer⟩ |
    ⟨carried, zeros, w, -, one, split, offset, total, length, isSome, buffer⟩
  · -- without datablocks the cursor and the bytes above it stay
    rw [position] at size ⊢
    rw [buffer, carries size, SegmentFile.readDatablocksCarryOverBytes, if_pos size,
      SegmentFile.readDatablocksCarryOverBytes, if_pos size]
    congr 1
    exact readAt_congr fun i lower _ =>
      (carries.eq_above lays fits (landed_applyAll f.bytes plan.writes) lower).symm
  · rw [buffer, if_pos size, SegmentFile.readDatablocksCarryOverBytes, if_pos size]
    congr 1
    have area : (datablockArea items).length = bufferSizeDatablocks items := length_datablockArea
    have upTo : SegmentFile.carryOverSize plan.metadata.write.datablocksPosition ≤
        (datablockArea items ++ carried).length := by
      have aligned : alignUp minWriteAlignment plan.metadata.write.datablocksPosition ≤
          alignUp minWriteAlignment m.write.datablocksPosition := by
        refine alignUp_le (by decide) ?_ dvd_alignUp
        exact le_trans (by omega) (le_alignUp (by decide))
      rw [List.length_append, area, length]
      unfold SegmentFile.carryOverSize
      omega
    have reads : readAt (w.apply f.bytes) (w.offset + zeros.length) _ =
        (datablockArea items ++ carried).take
          (SegmentFile.carryOverSize plan.metadata.write.datablocksPosition) :=
      readAt_apply (by rw [split, List.append_assoc, List.take_append_drop])
    rw [List.length_take, Nat.min_eq_left upTo, offset] at reads
    rw [← reads]
    exact readAt_congr fun i lower _ => (lays.applyAll_above one f.bytes (by omega)).symm

end Laid

end Segment

/-! ## Runs -/

section Runs

variable {β H C : Type*} (cfg : WalConfig β H C)

/-- The buffer is what has to be carried over, and, when `exact` is asked for, nothing besides. -/
def Held (exact : Prop) (m : SegmentMetadata β H) (f : SegmentFile β H) : Prop :=
  Carries m f ∧ (exact → CarryOver m f)

/-- A cull leaves the datablock cursor where it is, or takes it to a sector boundary. -/
def KeepsDatablockCursor (s : DiskShard β H) : DiskShard.Action β H C → Prop
  | .cullTail target _ =>
    target.cursor.datablocksPosition = s.active.write.datablocksPosition ∨
      minWriteAlignment ∣ target.cursor.datablocksPosition
  | _ => True

/-- A cull to a sector boundary finds no buffer, and neither does a batch with datablocks that ends
on one without a rotation. -/
def FindsNoBuffer (s : DiskShard β H) : DiskShard.Action β H C → Prop
  | .fsync items _ _ _ => 0 < bufferSizeDatablocks items →
      cfg.totalRequired items ≤ s.active.availableSpace →
      minWriteAlignment ∣ s.active.write.datablocksPosition - bufferSizeDatablocks items →
      s.active.datablocksCarryOver.isNone
  | .cullTail target _ =>
    minWriteAlignment ∣ target.cursor.datablocksPosition → s.active.datablocksCarryOver.isNone
  | _ => True

/-- Culls leave the datablock cursor where it is or take it to a sector boundary, and a step that
ends on a sector boundary began on one. -/
def KeepsCarryOver (s : DiskShard β H) (a : DiskShard.Action β H C) : Prop :=
  KeepsDatablockCursor s a ∧ FindsNoBuffer cfg s a

instance : DecidableRel (KeepsCarryOver cfg) := fun s a => by
  induction a using DiskShard.Action.casesOn <;>
    dsimp only [KeepsCarryOver, KeepsDatablockCursor, FindsNoBuffer] <;> infer_instance

variable {exact : Prop} {m : SegmentMetadata β H} {f : SegmentFile β H} {t : DiskShard β H}
  {items : List (QueueItem β C)} {interruption : Option Interruption}

theorem CarryOver.held (carry : CarryOver m f) :
    Held exact m f := ⟨carry.carries, fun _ => carry⟩

theorem Held.congr {m'} {f' : SegmentFile β H} (held : Held exact m f)
    (buffer : m'.datablocksCarryOver = m.datablocksCarryOver)
    (position : m'.write.datablocksPosition = m.write.datablocksPosition)
    (bytes : ∀ i, m.write.datablocksPosition ≤ i → f'.bytes i = f.bytes i) : Held exact m' f' := by
  refine ⟨fun size => ?_, fun isExact => carryOver_congr buffer position bytes (held.2 isExact)⟩
  exact carryOver_congr buffer position bytes (held.1 (position ▸ size))

theorem Held.segmentwise (cfg : WalConfig β H C) (exact : Prop) :
    Segmentwise cfg (Held exact) fun _ => True where
  opened _ opens := (carryOver_openSegment opens).held
  created _ := trivial
  header _ _ held :=
    ⟨trivial, held.congr rfl rfl fun i _ => by rw [SegmentFile.bytes_writeDualShardLogHeader]⟩
  rewound _ _ _ held := held.congr rfl rfl fun _ _ => rfl
  refreshed _ := CarryOver.held rfl

/-- The buffers of all segments in memory are right. -/
abbrev CarryInv (exact : Prop) (s : DiskShard β H) : Prop :=
  RecordInv (Held exact) (fun _ => True) s

variable {cfg} {s : DiskShard β H} {g : ℕ} {fullCommit : Bool} {rotation : Option RotationFailure}

/-- A position that carries nothing over lies on a sector boundary. -/
theorem dvd_of_carryOverSize {position} (none : ¬ 0 < SegmentFile.carryOverSize position) :
    minWriteAlignment ∣ position := by
  have up : position ≤ alignUp minWriteAlignment position := le_alignUp (by decide)
  have same : alignUp minWriteAlignment position = position := by
    unfold SegmentFile.carryOverSize at none
    omega
  exact same ▸ dvd_alignUp

/-- **The buffer after a batch.** -/
theorem Held.of_sync (held : Held exact m f) {plan datablocks}
    (lays : Lays cfg.codec cfg.hash m items plan datablocks) (fits : m.write.metablocksPosition +
      alignUp minWriteAlignment (bufferSizeMetablocks cfg.codec items) ≤ m.write.datablocksPosition)
    (ends : exact → 0 < bufferSizeDatablocks items →
      minWriteAlignment ∣ m.write.datablocksPosition - bufferSizeDatablocks items →
      m.datablocksCarryOver.isNone) :
    Held exact plan.metadata { f with bytes := applyAll plan.writes f.bytes } := by
  have carries := held.1.of_sync lays fits
  refine ⟨carries, fun isExact => ?_⟩
  by_cases size : 0 < SegmentFile.carryOverSize plan.metadata.write.datablocksPosition
  · exact carries size
  · rcases lays.datablocks_cases with ⟨-, -, position, buffer⟩ |
      ⟨carried, zeros, w, some', -, -, -, total, -, -, buffer⟩
    · exact carryOver_congr buffer position
        (fun i above => held.1.eq_above lays fits (landed_applyAll f.bytes plan.writes) above)
        (held.2 isExact)
    · -- nothing is to be carried over, and the condition says that nothing was
      have boundary := dvd_of_carryOverSize size
      have position : m.write.datablocksPosition - bufferSizeDatablocks items =
          plan.metadata.write.datablocksPosition := by omega
      have absent := ends isExact some' (position ▸ boundary)
      rw [if_neg size, isNone_iff_eq_none.mp absent] at buffer
      rw [CarryOver, buffer, SegmentFile.readDatablocksCarryOverBytes, if_neg size]

theorem CarryInv.syncActive (inv : CarryInv exact s)
    (space : cfg.totalRequired items ≤ s.active.availableSpace)
    (ends : exact → 0 < bufferSizeDatablocks items →
      minWriteAlignment ∣ s.active.write.datablocksPosition - bufferSizeDatablocks items →
      s.active.datablocksCarryOver.isNone)
    (synced : s.syncActive cfg items fullCommit interruption = t) : CarryInv exact t := by
  obtain ⟨f', file', held⟩ := inv.active
  obtain rfl | ⟨f, plan, datablocks, file, lays, done⟩ := DiskShard.syncActive_cases _ _ _ synced
  · exact inv
  obtain rfl : f' = f := some.inj (file'.symm.trans file)
  have fits := DiskShard.fits_of_space space
  rcases done with ⟨-, rfl⟩ | ⟨bytes', fates, landed, rfl⟩
  · refine inv.setActive lays.logId trivial ?_
    exact (held.of_sync lays fits ends).congr rfl rfl fun i _ => by
      rw [SegmentFile.bytes_writeDualShardLogHeader]
  · refine inv.setActive rfl trivial (held.congr rfl rfl fun i above => ?_)
    exact held.1.eq_above lays fits landed above

/-- On a sector boundary nothing is to be carried over. -/
theorem carryOverSize_of_dvd {position} (boundary : minWriteAlignment ∣ position) :
    SegmentFile.carryOverSize position = 0 := by
  rw [SegmentFile.carryOverSize, alignUp_of_dvd (by decide) boundary, Nat.sub_self]

/-- A new segment has nothing to carry over. -/
theorem carryOver_rotated_isNone : (s.rotated cfg).active.datablocksCarryOver.isNone := by
  have aligned : minWriteAlignment ∣ cfg.preallocateBytes - headerBlockSizeBytes :=
    Nat.dvd_sub cfg.aligned (Nat.dvd_refl _)
  have nothing : ¬ 0 < SegmentFile.carryOverSize (cfg.preallocateBytes - headerBlockSizeBytes) := by
    rw [carryOverSize_of_dvd aligned]
    exact Nat.lt_irrefl 0
  rw [DiskShard.carryOver_rotated, SegmentFile.readDatablocksCarryOverBytes, if_neg nothing]
  rfl

/-- **Every step keeps the buffers right.** -/
theorem CarryInv.step (inv : CarryInv exact s) {a}
    (keeps : KeepsDatablockCursor s a) (ends : exact → FindsNoBuffer cfg s a)
    (step : s.step cfg a = some t) : CarryInv exact t := by
  refine RecordInv.step inv (Held.segmentwise cfg exact) ?_ ?_ ?_ step
  · rintro items fullCommit rotation interruption rfl u (rfl | rfl) inv space
    · exact CarryInv.syncActive inv space (fun isExact some' => ends isExact some' space) rfl
    · exact CarryInv.syncActive inv space (fun _ _ _ => carryOver_rotated_isNone) rfl
  · rintro target outcome rfl f held
    rcases keeps with same | boundary
    · exact held.congr (target.carryOver_moved _) ((target.write_moved _) ▸ same) fun _ _ => rfl
    · have nothing : ¬ 0 < SegmentFile.carryOverSize
          (target.moved s.active).write.datablocksPosition := by
        rw [target.write_moved, carryOverSize_of_dvd boundary]
        exact Nat.lt_irrefl 0
      refine ⟨fun size => absurd size nothing, fun isExact => ?_⟩
      have absent := isNone_iff_eq_none.mp (ends isExact boundary)
      rw [CarryOver, SegmentFile.readDatablocksCarryOverBytes, if_neg nothing,
        target.carryOver_moved, absent]
  · exact fun _ _ _ m f _ held => held.congr rfl rfl fun _ _ => rfl

theorem CarryInv.of_reaches
    (run : Reaches (DiskShard.step cfg) (KeepsCarryOver cfg) (DiskShard.start cfg) s) :
    CarryInv True s :=
  Reaches.invariant (fun _ _ _ inv ok step => inv.step ok.1 (fun _ => ok.2) step) run
    (RecordInv.start (Held.segmentwise cfg True))

/-- An fsync changes no byte from the datablock cursor up. -/
theorem CarryInv.fsync_keeps (inv : CarryInv exact s)
    (fsync : s.commitFsyncWithRollback cfg items fullCommit rotation interruption = t)
    (file : s.files s.active.logId = some f) :
    ∃ f', t.files s.active.logId = some f' ∧
      ∀ i, s.active.write.datablocksPosition ≤ i → f'.bytes i = f.bytes i := by
  obtain ⟨f', file', held⟩ := inv.active
  obtain rfl : f' = f := some.inj (file'.symm.trans file)
  obtain ⟨f'', found, same | ⟨space, plan, datablocks, lays, landed⟩⟩ :=
    DiskShard.commitFsync_activeFile fsync file
  · exact ⟨f'', found, fun i _ => congrFun same i⟩
  · exact ⟨f'', found, fun i above =>
      held.1.eq_above lays (DiskShard.fits_of_space space) landed above⟩

/-- **The carry-over buffer matches the file.** In every run in which culls leave the datablock
cursor where it is or take it to a sector boundary, and a step that ends on a sector boundary began
on one, the buffer is the bytes from the cursor to the end of its sector, a batch never misses it,
and an fsync, interrupted or not, changes no byte from the cursor up. -/
theorem carry_over_matches_file
    (run : Reaches (DiskShard.step cfg) (KeepsCarryOver cfg) (DiskShard.start cfg) s) :
    ∃ f, s.files s.active.logId = some f ∧ CarryOver s.active f ∧
      (∀ (items : List (QueueItem β C)) (fullCommit : Bool),
        sync cfg.codec cfg.hash s.active items fullCommit ≠
          .error .datablocksCarryOverBufferNotPresent) ∧
      ∀ items fullCommit rotation interruption,
        ∃ f', (s.commitFsyncWithRollback cfg items fullCommit rotation interruption).files
            s.active.logId = some f' ∧
          ∀ i, s.active.write.datablocksPosition ≤ i → f'.bytes i = f.bytes i := by
  have inv := CarryInv.of_reaches run
  obtain ⟨f, file, held⟩ := inv.active
  exact ⟨f, file, held.2 trivial, fun _ fullCommit => held.1.sync_ne_notPresent fullCommit,
    fun _ _ _ _ => inv.fsync_keeps rfl file⟩

end Runs

open Sample in
/-- A cull of an entry without a datablock leaves the buffer right. -/
theorem carry_over_matches_after_cull :
    ∃ s, Reaches (DiskShard.step config) (KeepsCarryOver config) (DiskShard.start config) s ∧
      s.active.datablocksCarryOver = some (List.replicate 10 (.data 1)) ∧
      ∃ f, s.files s.active.logId = some f ∧ CarryOver s.active f := by
  refine exists_and_of_exec [fsync [external 1 10] true, fsync [inline 2] false,
    .cullTail (.writeToRead ⟨⟨5120, 61430, 1, 11⟩, 1⟩) none] (by decide +kernel) ?_
  intro s run _
  obtain ⟨f, file, carry, -⟩ := carry_over_matches_file run
  exact ⟨f, file, carry⟩

open Sample in
/-- **A cull leaves a stale buffer.** The culled datablock fills a sector exactly, so the buffer has
the size the next batch asks for; it holds the first bytes of the culled datablock, and the batch
writes them over the committed one. -/
theorem cull_leaves_stale_carry_over :
    ∃ s, Reaches (DiskShard.step config) Always (DiskShard.start config) s ∧
      s.active.read = some s.active.write ∧
      ∃ f f', s.files s.active.logId = some f ∧ ¬ CarryOver s.active f ∧
        (s.commitFsyncWithRollback config [external 3 5] true none none).files s.active.logId =
          some f' ∧
        ∃ i, s.active.write.datablocksPosition ≤ i ∧ f'.bytes i ≠ f.bytes i := by
  obtain ⟨s, run, read, position, buffer, before, after⟩ : ∃ s,
      Reaches (DiskShard.step config) Always
      (DiskShard.start config) s ∧ s.active.read = some s.active.write ∧
      s.active.write.datablocksPosition = 61439 ∧ s.active.datablocksCarryOver = some [.data 2] ∧
      (s.files s.active.logId).map (fun f => readAt f.bytes 61439 1) = some [.data 1] ∧
      ((s.commitFsyncWithRollback config [external 3 5] true none none).files
        s.active.logId).map (fun f => readAt f.bytes 61439 1) = some [.data 2] := exists_of_exec
    [fsync [external 1 1] true, fsync [external 2 4096] false,
      .cullTail (.writeToRead ⟨⟨5120, 61439, 1, 11⟩, 1⟩) none] (by decide +kernel)
  obtain ⟨f, file, bytes⟩ := map_eq_some_iff.mp before
  obtain ⟨f', file', bytes'⟩ := map_eq_some_iff.mp after
  refine ⟨s, run, read, f, f', file, ?_, file', 61439, le_of_eq position, ?_⟩
  · intro carry
    have onDisk : f.readDatablocksCarryOverBytes 61439 = some (readAt f.bytes 61439 1) := rfl
    rw [CarryOver, position, buffer, onDisk, bytes] at carry
    exact absurd carry (by decide)
  · intro same
    have first := congrArg List.head? bytes
    have first' := congrArg List.head? bytes'
    have changed : some (f'.bytes 61439) ≠ some (f.bytes 61439) := by
      rw [show some (f'.bytes 61439) = some (.data 2) from first',
        show some (f.bytes 61439) = some (.data 1) from first]
      decide
    exact changed (congrArg some same)

end Celeriant.Wal
