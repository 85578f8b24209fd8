import Celeriant.Wal.CarryOver

/-!
# The writes of a segment

`commit_fsync_with_rollback` compares byte sums with the free space, with a worst case for the
padding; `sync` compares the aligned ranges it is about to write. What passes the first passes the
second, and the writes of a batch, with both headers, lie apart inside the file.

A batch that passed puts its datablocks below those of the earlier batches. It rewrites the sector
of the datablock cursor from the carry-over buffer, and pads its metablocks upwards, so neither the
datablocks nor the metablocks that are there change.

An external datablock has bytes; what is empty is stored without one.

## Main results

* `space_check_suffices`
* `datablocks_preserved`
-/

namespace Celeriant.Wal

open HashChain ByteFile Transition

variable {β H C : Type*} (cfg : WalConfig β H C)

/-! ## The size check -/

/-- The shard whose active segment the batch goes to: as it is, or rotated. -/
def DiskShard.checkedShard (s : DiskShard β H) (items : List (QueueItem β C)) :
    Option (DiskShard β H) :=
  if s.active.availableSpace < cfg.totalRequired items then
    if cfg.preallocateBytes - cfg.totalRequired items - headerBlockSizeBytes * 2 = 0 then none
    else some (s.rotated cfg)
  else some s

/-- When the rotation goes through, this is where the batch is written. -/
theorem DiskShard.commitFsync_checkedShard {s : DiskShard β H} {rotation}
    (rotates : s.rotateToNextLog cfg rotation = (s.rotated cfg, true))
    (items : List (QueueItem β C)) (fullCommit : Bool) (interruption : Option Interruption) :
    s.commitFsyncWithRollback cfg items fullCommit rotation interruption =
      ((s.checkedShard cfg items).map (·.syncActive cfg items fullCommit interruption)).getD s := by
  unfold commitFsyncWithRollback checkedShard
  rw [rotates]
  split
  · split <;> rfl
  · rfl

/-- The cursors lie behind the front header and in front of the rear one. -/
structure SegmentMetadata.CursorsInFile (m : SegmentMetadata β H) : Prop where
  metablocks : headerBlockSizeBytes ≤ m.write.metablocksPosition
  between : m.write.metablocksPosition ≤ m.write.datablocksPosition
  datablocks : m.write.datablocksPosition + headerBlockSizeBytes ≤ m.fileLen
  aligned : minWriteAlignment ∣ m.fileLen

/-- The ranges a batch is written to: the front header, the padded metablocks, the aligned
datablocks if there are any, and the rear header. -/
def writeRanges (m : SegmentMetadata β H) (items : List (QueueItem β C)) : List (ℕ × ℕ) :=
  [(0, headerBlockSizeBytes),
    (m.write.metablocksPosition,
      m.write.metablocksPosition +
        alignUp minWriteAlignment (bufferSizeMetablocks cfg.codec items))] ++
  (if 0 < bufferSizeDatablocks items then
    [(alignDown minWriteAlignment (m.write.datablocksPosition - bufferSizeDatablocks items),
      alignUp minWriteAlignment m.write.datablocksPosition)]
  else []) ++
  [(m.fileLen - headerBlockSizeBytes, m.fileLen)]

variable {cfg} {items : List (QueueItem β C)} {m : SegmentMetadata β H}

/-- Between the headers, the ranges are those of the writes that `sync` plans. -/
theorem writeRanges_of_sync {fullCommit plan}
    (synced : sync cfg.codec cfg.hash m items fullCommit = .ok plan) :
    writeRanges cfg m items = (0, headerBlockSizeBytes) ::
      (plan.writes.reverse.map fun w => (w.offset, w.ending)) ++
        [(m.fileLen - headerBlockSizeBytes, m.fileLen)] := by
  obtain ⟨datablocks, lays⟩ := sync_ok synced
  have start : (metablocksWrite cfg.codec cfg.hash m items).offset =
    m.write.metablocksPosition := rfl
  obtain ⟨total, -⟩ := lays.readAt_area fun _ => cfg.codec.zero
  rw [lays.writes, writeRanges]
  rcases planDatablocks_ok lays.planned with
    ⟨none, -, -, rfl⟩ | ⟨carried, some', position, -, carries, -, -, rfl⟩
  · simp [none, start, ending_metablocksWrite]
  · have down : alignDown minWriteAlignment plan.metadata.write.datablocksPosition ≤
        plan.metadata.write.datablocksPosition := alignDown_le
    have up : m.write.datablocksPosition ≤
        alignUp minWriteAlignment m.write.datablocksPosition := le_alignUp (by decide)
    have ending : plan.metadata.write.datablocksPosition + (bufferSizeDatablocks items +
        SegmentFile.carryOverSize m.write.datablocksPosition) =
          alignUp minWriteAlignment m.write.datablocksPosition := by
      unfold SegmentFile.carryOverSize
      omega
    simp [some', start, FileWrite.ending, length_datablockArea, carries, ← position, ← ending,
      ← Nat.add_assoc, Nat.add_sub_cancel' down]
    exact (Nat.add_left_cancel ending_metablocksWrite).symm

/-- The worst-case padding covers the alignment of the datablocks. -/
theorem metablocks_le_alignDown (space : cfg.totalRequired items ≤ m.availableSpace) :
    m.write.metablocksPosition + alignUp minWriteAlignment (bufferSizeMetablocks cfg.codec items) ≤
      alignDown minWriteAlignment (m.write.datablocksPosition - bufferSizeDatablocks items) := by
  have sector : m.write.datablocksPosition - bufferSizeDatablocks items <
      alignDown minWriteAlignment (m.write.datablocksPosition - bufferSizeDatablocks items) +
        minWriteAlignment := lt_alignDown_add (by decide)
  have size : minWriteAlignment = 4096 := rfl
  unfold WalConfig.totalRequired SegmentMetadata.availableSpace at space
  dsimp only at space
  omega

theorem sync_ne_overlapping (space : cfg.totalRequired items ≤ m.availableSpace) (fullCommit : Bool)
    (a b c d : ℕ) :
    sync cfg.codec cfg.hash m items fullCommit ≠ .error (.overlappingWriteRanges a b c d) := by
  intro failed
  unfold sync at failed
  split at failed
  next e planned =>
    cases failed
    unfold planDatablocks at planned
    dsimp only at planned
    split at planned
    next external =>
      split at planned
      next e overlaps =>
        have apart := metablocks_le_alignDown space
        have below : alignDown minWriteAlignment
            (m.write.datablocksPosition - bufferSizeDatablocks items) ≤ _ := alignDown_le
        have above : m.write.datablocksPosition ≤
            alignUp minWriteAlignment m.write.datablocksPosition := le_alignUp (by decide)
        have content : bufferSizeMetablocks cfg.codec items ≤ _ :=
          le_alignUp (a := minWriteAlignment)
          (by decide)
        have some' : 0 < bufferSizeMetablocks cfg.codec items := by
          cases items with
          | nil => cases external
          | cons item items => exact Nat.mul_pos (Nat.succ_pos _) cfg.codec.block_pos
        rw [checkBatchWriteRanges, if_pos (by omega)] at overlaps
        cases overlaps
      · split at planned <;> cases planned
    · cases planned
  · cases failed

/-- **The size check suffices.** A batch that it lets through, to the active segment or to a new
one, is not refused for its write ranges. These lie inside the file, one above the other. -/
theorem space_check_suffices (s u : DiskShard β H) (cursors : s.active.CursorsInFile)
    (items : List (QueueItem β C)) (checked : s.checkedShard cfg items = some u)
    (fullCommit : Bool) :
    (∀ a b c d, sync cfg.codec cfg.hash u.active items fullCommit ≠
      .error (.overlappingWriteRanges a b c d)) ∧
    (writeRanges cfg u.active items).Pairwise (fun r r' => r.2 ≤ r'.1) ∧
    ∀ r ∈ writeRanges cfg u.active items, r.1 ≤ r.2 ∧ r.2 ≤ u.active.fileLen := by
  obtain ⟨space, cursors⟩ : cfg.totalRequired items ≤ u.active.availableSpace ∧
      u.active.CursorsInFile := by
    unfold DiskShard.checkedShard at checked
    split at checked
    · split at checked
      · cases checked
      next rotates =>
        cases checked
        have space : (s.rotated cfg).active.availableSpace =
            cfg.preallocateBytes - headerBlockSizeBytes - headerBlockSizeBytes := rfl
        refine ⟨by omega, le_rfl, ?_, ?_, cfg.aligned⟩
        · show headerBlockSizeBytes ≤ cfg.preallocateBytes - headerBlockSizeBytes
          omega
        · show cfg.preallocateBytes - headerBlockSizeBytes + _ ≤ cfg.preallocateBytes
          omega
    · cases checked
      exact ⟨by omega, cursors⟩
  have apart := metablocks_le_alignDown space
  have down : alignDown minWriteAlignment (u.active.write.datablocksPosition -
    bufferSizeDatablocks items) ≤ _ := alignDown_le
  have up : u.active.write.datablocksPosition ≤
      alignUp minWriteAlignment u.active.write.datablocksPosition := le_alignUp (by decide)
  have rear : alignUp minWriteAlignment u.active.write.datablocksPosition ≤
      u.active.fileLen - headerBlockSizeBytes := by
    refine alignUp_le (by decide) (by have := cursors.datablocks; omega) ?_
    exact Nat.dvd_sub cursors.aligned (Nat.dvd_refl _)
  have front := cursors.metablocks
  refine ⟨sync_ne_overlapping space fullCommit, ?_, ?_⟩
  · unfold writeRanges
    split <;> simp <;> omega
  · unfold writeRanges
    split <;> simp <;> omega

open Sample in
theorem space_check_suffices_start :
    (DiskShard.start config).checkedShard config [external 1 50, inline 2] =
      some (DiskShard.start config) ∧
    (writeRanges config (DiskShard.start config).active [external 1 50, inline 2]).Pairwise
      (fun r r' => r.2 ≤ r'.1) := by
  have checked : (DiskShard.start config).checkedShard config [external 1 50, inline 2] =
    some (DiskShard.start config) := if_neg (by decide)
  exact ⟨checked, (space_check_suffices _ _ ⟨by decide, by decide, by decide, by decide⟩ _ checked
    false).2.1⟩

/-! ## The datablocks of a batch -/

/-- An external datablock: the number of its entry, the position stamped there, and the bytes that
were given for it. -/
structure External (β : Type*) where
  walSeq : ℕ
  position : ℕ
  data : List β

namespace External

/-- Earlier in the log, and above the other. -/
def Precedes (e e' : External β) : Prop :=
  e.walSeq < e'.walSeq ∧ e'.position < e.position ∧ e'.position + e'.data.length ≤ e.position

/-- The datablock reads back, is not below `lower`, and is of an entry above `n` and up to `n'`. -/
structure Lies (bytes : ℕ → β) (n n' lower : ℕ) (e : External β) : Prop where
  numbered : n < e.walSeq ∧ e.walSeq ≤ n'
  above : lower ≤ e.position
  reads : readAt bytes e.position e.data.length = e.data

theorem Lies.mono {bytes n n' lower k k' low} {e : External β}
    (h : e.Lies bytes n n' lower) (numbers : k ≤ n ∧ n' ≤ k') (le : low ≤ lower) :
    e.Lies bytes k k' low :=
  ⟨⟨by have := h.numbered; omega, by have := h.numbered; omega⟩, le.trans h.above, h.reads⟩

end External

/-- The external datablocks of a batch with their stamped positions. -/
def externals (hash : Entry H C → H) (n : ℕ) (h : H) (position : ℕ) (items : List (QueueItem β C)) :
    List (External β) :=
  ((storeItems hash n h position items).zip items).filterMap fun (m, item) =>
    item.datablockBytes.map fun data => ⟨m.entry.walSeq, m.datablockPosition, data⟩

/-- **A batch reads back** when the file holds its datablocks, the first one highest. -/
theorem externals_lie (hash : Entry H C → H) {bytes}
    (some' : ∀ item ∈ items, item.datablockBytes ≠ some []) (n : ℕ) (h : H) {base position}
    (place : base + bufferSizeDatablocks items = position)
    (area : readAt bytes base (bufferSizeDatablocks items) = datablockArea items) :
    (∀ e ∈ externals hash n h position items, e.Lies bytes n (n + items.length) base ∧
      0 < e.data.length ∧ e.position + e.data.length ≤ position) ∧
    (externals hash n h position items).Pairwise External.Precedes := by
  obtain ⟨each, order⟩ := storeItems_placed n h place area
  have stamped : externals hash n h position items =
      ((storeItems hash n h position items).zip (items.map (·.datablockBytes))).filterMap fun a =>
        a.2.map fun data => ⟨a.1.entry.walSeq, a.1.datablockPosition, data⟩ := by
    rw [externals, List.zip_map_right, List.filterMap_map]
    rfl
  have full : ∀ a ∈ (storeItems hash n h position items).zip (items.map (·.datablockBytes)),
      ∀ data ∈ a.2, 0 < data.length := by
    intro a mem data isData
    obtain ⟨item, own, bytes⟩ := List.mem_map.mp (List.of_mem_zip mem).2
    refine List.length_pos_of_ne_nil fun none => some' item own ?_
    rw [bytes, ← none]
    exact isData
  rw [stamped]
  refine ⟨fun e mem => ?_, List.pairwise_filterMap.mpr (order.imp_of_mem ?_)⟩
  · obtain ⟨a, paired, found⟩ := List.mem_filterMap.mp mem
    obtain ⟨data, isData, rfl⟩ := Option.map_eq_some_iff.mp found
    obtain ⟨numbered, placed⟩ := each a paired
    obtain ⟨lower, upper, reads⟩ := placed data isData
    exact ⟨⟨numbered, lower, reads⟩, full a paired data isData, upper⟩
  · rintro a a' - mem ⟨later, below⟩ e found e' found'
    obtain ⟨data, isData, rfl⟩ := Option.map_eq_some_iff.mp found
    obtain ⟨data', isData', rfl⟩ := Option.map_eq_some_iff.mp found'
    have := full a' mem data' isData'
    have below := below data isData data' isData'
    exact ⟨later, by dsimp only; omega, below⟩

/-! ## Runs -/

/-- A segment, its file, and the external datablocks written to it. -/
structure WrittenSegment (β H : Type*) where
  metadata : SegmentMetadata β H
  file : SegmentFile β H
  written : List (External β)

namespace WrittenSegment

variable (cfg) in
/-- A batch that passes the size check, written in full. -/
def step (s : WrittenSegment β H) (batch : List (QueueItem β C) × Bool) :
    Option (WrittenSegment β H) :=
  if cfg.totalRequired batch.1 ≤ s.metadata.availableSpace then
    match sync cfg.codec cfg.hash s.metadata batch.1 batch.2 with
    | .ok plan => some
      { metadata := plan.metadata
        file := { s.file with bytes := applyAll plan.writes s.file.bytes }
        written := s.written ++ externals cfg.hash s.metadata.write.walSeq
          s.metadata.write.tipHash s.metadata.write.datablocksPosition batch.1 }
    | .error _ => none
  else none

/-- External datablocks have bytes. -/
def HasBytes (_ : WrittenSegment β H) (batch : List (QueueItem β C) × Bool) : Prop :=
  ∀ item ∈ batch.1, item.datablockBytes ≠ some []

/-- The buffer is right, and what was written reads back from above the cursor. -/
structure Intact (s : WrittenSegment β H) : Prop where
  carries : Carries s.metadata s.file
  lies : ∀ e ∈ s.written,
    e.Lies s.file.bytes 0 s.metadata.write.walSeq s.metadata.write.datablocksPosition
  precedes : s.written.Pairwise External.Precedes

variable {s t : WrittenSegment β H} {batch : List (QueueItem β C) × Bool}

theorem step_ok (hstep : s.step cfg batch = some t) :
    cfg.totalRequired batch.1 ≤ s.metadata.availableSpace ∧ ∃ plan datablocks,
      Lays cfg.codec cfg.hash s.metadata batch.1 plan datablocks ∧
      t = ⟨plan.metadata, { s.file with bytes := applyAll plan.writes s.file.bytes },
        s.written ++ externals cfg.hash s.metadata.write.walSeq s.metadata.write.tipHash
          s.metadata.write.datablocksPosition batch.1⟩ := by
  unfold step at hstep
  split at hstep
  next space =>
    split at hstep
    next plan synced =>
      cases hstep
      obtain ⟨datablocks, lays⟩ := sync_ok synced
      exact ⟨space, plan, datablocks, lays, rfl⟩
    · cases hstep
  · cases hstep

theorem Intact.step (h : s.Intact) (bytes : s.HasBytes batch) (hstep : s.step cfg batch = some t) :
    t.Intact := by
  obtain ⟨space, plan, datablocks, lays, rfl⟩ := step_ok hstep
  have fits := DiskShard.fits_of_space space
  obtain ⟨total, area⟩ := lays.readAt_area s.file.bytes
  obtain ⟨lies, precedes⟩ := externals_lie cfg.hash bytes s.metadata.write.walSeq
    s.metadata.write.tipHash total area
  rw [← lays.walSeq] at lies
  refine ⟨h.carries.of_sync lays fits, fun e mem => ?_, ?_⟩
  · rcases List.mem_append.mp mem with old | new
    · have old := h.lies e old
      refine External.Lies.mono ⟨old.numbered, old.above, ?_⟩ ⟨le_rfl, ?_⟩ ?_
      · refine Eq.trans (readAt_congr fun i lower _ => ?_) old.reads
        exact h.carries.eq_above lays fits (landed_applyAll _ _) (old.above.trans lower)
      · exact lays.walSeq ▸ Nat.le_add_right _ _
      · show plan.metadata.write.datablocksPosition ≤ _
        omega
    · exact (lies e new).1.mono ⟨Nat.zero_le _, le_rfl⟩ le_rfl
  · refine List.pairwise_append.mpr ⟨h.precedes, precedes, fun e old e' new => ?_⟩
    have old := h.lies e old
    obtain ⟨new, some', below⟩ := lies e' new
    exact ⟨lt_of_le_of_lt old.numbered.2 new.numbered.1, by have := old.above; omega,
      below.trans old.above⟩

/-- **Datablocks stay where they were put.** From a segment whose buffer is right, after any number
of batches that pass the size check: what was given for an entry reads back from its position,
datablocks lie apart at descending positions in the order of the log, and the metablocks keep their
bytes through every batch that follows. -/
theorem datablocks_preserved {m : SegmentMetadata β H} {f : SegmentFile β H} (carry : CarryOver m f)
    (run : Reaches (step cfg) HasBytes ⟨m, f, []⟩ s) :
    (∀ e ∈ s.written, readAt s.file.bytes e.position e.data.length = e.data) ∧
      s.written.Pairwise External.Precedes ∧
      ∀ t, Reaches (step cfg) HasBytes s t →
        ∀ i < s.metadata.write.metablocksPosition, t.file.bytes i = s.file.bytes i := by
  have inv : s.Intact :=
    run.invariant (fun _ _ _ h bytes hstep => h.step bytes hstep)
      ⟨carry.carries, nofun, List.Pairwise.nil⟩
  refine ⟨fun e mem => (inv.lies e mem).reads, inv.precedes, fun t later => ?_⟩
  refine (later.related (I := fun _ => True)
    (R := fun s t => s.metadata.write.metablocksPosition ≤ t.metadata.write.metablocksPosition ∧
      ∀ i < s.metadata.write.metablocksPosition, t.file.bytes i = s.file.bytes i)
    (fun _ => ⟨le_rfl, fun _ _ => rfl⟩) (fun _ _ _ h k => ⟨h.1.trans k.1, fun i below => ?_⟩)
    (fun _ _ _ _ _ _ => trivial) (fun _ _ _ _ _ hstep => ?_) trivial).2
  · exact (k.2 i (lt_of_lt_of_le below h.1)).trans (h.2 i below)
  · obtain ⟨-, plan, datablocks, lays, rfl⟩ := step_ok hstep
    refine ⟨?_, fun i below => lays.eq_below (landed_applyAll _ _) below⟩
    exact lays.metablocksPosition ▸ Nat.le_add_right _ _

instance (s : WrittenSegment β H) (batch : List (QueueItem β C) × Bool) [DecidableEq β] :
    Decidable (s.HasBytes batch) := inferInstanceAs (Decidable (∀ item ∈ batch.1, _ ≠ _))

open Sample in
/-- Two batches, the second with an entry that has no external datablock. -/
theorem datablocks_preserved_two_batches :
    ∃ s : WrittenSegment Cell ℕ, s.written.map (·.position) = [61430, 61425] ∧
      (∀ e ∈ s.written, readAt s.file.bytes e.position e.data.length = e.data) ∧
      s.written.Pairwise External.Precedes := by
  obtain ⟨s, run, positions⟩ : ∃ s, Reaches (step config) HasBytes
      ⟨(DiskShard.start config).active, config.newFile 0 config.genesisHash true, []⟩ s ∧
      s.written.map (·.position) = [61430, 61425] :=
    exists_of_exec [([external 1 10], true), ([inline 2, external 3 5], false)] (by decide +kernel)
  obtain ⟨reads, precedes, -⟩ := datablocks_preserved
    (by simp only [CarryOver, DiskShard.start, WalConfig.newHeader]) run
  exact ⟨s, positions, reads, precedes⟩

end WrittenSegment

end Celeriant.Wal
