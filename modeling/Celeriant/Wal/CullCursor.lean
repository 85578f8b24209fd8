import Celeriant.Wal.CarryOver
import Celeriant.Wal.Reopen

/-!
# The cursor of a cull

A demotion that has to drop entries above the ack barrier looks the barrier's entry up on disk, from
the newest visible block backwards, and makes a cursor from what it finds: the segment and the
position of the block, the hash of the entry, and for the datablocks the position stored in the
entry. `cull_tail` then makes this the write cursor of the active segment.

External datablocks are put below the datablock cursor one after another, so their positions go down
along the log, the cursor lies at or below all of them, and the metablocks end at or below the
cursor. An entry without external bytes has no say in this; its position field is whatever it came
with. `externalSize` reads the size of an entry's external datablock from its hashed content.

The cursor of the cull is right when the entry lies in the active segment and has external bytes. An
entry of a sealed segment brings the id and the positions of another file. An entry without external
bytes has no position: the datablock cursor becomes zero, below the metablocks. And wherever the
datablock cursor moves inside a sector, the carry-over buffer is that of the old place.

## Main results

* `datablockLayout`: this is a layout, kept by batches and cuts
* `cull_leaves_segment_well_formed`: such a cull leaves a well-formed active segment
* `cull_to_inline_barrier`: an entry without external bytes does not
-/

namespace Celeriant.Wal

open HashChain ByteFile Transition DiskShard List Option

variable {β H C : Type*}

/-! ## Where the external datablocks lie -/

section Datablocks

variable (externalSize : C → Option ℕ)

/-- An entry with external bytes. -/
def IsExternal (e : StoredMetablock H C) : Prop := (externalSize e.entry.content).isSome
  deriving Decidable

/-- The positions of external datablocks go down. -/
def PositionsDescend (es : List (StoredMetablock H C)) : Prop :=
  es.Pairwise fun e e' => IsExternal externalSize e → IsExternal externalSize e' →
    e'.datablockPosition ≤ e.datablockPosition

/-- The cursor lies between the metablocks and the external datablocks, whose positions go down. -/
structure DatablocksAbove (c : HeaderCursor H) (es : List (StoredMetablock H C)) : Prop where
  aboveMetablocks : c.metablocksPosition ≤ c.datablocksPosition
  below : ∀ e ∈ es, IsExternal externalSize e → c.datablocksPosition ≤ e.datablockPosition
  descend : PositionsDescend externalSize es

/-- The items bring external bytes exactly as their contents announce. -/
def Sized (items : List (QueueItem β C)) : Prop :=
  ∀ item ∈ items, item.datablockBytes.map List.length = externalSize item.content
  deriving Decidable

variable {externalSize} {hash : Entry H C → H}
  {items : List (QueueItem β C)} {cfg : WalConfig β H C} {es : List (StoredMetablock H C)}

/-- The stamped entries of a batch lie between the cursor after it and the one before it, later ones
below. -/
theorem storeItems_bounds (sized : Sized externalSize items) (n : ℕ)
    (h : H) {position} (fits : bufferSizeDatablocks items ≤ position) :
    (∀ e ∈ storeItems hash n h position items, IsExternal externalSize e →
      position - bufferSizeDatablocks items ≤ e.datablockPosition ∧
        e.datablockPosition ≤ position) ∧
    PositionsDescend externalSize (storeItems hash n h position items) := by
  induction items generalizing n h position with
  | nil => exact ⟨by simp [storeItems], .nil⟩
  | cons item items ih =>
    obtain ⟨size, sized'⟩ := List.forall_mem_cons.mp sized
    rw [bufferSizeDatablocks_cons] at fits ⊢
    rw [storeItems]
    cases bytes : item.datablockBytes with
    | some bytes' =>
      simp only [bytes, map_some, getD_some] at fits ⊢
      obtain ⟨bounds, descend⟩ := @ih sized' (n + 1) (hash ⟨n + 1, h, item.content⟩)
        (position - bytes'.length) (by omega)
      refine ⟨List.forall_mem_cons.mpr ⟨fun _ => by dsimp only; omega, fun e mem external => ?_⟩,
        descend.cons fun e mem _ external => (bounds e mem external).2⟩
      have := bounds e mem external
      omega
    | none =>
      -- an entry without external bytes is not external
      have inline (position : ℕ) :
          ¬ IsExternal externalSize
            (⟨⟨n + 1, h, item.content⟩, position⟩ : StoredMetablock H C) := by
        rw [IsExternal, ← size, bytes]
        exact Bool.false_ne_true
      simp only [bytes, map_none, getD_none, Nat.zero_add] at fits ⊢
      obtain ⟨bounds, descend⟩ := @ih sized' (n + 1) (hash ⟨n + 1, h, item.content⟩) position fits
      exact ⟨List.forall_mem_cons.mpr ⟨fun external => absurd external (inline _), bounds⟩,
        descend.cons fun e mem external => absurd external (inline _)⟩

theorem DatablocksAbove.batch {m} (above : DatablocksAbove externalSize m.write.toHeaderCursor es)
    (sized : Sized externalSize items) {plan}
    {datablocks} (lays : Lays cfg.codec cfg.hash m items plan datablocks)
    (fits : m.write.metablocksPosition +
      alignUp minWriteAlignment (bufferSizeMetablocks cfg.codec items) ≤
        m.write.datablocksPosition) :
    DatablocksAbove externalSize plan.metadata.write.toHeaderCursor
      (es ++ planMetablocks cfg.hash m items) := by
  have total : plan.metadata.write.datablocksPosition + bufferSizeDatablocks items =
      m.write.datablocksPosition := by
    rcases lays.datablocks_cases with ⟨none, -, position, -⟩ | ⟨-, -, -, -, -, -, -, total, -⟩
    · rw [none, position, Nat.add_zero]
    · exact total
  obtain ⟨bounds, descend⟩ : (∀ e ∈ planMetablocks cfg.hash m items,
      IsExternal externalSize e → _) ∧
    _ :=
    storeItems_bounds sized m.write.walSeq m.write.tipHash
      (show bufferSizeDatablocks items ≤ m.write.datablocksPosition by omega)
  refine ⟨?_, fun e mem external => ?_, ?_⟩
  · have padded : bufferSizeMetablocks cfg.codec items ≤
        alignUp minWriteAlignment (bufferSizeMetablocks cfg.codec items) := le_alignUp (by decide)
    rw [lays.metablocksPosition]
    rcases planDatablocks_ok lays.planned with ⟨-, position, -, -⟩ | ⟨-, -, -, ranges, -⟩
    · omega
    · have down : alignDown minWriteAlignment plan.metadata.write.datablocksPosition ≤
          plan.metadata.write.datablocksPosition := alignDown_le
      omega
  · rcases List.mem_append.mp mem with old | new
    · exact le_trans (by omega) (above.below e old external)
    · have lower := (bounds e new external).1
      omega
  · refine List.pairwise_append.mpr
      ⟨above.descend, descend, fun e old e' new external external' => ?_⟩
    -- new datablocks lie below the cursor, old ones above it
    exact le_trans (bounds e' new external').2 (above.below e old external)

theorem DatablocksAbove.take {c} (above : DatablocksAbove externalSize c es)
    (ending : c.metablocksPosition = DiskShard.blockPosition cfg es.length) {k}
    (le : k ≤ es.length) (walSeq : ℕ) (tipHash : H) :
    DatablocksAbove externalSize
      ⟨DiskShard.blockPosition cfg k, c.datablocksPosition, walSeq, tipHash⟩ (es.take k) where
  aboveMetablocks := by
    have cut : DiskShard.blockPosition cfg k ≤ DiskShard.blockPosition cfg es.length :=
      Nat.add_le_add_left (Nat.mul_le_mul_right _ le) _
    exact le_trans cut (ending ▸ above.aboveMetablocks)
  below e mem external := above.below e (List.mem_of_mem_take mem) external
  descend := above.descend.sublist (List.take_sublist k es)

/-- **The datablock cursor's place is a layout.** -/
theorem datablockLayout (cfg : WalConfig β H C) :
    Layout cfg (DatablocksAbove externalSize) (Sized externalSize) where
  fresh _ _ _ := by
    refine ⟨?_, fun e mem => (nomatch mem), List.Pairwise.nil⟩
    have large := cfg.large
    simp only [WalConfig.newHeader]
    omega
  batch above sized lays fits := above.batch sized lays fits
  cut above ending le := above.take ending le _ _

end Datablocks

variable (cfg : WalConfig β H C)

/-! ## The search -/

/-- The number of blocks below a position. -/
def blocksBelow (position : ℕ) : ℕ :=
  (position - headerBlockSizeBytes) / cfg.codec.fixedBlockSizeBytes

/-- The newest of the first `count` blocks with the given number. -/
def findBlock (f : SegmentFile β H) (target : ℕ) : ℕ → Option (ℕ × StoredMetablock H C)
  | 0 => none
  | k + 1 =>
    match cfg.codec.decode
      (readAt f.bytes (blockPosition cfg k) cfg.codec.fixedBlockSizeBytes) with
    | some block =>
      if block.entry.walSeq = target then some (k, block) else findBlock f target k
    | none => findBlock f target k

/-- The scan of a segment below its read cursor and below the position given; `none` when the
segment cannot be opened. -/
def scanSingleLog (s : DiskShard β H) (target g : ℕ) (overrideEnd : Option ℕ) :
    Option (Option (ℕ × StoredMetablock H C)) :=
  match s.files g, s.segmentMetadata g with
  | some f, some m =>
    match m.read with
    | none => some none
    | some read =>
      some (findBlock cfg f target (blocksBelow cfg
        (min (overrideEnd.getD read.metablocksPosition) read.metablocksPosition)))
  | _, _ => none

/-- The scan of the segments from the given one down; the position applies to the first one. -/
def scan (s : DiskShard β H) (target : ℕ) : ℕ → Option ℕ → Option (ℕ × ℕ × StoredMetablock H C)
  | 0, _ => none
  | g + 1, overrideEnd =>
    match scanSingleLog cfg s target (g + 1) overrideEnd with
    | none => none
    | some (some (k, block)) => some (g + 1, k, block)
    | some none => scan s target g none

/-- The cursor behind the block with the number. -/
def findCursorAtWalSeq (s : DiskShard β H) (target : ℕ) (read : LogSegmentCursor H) :
    Option (LogSegmentCursor H) :=
  if target = 0 then
    some { read with
      walSeq := 0, metablocksPosition := headerBlockSizeBytes, tipHash := cfg.genesisHash }
  else
    (scan cfg s target s.active.logId (some read.metablocksPosition)).map fun (g, k, block) =>
      { logId := g
        walSeq := target
        metablocksPosition := blockPosition cfg k + cfg.codec.fixedBlockSizeBytes
        datablocksPosition := block.datablockPosition
        tipHash := cfg.hash block.entry }

/-! ## The condition -/

variable (externalSize : C → Option ℕ)

/-- The entry with this number lies in the active segment, has external bytes, and the datablock
cursor is moved to a sector boundary or not at all. -/
def BarrierInPlace (s : DiskShard β H) (target : ℕ) : Prop :=
  ∃ es ∈ s.readSegment cfg s.active.logId, ∃ e ∈ es, e.entry.walSeq = target ∧
    IsExternal externalSize e ∧
      (e.datablockPosition = s.active.write.datablocksPosition ∨
        minWriteAlignment ∣ e.datablockPosition)

/-- The cursor ends a part of the active segment, with the datablock cursor below the datablocks of
that part; and the datablock cursor is moved to a sector boundary or not at all. -/
def CursorInPlace (s : DiskShard β H) (c : LogSegmentCursor H) : Prop :=
  ∃ es ∈ s.readSegment cfg s.active.logId, ∃ k ≤ es.length,
    c.metablocksPosition = blockPosition cfg k ∧
    s.divergence cfg s.active.logId k = some (c.walSeq + 1, c.tipHash) ∧
    DatablocksAbove externalSize c.toHeaderCursor (es.take k) ∧
    (c.datablocksPosition = s.active.write.datablocksPosition ∨
      minWriteAlignment ∣ c.datablocksPosition)

/-- The condition of a run. Batches bring the bytes their contents announce and commits do not pass
the write cursor; headers agree with the memory where they are loaded; and a cull goes to the read
cursor when that is in place, or to the cursor found for a barrier that is. -/
def CullsInPlace (s : DiskShard β H) : DiskShard.Action β H C → Prop
  | .fsync items _ _ _ => Sized externalSize items
  | .commitRead g cursor => ∀ m ∈ s.segmentMetadata g,
      cursor.metablocksPosition ≤ m.write.metablocksPosition
  | .evictFromLru g => ∀ m ∈ s.cached g, LoadsCursor s g m
  | .restart => RestartsOnChain cfg (DatablocksAbove externalSize) s
  | .cullTail (.writeToRead cursor) _ =>
      s.active.read = some cursor ∧ CursorInPlace cfg externalSize s cursor
  | .cullTail (.bothToAckBarrier cursor) _ => ∃ target read, s.active.read = some read ∧
      findCursorAtWalSeq cfg s target read = some cursor ∧
      BarrierInPlace cfg externalSize s target
  | _ => True

variable {cfg externalSize}

/-! ## What the search finds -/

theorem blocksBelow_mono {position position'} (le : position ≤ position') :
    blocksBelow cfg position ≤ blocksBelow cfg position' :=
  Nat.div_le_div_right (Nat.sub_le_sub_right le _)

variable {block : StoredMetablock H C} {target : ℕ} {overrideEnd : Option ℕ}

theorem findBlock_eq_some {f count k} (found : findBlock cfg f target count = some (k, block)) :
    k < count ∧ block.entry.walSeq = target ∧
      cfg.codec.decode (readAt f.bytes (blockPosition cfg k)
        cfg.codec.fixedBlockSizeBytes) = some block := by
  induction count with
  | zero => cases found
  | succ count ih =>
    rw [findBlock] at found
    split at found
    next block' decoded =>
      split at found
      next same =>
        cases found
        exact ⟨Nat.lt_succ_self _, same, decoded⟩
      · obtain ⟨lt, same, decoded⟩ := ih found
        exact ⟨Nat.lt_succ_of_lt lt, same, decoded⟩
    · obtain ⟨lt, same, decoded⟩ := ih found
      exact ⟨Nat.lt_succ_of_lt lt, same, decoded⟩

/-- A block below the read cursor of its segment, with the number that is looked for. -/
structure FoundBlock (cfg : WalConfig β H C) (s : DiskShard β H) (target g k : ℕ)
    (block : StoredMetablock H C) (f : SegmentFile β H) (m : SegmentMetadata β H)
    (read : LogSegmentCursor H) : Prop where
  file : s.files g = some f
  metadata : s.segmentMetadata g = some m
  isRead : m.read = some read
  below : k < blocksBelow cfg read.metablocksPosition
  number : block.entry.walSeq = target
  decoded : cfg.codec.decode (readAt f.bytes (blockPosition cfg k)
    cfg.codec.fixedBlockSizeBytes) = some block

theorem scanSingleLog_eq_some {s g k}
    (found : scanSingleLog cfg s target g overrideEnd = some (some (k, block))) :
    ∃ f m read, FoundBlock cfg s target g k block f m read := by
  unfold scanSingleLog at found
  split at found
  next f m file metadata =>
    split at found
    · cases found
    next read isRead =>
      obtain ⟨lt, number, decoded⟩ := findBlock_eq_some (some.inj found)
      have below := lt_of_lt_of_le lt (blocksBelow_mono (Nat.min_le_right ..))
      exact ⟨f, m, read, file, metadata, isRead, below, number, decoded⟩
  · cases found

/-- **What the scan finds.** -/
theorem scan_eq_some {s n g k} (found : scan cfg s target n overrideEnd = some (g, k, block)) :
    0 < g ∧ g ≤ n ∧ ∃ f m read, FoundBlock cfg s target g k block f m read := by
  induction n generalizing overrideEnd with
  | zero => cases found
  | succ n ih =>
    rw [scan] at found
    split at found
    · cases found
    next k' block' inSegment =>
      cases found
      exact ⟨Nat.succ_pos n, le_rfl, scanSingleLog_eq_some inSegment⟩
    · obtain ⟨pos, le, rest⟩ := ih found
      exact ⟨pos, Nat.le_succ_of_le le, rest⟩

section Barrier

variable {P : CursorFact H C} {s t : DiskShard β H} {segs : ℕ → List (StoredMetablock H C)}
  {k : ℕ} {block : StoredMetablock H C}
  {g target : ℕ} {e : StoredMetablock H C} {read : LogSegmentCursor H}

/-- The number of an entry is its place in the log. -/
theorem ChainInv.number (inv : ChainInv cfg P s segs) (pos : 0 < g)
    (le : g ≤ s.active.logId) (found : (segs g)[k]? = some e) :
    e.entry.walSeq = (upTo segs (g - 1)).length + k + 1 := by
  have place : ((upTo segs g).map (·.entry))[(upTo segs (g - 1)).length + k]? = some e.entry := by
    rw [List.getElem?_map, upTo_of_pos pos, List.getElem?_append_right (Nat.le_add_right _ _),
      Nat.add_sub_cancel_left, found]
    rfl
  have number := (inv.chained_upTo le).walSeq place
  omega

/-- A block that the scan finds is a block of the log. -/
theorem ChainInv.found (inv : ChainInv cfg P s segs) (reads : ReadInv s)
    (pos : 0 < g) (le : g ≤ s.active.logId) {f m}
    (found : FoundBlock cfg s target g k block f m read) : (segs g)[k]? = some block := by
  obtain ⟨f', m', file, metadata, -, ends⟩ := inv.segment g pos le
  obtain rfl : f' = f := some.inj (file.symm.trans found.file)
  obtain rfl : m' = m := some.inj (metadata.symm.trans found.metadata)
  obtain ⟨-, -, -, behind⟩ := reads.segment (readBehind_segmentwise cfg) metadata
  have count : blocksBelow cfg m'.write.metablocksPosition = (segs g).length := ends.blockCount
  have inside : k < (segs g).length :=
    lt_of_lt_of_le found.below (count ▸ blocksBelow_mono (behind read found.isRead))
  rw [← decode_of_readBlocks ends.blocks inside]
  exact found.decoded

/-- The entries of earlier segments have smaller numbers. -/
theorem ChainInv.lt_of_segment_lt (inv : ChainInv cfg P s segs) (pos : 0 < g)
    (below : g < s.active.logId) (found : (segs g)[k]? = some e) :
    e.entry.walSeq ≤ (upTo segs (s.active.logId - 1)).length := by
  obtain ⟨rest, split⟩ : ∃ rest, upTo segs (s.active.logId - 1) = upTo segs g ++ rest :=
    upTo_prefix (by omega)
  obtain ⟨inside, -⟩ := List.getElem?_eq_some_iff.mp found
  rw [inv.number pos (le_of_lt below) found, split, upTo_of_pos pos]
  simp only [length_append]
  omega

/-- **What the search finds for a barrier in place** is its entry, in the active segment. -/
theorem ChainInv.barrier (inv : ChainInv cfg P s segs) (reads : ReadInv s) {overrideEnd}
    (found : scan cfg s target s.active.logId overrideEnd = some (g, k, block))
    (inPlace : BarrierInPlace cfg externalSize s target) :
    g = s.active.logId ∧ (segs s.active.logId)[k]? = some block ∧ block.entry.walSeq = target ∧
      IsExternal externalSize block ∧
      (block.datablockPosition = s.active.write.datablocksPosition ∨
        minWriteAlignment ∣ block.datablockPosition) := by
  obtain ⟨pos, le, f, m, read, foundBlock⟩ := scan_eq_some found
  have atK := inv.found reads pos le foundBlock
  obtain ⟨es, reads', e, mem, number, external, place⟩ := inPlace
  obtain rfl : segs s.active.logId = es :=
    some.inj ((inv.readSegment inv.pos le_rfl).symm.trans reads')
  obtain ⟨j, atJ⟩ := mem_iff_getElem?.mp mem
  have number' := inv.number inv.pos le_rfl atJ
  rcases Nat.lt_or_eq_of_le le with below | rfl
  · have smaller := inv.lt_of_segment_lt pos below atK
    rw [foundBlock.number] at smaller
    omega
  · -- one number, one entry
    have number'' := inv.number inv.pos le_rfl atK
    rw [foundBlock.number] at number''
    obtain rfl : j = k := by omega
    obtain rfl : e = block := some.inj (atJ.symm.trans atK)
    exact ⟨rfl, atK, number, external, place⟩

/-- A cull touches the active segment alone, and moves its write cursor to the target. -/
theorem cullTail_spec (s : DiskShard β H) (target : CullTarget H) (outcome : HeaderOutcome) :
    TouchesActive s (s.cullTail target outcome) ∧
      (s.cullTail target outcome).active.write = target.cursor := by
  rw [DiskShard.cullTail]
  refine ⟨(touchesActive_record (target.logId_moved _)).trans
    (touchesActive_writeActiveHeader _ _), ?_⟩
  rw [active_writeActiveHeader]
  exact target.write_moved _

/-- The datablock cursor at an external entry lies below the datablocks up to it. -/
theorem DatablocksAbove.at_entry {c} {es : List (StoredMetablock H C)}
    (above : DatablocksAbove externalSize c es)
    (ending : c.metablocksPosition = blockPosition cfg es.length) (found : es[k]? = some block)
    (external : IsExternal externalSize block) (walSeq : ℕ) (tipHash : H) :
    DatablocksAbove externalSize
      ⟨blockPosition cfg (k + 1), block.datablockPosition, walSeq, tipHash⟩
      (es.take (k + 1)) := by
  obtain ⟨inside, atK⟩ := List.getElem?_eq_some_iff.mp found
  have cut := above.take ending inside walSeq tipHash
  have place := above.below block (atK ▸ getElem_mem inside) external
  refine ⟨le_trans cut.aboveMetablocks place, fun e mem external' => ?_, cut.descend⟩
  have split : es.take (k + 1) = es.take k ++ [block] := by
    rw [take_add_one, found]
    rfl
  have descend := cut.descend
  rw [split] at mem descend
  rcases mem_append.mp mem with earlier | last
  · exact (pairwise_append.mp descend).2.2 e earlier block (mem_singleton_self _)
      external' external
  · rw [mem_singleton.mp last]

/-- **A cull to the barrier** cuts the active segment behind the barrier's entry. -/
theorem ChainInv.cullToBarrier (inv : ChainInv cfg (DatablocksAbove externalSize) s segs)
    (touches : TouchesActive s t)
    (atK : (segs s.active.logId)[k]? = some block) (external : IsExternal externalSize block)
    (write : t.active.write = ⟨⟨blockPosition cfg (k + 1), block.datablockPosition,
      block.entry.walSeq, cfg.hash block.entry⟩, s.active.logId⟩) :
    ChainInv cfg (DatablocksAbove externalSize) t
      (Function.update segs s.active.logId ((segs s.active.logId).take (k + 1))) := by
  obtain ⟨f, -, ends⟩ := inv.active
  obtain ⟨inside, -⟩ := List.getElem?_eq_some_iff.mp atK
  refine inv.cut touches inside (by rw [write]) ?_ ?_ ?_
  · rw [write]
    exact inv.number inv.pos le_rfl atK
  · rw [write, take_add_one, atK, ← append_assoc, map_append, tipAfter_append]
    rfl
  · rw [write]
    exact ends.fact.at_entry ends.metablocksPosition atK external _ _

/-- **The cursor of a barrier in place** ends its entry. -/
theorem ChainInv.findCursor (inv : ChainInv cfg P s segs) (reads : ReadInv s)
    {cursor} (found : findCursorAtWalSeq cfg s target read = some cursor)
    (inPlace : BarrierInPlace cfg externalSize s target) :
    ∃ k block, (segs s.active.logId)[k]? = some block ∧ block.entry.walSeq = target ∧
      IsExternal externalSize block ∧
      (block.datablockPosition = s.active.write.datablocksPosition ∨
        minWriteAlignment ∣ block.datablockPosition) ∧
      cursor = ⟨⟨blockPosition cfg (k + 1), block.datablockPosition, block.entry.walSeq,
        cfg.hash block.entry⟩, s.active.logId⟩ := by
  unfold findCursorAtWalSeq at found
  split at found
  next genesis =>
    -- the log has no entry zero
    obtain ⟨es, reads', e, mem, number, -⟩ := inPlace
    obtain rfl : segs s.active.logId = es :=
      some.inj ((inv.readSegment inv.pos le_rfl).symm.trans reads')
    obtain ⟨j, atJ⟩ := mem_iff_getElem?.mp mem
    have number' := inv.number inv.pos le_rfl atJ
    omega
  · obtain ⟨⟨g, k, block⟩, scanned, rfl⟩ := map_eq_some_iff.mp found
    obtain ⟨rfl, atK, rfl, external, place⟩ := inv.barrier reads scanned inPlace
    refine ⟨k, block, atK, rfl, external, place, ?_⟩
    have next : blockPosition cfg k + cfg.codec.fixedBlockSizeBytes =
        blockPosition cfg (k + 1) := by
      rw [blockPosition, blockPosition, Nat.succ_mul, Nat.add_assoc]
    dsimp only
    rw [next]

end Barrier

/-! ## Runs -/

section Runs

variable {s t : DiskShard β H}

/-- The invariant of a run: the chain with its datablocks, the buffers and the read cursors. -/
structure CullInv (cfg : WalConfig β H C) (externalSize : C → Option ℕ) (s : DiskShard β H) :
    Prop where
  chain : ∃ segs, ChainInv cfg (DatablocksAbove externalSize) s segs
  carry : CarryInv False s
  reads : ReadInv s

variable {a : DiskShard.Action β H C}

theorem CullInv.keepsDatablockCursor (inv : CullInv cfg externalSize s)
    (ok : CullsInPlace cfg externalSize s a) :
    KeepsDatablockCursor s a := by
  cases a with
  | cullTail target outcome =>
    cases target with
    | writeToRead cursor =>
      obtain ⟨-, es, -, k, -, -, -, -, place⟩ := ok
      exact place
    | bothToAckBarrier cursor =>
      obtain ⟨target, read, -, found, inPlace⟩ := ok
      obtain ⟨segs, chain⟩ := inv.chain
      obtain ⟨k, block, -, -, -, place, rfl⟩ := chain.findCursor inv.reads found inPlace
      exact place
  | _ => trivial

/-- A cull to a cursor in place cuts the active segment. -/
theorem ChainInv.cullToCursor {segs}
    (inv : ChainInv cfg (DatablocksAbove externalSize) s segs) {cursor}
    (inPlace : CursorInPlace cfg externalSize s cursor) (touches : TouchesActive s t)
    (write : t.active.write = cursor) :
    ∃ segs', ChainInv cfg (DatablocksAbove externalSize) t segs' := by
  obtain ⟨es, reads, k, le, position, point, above, -⟩ := inPlace
  obtain rfl : segs s.active.logId = es :=
    some.inj ((inv.readSegment inv.pos le_rfl).symm.trans reads)
  obtain ⟨-, number, hash⟩ := inv.divergence inv.pos le_rfl point
  subst write
  exact ⟨_, inv.cut touches le position number hash above⟩

theorem CullInv.cullTail (inv : CullInv cfg externalSize s) {target}
    {outcome} (ok : CullsInPlace cfg externalSize s (.cullTail target outcome)) :
    ∃ segs, ChainInv cfg (DatablocksAbove externalSize) (s.cullTail target outcome) segs := by
  obtain ⟨segs, chain⟩ := inv.chain
  obtain ⟨touches, write⟩ := cullTail_spec s target outcome
  cases target with
  | writeToRead cursor => exact chain.cullToCursor ok.2 touches write
  | bothToAckBarrier cursor =>
    obtain ⟨target, read, -, found, inPlace⟩ := ok
    obtain ⟨k, block, atK, -, external, -, same⟩ := chain.findCursor inv.reads found inPlace
    exact ⟨_, chain.cullToBarrier touches atK external (write.trans same)⟩

theorem CullInv.step (inv : CullInv cfg externalSize s)
    (ok : CullsInPlace cfg externalSize s a) (step : s.step cfg a = some t) :
    CullInv cfg externalSize t := by
  refine ⟨?_, CarryInv.step inv.carry (inv.keepsDatablockCursor ok) (fun no => no.elim) step,
    ReadInv.step inv.reads ?_ ?_ step⟩
  · obtain ⟨segs, chain⟩ := inv.chain
    cases a with
    | fsync items fullCommit rotation interruption =>
      exact chain.fsync (datablockLayout cfg) ok (some.inj step)
    | truncateWal g k deleted outcome =>
      exact chain.truncateWal (datablockLayout cfg) (some.inj step)
    | cullTail target outcome =>
      cases step
      exact inv.cullTail ok
    | syncHeaderOnly outcome =>
      cases step
      exact ⟨segs, chain.touch (touchesActive_writeActiveHeader s outcome)
        (congrArg _ (active_writeActiveHeader s outcome))⟩
    | commitRead g cursor =>
      cases step
      exact ⟨segs, chain.commitRead g cursor⟩
    | evictFromLru g =>
      cases step
      exact ⟨segs, chain.evictFromLru ok⟩
    | load g =>
      cases step
      exact ⟨segs, chain.load g⟩
    | restart => exact chain.restart ok step
  · rintro cursor outcome rfl
    exact ok.1
  · rintro g cursor rfl
    exact ok

theorem CullInv.of_reaches
    (run : Reaches (DiskShard.step cfg) (CullsInPlace cfg externalSize) (DiskShard.start cfg) s) :
    CullInv cfg externalSize s :=
  run.invariant (fun _ _ _ inv ok step => inv.step ok step)
    ⟨⟨_, ChainInv.start (datablockLayout cfg)⟩, RecordInv.start (Held.segmentwise cfg False),
      RecordInv.start (readBehind_segmentwise cfg)⟩

/-- A byte of the active file that belongs to the metablocks below the write cursor or to the
external datablock of one of the entries. -/
def Survives (externalSize : C → Option ℕ) (c : HeaderCursor H) (es : List (StoredMetablock H C))
    (i : ℕ) : Prop :=
  headerBlockSizeBytes ≤ i ∧ i < c.metablocksPosition ∨
    ∃ e ∈ es, ∃ n, externalSize e.entry.content = some n ∧ e.datablockPosition ≤ i ∧
      i < e.datablockPosition + n

/-- The active segment holds the entries `es` up to the number `b`, and its write cursor says so. -/
structure EndsAtBarrier (cfg : WalConfig β H C) (externalSize : C → Option ℕ) (t : DiskShard β H)
    (b : ℕ) (es : List (StoredMetablock H C)) : Prop where
  reads : t.readSegment cfg t.active.logId = some es
  logId : t.active.write.logId = t.active.logId
  walSeq : t.active.write.walSeq = b
  last : ∃ e, es.getLast? = some e ∧ e.entry.walSeq = b ∧
    t.active.write.tipHash = cfg.hash e.entry
  metablocksPosition : t.active.write.metablocksPosition = blockPosition cfg es.length
  aboveMetablocks : t.active.write.metablocksPosition ≤ t.active.write.datablocksPosition
  belowDatablocks : ∀ e ∈ es, IsExternal externalSize e →
    t.active.write.datablocksPosition ≤ e.datablockPosition
  nextSync : ∀ items fullCommit rotation interruption,
    ∃ f f', t.files t.active.logId = some f ∧
      (t.commitFsyncWithRollback cfg items fullCommit rotation interruption).files
        t.active.logId = some f' ∧
      ∀ i, Survives externalSize t.active.write.toHeaderCursor es i → f'.bytes i = f.bytes i

/-- The next fsync, interrupted or not, changes no byte of the entries. -/
theorem CullInv.nextSync (inv : CullInv cfg externalSize t) {es : List (StoredMetablock H C)}
    (below : ∀ e ∈ es, IsExternal externalSize e →
      t.active.write.datablocksPosition ≤ e.datablockPosition)
    (items : List (QueueItem β C)) (fullCommit : Bool) (rotation : Option RotationFailure)
    (interruption : Option Interruption) :
    ∃ f f', t.files t.active.logId = some f ∧
      (t.commitFsyncWithRollback cfg items fullCommit rotation interruption).files
        t.active.logId = some f' ∧
      ∀ i, Survives externalSize t.active.write.toHeaderCursor es i → f'.bytes i = f.bytes i := by
  obtain ⟨f, file, held⟩ := inv.carry.active
  obtain ⟨f', file', written⟩ := commitFsync_activeFile rfl file
  refine ⟨f, f', file, file', fun i survives => ?_⟩
  rcases written with same | ⟨space, plan, datablocks, lays, landed⟩
  · exact congrFun same i
  rcases survives with ⟨-, metablock⟩ | ⟨e, mem, n, size, lower, -⟩
  · exact lays.eq_below landed metablock
  · have external : IsExternal externalSize e := by
      rw [IsExternal, size]
      rfl
    exact held.1.eq_above lays (fits_of_space space) landed
      (le_trans (below e mem external) lower)

/-- **A cull leaves a well-formed active segment.** In every state of every run in which all culls
are in place, a cull to the cursor found for a barrier in place leaves the entries up to the
barrier, and a write cursor that names the active segment, the barrier's entry and its hash, the end
of its block, and a datablock position above the metablocks and below the external datablocks; the
next fsync changes no byte of what is left. -/
theorem cull_leaves_segment_well_formed
    (run : Reaches (DiskShard.step cfg) (CullsInPlace cfg externalSize) (DiskShard.start cfg) s)
    {b : ℕ} {read cursor : LogSegmentCursor H} (isRead : s.active.read = some read)
    (found : findCursorAtWalSeq cfg s b read = some cursor)
    (inPlace : BarrierInPlace cfg externalSize s b) (outcome : HeaderOutcome) :
    ∃ es culled, s.readSegment cfg s.active.logId = some (es ++ culled) ∧
      EndsAtBarrier cfg externalSize (s.cullTail (.bothToAckBarrier cursor) outcome) b es := by
  have inv := CullInv.of_reaches run
  have ok : CullsInPlace cfg externalSize s (.cullTail (.bothToAckBarrier cursor) outcome) :=
    ⟨b, read, isRead, found, inPlace⟩
  have after := inv.step (a := .cullTail (.bothToAckBarrier cursor) outcome) ok rfl
  obtain ⟨segs, chain⟩ := inv.chain
  obtain ⟨touches, write⟩ := cullTail_spec s (.bothToAckBarrier cursor) outcome
  obtain ⟨k, block, atK, rfl, external, -, same⟩ := chain.findCursor inv.reads found inPlace
  replace write := write.trans same
  have cut := chain.cullToBarrier touches atK external write
  obtain ⟨f, file, ends⟩ := cut.active
  rw [touches.logId, Function.update_self] at ends
  have reads : (s.cullTail (.bothToAckBarrier cursor) outcome).readSegment cfg
      (s.cullTail (.bothToAckBarrier cursor) outcome).active.logId =
        some ((segs s.active.logId).take (k + 1)) := by
    rw [cut.readSegment cut.pos le_rfl, touches.logId, Function.update_self]
  have last : ((segs s.active.logId).take (k + 1)).getLast? = some block := by
    rw [take_add_one, atK]
    simp
  refine ⟨(segs s.active.logId).take (k + 1), (segs s.active.logId).drop (k + 1), ?_, reads, ?_, ?_,
    ⟨block, last, rfl, ?_⟩, ends.metablocksPosition, ends.fact.aboveMetablocks, ends.fact.below,
    after.nextSync ends.fact.below⟩
  · rw [take_append_drop]
    exact chain.readSegment chain.pos le_rfl
  · rw [touches.logId, write]
  · rw [write]
  · rw [write]

end Runs

/-- Only fsyncs, of items of the announced sizes. -/
def SizedFsync (externalSize : C → Option ℕ) (_ : DiskShard β H) : DiskShard.Action β H C → Prop
  | .fsync items _ _ _ => Sized externalSize items
  | _ => False

instance (externalSize : C → Option ℕ) :
    DecidableRel (SizedFsync externalSize : DiskShard β H → DiskShard.Action β H C → Prop) :=
  fun s a => by
    induction a using DiskShard.Action.casesOn <;> dsimp only [SizedFsync] <;> infer_instance

open Sample in
/-- A cull to an entry with external bytes, behind which an entry without them is dropped. -/
theorem cull_to_external_barrier :
    ∃ s read cursor, Reaches (DiskShard.step config)
        (CullsInPlace config fun c => if c = 1 then some 4096 else none)
        (DiskShard.start config) s ∧
      s.active.read = some read ∧ findCursorAtWalSeq config s 1 read = some cursor ∧
      ∃ es culled, s.readSegment config s.active.logId = some (es ++ culled) ∧
        EndsAtBarrier config (fun c => if c = 1 then some 4096 else none)
          (s.cullTail (.bothToAckBarrier cursor) none) 1 es := by
  obtain ⟨s, fsyncs, isRead, found, reads⟩ : ∃ s, Reaches (DiskShard.step config)
      (SizedFsync fun c => if c = 1 then some 4096 else none) (DiskShard.start config) s ∧
      s.active.read = some ⟨⟨6144, 57344, 2, 22⟩, 1⟩ ∧
      findCursorAtWalSeq config s 1 ⟨⟨6144, 57344, 2, 22⟩, 1⟩ = some ⟨⟨5120, 57344, 1, 11⟩, 1⟩ ∧
      s.readSegment config s.active.logId = some [⟨⟨1, 0, 1⟩, 57344⟩, ⟨⟨2, 11, 2⟩, 0⟩] :=
    exists_of_exec [fsync [external 1 4096] true, fsync [inline 2] true] (by decide +kernel)
  have run := fsyncs.mono fun s a sized => show CullsInPlace config _ s a by
    cases a with
    | fsync => exact sized
    | _ => exact sized.elim
  have inPlace : BarrierInPlace config (fun c => if c = 1 then some 4096 else none) s 1 :=
    ⟨_, reads, _, mem_cons_self .., rfl, rfl, .inr (by decide)⟩
  exact ⟨s, _, _, run, isRead, found,
    cull_leaves_segment_well_formed run isRead found inPlace none⟩

open Sample in
/-- **A barrier without external bytes.** The datablock cursor becomes zero, below the metablocks,
while the datablock of the first entry lies near the end of the file. -/
theorem cull_to_inline_barrier :
    ∃ s read cursor, Reaches (DiskShard.step config) Always (DiskShard.start config) s ∧
      s.active.read = some read ∧ findCursorAtWalSeq config s 2 read = some cursor ∧
      (s.cullTail (.bothToAckBarrier cursor) none).active.write.datablocksPosition <
        (s.cullTail (.bothToAckBarrier cursor) none).active.write.metablocksPosition := by
  obtain ⟨s, run, isRead, found⟩ : ∃ s, Reaches (DiskShard.step config) Always
      (DiskShard.start config) s ∧ s.active.read = some ⟨⟨7168, 61430, 3, 33⟩, 1⟩ ∧
      findCursorAtWalSeq config s 2 ⟨⟨7168, 61430, 3, 33⟩, 1⟩ = some ⟨⟨6144, 0, 2, 22⟩, 1⟩ :=
    exists_of_exec [fsync [external 1 10, inline 2, inline 3] true] (by decide +kernel)
  refine ⟨s, _, _, run, isRead, found, ?_⟩
  rw [(cullTail_spec s _ none).2]
  decide

end Celeriant.Wal
