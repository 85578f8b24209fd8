import Celeriant.Wal.DiskShard

/-!
# The chain of a shard's segments

Below the write cursor of its metadata every segment file holds metablocks, and the metablocks of
all segments in order form one hash chain that ends at the write cursor of the active segment. The
invariant names the metablocks of each segment; a step appends to the last one, opens a new one,
cuts the last one, or discards some.

What a segment's cursor says about its metablocks besides is left open: a *layout* is any relation
between the cursor and the metablocks that new files start with, batches keep and cuts keep. The
invariant carries it along.

## Main results

* `ChainInv.readLog`: under the invariant the log reads back
* `ChainInv.fsync`, `ChainInv.truncateWal`, `ChainInv.load`, `ChainInv.commitRead`,
  `ChainInv.evictFromLru`: the steps keep it
-/

namespace Celeriant.Wal

open HashChain ByteFile Transition Function DiskShard List Option

section Lists

variable {H C : Type*} {segs segs' : ℕ → List (StoredMetablock H C)} {g : ℕ}

/-- The metablocks of the segments up to the given one, in order. -/
def upTo (segs : ℕ → List (StoredMetablock H C)) : ℕ → List (StoredMetablock H C)
  | 0 => []
  | g + 1 => upTo segs g ++ segs (g + 1)

theorem upTo_congr (same : ∀ g', 0 < g' → g' ≤ g → segs' g' = segs g') :
    upTo segs' g = upTo segs g := by
  induction g with
  | zero => rfl
  | succ g ih =>
    rw [upTo, upTo, ih fun g' pos le => same g' pos (Nat.le_succ_of_le le),
      same (g + 1) (Nat.succ_pos g) le_rfl]

theorem upTo_of_pos (pos : 0 < g) : upTo segs g = upTo segs (g - 1) ++ segs g := by
  cases g with
  | zero => exact absurd pos (Nat.lt_irrefl 0)
  | succ g => rfl

theorem upTo_prefix {g'} (le : g' ≤ g) : ∃ rest, upTo segs g = upTo segs g' ++ rest := by
  induction g with
  | zero => exact ⟨[], by rw [Nat.le_zero.mp le, append_nil]⟩
  | succ g ih =>
    rcases Nat.lt_or_ge g g' with above | below
    · exact ⟨[], by rw [le_antisymm le above, append_nil]⟩
    · obtain ⟨rest, split⟩ := ih below
      exact ⟨rest ++ segs (g + 1), by rw [upTo, split, append_assoc]⟩

/-- A change at one segment does not show below it. -/
theorem upTo_update_below {g'} (below : g' < g) (es : List (StoredMetablock H C)) :
    upTo (update segs g es) g' = upTo segs g' :=
  upTo_congr fun _ _ le => update_of_ne (by omega) ..

theorem upTo_update_self (pos : 0 < g) (es : List (StoredMetablock H C)) :
    upTo (update segs g es) g = upTo segs (g - 1) ++ es := by
  rw [upTo_of_pos pos, upTo_update_below (by omega), update_self]

end Lists

variable {β H C : Type*} (cfg : WalConfig β H C)

/-- What a cursor says about the metablocks below it besides their number and the chain. -/
abbrev CursorFact (H C : Type*) := HeaderCursor H → List (StoredMetablock H C) → Prop

/-- The cursor ends the metablocks `es` of the file, which come after `base`. -/
structure Ends (P : CursorFact H C) (base : List (StoredMetablock H C)) (f : SegmentFile β H)
    (c : HeaderCursor H) (es : List (StoredMetablock H C)) : Prop where
  metablocksPosition : c.metablocksPosition = blockPosition cfg es.length
  walSeq : c.walSeq = (base ++ es).length
  tipHash : c.tipHash = tipAfter cfg.hash cfg.genesisHash ((base ++ es).map (·.entry))
  blocks : readBlocks cfg.codec f.bytes headerBlockSizeBytes es.length = some es
  fact : P c es

/-- The cursor facts an invariant can carry along: new files start with them, batches with allowed
items keep them and so do cuts. -/
structure Layout (P : CursorFact H C) (Allowed : List (QueueItem β C) → Prop) : Prop where
  fresh : ∀ walSeq tipHash advanceRead, P (cfg.newHeader walSeq tipHash advanceRead).write []
  batch : ∀ {m : SegmentMetadata β H} {es items plan datablocks},
    P m.write.toHeaderCursor es → Allowed items → Lays cfg.codec cfg.hash m items plan datablocks →
    m.write.metablocksPosition + alignUp minWriteAlignment (bufferSizeMetablocks cfg.codec items) ≤
      m.write.datablocksPosition →
    P plan.metadata.write.toHeaderCursor (es ++ planMetablocks cfg.hash m items)
  cut : ∀ {c : HeaderCursor H} {es : List (StoredMetablock H C)} {k walSeq tipHash}, P c es →
    c.metablocksPosition = blockPosition cfg es.length → k ≤ es.length →
    P ⟨blockPosition cfg k, c.datablocksPosition, walSeq, tipHash⟩ (es.take k)

/-- Nothing else is said. -/
theorem Layout.trivial : Layout cfg (fun _ _ => True) (fun _ => True) where
  fresh _ _ _ := True.intro
  batch _ _ _ _ := True.intro
  cut _ _ _ := True.intro

/-- **The invariant**: each segment up to the active one holds its metablocks below its write
cursor, and together they form a chain. -/
structure ChainInv (P : CursorFact H C) (s : DiskShard β H)
    (segs : ℕ → List (StoredMetablock H C)) :
    Prop where
  pos : 0 < s.active.logId
  zero : s.files 0 = none
  segment : ∀ g, 0 < g → g ≤ s.active.logId → ∃ f m, s.files g = some f ∧
    s.segmentMetadata g = some m ∧ m.logId = g ∧
    Ends cfg P (upTo segs (g - 1)) f m.write.toHeaderCursor (segs g)
  chained : Extends cfg.hash 0 cfg.genesisHash ((upTo segs s.active.logId).map (·.entry))

variable {cfg} {P : CursorFact H C} {s t : DiskShard β H} {segs : ℕ → List (StoredMetablock H C)}
  {base es : List (StoredMetablock H C)} {f : SegmentFile β H} {m : SegmentMetadata β H}
  {g : ℕ} {items : List (QueueItem β C)}
  {f' : SegmentFile β H} {k : ℕ} {interruption : Option Interruption}

theorem Ends.congr {base'} {c} (ends : Ends cfg P base f c es) (same : base' = base)
    (bytes : ∀ i < c.metablocksPosition, f'.bytes i = f.bytes i) : Ends cfg P base' f' c es := by
  subst same
  refine { ends with blocks := ?_ }
  rw [← ends.blocks]
  refine readBlocks_congr fun i _ upper => bytes i ?_
  rw [ends.metablocksPosition]
  exact upper

/-- The cursor counts the metablocks of its segment. -/
theorem Ends.blockCount (ends : Ends cfg P base f m.write.toHeaderCursor es) :
    DiskShard.blockCount cfg m = es.length := by
  rw [DiskShard.blockCount, ends.metablocksPosition, blockPosition, Nat.add_sub_cancel_left,
    Nat.mul_div_cancel _ cfg.codec.block_pos]

/-! ## Reading the log -/

namespace DiskShard

theorem segmentMetadata_active : s.segmentMetadata s.active.logId = some s.active := if_pos rfl

theorem segmentMetadata_of_ne {g} (ne : g ≠ s.active.logId) :
    s.segmentMetadata g = (s.cached g).or ((s.files g).bind (·.openSegment g true)) := if_neg ne

/-- A segment behind both active ones is the same when its file and its place in the cache are. -/
theorem segmentMetadata_congr {g} (ne : g ≠ s.active.logId) (ne' : g ≠ t.active.logId)
    (files : t.files g = s.files g) (cached : t.cached g = s.cached g) :
    t.segmentMetadata g = s.segmentMetadata g := by
  rw [segmentMetadata_of_ne ne, segmentMetadata_of_ne ne', files, cached]

end DiskShard

/-! ## Segments that a step leaves alone -/

/-- A segment that a step leaves alone: the cursor is the same and nothing below it has changed. -/
def KeptSegment (s t : DiskShard β H) (g : ℕ) : Prop :=
  ∀ f m, s.files g = some f → s.segmentMetadata g = some m → m.logId = g →
    ∃ f' m', t.files g = some f' ∧ t.segmentMetadata g = some m' ∧ m'.logId = g ∧
      m'.write.toHeaderCursor = m.write.toHeaderCursor ∧
      ∀ i < m.write.metablocksPosition, f'.bytes i = f.bytes i

theorem KeptSegment.of_eq (files : t.files g = s.files g)
    (metadata : t.segmentMetadata g = s.segmentMetadata g) : KeptSegment s t g :=
  fun f m file found logId =>
    ⟨f, m, files.trans file, metadata.trans found, logId, rfl, fun _ _ => rfl⟩

/-- A step on the active segment alone, which keeps its bytes. -/
structure TouchesActive (s t : DiskShard β H) : Prop where
  logId : t.active.logId = s.active.logId
  cached : t.cached = s.cached
  files : ∀ g, g ≠ s.active.logId → t.files g = s.files g
  bytes : ∀ f, s.files s.active.logId = some f →
    ∃ f', t.files s.active.logId = some f' ∧ f'.bytes = f.bytes

theorem TouchesActive.trans {u} (first : TouchesActive s t)
    (second : TouchesActive t u) : TouchesActive s u where
  logId := second.logId.trans first.logId
  cached := second.cached.trans first.cached
  files g ne := (second.files g (first.logId ▸ ne)).trans (first.files g ne)
  bytes f file := by
    obtain ⟨f', file', same⟩ := first.bytes f file
    obtain ⟨f'', file'', same'⟩ := second.bytes f' (first.logId ▸ file')
    exact ⟨f'', first.logId ▸ file'', same'.trans same⟩

/-- The segments behind the active one are kept when their files and the cache are. -/
theorem keptSegment_of_files (below : g < s.active.logId)
    (logId : s.active.logId ≤ t.active.logId) (files : t.files g = s.files g)
    (cached : t.cached g = s.cached g) : KeptSegment s t g :=
  .of_eq files (segmentMetadata_congr (by omega) (by omega) files cached)

theorem TouchesActive.kept (touches : TouchesActive s t) (below : g < s.active.logId) :
    KeptSegment s t g :=
  keptSegment_of_files below (le_of_eq touches.logId.symm) (touches.files g (by omega))
    (by rw [touches.cached])

theorem touchesActive_record (logId : m.logId = s.active.logId) :
    TouchesActive s { s with active := m } :=
  ⟨logId, rfl, fun _ _ => rfl, fun f file => ⟨f, file, rfl⟩⟩

theorem touchesActive_writeActiveHeader (s : DiskShard β H) (outcome : HeaderOutcome) :
    TouchesActive s (s.writeActiveHeader outcome) := by
  unfold DiskShard.writeActiveHeader
  split
  · exact ⟨rfl, rfl, fun _ _ => rfl, fun f file => ⟨f, file, rfl⟩⟩
  next f file =>
    refine ⟨rfl, rfl, fun g ne => s.files_setFile_of_ne ne _, fun f' file' => ?_⟩
    obtain rfl : f = f' := some.inj (file.symm.trans file')
    exact ⟨_, s.files_setFile_self _ _, f.bytes_writeDualShardLogHeader _ _⟩

theorem active_writeActiveHeader (s : DiskShard β H) (outcome : HeaderOutcome) :
    (s.writeActiveHeader outcome).active = s.active := by
  unfold DiskShard.writeActiveHeader
  split <;> rfl

theorem touchesActive_refreshCarryOver (s : DiskShard β H) :
    TouchesActive s s.refreshCarryOver := by
  unfold DiskShard.refreshCarryOver
  split
  · exact ⟨rfl, rfl, fun _ _ => rfl, fun f file => ⟨f, file, rfl⟩⟩
  · exact touchesActive_record rfl

theorem write_refreshCarryOver (s : DiskShard β H) :
    s.refreshCarryOver.active.write = s.active.write := by
  unfold DiskShard.refreshCarryOver
  split <;> rfl

/-- A rewind touches the active segment alone, and moves its write cursor. -/
theorem rewindActive_spec (s : DiskShard β H) (position walSeq : ℕ) (ancestorHash : H)
    (outcome : HeaderOutcome) :
    TouchesActive s (s.rewindActive position walSeq ancestorHash outcome) ∧
      (s.rewindActive position walSeq ancestorHash outcome).active.write =
        rewindCursor s.active.write position (walSeq - 1) ancestorHash := by
  have moved : TouchesActive s { s with
      active := { s.active with
        write := rewindCursor s.active.write position (walSeq - 1) ancestorHash
        read := s.active.read.map fun c =>
          rewindCursor c position (walSeq - 1) ancestorHash } } :=
    touchesActive_record rfl
  cases outcome with
  | none =>
    refine ⟨(moved.trans (touchesActive_writeActiveHeader _ none)).trans
      (touchesActive_refreshCarryOver _), ?_⟩
    exact (write_refreshCarryOver _).trans (by rw [active_writeActiveHeader])
  | some fates =>
    refine ⟨moved.trans (touchesActive_writeActiveHeader _ (some fates)), ?_⟩
    exact congrArg SegmentMetadata.write (active_writeActiveHeader _ _)

variable {Allowed : List (QueueItem β C) → Prop}

/-- **A batch that goes through** appends its metablocks to the active segment. -/
theorem Ends.append (ends : Ends cfg P base f m.write.toHeaderCursor es)
    (layout : Layout cfg P Allowed) (allowed : Allowed items) {plan datablocks}
    (lays : Lays cfg.codec cfg.hash m items plan datablocks) (fits : m.write.metablocksPosition +
      alignUp minWriteAlignment (bufferSizeMetablocks cfg.codec items) ≤ m.write.datablocksPosition)
    (bytes : f'.bytes = applyAll plan.writes f.bytes) :
    Ends cfg P base f' plan.metadata.write.toHeaderCursor
      (es ++ planMetablocks cfg.hash m items) := by
  have length : (planMetablocks cfg.hash m items).length = items.length := length_planMetablocks
  have below : ∀ i < m.write.metablocksPosition, f'.bytes i = f.bytes i := by
    intro i lt
    rw [bytes]
    exact lays.eq_below (landed_applyAll f.bytes plan.writes) lt
  refine ⟨?_, ?_, ?_, ?_, layout.batch ends.fact allowed lays fits⟩
  · rw [lays.metablocksPosition, ends.metablocksPosition, blockPosition,
      blockPosition, length_append, length, Nat.add_mul, Nat.add_assoc]
    rfl
  · simp only [lays.walSeq, ends.walSeq, length_append, length, Nat.add_assoc]
  · rw [lays.tipHash, ends.tipHash, ← tipAfter_append, ← map_append, append_assoc]
  · rw [length_append, length]
    refine readBlocks_add (ends.congr rfl below).blocks ?_
    have start : headerBlockSizeBytes + es.length * cfg.codec.fixedBlockSizeBytes =
        m.write.metablocksPosition := ends.metablocksPosition.symm
    rw [start, bytes]
    exact lays.readBlocks_applyAll f.bytes

/-- The header of a file loads the cursor that is in memory. -/
def LoadsCursor (s : DiskShard β H) (g : ℕ) (m : SegmentMetadata β H) : Prop :=
  ((s.files g).bind (·.loadHeaderDetectingCorruption)).map (·.write) = some m.write.toHeaderCursor

instance [DecidableEq H] (s : DiskShard β H) (g : ℕ) (m : SegmentMetadata β H) :
    Decidable (LoadsCursor s g m) := inferInstanceAs (Decidable (_ = _))

/-- What an opened segment has for its cursor. -/
theorem openSegment_of_header {header}
    (loaded : f.loadHeaderDetectingCorruption = some header) (g : ℕ) (advanceRead : Bool) :
    ∃ m, f.openSegment g advanceRead = some m ∧ m.logId = g ∧
      m.write.toHeaderCursor = header.write := by
  rw [SegmentFile.openSegment, loaded]
  exact ⟨_, rfl, rfl, rfl⟩

namespace ChainInv

variable (inv : ChainInv cfg P s segs)
include inv

theorem active : ∃ f, s.files s.active.logId = some f ∧
    Ends cfg P (upTo segs (s.active.logId - 1)) f s.active.write.toHeaderCursor
      (segs s.active.logId) := by
  obtain ⟨f, m, file, metadata, -, ends⟩ := inv.segment s.active.logId inv.pos le_rfl
  rw [segmentMetadata_active] at metadata
  cases metadata
  exact ⟨f, file, ends⟩

theorem readSegment (pos : 0 < g)
    (le : g ≤ s.active.logId) : s.readSegment cfg g = some (segs g) := by
  obtain ⟨f, m, file, metadata, -, ends⟩ := inv.segment g pos le
  have count : (m.write.metablocksPosition - headerBlockSizeBytes) / cfg.codec.fixedBlockSizeBytes =
      (segs g).length := ends.blockCount
  rw [DiskShard.readSegment, file, metadata]
  dsimp only
  rw [readMetablocks, count, ends.blocks]

theorem readLog (le : g ≤ s.active.logId) :
    s.readLog cfg g = some (upTo segs g) := by
  induction g with
  | zero => rfl
  | succ g ih =>
    rw [DiskShard.readLog, ih (by omega), inv.readSegment (Nat.succ_pos g) le, upTo]

/-- The log ends where the write cursor says. -/
theorem tip :
    s.active.write.walSeq = (upTo segs s.active.logId).length ∧
      s.active.write.tipHash =
        tipAfter cfg.hash cfg.genesisHash ((upTo segs s.active.logId).map (·.entry)) := by
  obtain ⟨f, -, ends⟩ := inv.active
  rw [upTo_of_pos inv.pos]
  exact ⟨ends.walSeq, ends.tipHash⟩

/-- The chain up to a segment. -/
theorem chained_upTo (le : g ≤ s.active.logId) :
    Extends cfg.hash 0 cfg.genesisHash ((upTo segs g).map (·.entry)) := by
  obtain ⟨rest, split⟩ : ∃ rest, upTo segs s.active.logId = upTo segs g ++ rest := upTo_prefix le
  have chained := inv.chained
  rw [split, map_append, extends_append] at chained
  exact chained.1

/-! ## What keeps the invariant -/

/-- **The invariant from its parts**: the segments behind the active one are kept, and the active
one holds what it should. -/
theorem rebuild (active : t.active.logId = g)
    (pos : 0 < g) (zero : t.files 0 = s.files 0)
    (kept : ∀ g', 0 < g' → g' < g → g' ≤ s.active.logId ∧ KeptSegment s t g')
    (file : t.files g = some f)
    (ends : Ends cfg P (upTo segs (g - 1)) f t.active.write.toHeaderCursor es)
    (chained : Extends cfg.hash 0 cfg.genesisHash ((upTo segs (g - 1) ++ es).map (·.entry))) :
    ChainInv cfg P t (update segs g es) where
  pos := active ▸ pos
  zero := zero.trans inv.zero
  segment g' pos' le := by
    rw [active] at le
    rcases Nat.lt_or_eq_of_le le with below | rfl
    · obtain ⟨le', keeps⟩ := kept g' pos' below
      obtain ⟨f, m, file, metadata, logId, ends⟩ := inv.segment g' pos' le'
      obtain ⟨f', m', file', metadata', logId', cursor, bytes⟩ := keeps f m file metadata logId
      refine ⟨f', m', file', metadata', logId', ?_⟩
      rw [update_of_ne (by omega), cursor]
      exact ends.congr (upTo_update_below (by omega) es) bytes
    · have metadata : t.segmentMetadata g' = some t.active := by
        rw [← active, segmentMetadata_active]
      refine ⟨f, t.active, file, metadata, active, ?_⟩
      rw [update_self, upTo_update_below (by omega)]
      exact ends
  chained := by
    rw [active, upTo_update_self pos]
    exact chained

/-- The active segment keeps its cursor and what lies below it. -/
theorem keep (active : t.active.logId = s.active.logId)
    (zero : t.files 0 = s.files 0)
    (write : t.active.write.toHeaderCursor = s.active.write.toHeaderCursor)
    (kept : ∀ g, 0 < g → g < s.active.logId → KeptSegment s t g)
    (file : ∀ f, s.files s.active.logId = some f → ∃ f', t.files s.active.logId = some f' ∧
      ∀ i < s.active.write.metablocksPosition, f'.bytes i = f.bytes i) :
    ChainInv cfg P t segs := by
  obtain ⟨f, found, ends⟩ := inv.active
  obtain ⟨f', found', bytes⟩ := file f found
  have chained := inv.chained
  rw [upTo_of_pos inv.pos] at chained
  have rebuilt : ChainInv cfg P t (update segs s.active.logId (segs s.active.logId)) :=
    inv.rebuild active inv.pos zero (fun g pos below => ⟨le_of_lt below, kept g pos below⟩)
      found' (write ▸ ends.congr rfl bytes) chained
  rwa [update_eq_self] at rebuilt

/-- A step that touches the active segment and leaves its cursor keeps the invariant. -/
theorem touch (touches : TouchesActive s t)
    (write : t.active.write = s.active.write) : ChainInv cfg P t segs := by
  refine inv.keep touches.logId (touches.files 0 (Nat.ne_of_lt inv.pos)) (congrArg _ write)
    (fun g _ below => touches.kept below) fun f file => ?_
  obtain ⟨f', file', same⟩ := touches.bytes f file
  exact ⟨f', file', fun i _ => congrFun same i⟩

/-- **A cut of the active segment**: the cursor moves to the `k`-th metablock. -/
theorem cut (touches : TouchesActive s t)
    (le : k ≤ (segs s.active.logId).length)
    (position : t.active.write.metablocksPosition = blockPosition cfg k)
    (walSeq : t.active.write.walSeq = (upTo segs (s.active.logId - 1)).length + k)
    (tipHash : t.active.write.tipHash = tipAfter cfg.hash cfg.genesisHash
      ((upTo segs (s.active.logId - 1) ++ (segs s.active.logId).take k).map (·.entry)))
    (fact : P t.active.write.toHeaderCursor ((segs s.active.logId).take k)) :
    ChainInv cfg P t (update segs s.active.logId ((segs s.active.logId).take k)) := by
  obtain ⟨f, file, ends⟩ := inv.active
  obtain ⟨f', file', same⟩ := touches.bytes f file
  have length : ((segs s.active.logId).take k).length = k := length_take_of_le le
  refine inv.rebuild touches.logId inv.pos (touches.files 0 (Nat.ne_of_lt inv.pos))
    (fun g _ below => ⟨le_of_lt below, touches.kept below⟩) file' ?_ ?_
  · refine ⟨by rw [length, position], by rw [length_append, length, walSeq], tipHash, ?_, fact⟩
    rw [length, same]
    exact readBlocks_take ends.blocks le
  · have chained := inv.chained
    rw [upTo_of_pos inv.pos, ← take_append_drop k (segs s.active.logId), ← append_assoc,
      map_append, extends_append] at chained
    exact chained.1

/-! ## Fsyncs -/

/-- A failed rotation leaves something behind the active segment. -/
theorem setNextFile (f : Option (SegmentFile β H)) (n : ℕ) :
    ChainInv cfg P
      { s with files := update s.files (s.active.logId + 1) f, newestLogId := n } segs := by
  have unmoved : ∀ g, g ≤ s.active.logId →
      update s.files (s.active.logId + 1) f g = s.files g :=
    fun g le => update_of_ne (by omega) ..
  refine inv.keep rfl (unmoved 0 (Nat.zero_le _)) rfl (fun g _ below => ?_) fun f' file => ?_
  · exact keptSegment_of_files below le_rfl (unmoved g (le_of_lt below)) rfl
  · exact ⟨f', (unmoved _ le_rfl).trans file, fun _ _ => rfl⟩

/-- A rotation opens an empty segment that carries the tip on. -/
theorem rotated (layout : Layout cfg P Allowed) :
    ChainInv cfg P (s.rotated cfg) (update segs (s.active.logId + 1) []) := by
  have unmoved : ∀ g, g ≤ s.active.logId → (s.rotated cfg).files g = s.files g := by
    intro g le
    rw [files_rotated, update_of_ne (by omega)]
  have file : (s.rotated cfg).files (s.active.logId + 1) =
      some (cfg.newFile s.active.write.walSeq s.active.write.tipHash false) := by
    rw [files_rotated, update_self]
  obtain ⟨walSeq, tipHash⟩ := inv.tip
  refine inv.rebuild (logId_rotated cfg s) (Nat.succ_pos _) (unmoved 0 (Nat.zero_le _))
    (fun g _ below => ⟨by omega, ?_⟩) file ?_ ?_
  · rcases Nat.lt_or_eq_of_le (Nat.le_of_lt_succ below) with behind | rfl
    · refine keptSegment_of_files behind (by rw [logId_rotated]; omega)
        (unmoved g (by omega)) ?_
      rw [cached_rotated, update_of_ne (by omega)]
    · -- the sealed segment is in the cache now
      refine .of_eq (unmoved _ le_rfl) ?_
      rw [segmentMetadata_active, segmentMetadata_of_ne
        (by rw [logId_rotated]; omega), cached_rotated, update_self]
      rfl
  · have cursor : (s.rotated cfg).active.write.toHeaderCursor =
        (cfg.newHeader s.active.write.walSeq s.active.write.tipHash false).write := by
      simp only [DiskShard.rotated]
    rw [cursor]
    refine ⟨?_, ?_, ?_, rfl, layout.fresh _ _ false⟩
    · simp [blockPosition, WalConfig.newHeader]
    · simpa [WalConfig.newHeader] using walSeq
    · simpa [WalConfig.newHeader] using tipHash
  · simpa using inv.chained

theorem syncActive (layout : Layout cfg P Allowed) (allowed : Allowed items)
    (space : cfg.totalRequired items ≤ s.active.availableSpace) {fullCommit}
    (synced : s.syncActive cfg items fullCommit interruption = t) :
    ∃ segs', ChainInv cfg P t segs' := by
  obtain rfl | ⟨f, plan, datablocks, file, lays, done⟩ := syncActive_cases _ _ _ synced
  · exact ⟨segs, inv⟩
  rcases done with ⟨-, rfl⟩ | ⟨bytes', fates, landed, rfl⟩
  · obtain ⟨f', file', ends⟩ := inv.active
    obtain rfl : f' = f := some.inj (file'.symm.trans file)
    have appended := ends.append layout allowed lays (fits_of_space space)
      (SegmentFile.bytes_writeDualShardLogHeader { f' with bytes := applyAll plan.writes f'.bytes }
        plan.metadata.toShardLogHeader none)
    refine ⟨_,
      ChainInv.rebuild (t := { s.setFile s.active.logId _ with active := plan.metadata }) inv
      lays.logId inv.pos (s.files_setFile_of_ne (Nat.ne_of_lt inv.pos) _)
      (fun g _ below => ⟨le_of_lt below, ?_⟩) (s.files_setFile_self _ _) appended ?_⟩
    · exact keptSegment_of_files below (le_of_eq lays.logId.symm)
        (s.files_setFile_of_ne (by omega) _) rfl
    · have chained := inv.chained
      obtain ⟨walSeq, tipHash⟩ := inv.tip
      rw [upTo_of_pos inv.pos] at chained walSeq tipHash
      rw [← append_assoc, map_append, extends_append]
      refine ⟨chained, ?_⟩
      rw [Nat.zero_add, length_map, ← walSeq, ← tipHash]
      exact extends_planMetablocks
  · -- an interrupted batch changes nothing below the cursor
    refine ⟨segs, inv.keep rfl (s.files_setFile_of_ne (Nat.ne_of_lt inv.pos) _) rfl
      (fun g _ below => ?_) fun f' file' => ?_⟩
    · exact keptSegment_of_files below le_rfl (s.files_setFile_of_ne (by omega) _) rfl
    · obtain rfl : f' = f := some.inj (file'.symm.trans file)
      refine ⟨_, s.files_setFile_self _ _, fun i lt => ?_⟩
      exact lays.eq_below landed lt

theorem fsync (layout : Layout cfg P Allowed) (allowed : Allowed items) {fullCommit} {rotation}
    (fsync : s.commitFsyncWithRollback cfg items fullCommit rotation interruption = t) :
    ∃ segs', ChainInv cfg P t segs' := by
  obtain rfl | ⟨f, n, -, rfl⟩ | ⟨space, rfl⟩ | ⟨space, rfl⟩ := commitFsync_cases _ _ _ _ fsync
  · exact ⟨segs, inv⟩
  · exact ⟨segs, inv.setNextFile f n⟩
  · exact inv.syncActive layout allowed space rfl
  · exact (inv.rotated layout).syncActive layout allowed space rfl

/-! ## Truncations -/

/-- **The point of a truncation**: the number and the hash it starts with are those of the chain. -/
theorem divergence {walSeq ancestorHash} (pos : 0 < g) (le : g ≤ s.active.logId)
    (point : s.divergence cfg g k = some (walSeq, ancestorHash)) :
    k ≤ (segs g).length ∧ walSeq - 1 = (upTo segs (g - 1)).length + k ∧
      ancestorHash = tipAfter cfg.hash cfg.genesisHash
        ((upTo segs (g - 1) ++ (segs g).take k).map (·.entry)) := by
  obtain ⟨f, m, file, metadata, -, ends⟩ := inv.segment g pos le
  rw [DiskShard.divergence, file, metadata] at point
  dsimp only at point
  rw [ends.blockCount] at point
  split at point
  next lt =>
    obtain ⟨block, decoded, same⟩ := map_eq_some_iff.mp point
    cases same
    have found : (segs g)[k]? = some block := by
      rw [← decode_of_readBlocks ends.blocks lt]
      exact decoded
    obtain ⟨inside, atK⟩ := List.getElem?_eq_some_iff.mp found
    have split : segs g = (segs g).take k ++ block :: (segs g).drop (k + 1) := by
      rw [← atK, getElem_cons_drop, take_append_drop]
    -- the block stands behind the first `k` ones
    have chained := inv.chained_upTo le
    rw [upTo_of_pos pos, split, ← append_assoc, map_append, map_cons, extends_append]
      at chained
    obtain ⟨-, number, previous, -⟩ := chained
    refine ⟨le_of_lt lt, ?_, previous⟩
    rw [number, length_map, length_append, length_take_of_le (le_of_lt lt)]
    omega
  next notBelow =>
    split at point
    next same =>
      cases point
      subst same
      rw [take_length]
      refine ⟨le_rfl, ?_, ends.tipHash⟩
      rw [Nat.add_sub_cancel, ends.walSeq, length_append]
    · cases point

/-- A rewind to the point of a truncation cuts the active segment there. -/
theorem rewindActive (layout : Layout cfg P Allowed)
    {walSeq ancestorHash} (le : k ≤ (segs s.active.logId).length)
    (number : walSeq - 1 = (upTo segs (s.active.logId - 1)).length + k)
    (hash : ancestorHash = tipAfter cfg.hash cfg.genesisHash
      ((upTo segs (s.active.logId - 1) ++ (segs s.active.logId).take k).map (·.entry)))
    (outcome : HeaderOutcome) :
    ∃ segs', ChainInv cfg P
      (s.rewindActive (blockPosition cfg k) walSeq ancestorHash outcome) segs' := by
  obtain ⟨f, -, ends⟩ := inv.active
  obtain ⟨touches, write⟩ :=
    rewindActive_spec s (blockPosition cfg k) walSeq ancestorHash outcome
  refine ⟨_, inv.cut touches le ?_ ?_ ?_ ?_⟩
  · rw [write]
    rfl
  · rw [write]
    exact number
  · rw [write]
    exact hash
  · rw [write]
    exact layout.cut ends.fact ends.metablocksPosition le

/-- Unwinding makes an earlier segment the active one. -/
theorem unwind (pos : 0 < g) (below : g < s.active.logId) {deleted u complete}
    (unwound : s.unwindActiveToSealed g deleted = some (u, complete)) :
    u.active.logId = g ∧ ChainInv cfg P u segs := by
  obtain ⟨metadata, files, -, cached⟩ := unwind_eq_some unwound
  obtain ⟨f, m, file, metadata', logId, ends⟩ := inv.segment g pos (le_of_lt below)
  obtain rfl : u.active = m := some.inj (metadata.symm.trans metadata')
  have chained := inv.chained_upTo (le_of_lt below)
  rw [upTo_of_pos pos] at chained
  have rebuilt : ChainInv cfg P u (update segs g (segs g)) := by
    refine inv.rebuild logId pos (files 0 (Nat.zero_le g)) (fun g' _ below' => ⟨by omega, ?_⟩)
      ((files g (Nat.le_refl g)).trans file) ends chained
    refine .of_eq (files g' (le_of_lt below')) ?_
    refine segmentMetadata_congr (by omega) (by omega) (files g' (le_of_lt below')) ?_
    rw [cached, if_neg (by omega)]
  rw [update_eq_self] at rebuilt
  exact ⟨logId, rebuilt⟩

theorem truncateWal (layout : Layout cfg P Allowed) {deleted outcome}
    (truncated : s.truncateWal cfg g k deleted outcome = t) :
    ∃ segs', ChainInv cfg P t segs' := by
  obtain rfl | ⟨walSeq, ancestorHash, point, ⟨rfl, rfl⟩ | ⟨below, u, complete, unwound, left⟩⟩ :=
    truncateWal_cases truncated
  · exact ⟨segs, inv⟩
  · obtain ⟨le, number, hash⟩ := inv.divergence inv.pos le_rfl point
    exact inv.rewindActive layout le number hash outcome
  · -- there is no segment zero to unwind to
    rcases Nat.eq_zero_or_pos g with rfl | pos
    · rw [DiskShard.divergence, inv.zero] at point
      cases point
    · obtain ⟨logId, unwinds⟩ := inv.unwind pos below unwound
      rcases left with rfl | rfl
      · exact ⟨segs, unwinds⟩
      · obtain ⟨le, number, hash⟩ := inv.divergence pos (le_of_lt below) point
        subst logId
        exact unwinds.rewindActive layout le number hash outcome

/-! ## The cache -/

/-- A change of the cache that keeps the cursors of the segments behind the active one. -/
theorem setCached {m : Option (SegmentMetadata β H)}
    (keeps : g < s.active.logId → ∀ f m', s.files g = some f → s.segmentMetadata g = some m' →
      m'.logId = g → ∃ m'', m.or (f.openSegment g true) = some m'' ∧ m''.logId = g ∧
        m''.write.toHeaderCursor = m'.write.toHeaderCursor) :
    ChainInv cfg P { s with cached := update s.cached g m } segs := by
  refine inv.keep rfl rfl rfl (fun g' pos below => ?_) fun f file => ⟨f, file, fun _ _ => rfl⟩
  rcases eq_or_ne g' g with rfl | ne
  · intro f m' file metadata logId
    obtain ⟨m'', found, logId', cursor⟩ := keeps below f m' file metadata logId
    refine ⟨f, m'', file, ?_, logId', cursor, fun _ _ => rfl⟩
    have other : g' ≠ ({ s with cached := update s.cached g' m } :
        DiskShard β H).active.logId := Nat.ne_of_lt below
    rw [segmentMetadata_of_ne other]
    simpa only [update_self, file, bind_some] using found
  · exact keptSegment_of_files below le_rfl rfl (update_of_ne ne ..)

theorem commitRead (g : ℕ) (cursor : LogSegmentCursor H) :
    ChainInv cfg P (s.commitRead g cursor) segs := by
  unfold DiskShard.commitRead
  split
  · exact inv.touch (touchesActive_record rfl) rfl
  next other =>
    split
    · exact inv
    next m inCache =>
      refine inv.setCached fun below f m' file metadata logId => ?_
      rw [segmentMetadata_of_ne other, inCache] at metadata
      cases metadata
      exact ⟨_, rfl, logId, rfl⟩

theorem load (g : ℕ) : ChainInv cfg P (s.load g) segs := by
  unfold DiskShard.load
  split
  · exact inv
  · split
    · exact inv
    next m metadata =>
      refine inv.setCached fun _ f m' _ metadata' logId => ?_
      obtain rfl : m = m' := some.inj (metadata.symm.trans metadata')
      exact ⟨m, rfl, logId, rfl⟩

theorem evictFromLru
    (faithful : ∀ m, s.cached g = some m → LoadsCursor s g m) :
    ChainInv cfg P (s.evictFromLru g) segs := by
  refine inv.setCached fun below f m file metadata logId => ?_
  rw [segmentMetadata_of_ne (Nat.ne_of_lt below)] at metadata
  cases inCache : s.cached g with
  | none =>
    rw [inCache, file] at metadata
    exact ⟨m, metadata, logId, rfl⟩
  | some m' =>
    rw [inCache] at metadata
    cases metadata
    have loads := faithful m inCache
    rw [LoadsCursor, file] at loads
    obtain ⟨header, loaded, cursor⟩ := map_eq_some_iff.mp loads
    obtain ⟨m', opened, logId', cursor'⟩ := openSegment_of_header loaded g true
    exact ⟨m', opened, logId', cursor'.trans cursor⟩

end ChainInv

/-- A shard with one new file. -/
theorem ChainInv.fresh (layout : Layout cfg P Allowed) (logId : t.active.logId = 1)
    (zero : t.files 0 = none) (file : t.files 1 = some (cfg.newFile 0 cfg.genesisHash true))
    (write : t.active.write.toHeaderCursor = (cfg.newHeader 0 cfg.genesisHash true).write) :
    ChainInv cfg P t fun _ => [] where
  pos := by rw [logId]; exact Nat.one_pos
  zero := zero
  segment g pos le := by
    obtain rfl : g = 1 := by omega
    have metadata : t.segmentMetadata 1 = some t.active := by
      rw [← logId, segmentMetadata_active]
    refine ⟨_, t.active, file, metadata, logId, ?_⟩
    rw [write]
    refine ⟨?_, rfl, rfl, rfl, layout.fresh _ _ true⟩
    simp [blockPosition, WalConfig.newHeader]
  chained := by
    rw [logId]
    trivial

theorem ChainInv.start (layout : Layout cfg P Allowed) :
    ChainInv cfg P (DiskShard.start cfg) fun _ => [] := by
  refine ChainInv.fresh layout rfl ?_ ?_ ?_
  · simp [DiskShard.start]
  · simp [DiskShard.start]
  · simp only [DiskShard.start]

end Celeriant.Wal
