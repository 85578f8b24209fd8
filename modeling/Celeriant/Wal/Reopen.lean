import Celeriant.Wal.SegmentChain

/-!
# Reopening a shard

A restart takes the cursors from the headers on disk. Behind the memory's write cursor there may be
blocks that a header counts all the same: those of a batch that failed or was cut off behind its
headers, or those of a truncation whose headers never reached the disk. Where these blocks are there
and continue the chain, the shard comes up with a chain again.

## Main results

* `ChainInv.restart`: such a restart keeps the chain
* `log_is_a_chain`: in every run without culls under this condition the log is a chain
* `stale_header_breaks_the_chain`: two failed fsyncs and a restart break it
-/

namespace Celeriant.Wal

open HashChain ByteFile Transition Function DiskShard List Option

variable {β H C : Type*} (cfg : WalConfig β H C)

/-- The blocks from a position up to a cursor continue the chain whose last number and hash are
given, and the cursor names their end. -/
def Continues (f : SegmentFile β H) (position walSeq : ℕ) (tipHash : H) (c : HeaderCursor H) :
    Prop :=
  match readBlocks cfg.codec f.bytes position
    ((c.metablocksPosition - position) / cfg.codec.fixedBlockSizeBytes) with
  | none => False
  | some es =>
    c.metablocksPosition = position + es.length * cfg.codec.fixedBlockSizeBytes ∧
      c.walSeq = walSeq + es.length ∧ c.tipHash = tipAfter cfg.hash tipHash (es.map (·.entry)) ∧
      Extends cfg.hash walSeq tipHash (es.map (·.entry))

/-- What the header of a file says of it; false when it does not load. -/
def AtHeader (files : ℕ → Option (SegmentFile β H)) (g : ℕ)
    (Q : SegmentFile β H → HeaderCursor H → Prop) : Prop :=
  match files g with
  | none => False
  | some f =>
    match f.loadHeaderDetectingCorruption with
    | none => False
    | some header => Q f header.write

/-- The cursor says of all metablocks below it what it should. -/
def FactOnDisk (P : CursorFact H C) (f : SegmentFile β H) (c : HeaderCursor H) : Prop :=
  match readMetablocks cfg.codec f.bytes c.metablocksPosition with
  | none => False
  | some es => P c es

/-- The blocks that the headers of segment `g` and the `d` next ones count from a position of the
first on continue the chain. -/
def TailOnDisk (P : CursorFact H C) (files : ℕ → Option (SegmentFile β H)) (g position walSeq : ℕ)
    (tipHash : H) : ℕ → Prop
  | 0 => AtHeader files g fun f c =>
      Continues cfg f position walSeq tipHash c ∧ FactOnDisk cfg P f c
  | d + 1 => AtHeader files g fun f c =>
      (Continues cfg f position walSeq tipHash c ∧ FactOnDisk cfg P f c) ∧
        TailOnDisk P files (g + 1) headerBlockSizeBytes c.walSeq c.tipHash d

/-- The segment that a restart opens: the newest one that is not an orphan. -/
def reopened (files : ℕ → Option (SegmentFile β H)) : ℕ → Option ℕ
  | 0 => none
  | g + 1 =>
    match files (g + 1) with
    | none => none
    | some f => if f.isZeroDualHeaderOrphan then reopened files g else some (g + 1)

/-- What the headers on disk count beyond the memory continues the chain, and the headers of the
sealed segments in the cache are those in memory. -/
def RestartsOnChain (P : CursorFact H C) (s : DiskShard β H) : Prop :=
  match reopened s.files ((findLatestLogFile s.files s.newestLogId).getD 1) with
  | none => False
  | some n =>
    s.active.logId ≤ n ∧ (∀ g < s.active.logId, ∀ m ∈ s.cached g, LoadsCursor s g m) ∧
      TailOnDisk cfg P s.files s.active.logId
        s.active.write.metablocksPosition s.active.write.walSeq
        s.active.write.tipHash (n - s.active.logId)

/-! ## Restarts -/

variable {cfg}

theorem AtHeader.elim {files g}
    {Q : SegmentFile β H → HeaderCursor H → Prop} (atHeader : AtHeader files g Q) :
    ∃ f header, files g = some f ∧ f.loadHeaderDetectingCorruption = some header ∧
      Q f header.write := by
  unfold AtHeader at atHeader
  split at atHeader
  · exact atHeader.elim
  next f file =>
    split at atHeader
    · exact atHeader.elim
    next header loaded => exact ⟨f, header, file, loaded, atHeader⟩

theorem Continues.elim {f position walSeq tipHash}
    {c} (continues : Continues cfg f position walSeq tipHash c) : ∃ es,
      readBlocks cfg.codec f.bytes position es.length = some es ∧
      c.metablocksPosition = position + es.length * cfg.codec.fixedBlockSizeBytes ∧
      c.walSeq = walSeq + es.length ∧ c.tipHash = tipAfter cfg.hash tipHash (es.map (·.entry)) ∧
      Extends cfg.hash walSeq tipHash (es.map (·.entry)) := by
  unfold Continues at continues
  split at continues
  · exact continues.elim
  next es reads =>
    refine ⟨es, ?_, continues⟩
    rw [length_of_readBlocks reads]
    exact reads

variable {P : CursorFact H C}

theorem FactOnDisk.elim {f c} (fact : FactOnDisk cfg P f c) {es}
    (ending : c.metablocksPosition = blockPosition cfg es.length)
    (blocks : readBlocks cfg.codec f.bytes headerBlockSizeBytes es.length = some es) : P c es := by
  have reads : readMetablocks cfg.codec f.bytes c.metablocksPosition = some es := by
    rw [readMetablocks, ending, blockPosition, Nat.add_sub_cancel_left,
      Nat.mul_div_cancel _ cfg.codec.block_pos]
    exact blocks
  rw [FactOnDisk, reads] at fact
  exact fact

/-- A segment that holds its blocks by its header. -/
def HeaderEnds (cfg : WalConfig β H C) (P : CursorFact H C) (files : ℕ → Option (SegmentFile β H))
    (segs : ℕ → List (StoredMetablock H C)) (g : ℕ) : Prop :=
  ∃ f header, files g = some f ∧ f.loadHeaderDetectingCorruption = some header ∧
    Ends cfg P (upTo segs (g - 1)) f header.write (segs g)

theorem HeaderEnds.update {files} {segs g g'} (ends : HeaderEnds cfg P files segs g')
    (below : g' < g) (es : List (StoredMetablock H C)) :
    HeaderEnds cfg P files (update segs g es) g' := by
  obtain ⟨f, header, file, loaded, ends⟩ := ends
  refine ⟨f, header, file, loaded, ?_⟩
  rw [update_of_ne (by omega), upTo_update_below (by omega)]
  exact ends

/-- The segments behind `g` hold a chain by their headers, and the metablocks `es` of segment `g`
continue it up to a position. -/
structure KnownUpTo (cfg : WalConfig β H C) (P : CursorFact H C)
    (files : ℕ → Option (SegmentFile β H))
    (segs : ℕ → List (StoredMetablock H C)) (g : ℕ) (es : List (StoredMetablock H C))
    (position walSeq : ℕ) (tipHash : H) : Prop where
  behind : ∀ g', 0 < g' → g' < g → HeaderEnds cfg P files segs g'
  blocks : ∀ f, files g = some f →
    readBlocks cfg.codec f.bytes headerBlockSizeBytes es.length = some es
  atPosition : position = blockPosition cfg es.length
  number : walSeq = (upTo segs (g - 1) ++ es).length
  tip : tipHash = tipAfter cfg.hash cfg.genesisHash ((upTo segs (g - 1) ++ es).map (·.entry))
  chained : Extends cfg.hash 0 cfg.genesisHash ((upTo segs (g - 1) ++ es).map (·.entry))

section Known

variable {files : ℕ → Option (SegmentFile β H)} {segs : ℕ → List (StoredMetablock H C)} {g : ℕ}
  {es : List (StoredMetablock H C)} {position walSeq : ℕ} {tipHash : H}

/-- What continues the chain up to the header's cursor completes the segment. -/
theorem KnownUpTo.complete (known : KnownUpTo cfg P files segs g es position walSeq tipHash)
    (pos : 0 < g) {f header} (file : files g = some f)
    (loaded : f.loadHeaderDetectingCorruption = some header)
    (continues : Continues cfg f position walSeq tipHash header.write)
    (fact : FactOnDisk cfg P f header.write) :
    ∃ segs', KnownUpTo cfg P files segs' (g + 1) [] headerBlockSizeBytes header.write.walSeq
      header.write.tipHash := by
  obtain ⟨more, reads, ending, number', tip', extended⟩ := continues.elim
  obtain ⟨behind, blocks, rfl, rfl, rfl, chained⟩ := known
  have ending' : header.write.metablocksPosition =
      blockPosition cfg (es ++ more).length := by
    rw [ending, blockPosition, blockPosition, length_append, Nat.add_mul,
      Nat.add_assoc]
  have all : readBlocks cfg.codec f.bytes headerBlockSizeBytes (es ++ more).length =
      some (es ++ more) := by
    rw [length_append]
    exact readBlocks_add (blocks f file) reads
  have ends : Ends cfg P (upTo segs (g - 1)) f header.write (es ++ more) := by
    refine ⟨ending', ?_, ?_, all, fact.elim ending' all⟩
    · simp only [number', length_append, Nat.add_assoc]
    · rw [tip', ← tipAfter_append, ← map_append, append_assoc]
  have completed : upTo (update segs g (es ++ more)) g =
      upTo segs (g - 1) ++ (es ++ more) := upTo_update_self pos _
  refine ⟨update segs g (es ++ more), fun g' pos' below => ?_, fun _ _ => rfl, ?_, ?_, ?_, ?_⟩
  · rcases Nat.lt_or_eq_of_le (Nat.le_of_lt_succ below) with behind' | rfl
    · exact (behind g' pos' behind').update behind' _
    · refine ⟨f, header, file, loaded, ?_⟩
      rw [update_self, upTo_update_below (by omega)]
      exact ends
  · simp [blockPosition]
  · rw [append_nil, Nat.add_sub_cancel, completed, ends.walSeq]
  · rw [append_nil, Nat.add_sub_cancel, completed, ends.tipHash]
  · rw [append_nil, Nat.add_sub_cancel, completed, ← append_assoc, map_append,
      extends_append]
    refine ⟨chained, ?_⟩
    rwa [Nat.zero_add, length_map]

/-- **The tail on disk**: by their headers the segments hold a chain that continues the one in
memory. -/
theorem TailOnDisk.known {d} (tail : TailOnDisk cfg P files g position walSeq tipHash d)
    (pos : 0 < g) (known : KnownUpTo cfg P files segs g es position walSeq tipHash) :
    ∃ segs' n h, KnownUpTo cfg P files segs' (g + d + 1) [] headerBlockSizeBytes n h := by
  induction d generalizing g position walSeq tipHash segs es with
  | zero =>
    obtain ⟨f, header, file, loaded, continues, fact⟩ := AtHeader.elim tail
    obtain ⟨segs', complete⟩ := known.complete pos file loaded continues fact
    exact ⟨segs', _, _, complete⟩
  | succ d ih =>
    obtain ⟨f, header, file, loaded, ⟨continues, fact⟩, rest⟩ := AtHeader.elim tail
    obtain ⟨segs', complete⟩ := known.complete pos file loaded continues fact
    have more := ih rest (Nat.succ_pos g) complete
    rwa [Nat.add_right_comm g 1 d] at more

end Known

/-- The memory knows the log up to the write cursor. -/
theorem ChainInv.knownUpTo {s segs} (inv : ChainInv cfg P s segs)
    (faithful : ∀ g < s.active.logId, ∀ m ∈ s.cached g, LoadsCursor s g m) :
    KnownUpTo cfg P s.files segs s.active.logId (segs s.active.logId)
      s.active.write.metablocksPosition s.active.write.walSeq s.active.write.tipHash := by
  obtain ⟨f, file, ends⟩ := inv.active
  have chained := inv.chained
  rw [upTo_of_pos inv.pos] at chained
  refine ⟨fun g pos below => ?_, fun f' file' => ?_, ends.metablocksPosition, ends.walSeq,
    ends.tipHash, chained⟩
  · obtain ⟨f, m, file, metadata, -, ends⟩ := inv.segment g pos (le_of_lt below)
    have loads : LoadsCursor s g m := by
      rw [segmentMetadata_of_ne (Nat.ne_of_lt below)] at metadata
      rcases or_eq_some_iff.mp metadata with inCache | ⟨-, opened⟩
      · exact faithful g below m inCache
      · rw [file, bind_some] at opened
        obtain ⟨header, loaded, rfl⟩ := map_eq_some_iff.mp opened
        rw [LoadsCursor, file, bind_some, loaded]
        rfl
    rw [LoadsCursor, file, bind_some] at loads
    obtain ⟨header, loaded, cursor⟩ := map_eq_some_iff.mp loads
    exact ⟨f, header, file, loaded, cursor ▸ ends⟩
  · obtain rfl : f' = f := some.inj (file'.symm.trans file)
    exact ends.blocks

theorem reopened_congr {files files' : ℕ → Option (SegmentFile β H)} {n}
    (same : ∀ g ≤ n, files' g = files g) : reopened files' n = reopened files n := by
  induction n with
  | zero => rfl
  | succ n ih =>
    rw [reopened, reopened, same (n + 1) le_rfl, ih fun g le => same g (by omega)]

theorem le_of_reopened {files : ℕ → Option (SegmentFile β H)} {n g}
    (opens : reopened files n = some g) : g ≤ n := by
  induction n with
  | zero => cases opens
  | succ n ih =>
    rw [reopened] at opens
    split at opens
    · cases opens
    · split at opens
      · exact Nat.le_succ_of_le (ih opens)
      · cases opens
        exact le_rfl

/-- **What a restart opens**: the newest segment that is not an orphan, with the files up to it. -/
theorem readyUp_of_reopened {files : ℕ → Option (SegmentFile β H)} {newest n g}
    {t} (opens : reopened files n = some g) (ready : readyUp cfg files newest n = some t) :
    ∃ f m, files g = some f ∧ f.openSegment g true = some m ∧ t.active = m ∧
      (∀ g', t.cached g' = none) ∧ ∀ g' ≤ g, t.files g' = files g' := by
  induction n generalizing files with
  | zero => cases opens
  | succ n ih =>
    rw [reopened] at opens
    rw [readyUp] at ready
    split at opens
    · cases opens
    next f file =>
      rw [file] at ready
      dsimp only at ready
      split at ready
      next m opened =>
        cases ready
        have notOrphan : ¬ f.isZeroDualHeaderOrphan := by
          intro orphan
          unfold SegmentFile.isZeroDualHeaderOrphan at orphan
          split at orphan
          next front rear =>
            rw [SegmentFile.openSegment, SegmentFile.loadHeaderDetectingCorruption, front, rear]
              at opened
            cases opened
          · cases orphan
        rw [if_neg notOrphan] at opens
        cases opens
        exact ⟨f, m, file, opened, rfl, fun _ => rfl, fun _ _ => rfl⟩
      next unopened =>
        split at ready
        next orphan =>
          rw [if_pos orphan] at opens
          split at ready
          next first =>
            subst first
            cases opens
          · have below : reopened (update files (n + 1) none) n = some g := by
              rw [← opens]
              exact reopened_congr fun g' le => update_of_ne (by omega) ..
            have le : g ≤ n := le_of_reopened opens
            obtain ⟨f', m, file', opened, active, cached, kept⟩ := ih below ready
            rw [update_of_ne (by omega)] at file'
            refine ⟨f', m, file', opened, active, cached, fun g' le' => ?_⟩
            rw [kept g' le', update_of_ne (by omega)]
        · cases ready

variable {s t : DiskShard β H} {segs : ℕ → List (StoredMetablock H C)}

/-- **A restart** takes the log over as the headers on disk give it. -/
theorem ChainInv.restart (inv : ChainInv cfg P s segs)
    (onChain : RestartsOnChain cfg P s) (restarted : s.restart cfg = some t) :
    ∃ segs', ChainInv cfg P t segs' := by
  unfold RestartsOnChain at onChain
  split at onChain
  · exact onChain.elim
  next n opens =>
    obtain ⟨le, faithful, tail⟩ := onChain
    obtain ⟨segs', walSeq, tipHash, known⟩ := tail.known inv.pos (inv.knownUpTo faithful)
    rw [Nat.add_sub_cancel' le] at known
    obtain ⟨f, m, file, opened, rfl, cached, files⟩ := readyUp_of_reopened opens restarted
    obtain ⟨header, loaded, same⟩ := map_eq_some_iff.mp opened
    have logId : t.active.logId = n := by rw [← same]
    have pos : 0 < n := lt_of_lt_of_le inv.pos le
    refine ⟨segs', logId ▸ pos, ?_, fun g pos' le' => ?_, ?_⟩
    · rw [files 0 (Nat.zero_le n)]
      exact inv.zero
    · rw [logId] at le'
      obtain ⟨f', header', file', loaded', ends⟩ := known.behind g pos' (Nat.lt_succ_of_le le')
      obtain ⟨m, opened', logId', cursor⟩ := openSegment_of_header loaded' g true
      refine ⟨f', m, (files g le').trans file', ?_, logId', cursor ▸ ends⟩
      -- every segment is as its header has it, the active one included
      unfold segmentMetadata
      split
      next active =>
        obtain rfl : g = n := active.trans logId
        obtain rfl : f = f' := some.inj (file.symm.trans file')
        exact opened.symm.trans opened'
      · rw [cached g, none_or, files g le', file', bind_some, opened']
    · have chained := known.chained
      rw [append_nil, Nat.add_sub_cancel] at chained
      rw [logId]
      exact chained

/-! ## Deciding the condition -/

section Decide

variable [DecidableEq H] [∀ c es, Decidable (P c es)]

instance (f : SegmentFile β H) (position walSeq : ℕ) (tipHash : H) (c : HeaderCursor H) :
    Decidable (Continues cfg f position walSeq tipHash c) := by
  unfold Continues
  split <;> infer_instance

instance (files : ℕ → Option (SegmentFile β H)) (g : ℕ)
    (Q : SegmentFile β H → HeaderCursor H → Prop) [∀ f c, Decidable (Q f c)] :
    Decidable (AtHeader files g Q) := by
  unfold AtHeader
  repeat' split
  all_goals infer_instance

instance (f : SegmentFile β H) (c : HeaderCursor H) : Decidable (FactOnDisk cfg P f c) :=
  match reads : readMetablocks cfg.codec f.bytes c.metablocksPosition with
  | none => isFalse (by rw [FactOnDisk, reads]; exact id)
  | some es => decidable_of_iff (P c es) (by rw [FactOnDisk, reads])

instance decidableTailOnDisk (files : ℕ → Option (SegmentFile β H)) :
    (g position walSeq : ℕ) → (tipHash : H) → (d : ℕ) →
      Decidable (TailOnDisk cfg P files g position walSeq tipHash d)
  | g, _, _, _, 0 => inferInstanceAs (Decidable (AtHeader files g _))
  | g, _, _, _, d + 1 =>
    have (c : HeaderCursor H) := decidableTailOnDisk files (g + 1) headerBlockSizeBytes c.walSeq
      c.tipHash d
    inferInstanceAs (Decidable (AtHeader files g _))

instance (s : DiskShard β H) : Decidable (RestartsOnChain cfg P s) := by
  unfold RestartsOnChain
  split <;> infer_instance

end Decide

/-! ## The log on disk is a chain

Read in the order of the segments, each up to its write cursor, the metablocks of a shard are
numbered from one without a gap, each carries the hash of the one before it, and the write cursor of
the active segment names the last. Appending, rotating and truncating keep this, whatever part of
their writes fails, since a failed operation leaves the bytes below the cursor alone. What can break
it is a header that the memory does not agree with: a failed fsync leaves the cursors in memory as
they were, but its headers may have reached the disk, and the next batch goes over the blocks such a
header counts. -/

variable (cfg)

/-- No step is a cull. -/
def NoCull (_ : DiskShard β H) : DiskShard.Action β H C → Prop
  | .cullTail .. => False
  | _ => True

/-- An evicted segment has a header that agrees with the memory, and so has every segment at a
restart, up to blocks that continue the chain. -/
def HeadersAgree (s : DiskShard β H) : DiskShard.Action β H C → Prop
  | .evictFromLru g => ∀ m ∈ s.cached g, LoadsCursor s g m
  | .restart => RestartsOnChain cfg (fun _ _ => True) s
  | _ => True

/-- The condition of a run: no culls, and headers that agree where they are loaded. -/
def KeepsChain (s : DiskShard β H) (a : DiskShard.Action β H C) : Prop :=
  NoCull s a ∧ HeadersAgree cfg s a

variable {cfg}

/-- **Every step keeps the chain.** -/
theorem ChainInv.step (inv : ChainInv cfg (fun _ _ => True) s segs) {a}
    (keeps : KeepsChain cfg s a) (step : s.step cfg a = some t) :
    ∃ segs', ChainInv cfg (fun _ _ => True) t segs' := by
  obtain ⟨noCull, agree⟩ := keeps
  cases a with
  | fsync items fullCommit rotation interruption =>
    exact inv.fsync (Layout.trivial cfg) trivial (Option.some.inj step)
  | truncateWal g k deleted outcome =>
    exact inv.truncateWal (Layout.trivial cfg) (Option.some.inj step)
  | cullTail target outcome => exact noCull.elim
  | syncHeaderOnly outcome =>
    cases step
    exact ⟨segs, inv.touch (touchesActive_writeActiveHeader s outcome)
      (congrArg _ (active_writeActiveHeader s outcome))⟩
  | commitRead g cursor =>
    cases step
    exact ⟨segs, inv.commitRead g cursor⟩
  | evictFromLru g =>
    cases step
    exact ⟨segs, inv.evictFromLru agree⟩
  | load g =>
    cases step
    exact ⟨segs, inv.load g⟩
  | restart => exact inv.restart agree step

theorem ChainInv.of_reaches
    (run : Reaches (DiskShard.step cfg) (KeepsChain cfg) (DiskShard.start cfg) s) :
    ∃ segs, ChainInv cfg (fun _ _ => True) s segs :=
  run.invariant (I := fun s => ∃ segs, ChainInv cfg (fun _ _ => True) s segs)
    (fun _ _ _ ⟨_, inv⟩ keeps step => inv.step keeps step)
    ⟨_, ChainInv.start (Layout.trivial cfg)⟩

/-- **The log on disk is a chain.** In every run without culls in which a segment is evicted and the
shard restarted only when the headers on disk agree with the memory, up to blocks that continue the
chain, the metablocks of all segments read back as a chain from the genesis hash, and the write
cursor of the active segment names its end. -/
theorem log_is_a_chain
    (run : Reaches (DiskShard.step cfg) (KeepsChain cfg) (DiskShard.start cfg) s) :
    ∃ es, s.readLog cfg s.active.logId = some es ∧
      Extends cfg.hash 0 cfg.genesisHash (es.map (·.entry)) ∧
      s.active.write.walSeq = es.length ∧
      s.active.write.tipHash = tipAfter cfg.hash cfg.genesisHash (es.map (·.entry)) := by
  obtain ⟨segs, inv⟩ := ChainInv.of_reaches run
  obtain ⟨walSeq, tipHash⟩ := inv.tip
  exact ⟨_, inv.readLog le_rfl, inv.chained, walSeq, tipHash⟩

/-! ## Deciding the condition -/

instance : DecidableRel (NoCull : DiskShard β H → DiskShard.Action β H C → Prop) := fun s a => by
  induction a using DiskShard.Action.casesOn <;> dsimp only [NoCull] <;> infer_instance

instance [DecidableEq H] : DecidableRel (KeepsChain cfg) := fun s a => by
  induction a using DiskShard.Action.casesOn <;>
    dsimp only [KeepsChain, NoCull, HeadersAgree] <;> infer_instance

open Sample in
/-- A batch that is cut off behind its headers counts after the restart, and can be truncated. -/
theorem chain_after_restart_and_truncation :
    ∃ s, Reaches (DiskShard.step config) (KeepsChain config) (DiskShard.start config) s ∧
      s.active.write.walSeq = 4 ∧
      ∃ es, s.readLog config s.active.logId = some es ∧ es.length = 4 ∧
        Extends config.hash 0 config.genesisHash (es.map (·.entry)) := by
  refine exists_and_of_exec
    [fsync [inline 1, inline 2] true,
      .fsync [inline 3, inline 4] true none (some ⟨fun _ _ => true, .written, .torn⟩),
      .restart, .truncateWal 1 3 none none, fsync [inline 5] true] (by decide +kernel) ?_
  intro s run walSeq
  obtain ⟨es, reads, chained, number, -⟩ := log_is_a_chain run
  exact ⟨es, reads, number.symm.trans walSeq, chained⟩

open Sample in
/-- **A header that is ahead breaks the chain.** An fsync of two entries fails behind its headers,
the next one of a single entry fails before its headers. The header on disk counts two blocks, of
which the second is padding. -/
theorem stale_header_breaks_the_chain :
    ∃ s, Reaches (DiskShard.step config) NoCull (DiskShard.start config) s ∧
      s.active.write.walSeq = 2 ∧ s.readLog config s.active.logId = none :=
  exists_of_exec
    [.fsync [inline 1, inline 2] true none (some ⟨fun _ _ => true, .written, .written⟩),
    .fsync [inline 3] true none (some ⟨fun _ _ => true, .kept, .kept⟩), .restart]
      (by decide +kernel)

end Celeriant.Wal
