import Celeriant.Wal.DiskShard

/-!
# Invariants of single segments

A property of the record of a segment against its file, together with a property of files, holds in
every state of a shard when opening a file, writing a header and rewinding keep it. Batches, culls
and commits have conditions of their own.

## Main results

* `RecordInv.step`: every step keeps such a property
* `ReadInv.step`: no read cursor gets ahead of the write cursor of its segment
-/

namespace Celeriant.Wal

open ByteFile Function DiskShard Option

variable {β H C : Type*}

/-- What opening, writing a header and rewinding have to keep. -/
structure Segmentwise (cfg : WalConfig β H C) (P : SegmentMetadata β H → SegmentFile β H → Prop)
    (F : SegmentFile β H → Prop) : Prop where
  opened : ∀ {f g advanceRead m}, F f → f.openSegment g advanceRead = some m → P m f
  created : ∀ {f}, cfg.HeaderWritten f → F f
  header : ∀ {m f} outcome, F f → P m f →
    F (f.writeDualShardLogHeader m.toShardLogHeader outcome) ∧
      P m (f.writeDualShardLogHeader m.toShardLogHeader outcome)
  rewound : ∀ {m : SegmentMetadata β H} {f} position walSeq tipHash, P m f →
    let rewind := fun c => rewindCursor c position walSeq tipHash
    P { m with write := rewind m.write, read := m.read.map rewind } f
  refreshed : ∀ {m : SegmentMetadata β H} {f}, P m f → P { m with
    datablocksCarryOver := f.readDatablocksCarryOverBytes m.write.datablocksPosition } f

theorem Segmentwise.newFile {cfg : WalConfig β H C} {P F}
    (laws : Segmentwise cfg P F) (walSeq : ℕ) (tipHash : H) (advanceRead : Bool) :
    F (cfg.newFile walSeq tipHash advanceRead) := laws.created ⟨_, _, _, none, rfl⟩

/-- The files have the one property, and the records in memory the other against their files. -/
structure RecordInv (P : SegmentMetadata β H → SegmentFile β H → Prop) (F : SegmentFile β H → Prop)
    (s : DiskShard β H) : Prop where
  active : ∃ f, s.files s.active.logId = some f ∧ P s.active f
  cached : ∀ g m, s.cached g = some m → g < s.active.logId ∧ m.logId = g ∧
    ∃ f, s.files g = some f ∧ P m f
  files : ∀ g f, s.files g = some f → F f

/-- What holds of all values of a partial map and of a new one holds after an update. -/
theorem forall_update {α : Type*} {Q : α → Prop} {values}
    (all : ∀ g a, values g = some a → Q a) {g₀ : ℕ} {v} (new : ∀ a, v = some a → Q a) :
    ∀ g a, update values g₀ v g = some a → Q a := by
  intro g a found
  rcases eq_or_ne g g₀ with rfl | ne
  · rw [update_self] at found
    exact new a found
  · rw [update_of_ne ne] at found
    exact all g a found

namespace RecordInv

variable {cfg : WalConfig β H C} {P : SegmentMetadata β H → SegmentFile β H → Prop}
  {F : SegmentFile β H → Prop} {s t : DiskShard β H} {g : ℕ} {m : SegmentMetadata β H}
  {f : SegmentFile β H}

section

variable (inv : RecordInv P F s)
include inv

/-- A record has the property, in memory or as its header gives it. -/
theorem segment (laws : Segmentwise cfg P F) (metadata : s.segmentMetadata g = some m) :
    m.logId = g ∧ ∃ f, s.files g = some f ∧ P m f := by
  unfold segmentMetadata at metadata
  split at metadata
  next same =>
    cases metadata
    obtain ⟨f, file, holds⟩ := inv.active
    exact ⟨same.symm, f, same ▸ file, holds⟩
  · rcases or_eq_some_iff.mp metadata with inCache | ⟨-, opened⟩
    · exact (inv.cached g m inCache).2
    · obtain ⟨f, file, opens⟩ := bind_eq_some_iff.mp opened
      have holds := laws.opened (inv.files g f file) opens
      obtain ⟨header, -, rfl⟩ := map_eq_some_iff.mp opens
      exact ⟨rfl, f, file, holds⟩

/-- The active segment changes its file and its record; the others stay. -/
theorem setActive (logId : m.logId = s.active.logId) (file : F f)
    (holds : P m f) : RecordInv P F { s.setFile s.active.logId f with active := m } where
  active := ⟨f, by rw [logId]; exact s.files_setFile_self _ _, holds⟩
  cached g m' inCache := by
    obtain ⟨below, isId, f', file', holds'⟩ := inv.cached g m' inCache
    exact ⟨by rwa [logId], isId, f', (s.files_setFile_of_ne (by omega) _).trans file', holds'⟩
  files := forall_update inv.files fun _ same => some.inj same ▸ file

/-- The active segment changes its record. -/
theorem setRecord (m : SegmentMetadata β H) (logId : m.logId = s.active.logId)
    (holds : ∀ f, s.files s.active.logId = some f → P s.active f → P m f) :
    RecordInv P F { s with active := m } := by
  obtain ⟨f, file, held⟩ := inv.active
  refine ⟨⟨f, by rw [logId, file], holds f file held⟩, fun g m' inCache => ?_, inv.files⟩
  rw [logId]
  exact inv.cached g m' inCache

theorem writeActiveHeader (laws : Segmentwise cfg P F)
    (outcome : HeaderOutcome) : RecordInv P F (s.writeActiveHeader outcome) := by
  obtain ⟨f, file, holds⟩ := inv.active
  obtain ⟨written, kept⟩ := laws.header outcome (inv.files _ f file) holds
  unfold DiskShard.writeActiveHeader
  rw [file]
  exact inv.setActive rfl written kept

theorem rewindActive (laws : Segmentwise cfg P F) (position walSeq : ℕ)
    (ancestorHash : H) (outcome : HeaderOutcome) :
    RecordInv P F (s.rewindActive position walSeq ancestorHash outcome) := by
  have rewound := (inv.setRecord { s.active with
      write := rewindCursor s.active.write position (walSeq - 1) ancestorHash
      read := s.active.read.map (rewindCursor · position (walSeq - 1) ancestorHash) } rfl
    fun _ _ => laws.rewound position (walSeq - 1) ancestorHash).writeActiveHeader laws outcome
  unfold DiskShard.rewindActive
  cases outcome with
  | none =>
    obtain ⟨f, file, -⟩ := rewound.active
    dsimp only
    unfold refreshCarryOver
    rw [file]
    refine rewound.setRecord _ rfl fun f' file' holds => ?_
    obtain rfl := some.inj (file.symm.trans file')
    exact laws.refreshed holds
  | some fates => exact rewound

theorem truncateWal (laws : Segmentwise cfg P F) {k} {deleted outcome}
    (truncated : s.truncateWal cfg g k deleted outcome = t) : RecordInv P F t := by
  obtain rfl | ⟨walSeq, ancestorHash, -, ⟨-, rfl⟩ | ⟨-, u, complete, unwound, left⟩⟩ :=
    truncateWal_cases truncated
  · exact inv
  · exact inv.rewindActive laws _ _ _ _
  · have unwinds : RecordInv P F u := by
      obtain ⟨metadata, files, remaining, cached⟩ := unwind_eq_some unwound
      obtain ⟨logId, f, file, holds⟩ := inv.segment laws metadata
      refine ⟨⟨f, by rw [logId, files g (Nat.le_refl g), file], holds⟩, fun g' m inCache => ?_,
        fun g' f found => inv.files g' f (remaining g' f found)⟩
      rw [cached] at inCache
      split at inCache
      · cases inCache
      next under =>
        obtain ⟨-, isId, f', file', holds'⟩ := inv.cached g' m inCache
        exact ⟨by omega, isId, f', by rw [files g' (by omega), file'], holds'⟩
    rcases left with rfl | rfl
    · exact unwinds
    · exact unwinds.rewindActive laws _ _ _ _

theorem rotated (laws : Segmentwise cfg P F) :
    RecordInv P F (s.rotated cfg) where
  active := by
    refine ⟨cfg.newFile s.active.write.walSeq s.active.write.tipHash false, ?_, ?_⟩
    · rw [files_rotated, logId_rotated, update_self]
    · exact laws.opened (laws.newFile _ _ _) (s.openSegment_rotated cfg)
  cached g m inCache := by
    have unmoved : ∀ g, g ≤ s.active.logId → (s.rotated cfg).files g = s.files g := by
      intro g le
      rw [files_rotated, update_of_ne (by omega)]
    have newId := s.logId_rotated cfg
    rw [cached_rotated] at inCache
    rcases eq_or_ne g s.active.logId with rfl | ne
    · rw [update_self] at inCache
      cases inCache
      obtain ⟨f, file, holds⟩ := inv.active
      exact ⟨by omega, rfl, f, by rw [unmoved _ le_rfl, file], holds⟩
    · rw [update_of_ne ne] at inCache
      obtain ⟨below, isId, f, file, holds⟩ := inv.cached g m inCache
      exact ⟨by omega, isId, f, by rw [unmoved g (by omega), file], holds⟩
  files := forall_update inv.files fun _ same => some.inj same ▸ laws.newFile _ _ _

/-- A change to a file that is not in memory. -/
theorem setNextFile {new : Option (SegmentFile β H)} {n}
    (file : ∀ f, new = some f → F f) : RecordInv P F
      { s with files := update s.files (s.active.logId + 1) new, newestLogId := n } := by
  have unmoved : ∀ g, g ≤ s.active.logId →
      update s.files (s.active.logId + 1) new g = s.files g :=
    fun g le => update_of_ne (by omega) ..
  obtain ⟨f, found, holds⟩ := inv.active
  refine ⟨⟨f, (unmoved _ le_rfl).trans found, holds⟩, fun g m inCache => ?_,
    forall_update inv.files file⟩
  obtain ⟨below, isId, f', file', holds'⟩ := inv.cached g m inCache
  exact ⟨below, isId, f', (unmoved g (le_of_lt below)).trans file', holds'⟩

end

/-- An fsync, when the batch keeps the invariant in the active segment and in a new one. -/
theorem fsync (inv : RecordInv P F s) (laws : Segmentwise cfg P F) {items}
    {fullCommit rotation interruption} (batch : ∀ u, u = s ∨ u = s.rotated cfg → RecordInv P F u →
      cfg.totalRequired items ≤ u.active.availableSpace →
      RecordInv P F (u.syncActive cfg items fullCommit interruption)) :
    RecordInv P F (s.commitFsyncWithRollback cfg items fullCommit rotation interruption) := by
  obtain same | ⟨new, n, created, left⟩ | ⟨space, synced⟩ | ⟨space, synced⟩ :=
    commitFsync_cases items fullCommit rotation interruption rfl
  · rwa [same]
  · rw [left]
    exact inv.setNextFile fun f same => laws.created (created f same)
  · rw [synced]
    exact batch s (.inl rfl) inv space
  · rw [synced]
    exact batch _ (.inr rfl) (inv.rotated laws) space

/-- A change of the record of a cached segment. -/
theorem setCached (inv : RecordInv P F s) {m : Option (SegmentMetadata β H)}
    (right : ∀ m', m = some m' → g < s.active.logId ∧ m'.logId = g ∧
      ∃ f, s.files g = some f ∧ P m' f) :
    RecordInv P F { s with cached := update s.cached g m } := by
  refine ⟨inv.active, fun g' m' inCache => ?_, inv.files⟩
  dsimp only at inCache
  rcases eq_or_ne g' g with rfl | ne
  · rw [update_self] at inCache
    exact right m' inCache
  · rw [update_of_ne ne] at inCache
    exact inv.cached g' m' inCache

theorem commitRead (inv : RecordInv P F s) {cursor}
    (commit : ∀ m f, s.segmentMetadata g = some m → P m f → P { m with read := some cursor } f) :
    RecordInv P F (s.commitRead g cursor) := by
  unfold DiskShard.commitRead
  split
  next same => exact inv.setRecord _ rfl fun f _ => commit s.active f (if_pos same)
  next other =>
    split
    · exact inv
    next m inCache =>
      refine inv.setCached fun m' same => ?_
      cases same
      obtain ⟨below, isId, f, file, holds⟩ := inv.cached g m inCache
      refine ⟨below, isId, f, file, commit m f ?_ holds⟩
      rw [segmentMetadata, if_neg other, inCache]
      rfl

theorem load (inv : RecordInv P F s) (laws : Segmentwise cfg P F) (g : ℕ) :
    RecordInv P F (s.load g) := by
  unfold DiskShard.load
  split
  · exact inv
  next sealed' =>
    split
    · exact inv
    next m metadata =>
      refine inv.setCached fun m' same => ?_
      cases same
      exact ⟨by omega, inv.segment laws metadata⟩

/-- A shard whose active segment has just been opened. -/
theorem of_opened (laws : Segmentwise cfg P F) {files : ℕ → Option (SegmentFile β H)}
    (all : ∀ g f, files g = some f → F f) {n advanceRead} (file : files g = some f)
    (opened : f.openSegment g advanceRead = some m) :
    RecordInv P F ⟨files, n, m, fun _ => none⟩ := by
  have holds := laws.opened (all g f file) opened
  obtain ⟨header, -, rfl⟩ := map_eq_some_iff.mp opened
  exact ⟨⟨f, file, holds⟩, nofun, all⟩

theorem readyUp (laws : Segmentwise cfg P F) {files : ℕ → Option (SegmentFile β H)}
    (all : ∀ g f, files g = some f → F f) {newest}
    (ready : DiskShard.readyUp cfg files newest g = some t) : RecordInv P F t := by
  -- whatever the newest file is, the active segment has just been opened
  have create : ∀ {files : ℕ → Option (SegmentFile β H)} {g : ℕ}, (∀ g f, files g = some f → F f) →
      createFirst cfg files newest g = some t → RecordInv P F t := by
    intro files g all created
    unfold createFirst at created
    obtain ⟨m, opened, rfl⟩ := map_eq_some_iff.mp created
    exact of_opened laws (forall_update all fun _ same => some.inj same ▸ laws.newFile _ _ _)
      (update_self ..) opened
  induction g generalizing files with
  | zero => cases ready
  | succ g ih =>
    rw [DiskShard.readyUp] at ready
    split at ready
    · exact create all ready
    next f file =>
      split at ready
      next m opened =>
        cases ready
        exact of_opened laws all file opened
      · have deleted : ∀ g' f, update files (g + 1) none g' = some f → F f :=
          forall_update all nofun
        split at ready
        · split at ready
          · exact create deleted ready
          · exact ih deleted ready
        · cases ready

theorem start (laws : Segmentwise cfg P F) : RecordInv P F (DiskShard.start cfg) := by
  have opened : (cfg.newFile 0 cfg.genesisHash true).openSegment 1 true =
      some (DiskShard.start cfg).active := rfl
  refine of_opened laws (forall_update ?_ fun _ same => some.inj same ▸ laws.newFile _ _ _)
    (update_self ..) opened
  exact fun _ _ none => nomatch none

/-- **Every step keeps the invariant** when batches, culls and commits do. -/
theorem step (inv : RecordInv P F s) (laws : Segmentwise cfg P F) {a : DiskShard.Action β H C}
    (batch : ∀ items fullCommit rotation interruption,
      a = .fsync items fullCommit rotation interruption → ∀ u, u = s ∨ u = s.rotated cfg →
        RecordInv P F u → cfg.totalRequired items ≤ u.active.availableSpace →
        RecordInv P F (u.syncActive cfg items fullCommit interruption))
    (cull : ∀ target outcome, a = .cullTail target outcome →
      ∀ f, P s.active f → P (target.moved s.active) f)
    (commit : ∀ g cursor, a = .commitRead g cursor → ∀ m f, s.segmentMetadata g = some m → P m f →
      P { m with read := some cursor } f)
    (step : s.step cfg a = some t) : RecordInv P F t := by
  cases a with
  | fsync items fullCommit rotation interruption =>
    cases step
    exact inv.fsync laws (batch _ _ _ _ rfl)
  | truncateWal g k deleted outcome => exact inv.truncateWal laws (some.inj step)
  | cullTail target outcome =>
    cases step
    exact (inv.setRecord _ (target.logId_moved _) fun f _ => cull _ _ rfl f
      ).writeActiveHeader laws outcome
  | syncHeaderOnly outcome =>
    cases step
    exact inv.writeActiveHeader laws outcome
  | commitRead g cursor =>
    cases step
    exact inv.commitRead (commit _ _ rfl)
  | evictFromLru g =>
    cases step
    exact inv.setCached fun m' none => nomatch none
  | load g =>
    cases step
    exact inv.load laws g
  | restart => exact readyUp laws inv.files step

end RecordInv

/-! ## The read cursor stays behind the write cursor

A search through visible blocks stops at the read cursor of a segment. For it to see blocks of the
log only, no read cursor may be ahead of the write cursor of its segment, in memory or in a header.
Every step but a commit and a cull keeps this of itself. -/

def ShardLogHeader.ReadBehind (header : ShardLogHeader H) : Prop :=
  ∀ read ∈ header.read, read.metablocksPosition ≤ header.write.metablocksPosition

def SegmentMetadata.ReadBehind (m : SegmentMetadata β H) : Prop :=
  ∀ read ∈ m.read, read.metablocksPosition ≤ m.write.metablocksPosition

/-- Both copies of the header, where they are readable. -/
def SegmentFile.ReadBehind (f : SegmentFile β H) : Prop :=
  ∀ header, header ∈ f.front.header? ∨ header ∈ f.rear.header? → header.ReadBehind

variable {m : SegmentMetadata β H} {f : SegmentFile β H} {g : ℕ}

theorem SegmentMetadata.ReadBehind.toHeader (behind : m.ReadBehind) :
    m.toShardLogHeader.ReadBehind := by
  intro read mem
  obtain ⟨cursor, isRead, rfl⟩ := map_eq_some_iff.mp mem
  exact behind cursor isRead

theorem SegmentFile.ReadBehind.openSegment (behind : f.ReadBehind)
    {advanceRead} (opened : f.openSegment g advanceRead = some m) :
    m.ReadBehind := by
  obtain ⟨header, loaded, rfl⟩ := map_eq_some_iff.mp opened
  have headerBehind : header.ReadBehind := by
    rcases or_eq_some_iff.mp loaded with front | ⟨-, rear⟩
    · exact behind header (.inl front)
    · exact behind header (.inr rear)
  intro read mem
  split at mem
  · obtain ⟨cursor, isRead, rfl⟩ := map_eq_some_iff.mp mem
    exact headerBehind cursor isRead
  · cases mem

/-- A header that is written, wholly or in part, keeps its place. -/
theorem SegmentFile.ReadBehind.write (behind : f.ReadBehind)
    {header} (headerBehind : header.ReadBehind) (outcome : HeaderOutcome) :
    (f.writeDualShardLogHeader header outcome).ReadBehind := by
  have applied : ∀ (fate : HeaderFate) (slot : HeaderSlot (ShardLogHeader H)) (header'),
      header' ∈ (fate.apply header slot).header? → header' = header ∨ header' ∈ slot.header? := by
    intro fate slot header' mem
    cases fate with
    | kept => exact .inr mem
    | torn => cases mem
    | written => exact .inl (some.inj mem).symm
  intro header' mem
  rcases outcome with _ | ⟨front, rear⟩
  · rcases mem with mem | mem
    · exact some.inj mem ▸ headerBehind
    · exact some.inj mem ▸ headerBehind
  · rcases mem with mem | mem
    · rcases applied front f.front header' mem with rfl | old
      · exact headerBehind
      · exact behind header' (.inl old)
    · rcases applied rear f.rear header' mem with rfl | old
      · exact headerBehind
      · exact behind header' (.inr old)

theorem readBehind_of_headerWritten {cfg : WalConfig β H C} (written : cfg.HeaderWritten f) :
    f.ReadBehind := by
  obtain ⟨walSeq, tipHash, advanceRead, outcome, rfl⟩ := written
  refine SegmentFile.ReadBehind.write ?_ (fun read mem => ?_) outcome
  · rintro header (mem | mem) <;> cases mem
  · cases advanceRead with
    | false => cases mem
    | true =>
      cases mem
      exact le_rfl

theorem readBehind_segmentwise (cfg : WalConfig β H C) :
    Segmentwise cfg (fun m _ => m.ReadBehind) SegmentFile.ReadBehind where
  opened file opens := file.openSegment opens
  created := readBehind_of_headerWritten
  header outcome file behind := ⟨file.write behind.toHeader outcome, behind⟩
  rewound _ _ _ _ read mem := by
    -- both cursors go to the same position
    obtain ⟨cursor, -, rfl⟩ := map_eq_some_iff.mp mem
    exact le_rfl
  refreshed behind := behind

/-- **The read cursors of a shard lie behind its write cursors.** -/
abbrev ReadInv (s : DiskShard β H) : Prop :=
  RecordInv (fun m _ => m.ReadBehind) SegmentFile.ReadBehind s

variable {cfg : WalConfig β H C} {s t : DiskShard β H} {items : List (QueueItem β C)}
  {interruption : Option Interruption}

theorem ReadInv.syncActive (inv : ReadInv s) {fullCommit}
    (synced : s.syncActive cfg items fullCommit interruption = t) : ReadInv t := by
  obtain rfl | ⟨f, plan, datablocks, file, lays, done⟩ := DiskShard.syncActive_cases _ _ _ synced
  · exact inv
  obtain ⟨-, -, active⟩ := inv.active
  -- the metablock cursor grows, and the read cursor is the old one or the new write cursor
  have behind : plan.metadata.ReadBehind := by
    intro read mem
    rcases lays.read with same | full
    · rw [same] at mem
      rw [lays.metablocksPosition]
      exact le_trans (active read mem) (Nat.le_add_right _ _)
    · rw [full] at mem
      cases mem
      exact le_rfl
  have fileBehind : ∀ bytes, ({ f with bytes := bytes } : SegmentFile β H).ReadBehind :=
    fun _ => inv.files _ f file
  rcases done with ⟨-, rfl⟩ | ⟨bytes', fates, -, rfl⟩
  · exact inv.setActive lays.logId ((fileBehind _).write behind.toHeader none) behind
  · exact inv.setActive rfl ((fileBehind _).write behind.toHeader _) active

/-- **Every step keeps the read cursors behind** when culls and commits do. -/
theorem ReadInv.step (inv : ReadInv s) {a}
    (cull : ∀ cursor outcome, a = .cullTail (.writeToRead cursor) outcome →
      s.active.read = some cursor)
    (commit : ∀ g cursor, a = .commitRead g cursor → ∀ m ∈ s.segmentMetadata g,
      cursor.metablocksPosition ≤ m.write.metablocksPosition)
    (step : s.step cfg a = some t) : ReadInv t := by
  refine RecordInv.step inv (readBehind_segmentwise cfg) ?_ ?_ ?_ step
  · exact fun items fullCommit rotation interruption _ u _ inv _ => ReadInv.syncActive inv rfl
  · rintro target outcome rfl f - read mem
    cases target with
    | writeToRead cursor =>
      have isRead := cull cursor outcome rfl
      cases isRead.symm.trans mem
      exact le_rfl
    | bothToAckBarrier cursor =>
      cases mem
      exact le_rfl
  · rintro g cursor same m f metadata - read mem
    cases mem
    exact commit g _ same m metadata

end Celeriant.Wal
