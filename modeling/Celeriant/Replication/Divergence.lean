import Celeriant.Replication.S3CatchupRuns
import Mathlib.Data.List.Sort

/-!
# The search for the common ancestor

When the best file of a pass does not continue the local tip, catchup looks for the entry both logs
share and truncates there. `find_divergence_from_batch` looks for a local entry that follows what
the first item of the file follows. If there is none, `find_divergence_via_s3` tries the first items
of all earlier files at once and takes the newest local entry that follows any of them, and at last
the read cursor. `refine_divergence_by_byte_match` then moves the point past the items both sides
have.

The truncation drops every entry from the point to the write position, and the entries are to come
back from the files. The search finds where a file branches off, and never asks whether the files go
on from there to the write position.

The log is read by number, and the segment an entry lies in is part of the search's input. In a
chained log the hash `refine_divergence_by_byte_match` carries is the previous hash of the block it
reads. What the disk and S3 answer is an argument: a scan, the reader, each read and each download
can fail, also the second download of a file.

## Main results

* `truncation_is_resuppliable`: the visible files supply every entry a truncation drops
* `truncation_ignores_coverage`: a gap between the files is not noticed
-/

namespace Celeriant

open HashChain List Option

/-- A point of divergence: the hash of the ancestor, and the first entry behind it. -/
structure DivergencePoint (H : Type*) where
  ancestorHash : H
  logId : ℕ
  walSeq : ℕ
  deriving DecidableEq, Repr

/-- The read cursor of the active segment. -/
structure ReadAnchor (H : Type*) where
  walSeq : ℕ
  tipHash : H
  logId : ℕ
  deriving DecidableEq, Repr

/-- How the log is cut into segments, and how far it is committed. -/
structure LocalSegments (H : Type*) where
  logIdOf : ℕ → ℕ
  activeLogId : ℕ
  read : Option (ReadAnchor H)

/-- What the disk answers to a refinement: no reader, or which blocks can be read. -/
abbrev BlockReads := Option (ℕ → Bool)

/-- What the disk and S3 answer during a search. -/
structure SearchAnswers (P : Type*) where
  /-- the scan of the file's own first item succeeds -/
  batchScan : Bool
  batchReads : BlockReads
  objects : Option (List (S3ObjectRef P))
  /-- the download of an earlier file succeeds -/
  fetched : P → Bool
  s3Scan : Bool
  /-- the second download, of the matching file, succeeds -/
  refetched : P → Bool
  s3Reads : BlockReads

def Download.batch {H B D : Type*} : Download H B D → Option (FallbackBatch H B D)
  | failed => none
  | data _ batch => batch

section Search

variable {H B D X E P : Type*} [DecidableEq H] [DecidableEq B]
  (hash : Metablock H B → H) (log : WalLog H (MetablockContent B)) (segments : LocalSegments H)

/-- The newest entry, from the given number down, that follows one of the hashes. Stops below the
floor; zero disables the floor. -/
def scanLocalMetablocksForHashes (candidateHashes : List H) (scanFloorWalSeq : ℕ) :
    ℕ → Option (DivergencePoint H)
  | 0 => none
  | n + 1 =>
    match log.entryAt (n + 1) with
    | none => scanLocalMetablocksForHashes candidateHashes scanFloorWalSeq n
    | some m =>
      if 0 < scanFloorWalSeq ∧ m.walSeq < scanFloorWalSeq then none
      else if m.previousTipHash ∈ candidateHashes then
        some ⟨m.previousTipHash, segments.logIdOf (n + 1), m.walSeq⟩
      else scanLocalMetablocksForHashes candidateHashes scanFloorWalSeq n

/-- The walk of the refinement over the items of a file; `none` when the file does not chain. -/
def refineWalk (readable : ℕ → Bool) :
    List (Metablock H B) → DivergencePoint H → Option (DivergencePoint H)
  | [], point => some point
  | item :: items, point =>
    if item.walSeq ≠ point.walSeq then some point
    else if item.previousTipHash ≠ point.ancestorHash then none
    else if log.walSeq < point.walSeq then some point
    else if ¬ readable point.walSeq then some point
    else
      match log.entryAt point.walSeq with
      | none => some point
      | some m =>
        if m.walSeq = item.walSeq ∧ m.content = item.content then
          refineWalk readable items
            { point with
              ancestorHash := hash ⟨m.walSeq, point.ancestorHash, m.content⟩
              walSeq := point.walSeq + 1 }
        else some point

/-- Moves a point past the items that are stored locally too, within the active segment. -/
def refineDivergenceByByteMatch (reads : BlockReads) (batch : List (Metablock H B))
    (initial : DivergencePoint H) : DivergencePoint H :=
  if batch.all fun item => item.walSeq ≠ initial.walSeq then initial
  else if initial.logId ≠ segments.activeLogId then initial
  else
    match reads with
    | none => initial
    | some readable =>
      match refineWalk hash log readable
          (batch.dropWhile fun item => item.walSeq ≠ initial.walSeq) initial with
      | none => initial
      | some point => if log.walSeq < point.walSeq then initial else point

/-- The search by the first item of the file that does not fit. -/
def findDivergenceFromBatch (scan : Bool) (reads : BlockReads)
    (items : List (ReplicationBatchItem H B D)) : Option (DivergencePoint H) :=
  match items with
  | [] => none
  | first :: _ =>
    if scan then
      (scanLocalMetablocksForHashes log segments [first.metablock.previousTipHash] 0 log.walSeq).map
        (refineDivergenceByByteMatch hash log segments reads (metablocksOf items))
    else none

/-- An earlier file that could be read, and what its first item follows. -/
structure S3Anchor (H B D P : Type*) where
  hash : H
  file : CatchupCandidate P
  batch : FallbackBatch H B D

/-- The anchor of a file. -/
def s3Anchor (download : P → Download H B D) (fetched : P → Bool) (c : CatchupCandidate P) :
    Option (S3Anchor H B D P) :=
  if fetched c.path then
    match (download c.path).batch with
    | none => none
    | some batch =>
      match batch.items with
      | [] => none
      | first :: _ => some ⟨first.metablock.previousTipHash, c, batch⟩
  else none

/-- `hash_to_batch_path`: the first file of each hash stays. -/
def insertAnchor (anchors : List (S3Anchor H B D P)) (a : S3Anchor H B D P) :
    List (S3Anchor H B D P) :=
  if anchors.any fun b => b.hash = a.hash then anchors else anchors ++ [a]

/-- The anchors of the files that start at or below the write position, the latest start first. -/
def s3Anchors (download : P → Download H B D) (fetched : P → Bool)
    (listing : List (CatchupCandidate P)) : List (S3Anchor H B D P) :=
  let earlier := (listing.filter fun c => c.startWalSeq ≤ log.walSeq).insertionSort
    fun a b => b.startWalSeq ≤ a.startWalSeq
  (earlier.filterMap (s3Anchor download fetched)).foldl insertAnchor []

/-- The least start of the anchors, zero when there is none. -/
def minCandidateStart (anchors : List (S3Anchor H B D P)) : ℕ :=
  match anchors.map (·.file.startWalSeq) with
  | [] => 0
  | start :: starts => starts.foldl min start

/-- The search by the first items of all earlier files, and then by the read cursor. -/
def findDivergenceViaS3 (download : P → Download H B D) (listing : List (CatchupCandidate P))
    (answers : SearchAnswers P) : Option (DivergencePoint H) :=
  let anchors := s3Anchors log download answers.fetched listing
  if anchors.isEmpty then none
  else
    let scanned :=
      if answers.s3Scan then
        scanLocalMetablocksForHashes log segments (anchors.map (·.hash))
          (minCandidateStart anchors - 1) log.walSeq
      else none
    match scanned with
    | some point =>
      match anchors.find? fun a => a.hash = point.ancestorHash with
      | none => some point
      | some a =>
        if answers.refetched a.file.path then
          some (refineDivergenceByByteMatch hash log segments answers.s3Reads
            (metablocksOf a.batch.items) point)
        else some point
    | none =>
      match segments.read with
      | none => none
      | some r =>
        match anchors.find? fun a => a.hash = r.tipHash ∧ a.file.startWalSeq = r.walSeq + 1 with
        | none => none
        | some a =>
          if answers.refetched a.file.path then
            some (refineDivergenceByByteMatch hash log segments answers.s3Reads
              (metablocksOf a.batch.items) ⟨r.tipHash, r.logId, r.walSeq + 1⟩)
          else none

end Search

/-! ## What the search finds -/

section SearchSpec

variable {H B D X E P : Type*} [DecidableEq H] [DecidableEq B]
  {hash : Metablock H B → H} {log : WalLog H (MetablockContent B)} {segments : LocalSegments H}
  {point : DivergencePoint H} {download : P → Download H B D} {a : S3Anchor H B D P}

omit [DecidableEq B] in
/-- A scan answers with an entry of the log that follows one of the hashes. -/
theorem scan_eq_some {candidateHashes floor n}
    (found : scanLocalMetablocksForHashes log segments candidateHashes floor n = some point) :
    ∃ k m, log.entryAt (k + 1) = some m ∧ m.previousTipHash ∈ candidateHashes ∧
      point.ancestorHash = m.previousTipHash ∧ point.walSeq = m.walSeq := by
  induction n with
  | zero => cases found
  | succ n ih =>
    rw [scanLocalMetablocksForHashes] at found
    split at found
    · exact ih found
    next m stored =>
      split at found
      · cases found
      · split at found
        next listed =>
          cases found
          exact ⟨n, m, stored, listed, rfl, rfl⟩
        · exact ih found

/-- The walk stops where it began or right behind an item of the file. -/
theorem refineWalk_eq_some {readable items}
    {reached} (walk : refineWalk hash log readable items point = some reached) :
    reached = point ∨ ∃ front item rest, items = front ++ item :: rest ∧
      reached.ancestorHash = hash item ∧ reached.walSeq = item.walSeq + 1 := by
  induction items generalizing point with
  | nil => exact .inl (some.inj walk).symm
  | cons item items ih =>
    rw [refineWalk] at walk
    split at walk
    · exact .inl (some.inj walk).symm
    next number =>
      split at walk
      · cases walk
      next previous =>
        split at walk
        · exact .inl (some.inj walk).symm
        · split at walk
          · exact .inl (some.inj walk).symm
          · split at walk
            · exact .inl (some.inj walk).symm
            next m _ =>
              split at walk
              next same =>
                -- the local block has the item's number and content, and the item's previous hash
                -- is the one carried
                have itemHash : hash ⟨m.walSeq, point.ancestorHash, m.content⟩ = hash item := by
                  rw [same.1, same.2, ← not_not.mp previous]
                right
                rcases ih walk with stopped | ⟨front, last, rest, split, ancestor, next⟩
                · refine ⟨[], item, items, rfl, ?_, ?_⟩
                  · rw [stopped]
                    exact itemHash
                  · rw [stopped, not_not.mp number]
                · exact ⟨item :: front, last, rest, by rw [split]; rfl, ancestor, next⟩
              · exact .inl (some.inj walk).symm

variable (hash log segments) in
/-- The refinement keeps the point or moves it right behind an item, at most to the last entry. -/
theorem refine_cases (reads : BlockReads) (batch : List (Metablock H B))
    (initial : DivergencePoint H) :
    refineDivergenceByByteMatch hash log segments reads batch initial = initial ∨
      ∃ front item rest, batch = front ++ item :: rest ∧ item.walSeq < log.walSeq ∧
        (refineDivergenceByByteMatch hash log segments reads batch initial).ancestorHash =
        hash item ∧
        (refineDivergenceByByteMatch hash log segments reads batch initial).walSeq =
          item.walSeq + 1 := by
  unfold refineDivergenceByByteMatch
  split
  · exact .inl rfl
  · split
    · exact .inl rfl
    · split
      · exact .inl rfl
      next readable =>
        split
        · exact .inl rfl
        next point walk =>
          split
          · exact .inl rfl
          next inside =>
            rcases refineWalk_eq_some walk with rfl | ⟨front, item, rest, split, ancestor, next⟩
            · exact .inl rfl
            · refine .inr
                ⟨batch.takeWhile (fun item => item.walSeq ≠ initial.walSeq) ++ front, item,
                rest, ?_, by omega, ancestor, next⟩
              rw [append_assoc, ← split, takeWhile_append_dropWhile]

omit [DecidableEq H] [DecidableEq B] in
/-- An anchor is a listed file that was read, and the hash is what its first item follows. -/
theorem s3Anchor_eq_some {fetched} {c} (found : s3Anchor download fetched c = some a) :
    a.file = c ∧ (download c.path).batch = some a.batch ∧
      ∃ first rest, a.batch.items = first :: rest ∧ a.hash = first.metablock.previousTipHash := by
  unfold s3Anchor at found
  split at found
  · split at found
    · cases found
    next batch read =>
      split at found
      · cases found
      next first rest items =>
        cases found
        exact ⟨rfl, read, first, rest, items, rfl⟩
  · cases found

omit [DecidableEq B] in
theorem mem_insertAnchor {anchors b} (mem : b ∈ insertAnchor anchors a) :
    b ∈ anchors ∨ b = a := by
  unfold insertAnchor at mem
  split at mem
  · exact .inl mem
  · simpa using mem

variable {listing : List (CatchupCandidate P)}

omit [DecidableEq B] in
theorem mem_s3Anchors {fetched} (mem : a ∈ s3Anchors log download fetched listing) :
    a.file ∈ listing ∧ (download a.file.path).batch = some a.batch ∧
      ∃ first rest, a.batch.items = first :: rest ∧ a.hash = first.metablock.previousTipHash := by
  -- the fold inserts only anchors of the sorted files
  have inserted : ∀ x ∈ s3Anchors log download fetched listing,
      ∃ c ∈ listing, s3Anchor download fetched c = some x := by
    refine List.foldlRecOn _ insertAnchor
      (motive := fun anchors => ∀ x ∈ anchors, ∃ c ∈ listing, s3Anchor download fetched c = some x)
      nofun ?_
    intro anchors held x visited y member
    rcases mem_insertAnchor member with old | rfl
    · exact held y old
    · obtain ⟨c, sorted, anchor⟩ := mem_filterMap.mp visited
      exact ⟨c, (mem_filter.mp ((mem_insertionSort _).mp sorted)).1, anchor⟩
  obtain ⟨c, listed, anchor⟩ := inserted a mem
  obtain ⟨rfl, read, first⟩ := s3Anchor_eq_some anchor
  exact ⟨listed, read, first⟩

/-- What a search starts from: a local entry that follows what the file follows, or the read cursor,
behind which the file starts. -/
inductive StartsFrom (log : WalLog H (MetablockContent B)) (segments : LocalSegments H) (start : ℕ)
    (previous : H) (initial : DivergencePoint H) : Prop
  | entry (k) (m : Metablock H B) : log.entryAt (k + 1) = some m → m.previousTipHash = previous →
      initial.ancestorHash = previous → initial.walSeq = m.walSeq →
      StartsFrom log segments start previous initial
  | readCursor (r) : segments.read = some r → r.tipHash = previous →
      start = r.walSeq + 1 → initial = ⟨r.tipHash, r.logId, r.walSeq + 1⟩ →
      StartsFrom log segments start previous initial

/-- The search by a file answers with the refinement of a local match. -/
theorem findDivergenceFromBatch_eq_some {scan reads}
    {items : List (ReplicationBatchItem H B D)} (start : ℕ)
    (found : findDivergenceFromBatch hash log segments scan reads items = some point) :
    ∃ first rest initial, items = first :: rest ∧
      StartsFrom log segments start first.metablock.previousTipHash initial ∧
      point = refineDivergenceByByteMatch hash log segments reads (metablocksOf items) initial := by
  unfold findDivergenceFromBatch at found
  split at found
  · cases found
  next first rest =>
    split at found
    · obtain ⟨initial, scanned, rfl⟩ := map_eq_some_iff.mp found
      obtain ⟨k, m, stored, listed, ancestor, number⟩ := scan_eq_some scanned
      have follows := mem_singleton.mp listed
      exact ⟨first, rest, initial, rfl,
        .entry k m stored follows (ancestor.trans follows) number, rfl⟩
    · cases found

/-- The search through S3 answers with a point one of the files starts from, refined or not. -/
theorem findDivergenceViaS3_eq_some {answers}
    (found : findDivergenceViaS3 hash log segments download listing answers = some point) :
    ∃ a ∈ s3Anchors log download answers.fetched listing, ∃ initial,
      StartsFrom log segments a.file.startWalSeq a.hash initial ∧
      (point = initial ∨
        point = refineDivergenceByByteMatch hash log segments answers.s3Reads
          (metablocksOf a.batch.items) initial) := by
  unfold findDivergenceViaS3 at found
  dsimp only at found
  split at found
  · cases found
  · split at found
    next initial scanned =>
      split at scanned
      · obtain ⟨k, m, stored, listed, ancestor, number⟩ := scan_eq_some scanned
        split at found
        next unlisted =>
          obtain ⟨a, mem, same⟩ := mem_map.mp listed
          have missing := List.find?_eq_none.mp unlisted a mem
          simp [same, ancestor] at missing
        next a isAnchor =>
          have mem := mem_of_find?_eq_some isAnchor
          have same : a.hash = initial.ancestorHash := by
            simpa using List.find?_some isAnchor
          refine ⟨a, mem, initial, .entry k m stored (by rw [same, ancestor]) same.symm number, ?_⟩
          split at found
          · exact .inr (some.inj found).symm
          · exact .inl (some.inj found).symm
      · cases scanned
    · split at found
      · cases found
      next r read =>
        split at found
        · cases found
        next a isAnchor =>
          have mem := mem_of_find?_eq_some isAnchor
          have same : a.hash = r.tipHash ∧ a.file.startWalSeq = r.walSeq + 1 := by
            simpa using List.find?_some isAnchor
          split at found
          · exact ⟨a, mem, _, .readCursor r read same.1.symm same.2 rfl,
              .inr (some.inj found).symm⟩
          · cases found

end SearchSpec

/-! ## Files that supply what is dropped -/

section Files

variable {H B D P : Type*}

/-- A file whose items are consecutive, of one lease epoch and chained, and whose name says what it
holds. -/
structure WellFormedFile (hash : Metablock H B → H)
    (f : CatchupCandidate P × FallbackBatch H B D) : Prop where
  contiguous : f.2.isBatchContiguous = true
  leaseConsistent : f.2.isBatchLeaseConsistent = true
  linked : Linked hash (metablocksOf f.2.items)
  starts : (metablocksOf f.2.items).head?.map (·.walSeq) = some f.1.startWalSeq
  ends : (metablocksOf f.2.items).getLast?.map (·.walSeq) = some f.1.endWalSeq

/-- The entries of the well-formed files. -/
def wellFormedPieces (hash : Metablock H B → H)
    (files : List (CatchupCandidate P × FallbackBatch H B D)) : Set (List (Metablock H B)) :=
  {p | ∃ f ∈ files, WellFormedFile hash f ∧ p = metablocksOf f.2.items}

/-- The first entry follows what an entry of the log follows, or the last committed entry. -/
def Anchored (log : WalLog H (MetablockContent B)) (segments : LocalSegments H)
    (p : List (Metablock H B)) : Prop :=
  ∃ first ∈ p.head?, (∃ n m, log.entryAt n = some m ∧ m.previousTipHash = first.previousTipHash) ∨
    ∃ r ∈ segments.read, r.tipHash = first.previousTipHash

/-- The files can supply what a truncation drops: a file that branches off the log is well formed,
it branches off at its own number, and no file on the way to the write position lacks a
successor. -/
structure Resuppliable (hash : Metablock H B → H) (log : WalLog H (MetablockContent B))
    (segments : LocalSegments H) (files : List (CatchupCandidate P × FallbackBatch H B D)) :
    Prop where
  wellFormed : ∀ f ∈ files, Anchored log segments (metablocksOf f.2.items) → WellFormedFile hash f
  numbered : ∀ f ∈ files, ∀ first ∈ (metablocksOf f.2.items).head?, ∀ n m,
    log.entryAt n = some m → m.previousTipHash = first.previousTipHash → first.walSeq = m.walSeq
  gapFree : GapFree hash (wellFormedPieces hash files) (Anchored log segments) log.walSeq

theorem chained_of_mem_pieces {hash} {files : List (CatchupCandidate P × FallbackBatch H B D)} :
    ∀ p ∈ wellFormedPieces hash files, Contiguous p ∧ Linked hash p := by
  rintro p ⟨f, -, wellFormed, rfl⟩
  have noGap : firstGap (E := Unit) 0 f.2.items = none :=
    isNone_iff_eq_none.mp wellFormed.contiguous
  exact ⟨firstGap_eq_none_iff.mp noGap, wellFormed.linked⟩

variable [DecidableEq H] [DecidableEq B] {hash : Metablock H B → H}
  {log : WalLog H (MetablockContent B)} {segments : LocalSegments H}
  {files : List (CatchupCandidate P × FallbackBatch H B D)}

/-- The files supply the log from a point where one of them branches off, and also from the point
the refinement by that file gives. -/
theorem Resuppliable.supplies (resuppliable : Resuppliable hash log segments files)
    {f} (visible : f ∈ files)
    {first : ReplicationBatchItem H B D} {rest : List (ReplicationBatchItem H B D)}
    (items : f.2.items = first :: rest) (anchored : Anchored log segments (metablocksOf f.2.items))
    {point} (ancestor : first.metablock.previousTipHash = point.ancestorHash)
    (number : first.metablock.walSeq = point.walSeq) (positive : 0 < point.walSeq)
    {refined} (reads : BlockReads) (refines : refined = point ∨
      refined = refineDivergenceByByteMatch hash log segments reads
        (metablocksOf f.2.items) point) :
    Supplies hash (wellFormedPieces hash files) (refined.walSeq - 1) refined.ancestorHash
      log.walSeq := by
  have piece : metablocksOf f.2.items ∈ wellFormedPieces hash files :=
    ⟨f, visible, resuppliable.wellFormed f visible anchored, rfl⟩
  have reached : Reached hash (wellFormedPieces hash files) (Anchored log segments)
      (metablocksOf f.2.items) := .root piece anchored
  have atPoint : Supplies hash (wellFormedPieces hash files) (point.walSeq - 1) point.ancestorHash
      log.walSeq := by
    have suffix : first.metablock :: metablocksOf rest <:+ metablocksOf f.2.items :=
      ⟨[], by rw [items]; rfl⟩
    exact resuppliable.gapFree.supplies chained_of_mem_pieces reached suffix (by omega) ancestor
  rcases refines with rfl | rfl
  · exact atPoint
  · rcases refine_cases hash log segments reads (metablocksOf f.2.items) point with
      kept | ⟨front, item, rest', split, below, moved, next⟩
    · rw [kept]
      exact atPoint
    · rw [moved, next, Nat.add_sub_cancel]
      exact resuppliable.gapFree.supplies_after chained_of_mem_pieces reached split below

end Files

/-! ## A pass that truncates -/

namespace S3Catchup

variable {H B D X E F P : Type*} [DecidableEq H] [DecidableEq B] [DecidableEq P]
  (cfg : CatchupConfig H B D X E P) (s : S3Catchup H B D X E F P)
  (segments : LocalSegments H)

/-- The search of a pass: by the file that does not fit, then through S3. -/
def findDivergence (download : P → Download H B D) (answers : SearchAnswers P)
    (items : List (ReplicationBatchItem H B D)) : Option (DivergencePoint H) :=
  match findDivergenceFromBatch cfg.hash s.shardLog.log segments answers.batchScan
      answers.batchReads items with
  | some point => some point
  | none =>
    match answers.objects with
    | none => none
    | some objects =>
      findDivergenceViaS3 cfg.hash s.shardLog.log segments download (cfg.candidates objects) answers

/-- The call of `truncate_wal` that a pass makes, if any. -/
def truncationCall (order : List (CatchupCandidate P)) (download : P → Download H B D)
    (answers : SearchAnswers P) : Option (DivergencePoint H) :=
  if s.covering.isEmpty then none
  else
    match readCovering download order with
    | none => none
    | some read =>
      match pickBest (dedupe read.downloaded).byStart with
      | none => none
      | some (batch, _) =>
        match newItems s.shardLog.log.walSeq batch.items with
        | [] => none
        | first :: _ =>
          if first.metablock.previousTipHash ≠ s.shardLog.log.tipHash then
            s.findDivergence cfg segments download answers batch.items
          else none

/-- The peer files of the round and of the search's own listing, as far as they can be read. -/
def visibleFiles (download : P → Download H B D) (answers : SearchAnswers P) :
    List (CatchupCandidate P × FallbackBatch H B D) :=
  (s.entries ++ cfg.candidates (answers.objects.getD [])).filterMap fun c =>
    (download c.path).batch.map fun batch => (c, batch)

variable {cfg s segments} {order : List (CatchupCandidate P)} {download : P → Download H B D}
  {answers : SearchAnswers P} {point : DivergencePoint H}

/-- What a pass has found when it truncates. -/
theorem truncationCall_eq_some
    (call : s.truncationCall cfg segments order download answers = some point) :
    ∃ read batch candidate first rest, s.covering.isEmpty = false ∧
      readCovering download order = some read ∧
      pickBest (dedupe read.downloaded).byStart = some (batch, candidate) ∧
      newItems s.shardLog.log.walSeq batch.items = first :: rest ∧
      first.metablock.previousTipHash ≠ s.shardLog.log.tipHash ∧
      s.findDivergence cfg segments download answers batch.items = some point := by
  unfold truncationCall at call
  split at call
  · cases call
  next covering =>
    split at call
    · cases call
    next read reads =>
      split at call
      · cases call
      next batch candidate best =>
        split at call
        · cases call
        next first rest items =>
          split at call
          next mismatch =>
            exact ⟨read, batch, candidate, first, rest, by simpa using covering, reads, best, items,
              mismatch, call⟩
          · cases call

/-- The pass of the catchup machine truncates where the call says. -/
theorem consume_of_truncationCall (fsync : Option F)
    (call : s.truncationCall cfg segments order download answers = some point) :
    (s.consume cfg order download (some (point.ancestorHash, point.walSeq)) none
        fsync).shardLog =
      s.shardLog.truncateWal point.ancestorHash point.walSeq := by
  obtain ⟨read, batch, candidate, first, rest, covering, reads, best, items, mismatch, -⟩ :=
    truncationCall_eq_some call
  simp only [consume, covering, reads, best, Bool.false_eq_true, if_false, consumeBest, giveUp,
    items, mismatch, ne_eq, not_false_eq_true, if_true, handleDivergence]

end S3Catchup

section Truncation

variable {H B D X E F P : Type*} [DecidableEq H] [DecidableEq B] [DecidableEq P]
  {cfg : CatchupConfig H B D X E P} {s : S3Catchup H B D X E F P}
  {segments : LocalSegments H} {order : List (CatchupCandidate P)} {download : P → Download H B D}
  {answers : SearchAnswers P} {read : ReadCovering H B D P}

omit [DecidableEq H] [DecidableEq B] [DecidableEq P] in
/-- A batch of a pass is what its file holds. -/
theorem batch_of_readCovering (reads : readCovering download order = some read)
    {x} (mem : x ∈ read.downloaded) :
    (download x.2.path).batch = some x.1 := by
  induction order generalizing read with
  | nil =>
    cases reads
    cases mem
  | cons c cs ih =>
    rw [readCovering] at reads
    split at reads
    · cases reads
    next bytes batch answered =>
      split at reads
      · cases reads
      next others readsOthers =>
        split at reads
        · cases reads
          exact ih readsOthers mem
        next kept passes =>
          cases reads
          rcases mem_cons.mp mem with rfl | old
          · obtain ⟨rfl, -⟩ := filter_eq_some_iff.mp passes
            rw [answered]
            rfl
          · exact ih readsOthers old

omit [DecidableEq H] [DecidableEq B] in
/-- The file a pass has chosen is one of the visible files. -/
theorem visible_of_pickBest (visits : order.isPerm s.covering = true)
    (reads : readCovering download order = some read) {batch} {candidate}
    (best : pickBest (dedupe read.downloaded).byStart = some (batch, candidate)) :
    (candidate, batch) ∈ s.visibleFiles cfg download answers := by
  have downloaded := (mem_of_dedupe read.downloaded).1 _ (mem_of_pickBest best)
  have ordered := (mem_of_readCovering reads).2 _ downloaded
  have listed : candidate ∈ s.entries :=
    (mem_filter.mp ((isPerm_iff.mp visits).subset ordered)).1
  refine mem_filterMap.mpr ⟨candidate, mem_append_left _ listed, ?_⟩
  rw [batch_of_readCovering reads downloaded]
  rfl

/-- **Every entry a truncation drops is supplied by the files.** When each visible file that
branches off the log is well formed and no file on the way to the write position lacks a successor,
the visible well-formed files hold, from the ancestor on, a chain up to the write position. -/
theorem truncation_is_resuppliable (visits : order.isPerm s.covering = true)
    (stored : ∀ n m, s.shardLog.log.entryAt n = some m → m.walSeq = n)
    (resuppliable : Resuppliable cfg.hash s.shardLog.log segments
      (s.visibleFiles cfg download answers))
    {point : DivergencePoint H}
    (call : s.truncationCall cfg segments order download answers = some point) :
    Supplies cfg.hash (wellFormedPieces cfg.hash (s.visibleFiles cfg download answers))
      (point.walSeq - 1) point.ancestorHash s.shardLog.log.walSeq := by
  obtain ⟨f, visible, first, rest, items, initial, reads, starts, refines⟩ :
      ∃ f ∈ s.visibleFiles cfg download answers, ∃ first rest, f.2.items = first :: rest ∧
        ∃ initial reads, StartsFrom s.shardLog.log segments f.1.startWalSeq
          first.metablock.previousTipHash initial ∧ (point = initial ∨ point =
            refineDivergenceByByteMatch cfg.hash s.shardLog.log segments reads
              (metablocksOf f.2.items) initial) := by
    obtain ⟨read, batch, candidate, -, -, -, reads, best, -, -, search⟩ :=
      S3Catchup.truncationCall_eq_some call
    unfold S3Catchup.findDivergence at search
    split at search
    next found byBatch =>
      cases search
      obtain ⟨first, rest, initial, items, starts, refined⟩ :=
        findDivergenceFromBatch_eq_some candidate.startWalSeq byBatch
      exact ⟨(candidate, batch), visible_of_pickBest visits reads best, first, rest, items,
        initial, _, starts, .inr refined⟩
    next =>
      split at search
      · cases search
      next objects listing =>
        obtain ⟨a, mem, initial, starts, refines⟩ := findDivergenceViaS3_eq_some search
        obtain ⟨listed, held, first, rest, items, hash⟩ := mem_s3Anchors mem
        refine ⟨(a.file, a.batch), mem_filterMap.mpr ⟨a.file, mem_append_right _ ?_,
          by rw [held]; rfl⟩, first, rest, items, initial, _, hash ▸ starts, refines⟩
        rw [listing]
        exact listed
  have isFirst : first.metablock ∈ (metablocksOf f.2.items).head? := by rw [items]; rfl
  cases starts with
  | entry k m inLog follows ancestor number =>
    refine resuppliable.supplies visible items
      ⟨first.metablock, isFirst, .inl ⟨k + 1, m, inLog, follows⟩⟩ ancestor.symm ?_ ?_ reads refines
    · rw [number]
      exact resuppliable.numbered _ visible _ isFirst _ _ inLog follows
    · rw [number, stored _ _ inLog]
      exact Nat.succ_pos k
  | readCursor r read follows start isRead =>
    have anchored : Anchored s.shardLog.log segments (metablocksOf f.2.items) :=
      ⟨first.metablock, isFirst, .inr ⟨r, read, follows⟩⟩
    have named := (resuppliable.wellFormed _ visible anchored).starts
    have firstNumber : first.metablock.walSeq = r.walSeq + 1 := by
      rw [mem_def.mp isFirst] at named
      rw [← start]
      exact some.inj named
    subst isRead
    exact resuppliable.supplies visible items anchored follows.symm firstNumber
      (Nat.succ_pos _) reads
      refines

/-! ## What a truncation leaves -/

variable {hash : Metablock H B → H} {log : WalLog H (MetablockContent B)}
  {point : DivergencePoint H}

/-- The tip in front of a number: what the entry there follows, or the tip of the log. -/
def TipBefore (log : WalLog H (MetablockContent B)) (n : ℕ) (h : H) : Prop :=
  (∃ m, log.entryAt n = some m ∧ m.previousTipHash = h) ∨ n = log.walSeq + 1 ∧ log.tipHash = h

/-- Every entry has its number, and its hash is the tip behind it. -/
structure ChainedLog (hash : Metablock H B → H) (log : WalLog H (MetablockContent B)) : Prop where
  numbered : ∀ n m, log.entryAt n = some m → m.walSeq = n ∧ n ≤ log.walSeq
  hashed : ∀ n m, log.entryAt n = some m → TipBefore log (n + 1) (hash m)

namespace ChainedLog

/-- The refinement goes from tip to tip. -/
theorem refined (chained : ChainedLog hash log) {reads batch} {initial : DivergencePoint H}
    (tip : TipBefore log initial.walSeq initial.ancestorHash)
    (refines : point = refineDivergenceByByteMatch hash log segments reads batch initial) :
    TipBefore log point.walSeq point.ancestorHash := by
  have walked {readable items} {p : DivergencePoint H} (tip : TipBefore log p.walSeq p.ancestorHash)
      (walk : refineWalk hash log readable items p = some point) :
      TipBefore log point.walSeq point.ancestorHash := by
    induction items generalizing p with
    | nil => exact some.inj walk ▸ tip
    | cons item items ih =>
      rw [refineWalk] at walk
      -- the local entry follows the tip, so that its own hash is the one computed
      have moves (m) (stored : log.entryAt p.walSeq = some m) (inside : ¬ log.walSeq < p.walSeq) :
          TipBefore log (p.walSeq + 1) (hash ⟨m.walSeq, p.ancestorHash, m.content⟩) := by
        obtain ⟨_, stored', previous⟩ := tip.resolve_right (by omega)
        cases stored.symm.trans stored'
        exact previous ▸ chained.hashed _ m stored
      grind
  unfold refineDivergenceByByteMatch at refines
  grind

omit [DecidableEq H] [DecidableEq B] in
theorem truncateWal {l : ShardLog H B D X} (chained : ChainedLog hash l.log) {n h}
    (tip : TipBefore l.log n h) : ChainedLog hash (l.truncateWal h n).log := by
  obtain ⟨numbered, hashed⟩ := chained
  constructor <;> intro k m stored
  all_goals
    simp only [ShardLog.truncateWal, Option.ite_none_right_eq_some, TipBefore] at *
    grind

end ChainedLog

/-- **A truncation leaves a chain.** When the local log is a chain and the read cursor is a tip of
it, a pass truncates at a point whose ancestor is the local tip there, so that what is left is a
chain that ends in the ancestor. -/
theorem truncation_leaves_chain (chained : ChainedLog cfg.hash s.shardLog.log)
    (read : ∀ r ∈ segments.read, TipBefore s.shardLog.log (r.walSeq + 1) r.tipHash)
    (call : s.truncationCall cfg segments order download answers = some point) :
    ChainedLog cfg.hash (s.shardLog.truncateWal point.ancestorHash point.walSeq).log := by
  refine chained.truncateWal ?_
  have starts {start previous} {initial : DivergencePoint H}
      (h : StartsFrom s.shardLog.log segments start previous initial) :
      TipBefore s.shardLog.log initial.walSeq initial.ancestorHash := by
    cases h with
    | entry k m stored follows ancestor number =>
      rw [number, (chained.numbered _ m stored).1, ancestor]
      exact .inl ⟨m, stored, follows⟩
    | readCursor r isRead _ _ isPoint => exact isPoint ▸ read r isRead
  obtain ⟨_, _, _, _, _, -, -, -, -, -, search⟩ := S3Catchup.truncationCall_eq_some call
  unfold S3Catchup.findDivergence at search
  split at search
  next byBatch =>
    obtain ⟨_, _, _, -, from_, refines⟩ := findDivergenceFromBatch_eq_some 0 byBatch
    cases search
    exact chained.refined (starts from_) refines
  next =>
    split at search
    · cases search
    · obtain ⟨_, -, _, from_, rfl | refines⟩ := findDivergenceViaS3_eq_some search
      · exact starts from_
      · exact chained.refined (starts from_) refines

end Truncation

/-! ## A forked log -/

namespace Forked

/-- A metablock without a payload. -/
def metablock (walSeq previousTipHash leaseEpoch : ℕ) : Metablock ℕ Unit :=
  ⟨walSeq, previousTipHash, ⟨leaseEpoch, 0, .none, ()⟩⟩

def config : CatchupConfig ℕ Unit Unit Unit Unit (ℕ × ℕ) where
  hash m := 10 * m.walSeq + m.content.leaseEpoch
  serialise _ _ := .error ()
  parseFallbackPath path := some ⟨0, path.1, path.2, 2⟩
  nodeId := 1
  peerNodeId := some 2
  maxCatchupGapBytes := none
  role := .following
  catchupTargetWalSeq := 0

/-- Three entries of the first lease epoch; the peer has gone on from the first one. -/
def log : WalLog ℕ (MetablockContent Unit) where
  entryAt
    | 1 => some (metablock 1 0 1)
    | 2 => some (metablock 2 11 1)
    | 3 => some (metablock 3 21 1)
    | _ => none
  walSeq := 3
  tipHash := 31

/-- The entries of the second lease epoch. -/
def peerEntry (n : ℕ) : Metablock ℕ Unit := metablock n (if n = 2 then 11 else 10 * (n - 1) + 2) 2

/-- A file of the peer, by its first and its last entry. -/
def download (path : ℕ × ℕ) : Download ℕ Unit Unit :=
  .data 0 (some ⟨2, 0, (List.range' path.1 (path.2 + 1 - path.1)).map fun n => ⟨peerEntry n, none⟩⟩)

def segments : LocalSegments ℕ := ⟨fun _ => 0, 0, none⟩

def answers (paths : List (ℕ × ℕ)) : SearchAnswers (ℕ × ℕ) :=
  ⟨true, some fun _ => true, some (paths.map fun path => ⟨path, 0⟩), fun _ => true, true,
    fun _ => true, some fun _ => true⟩

/-- A pass over a listing of the given files. -/
def state (paths : List (ℕ × ℕ)) : S3Catchup ℕ Unit Unit Unit Unit Unit (ℕ × ℕ) :=
  { (S3Catchup.start ⟨log, []⟩ 0 : S3Catchup ℕ Unit Unit Unit Unit Unit (ℕ × ℕ)) with
    entries := config.candidates (paths.map fun path => ⟨path, 0⟩)
    phase := .consuming }

def files (paths : List (ℕ × ℕ)) : List (CatchupCandidate (ℕ × ℕ) × FallbackBatch ℕ Unit Unit) :=
  (state paths).visibleFiles config download (answers paths)

/-- Every file of the peer holds what its name says. -/
theorem wellFormedFile_of_mem {f}
    (mem : f ∈ files [(2, 2), (3, 3), (4, 5)]) : WellFormedFile config.hash f := by
  have all : ∀ f ∈ files [(2, 2), (3, 3), (4, 5)], f.2.isBatchContiguous = true ∧
      f.2.isBatchLeaseConsistent = true ∧
      (metablocksOf f.2.items).IsChain (fun a b => b.previousTipHash = config.hash a) ∧
      (metablocksOf f.2.items).head?.map (·.walSeq) = some f.1.startWalSeq ∧
      (metablocksOf f.2.items).getLast?.map (·.walSeq) = some f.1.endWalSeq := by
    decide
  obtain ⟨contiguous, leaseConsistent, linked, starts, ends⟩ := all f mem
  exact ⟨contiguous, leaseConsistent, linked, starts, ends⟩

/-- An entry of the log is one of three. -/
theorem log_entryAt {n} {m : Metablock ℕ Unit} (stored : log.entryAt n = some m) :
    (n, m) ∈ [(1, metablock 1 0 1), (2, metablock 2 11 1), (3, metablock 3 21 1)] := by
  simp only [log] at stored
  split at stored <;> simp_all

/-- The files that are passed on the way to the third entry are continued. -/
theorem resuppliable :
    Resuppliable config.hash log segments (files [(2, 2), (3, 3), (4, 5)]) where
  wellFormed f mem _ := wellFormedFile_of_mem mem
  numbered f mem first isFirst n m stored follows := by
    have all : ∀ f ∈ files [(2, 2), (3, 3), (4, 5)], ∀ first ∈ (metablocksOf f.2.items).head?,
        ∀ x ∈ [(1, metablock 1 0 1), (2, metablock 2 11 1), (3, metablock 3 21 1)],
          x.2.previousTipHash = first.previousTipHash → first.walSeq = x.2.walSeq := by
      decide
    exact all f mem first isFirst _ (log_entryAt stored) follows
  gapFree p reached last isLast below := by
    obtain ⟨f, mem, -, rfl⟩ := reached.mem
    -- only the file of the second entry ends below the write position
    have all : ∀ f ∈ files [(2, 2), (3, 3), (4, 5)], ∀ last ∈ (metablocksOf f.2.items).getLast?,
        last.walSeq < log.walSeq → ∃ g ∈ files [(2, 2), (3, 3), (4, 5)],
          ∃ e ∈ metablocksOf g.2.items, e.walSeq = last.walSeq + 1 ∧
            e.previousTipHash = config.hash last := by
      decide
    obtain ⟨g, visible, e, inside, number, previous⟩ := all f mem last isLast below
    exact ⟨_, ⟨g, visible, wellFormedFile_of_mem visible, rfl⟩, last, isLast, e, inside, number,
      previous⟩

end Forked

open Forked in
/-- The search finds the ancestor through the file of the second entry, and the three files supply
what is dropped. -/
theorem truncation_supplied_by_three_files :
    (state [(2, 2), (3, 3), (4, 5)]).truncationCall config segments
        (state [(2, 2), (3, 3), (4, 5)]).covering download (answers [(2, 2), (3, 3), (4, 5)]) =
      some ⟨11, 0, 2⟩ ∧
    Supplies config.hash
      (wellFormedPieces config.hash (files [(2, 2), (3, 3), (4, 5)])) 1 11 3 := by
  have call : (state [(2, 2), (3, 3), (4, 5)]).truncationCall config segments
      (state [(2, 2), (3, 3), (4, 5)]).covering download (answers [(2, 2), (3, 3), (4, 5)]) =
        some ⟨11, 0, 2⟩ := by
    decide +kernel
  refine ⟨call, truncation_is_resuppliable (by decide) ?_ resuppliable call⟩
  intro n m stored
  have all : ∀ x ∈ [(1, metablock 1 0 1), (2, metablock 2 11 1), (3, metablock 3 21 1)],
      x.2.walSeq = x.1 := by
    decide
  exact all _ (log_entryAt stored)

open Forked in
/-- **A gap between the files is not noticed.** The file of the third entry is missing; the search
finds the same ancestor and the third entry is dropped, though no file holds one of that number. -/
theorem truncation_ignores_coverage :
    (state [(2, 2), (4, 5)]).truncationCall config segments
    (state [(2, 2), (4, 5)]).covering download
        (answers [(2, 2), (4, 5)]) = some ⟨11, 0, 2⟩ ∧
    ¬ Supplies config.hash (wellFormedPieces config.hash (files [(2, 2), (4, 5)])) 1 11 3 := by
  refine ⟨by decide +kernel, ?_⟩
  rintro ⟨es, ext, reaches, stored⟩
  have inside : 1 < es.length := by omega
  have number : (es[1]).walSeq = 3 := ext.walSeq (List.getElem?_eq_getElem inside)
  obtain ⟨p, ⟨f, visible, -, rfl⟩, mem⟩ := stored _ (getElem_mem inside)
  have without : ∀ f ∈ files [(2, 2), (4, 5)], ∀ m ∈ metablocksOf f.2.items, m.walSeq ≠ 3 := by
    decide
  exact without f visible _ mem number

open Forked in
/-- What is left of the forked log is its first entry. -/
theorem truncation_leaves_first_entry :
    ChainedLog config.hash ((state [(2, 2), (4, 5)]).shardLog.truncateWal 11 2).log := by
  have call : (state [(2, 2), (4, 5)]).truncationCall config segments
      (state [(2, 2), (4, 5)]).covering download (answers [(2, 2), (4, 5)]) = some ⟨11, 0, 2⟩ := by
    decide +kernel
  refine truncation_leaves_chain ⟨?_, ?_⟩ (by simp [segments]) call
  all_goals
    intro n m stored
    have entry := log_entryAt stored
    simp only [mem_cons, Prod.mk.injEq, not_mem_nil, or_false] at entry
    rcases entry with ⟨rfl, rfl⟩ | ⟨rfl, rfl⟩ | ⟨rfl, rfl⟩ <;>
      simp [TipBefore, metablock, state, S3Catchup.start, log, config]

end Celeriant
