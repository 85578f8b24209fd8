import Mathlib.Data.Nat.Digits.Lemmas
import Mathlib.Data.List.MinMax
import Mathlib.Data.Prod.Lex
import Celeriant.Replication.PromotionUpload

/-!
# Fallback files

A leader that cannot reach its follower puts its entries into S3 as files, and a node that catches
up trusts two things about them: the name, for the range of entries, and the pair of lease epoch and
upload sequence, for the choice between files with one start. `replicate_to_s3` writes both. The
name always says what the file holds. The chain inside the file is not looked at, which the caller
on the fallback path does and the promotion upload does not; and the upload sequence is a counter of
the process, so files of one epoch from before and after a restart are not ordered by it.

## Main results

* `uploaded_file_agrees`: name and content of an uploaded file
* `kept_is_last_upload_iff`: when the file that is kept of one start is the one uploaded last
-/

namespace Celeriant

open HashChain List

/-! ## Names -/

/-- Uuids as text, which is made of hexadecimal digits and hyphens. -/
structure UuidFormat where
  format : ℕ → List Char
  parseStr : List Char → Option ℕ
  parseStr_format : ∀ id < 2 ^ 128, parseStr (format id) = some id
  noSlash : ∀ id, '/' ∉ format id

/-- A number in decimal, padded with zeros. -/
def zeroPadded (width n : ℕ) : List Char := (Nat.toDigits 10 n).leftpad width '0'

/-- `parse` for an unsigned integer below the bound; a sign may stand before the digits. -/
def parseUnsigned (bound : ℕ) (text : List Char) : Option ℕ :=
  let digits := if text.head? = some '+' then text.tail else text
  if digits ≠ [] ∧ digits.all Char.isDigit ∧ Nat.ofDigitChars 10 digits 0 < bound then
    some (Nat.ofDigitChars 10 digits 0)
  else none

def splitOnce (c : Char) : List Char → Option (List Char × List Char)
  | [] => none
  | x :: text => if x = c then some ([], text) else (splitOnce c text).map (·.map (x :: ·) id)

variable (uuid : UuidFormat)

/-- The range and the node, without the frame of the name. -/
def batchName (startIndex endIndex nodeId : ℕ) : List Char :=
  zeroPadded 9 startIndex ++ '_' :: (zeroPadded 9 endIndex ++ '_' :: uuid.format nodeId)

def fallbackBatchPath (shardId startIndex endIndex nodeId : ℕ) : List Char :=
  ['/'].intercalate ["cluster".toList, "fallback".toList, "shard_".toList ++ zeroPadded 3 shardId,
    "batch_".toList ++ (batchName uuid startIndex endIndex nodeId ++ ".bin".toList)]

/-- Shard, range and node of a path. -/
def parseFallbackPath (path : List Char) : Option FallbackName := do
  let shardPart ← (path.splitOn '/').find? ("shard_".toList.isPrefixOf ·)
  let batchPart ← (path.splitOn '/').find? ("batch_".toList.isPrefixOf ·)
  let shardId ← ("shard_".toList.isPrefixOf? shardPart).bind (parseUnsigned (2 ^ 32))
  let batchName ← ("batch_".toList.isPrefixOf? batchPart).bind (".bin".toList.isSuffixOf? ·)
  let (startStr, rest) ← splitOnce '_' batchName
  let (endStr, nodeUuid) ← splitOnce '_' rest
  let startIndex ← parseUnsigned (2 ^ 64) startStr
  let endIndex ← parseUnsigned (2 ^ 64) endStr
  let nodeId ← uuid.parseStr nodeUuid
  return ⟨shardId, startIndex, endIndex, nodeId⟩

theorem isDigit_of_mem_zeroPadded {width n : ℕ} {c} (mem : c ∈ zeroPadded width n) :
    c.isDigit = true := by
  rcases mem_append.mp mem with zero | digit
  · rw [eq_of_mem_replicate zero]
    rfl
  · exact Nat.isDigit_of_mem_toDigits (by decide) (by decide) digit

theorem not_mem_zeroPadded {c : Char} (other : c.isDigit = false) (width n : ℕ) :
    c ∉ zeroPadded width n := by
  intro mem
  rw [isDigit_of_mem_zeroPadded mem] at other
  cases other

/-- The leading zeros do not count. -/
theorem parseUnsigned_zeroPadded {bound n : ℕ} (small : n < bound) (width : ℕ) :
    parseUnsigned bound (zeroPadded width n) = some n := by
  have unsigned : (zeroPadded width n).head? ≠ some '+' := fun sign =>
    not_mem_zeroPadded (by rfl) width n (mem_of_head? sign)
  have value : Nat.ofDigitChars 10 (zeroPadded width n) 0 = n := by
    rw [zeroPadded, List.leftpad, Nat.ofDigitChars_append, Nat.ofDigitChars_replicate_zero,
      Nat.mul_zero, Nat.ofDigitChars_ten_toDigits]
  have nonempty : zeroPadded width n ≠ [] := by
    simp [zeroPadded, List.leftpad, Nat.toDigits_ne_nil]
  have digits : (zeroPadded width n).all Char.isDigit = true :=
    all_eq_true.mpr fun c => isDigit_of_mem_zeroPadded
  simp only [parseUnsigned, if_neg unsigned, value]
  exact if_pos ⟨nonempty, digits, small⟩

theorem splitOnce_append {c : Char} {first} (none : c ∉ first) (rest : List Char) :
    splitOnce c (first ++ c :: rest) = some (first, rest) := by
  induction first with
  | nil => simp [splitOnce]
  | cons x first ih =>
    obtain ⟨other, none⟩ := not_or.mp (mt mem_cons.mpr none)
    simp [splitOnce, Ne.symm other, ih none]

/-- **The name of a file can be read back.** -/
theorem parseFallbackPath_fallbackBatchPath {shardId startIndex endIndex nodeId : ℕ}
    (shard : shardId < 2 ^ 32) (start : startIndex < 2 ^ 64) (stop : endIndex < 2 ^ 64)
    (node : nodeId < 2 ^ 128) :
    parseFallbackPath uuid (fallbackBatchPath uuid shardId startIndex endIndex nodeId) =
      some ⟨shardId, startIndex, endIndex, nodeId⟩ := by
  have slash : ∀ width n, '/' ∉ zeroPadded width n := not_mem_zeroPadded (by rfl)
  have underscore : ∀ width n, '_' ∉ zeroPadded width n := not_mem_zeroPadded (by rfl)
  have split : (fallbackBatchPath uuid shardId startIndex endIndex nodeId).splitOn '/' =
      ["cluster".toList, "fallback".toList, "shard_".toList ++ zeroPadded 3 shardId,
        "batch_".toList ++ (batchName uuid startIndex endIndex nodeId ++ ".bin".toList)] := by
    refine splitOn_intercalate '/' ?_ (by simp)
    simp [batchName, slash, uuid.noSlash]
  have name :
      ".bin".toList.isSuffixOf? (batchName uuid startIndex endIndex nodeId ++ ".bin".toList) =
      some (batchName uuid startIndex endIndex nodeId) :=
    List.isSuffixOf?_eq_some_iff_append_eq.mpr rfl
  rw [parseFallbackPath, split]
  -- the two parts are found by their first letters
  change ((parseUnsigned (2 ^ 32) (zeroPadded 3 shardId)).bind fun _ => (".bin".toList.isSuffixOf?
    (batchName uuid startIndex endIndex nodeId ++ _)).bind fun _ => _) = _
  rw [parseUnsigned_zeroPadded shard, name]
  simp only [Option.bind_eq_bind, Option.bind_some, batchName, splitOnce_append (underscore _ _),
    parseUnsigned_zeroPadded start, parseUnsigned_zeroPadded stop, uuid.parseStr_format _ node]
  rfl

/-! ## Contents -/

section Content

variable {H B D : Type*}

/-- The put object holds the batch, which has no gap and one epoch, under the next number. -/
theorem of_replicateToS3 {uploadSequence : ℕ} {batches : List (ReplicationBatchItem H B D)} {file}
    (put : replicateToS3 s3Configured uploadSequence batches = .ok (some file)) :
    file.items = batches ∧ batches ≠ [] ∧ Contiguous (metablocksOf batches) ∧
      (∀ item ∈ batches, item.metablock.content.leaseEpoch = file.leaseEpoch) ∧
      file.uploadSequence = satAdd uploadSequence 1 := by
  have nonempty : batches ≠ [] := fun empty => by
    subst empty
    cases put
  rcases replicateToS3_cases s3Configured uploadSequence nonempty with
    ⟨⟨contiguous, -, -⟩, leaseEpoch, epochs, ok⟩ | ⟨-, e, failed⟩
  · cases ok.symm.trans put
    exact ⟨rfl, nonempty, contiguous, epochs, rfl⟩
  · cases failed.symm.trans put

variable [DecidableEq H] (hash : Metablock H B → H)

/-- Two items whose hashes do not link. -/
structure IntraBatchChainBreak (H : Type*) where
  atIndex : ℕ
  expected : H
  producerWalSeq : ℕ
  actual : H
  consumerWalSeq : ℕ
  deriving DecidableEq, Repr

/-- The loop over adjacent pairs; the index is that of the first item. -/
def validateIntraBatchChain :
    ℕ → List (ReplicationBatchItem H B D) → Except (IntraBatchChainBreak H) Unit
  | _, [] => .ok ()
  | _, [_] => .ok ()
  | index, a :: b :: items =>
    if b.metablock.previousTipHash ≠ hash a.metablock then
      .error ⟨index + 1, hash a.metablock, a.metablock.walSeq, b.metablock.previousTipHash,
        b.metablock.walSeq⟩
    else validateIntraBatchChain (index + 1) (b :: items)

variable {hash}

theorem validateIntraBatchChain_eq_ok {index : ℕ} {items : List (ReplicationBatchItem H B D)} :
    validateIntraBatchChain hash index items = .ok () ↔ Linked hash (metablocksOf items) := by
  unfold Linked metablocksOf
  induction items generalizing index with
  | nil => simp [validateIntraBatchChain]
  | cons a items ih =>
    cases items with
    | nil => simp [validateIntraBatchChain]
    | cons b items =>
      rw [validateIntraBatchChain, map_cons, map_cons, isChain_cons_cons,
        ← map_cons, ← @ih (index + 1)]
      split
      next broken => exact ⟨nofun, fun linked => absurd linked.1 broken⟩
      next same => exact ⟨fun ok => ⟨not_not.mp same, ok⟩, And.right⟩

end Content

/-- **An uploaded file is what its name says.** The name gives back shard, range and node, the file
passes the checks of the consumer and holds every entry of the range; and it is hash-linked exactly
when the items pass `validate_intra_batch_chain`, which `replicate_to_s3` does not ask for. -/
theorem uploaded_file_agrees {H B D : Type*} [DecidableEq H] (uuid : UuidFormat)
    (hash : Metablock H B → H) {shardId nodeId : ℕ} (shard : shardId < 2 ^ 32)
    (node : nodeId < 2 ^ 128) {s3Configured : Bool} {uploadSequence : ℕ}
    {batches : List (ReplicationBatchItem H B D)} {file : FallbackBatch H B D}
    (numbers : ∀ item ∈ batches, item.metablock.walSeq < 2 ^ 64)
    (put : replicateToS3 s3Configured uploadSequence batches = .ok (some file)) :
    (∃ first last, file.items.head? = some first ∧ file.items.getLast? = some last ∧
      parseFallbackPath uuid (fallbackBatchPath uuid shardId first.metablock.walSeq
        last.metablock.walSeq nodeId) =
          some ⟨shardId, first.metablock.walSeq, last.metablock.walSeq, nodeId⟩ ∧
      ∀ n, first.metablock.walSeq ≤ n → n ≤ last.metablock.walSeq →
        ∃ item ∈ file.items, item.metablock.walSeq = n) ∧
    file.items = batches ∧ file.isBatchContiguous = true ∧ file.isBatchLeaseConsistent = true ∧
    (Linked hash (metablocksOf file.items) ↔ validateIntraBatchChain hash 0 batches = .ok ()) := by
  obtain ⟨rfl, nonempty, contiguous, epochs, -⟩ := of_replicateToS3 put
  have start := List.head?_eq_some_head nonempty
  have stop := List.getLast?_eq_some_getLast nonempty
  refine ⟨⟨_, _, start, stop, parseFallbackPath_fallbackBatchPath uuid shard
    (numbers _ (head_mem nonempty)) (numbers _ (getLast_mem nonempty)) node,
    fun n above below => ?_⟩, rfl, ?_, ?_, validateIntraBatchChain_eq_ok.symm⟩
  · obtain ⟨e, held, number⟩ := contiguous.exists_walSeq
      (List.head?_map.trans (congrArg _ start))
      (List.getLast?_map.trans (congrArg _ stop)) above below
    obtain ⟨item, mem, rfl⟩ := mem_map.mp held
    exact ⟨item, mem, number⟩
  · rw [FallbackBatch.isBatchContiguous, firstGap_eq_none_iff.mpr contiguous]
    rfl
  · exact all_eq_true.mpr fun item mem => decide_eq_true (epochs item mem)

/-- Hyphens behind groups of the given lengths. -/
def hyphenate : List ℕ → List Char → List Char
  | [], text => text
  | n :: ns, text => text.take n ++ '-' :: hyphenate ns (text.drop n)

theorem mem_hyphenate {c ns text} (mem : c ∈ hyphenate ns text) : c = '-' ∨ c ∈ text := by
  induction ns generalizing text with
  | nil => exact .inr mem
  | cons n ns ih =>
    rcases mem_append.mp mem with front | back
    · exact .inr (mem_of_mem_take front)
    · exact (mem_cons.mp back).elim .inl fun back => (ih back).imp_right mem_of_mem_drop

theorem filter_hyphenate {text} (none : '-' ∉ text) (ns : List ℕ) :
    (hyphenate ns text).filter (· ≠ '-') = text := by
  induction ns generalizing text with
  | nil => exact filter_eq_self.mpr fun c mem => decide_eq_true fun eq => none (eq ▸ mem)
  | cons n ns ih =>
    have front : (text.take n).filter (· ≠ '-') = text.take n :=
      filter_eq_self.mpr fun c mem => decide_eq_true fun eq => none (eq ▸ mem_of_mem_take mem)
    rw [hyphenate, filter_append, front, filter_cons_of_neg (by simp),
      ih fun mem => none (mem_of_mem_drop mem), take_append_drop]

/-- The value of a hexadecimal digit. -/
def hexValue (c : Char) : ℕ := (List.range 16).findIdx fun d => Nat.digitChar d = c

/-- The 32 values of the digits of an id, lowest first. -/
def nibbles (id : ℕ) : List ℕ := (Nat.digits 16 id).rightpad 32 0

theorem lt_of_mem_nibbles {d id} (mem : d ∈ nibbles id) : d < 16 := by
  rcases mem_append.mp mem with digit | zero
  · exact Nat.digits_lt_base (by decide) digit
  · rw [eq_of_mem_replicate zero]
    decide

theorem not_mem_digitChars {c : Char} (other : ∀ d < 16, Nat.digitChar d ≠ c) (id : ℕ) :
    c ∉ (nibbles id).reverse.map Nat.digitChar := by
  intro mem
  obtain ⟨d, digit, eq⟩ := mem_map.mp mem
  exact other d (lt_of_mem_nibbles (mem_reverse.mp digit)) eq

/-- Node ids as 32 hexadecimal digits in five groups; they are read without the hyphens. -/
def hyphenatedUuid : UuidFormat where
  format id := hyphenate [8, 4, 4, 4] ((nibbles id).reverse.map Nat.digitChar)
  parseStr text := some (Nat.ofDigits 16 ((text.filter (· ≠ '-')).map hexValue).reverse)
  parseStr_format id _ := by
    have values : (((nibbles id).reverse.map Nat.digitChar).map hexValue).reverse = nibbles id := by
      rw [map_map, map_reverse, reverse_reverse]
      refine (map_congr_left fun d mem => ?_).trans (map_id _)
      exact (by decide : ∀ d < 16, hexValue (Nat.digitChar d) = d) d (lt_of_mem_nibbles mem)
    rw [filter_hyphenate (not_mem_digitChars (by decide) id), values, nibbles, List.rightpad,
      Nat.ofDigits_append_replicate_zero, Nat.ofDigits_digits]
  noSlash id mem := (mem_hyphenate mem).elim (by decide) (not_mem_digitChars (by decide) id)

theorem uploaded_file_agrees_two_entries :
    parseFallbackPath hyphenatedUuid (fallbackBatchPath hyphenatedUuid 3 5 6 7) =
        some ⟨3, 5, 6, 7⟩ ∧
      ∃ file, replicateToS3 true 0 [epochItem 5 2, epochItem 6 2] = .ok (some file) ∧
        Linked (fun _ => 0) (metablocksOf file.items) := by
  have put : replicateToS3 true 0 [epochItem 5 2, epochItem 6 2] =
      .ok (some ⟨2, 1, [epochItem 5 2, epochItem 6 2]⟩) := rfl
  obtain ⟨⟨first, last, head, stop, parsed, -⟩, -, -, -, linked⟩ := uploaded_file_agrees
    hyphenatedUuid (fun _ => 0) (show 3 < 2 ^ 32 by decide) (show 7 < 2 ^ 128 by decide)
      (by simp [epochItem]) put
  cases head
  cases stop
  exact ⟨parsed, _, put, linked.mpr rfl⟩

/-- **A file that is not a chain is uploaded**: the numbers and the epochs are right, and the second
entry does not carry the hash of the first. -/
theorem unlinked_file_uploaded :
    ∃ file, replicateToS3 true 0 [epochItem 5 2, epochItem 6 2] = .ok (some file) ∧
      ¬ Linked (fun e => e.walSeq) (metablocksOf file.items) :=
  ⟨_, rfl, fun linked => by cases (isChain_cons_cons.mp linked).1⟩

/-! ## The file that is kept -/

section Uploads

variable {H B D P : Type*} {s3Configured : Bool}

/-- An upload, or a restart of the node. -/
inductive UploaderAction (H B D : Type*)
  /-- An upload, and whether the put leaves the object in S3. -/
  | replicateToS3 (batches : List (ReplicationBatchItem H B D)) (stored : Bool)
  | restart

/-- The files that a node puts; the counter of a process starts at zero. -/
def uploads (s3Configured : Bool) : ℕ → List (UploaderAction H B D) → List (FallbackBatch H B D)
  | _, [] => []
  | _, .restart :: actions => uploads s3Configured 0 actions
  | uploadSequence, .replicateToS3 batches stored :: actions =>
    match replicateToS3 s3Configured uploadSequence batches with
    | .ok (some file) =>
      -- the counter moves before the put, whatever becomes of it
      let later := uploads s3Configured file.uploadSequence actions
      if stored then file :: later else later
    | _ => uploads s3Configured uploadSequence actions

/-- Within a process every file has a greater sequence than those before it. -/
theorem uploads_ordered {actions : List (UploaderAction H B D)} {uploadSequence : ℕ}
    (running : .restart ∉ actions) (counts : uploadSequence + actions.length ≤ u64Max) :
    (uploads s3Configured uploadSequence actions).Pairwise
        (·.uploadSequence < ·.uploadSequence) ∧
      ∀ file ∈ uploads s3Configured uploadSequence actions, uploadSequence <
        file.uploadSequence := by
  induction actions generalizing uploadSequence with
  | nil => exact ⟨.nil, nofun⟩
  | cons a actions ih =>
    obtain ⟨notRestart, later⟩ := not_or.mp (mt mem_cons.mpr running)
    rw [length_cons] at counts
    cases a with
    | restart => exact absurd rfl notRestart
    | replicateToS3 batches stored =>
      rw [uploads]
      split
      next file put =>
        have next := (of_replicateToS3 put).2.2.2.2
        rw [satAdd_eq (by omega)] at next
        obtain ⟨ordered, above⟩ := @ih file.uploadSequence later (by omega)
        have all : ∀ file' ∈ uploads s3Configured file.uploadSequence actions,
            uploadSequence < file'.uploadSequence := fun file' mem => by
          have := above file' mem
          omega
        split
        · exact ⟨.cons above ordered, forall_mem_cons.mpr ⟨by omega, all⟩⟩
        · exact ⟨ordered, all⟩
      · exact ih later (by omega)

def FallbackBatch.key (b : FallbackBatch H B D) : ℕ ×ₗ ℕ := toLex (b.leaseEpoch, b.uploadSequence)

theorem FallbackBatch.keyLt_iff {b c : FallbackBatch H B D} : b.keyLt c = true ↔ b.key < c.key := by
  simp [keyLt, key, Prod.Lex.toLex_lt_toLex]

variable {downloaded : List (FallbackBatch H B D × CatchupCandidate P)}

/-- Of files with one start the first with the greatest key is kept. -/
theorem byStart_dedupe {start : ℕ} (same : ∀ x ∈ downloaded, x.2.startWalSeq = start) :
    (dedupe downloaded).byStart = (downloaded.argmax (·.1.key)).toList := by
  -- the last file is compared with the one kept of those before it
  induction downloaded using List.reverseRecOn with
  | nil => rfl
  | append_singleton downloaded x ih =>
    obtain ⟨earlier, last⟩ := forall_mem_append.mp same
    rw [argmax_concat, dedupe, foldl_append, ← dedupe, foldl_cons, foldl_nil,
      Deduped.insert, ih earlier, last x (mem_singleton_self x)]
    cases best : downloaded.argmax (·.1.key) with
    | none => simp
    | some kept =>
      have start := earlier kept (argmax_mem best)
      by_cases greater : kept.1.key < x.1.key
      · simp [start, FallbackBatch.keyLt_iff, greater]
      · simp [start, FallbackBatch.keyLt_iff, greater]

end Uploads

/-- **The file of one start that is kept.** In every order it is one of the greatest epoch. It is
the one that was uploaded last of this epoch in every order exactly when the others of the epoch
carry smaller sequences, and so they do when the node did not restart. -/
theorem kept_is_last_upload_iff {H B D P : Type*} {s3Configured : Bool} {start : ℕ}
    {actions : List (UploaderAction H B D)} {earlier later : List (FallbackBatch H B D)}
    {downloaded : List (FallbackBatch H B D × CatchupCandidate P)}
    {last : FallbackBatch H B D × CatchupCandidate P}
    (same : ∀ x ∈ downloaded, x.2.startWalSeq = start) (mem : last ∈ downloaded)
    (greatest : ∀ x ∈ downloaded, x.1.leaseEpoch ≤ last.1.leaseEpoch)
    (uploaded : uploads s3Configured 0 actions = earlier ++ last.1 :: later)
    (before : ∀ x ∈ downloaded, x.1.leaseEpoch = last.1.leaseEpoch → x ≠ last → x.1 ∈ earlier) :
    (∀ order, order.Perm downloaded → ∃ kept ∈ downloaded, (dedupe order).byStart = [kept] ∧
      kept.1.leaseEpoch = last.1.leaseEpoch) ∧
    ((∀ order, order.Perm downloaded → (dedupe order).byStart = [last]) ↔
      ∀ x ∈ downloaded, x.1.leaseEpoch = last.1.leaseEpoch → x ≠ last →
        x.1.uploadSequence < last.1.uploadSequence) ∧
    (.restart ∉ actions → actions.length ≤ u64Max →
      ∀ x ∈ downloaded, x.1.leaseEpoch = last.1.leaseEpoch → x ≠ last →
        x.1.uploadSequence < last.1.uploadSequence) := by
  have kept : ∀ order, order.Perm downloaded → ∃ kept ∈ downloaded,
      (dedupe order).byStart = [kept] ∧ last.1.key ≤ kept.1.key := by
    intro order perm
    cases best : order.argmax (·.1.key) with
    | none =>
      rw [argmax_eq_none.mp best] at perm
      rw [nil_perm.mp perm] at mem
      cases mem
    | some kept =>
      have most : last.1.key ≤ kept.1.key :=
        le_of_mem_argmax (f := fun x => x.1.key) (perm.mem_iff.mpr mem) best
      refine ⟨kept, perm.mem_iff.mp (argmax_mem best), ?_, most⟩
      rw [byStart_dedupe fun x hx => same x (perm.mem_iff.mp hx), best]
      rfl
  have epoch : ∀ x ∈ downloaded, last.1.key ≤ x.1.key → x.1.leaseEpoch = last.1.leaseEpoch ∧
      last.1.uploadSequence ≤ x.1.uploadSequence := by
    intro x hx le
    have most := greatest x hx
    rcases Prod.Lex.toLex_le_toLex.mp le with lt | ⟨same, le⟩
    · exact absurd lt (Nat.not_lt_of_le most)
    · exact ⟨same.symm, le⟩
  refine ⟨fun order perm => ?_, ⟨fun always x hx sameEpoch other => ?_, fun below order perm => ?_⟩,
    fun running counts x hx sameEpoch other => ?_⟩
  · obtain ⟨first, hfirst, isKept, le⟩ := kept order perm
    exact ⟨first, hfirst, isKept, (epoch first hfirst le).1⟩
  · -- with the other file at the front, only a greater key replaces it
    obtain ⟨front, back, split⟩ := append_of_mem hx
    have perm : (x :: (front ++ back)).Perm downloaded := split ▸ perm_middle.symm
    have isKept := always _ perm
    rw [byStart_dedupe fun y hy => same y (perm.mem_iff.mp hy), argmax_cons] at isKept
    cases best : (front ++ back).argmax (·.1.key) with
    | none =>
      simp only [best, Option.toList_some, List.cons.injEq, and_true] at isKept
      exact absurd isKept other
    | some rival =>
      simp only [best] at isKept
      split at isKept
      next greater =>
        cases isKept
        rcases Prod.Lex.toLex_lt_toLex.mp greater with lt | ⟨-, lt⟩
        · exact absurd sameEpoch (Nat.ne_of_lt lt)
        · exact lt
      · cases isKept
        exact absurd rfl other
  · obtain ⟨first, hfirst, isKept, le⟩ := kept order perm
    obtain ⟨sameEpoch, le⟩ := epoch first hfirst le
    by_cases other : first = last
    · rw [isKept, other]
    · exact absurd le (Nat.not_le_of_lt (below first hfirst sameEpoch other))
  · have ordered : (uploads s3Configured 0 actions).Pairwise _ :=
      (uploads_ordered running (by omega)).1
    rw [uploaded] at ordered
    exact (pairwise_append.mp ordered).2.2 x.1 (before x hx sameEpoch other) last.1
      mem_cons_self

def batchCandidate (endWalSeq : ℕ) : CatchupCandidate ℕ := ⟨endWalSeq, 1, 5, endWalSeq⟩

theorem kept_is_last_upload_iff_growing :
    ∃ short long, uploads true 0 [.replicateToS3 [epochItem 5 2] true,
        .replicateToS3 [epochItem 5 2, epochItem 6 2] true] = [short, long] ∧
      ∀ order, order.Perm [(short, batchCandidate 5), (long, batchCandidate 6)] →
        (dedupe order).byStart = [(long, batchCandidate 6)] := by
  have uploaded : uploads true 0 [.replicateToS3 [epochItem 5 2] true,
    .replicateToS3 [epochItem 5 2, epochItem 6 2] true] = [⟨2, 1, _⟩] ++ ⟨2, 2, _⟩ :: [] := rfl
  have same : ∀ x ∈ [((⟨2, 1, [epochItem 5 2]⟩ : FallbackBatch ℕ ℕ Unit), batchCandidate 5),
    (⟨2, 2, [epochItem 5 2, epochItem 6 2]⟩, batchCandidate 6)], x.2.startWalSeq = 5 := by
    simp [batchCandidate]
  obtain ⟨-, last, ordered⟩ := kept_is_last_upload_iff same
    (mem_cons_of_mem _ mem_cons_self) (by simp) uploaded (by simp)
  exact ⟨_, _, rfl, last.mpr (ordered (by simp) (by decide))⟩

/-- **After a restart the order decides.** The node uploads a file, restarts with its epoch and
uploads a longer one with the same start, under the same number. Of the two the first that is listed
is kept. -/
theorem restart_keeps_first_listed :
    ∃ short long, uploads true 0 [.replicateToS3 [epochItem 5 2] true, .restart,
        .replicateToS3 [epochItem 5 2, epochItem 6 2] true] = [short, long] ∧
      short.leaseEpoch = long.leaseEpoch ∧
      (dedupe [(short, batchCandidate 5), (long, batchCandidate 6)]).byStart =
        [(short, batchCandidate 5)] ∧
      (dedupe [(long, batchCandidate 6), (short, batchCandidate 5)]).byStart =
        [(long, batchCandidate 6)] :=
  ⟨_, _, rfl, rfl, rfl, rfl⟩

end Celeriant
