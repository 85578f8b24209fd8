import Celeriant.Replication.ApplyBatch
import Mathlib.Algebra.Ring.Nat

/-!
# Serialised datablocks and the entry hash

A datablock is stored inside its metablock when its bytes fit there and outside otherwise, raw or
compressed. The leader lets `serialiseAuto` choose. A follower gets the metablock and the decoded
datablock, and makes the external bytes again with `serialiseFixed` from the recorded compression;
the next entry of the chain agrees on both only if these bytes, and everything that the entry hash
covers, are the same.

The formats are third-party: `Bincode` is what the crate documents of it (the limit bounds what a
decoder may claim, an encoder has none), and a `DictCodec` compresses deterministically and
decompresses what it compressed. Sizes are numbers, and a checksum and a hash are functions of the
bytes.

## Main results

* `serialiseAuto_eq`: the leader's result is that of `serialiseFixed` at the compression it chose
* `deserialise_serialiseFixed`: what is read back is what the decoder makes of the encoded datablock
* `computeEntryHash_positions`: the positions are not hashed
* `replicated_entries_stored_faithfully`
* `unlinked_item_stored_with_another_hash`
* `reads_in_bounds_iff`: when reading the datablock of a block that decodes cannot panic
-/

namespace Celeriant.Wire

open HashChain List

abbrev Bytes := List UInt8

/-- The format of a datablock. Decoding counts the bytes it claims, and fails above its limit. -/
structure Bincode (D : Type) where
  encode : D → Bytes
  decode : ℕ → Bytes → Except String D
  claimed : D → ℕ
  decode_encode : ∀ {limit d}, claimed d ≤ limit → decode limit (encode d) = .ok d
  decode_above : ∀ {limit d}, limit < claimed d → ∃ e, decode limit (encode d) = .error e

/-- A zstd codec with its dictionary. Decompression allocates the claimed size first, and the
process panics or aborts above `allocatable`; what it could compress it can allocate. -/
structure DictCodec where
  compress : Bytes → Except String Bytes
  decompress : Bytes → ℕ → Except String Bytes
  allocatable : ℕ
  decompress_compress : ∀ {data out}, compress data = .ok out →
    data.length ≤ allocatable ∧ decompress out data.length = .ok data

/-- The errors of a codec. -/
inductive CodecError
  | deserialization (message : String)
  | compression (message : String)
  deriving DecidableEq, Repr

/-- The errors of reading a datablock. The last two are panics: slicing a minibatch beyond its end,
and allocating more than there is. -/
inductive DiskFormatError
  | datablockExpected
  | externalDataMissing
  | checksumMismatch (expected actual : UInt32)
  | unsupportedVersion (version : ℕ)
  | unknownCompression (byte : UInt8)
  | codec (error : CodecError)
  | sliceOutOfRange
  | allocationFailed
  deriving DecidableEq, Repr

/-- The compressions a block may record. -/
inductive CompressionType
  | none
  | zstdDict
  deriving DecidableEq, Repr

namespace CompressionType

def toByte : CompressionType → UInt8
  | none => 0
  | zstdDict => 1

def fromByte (byte : UInt8) : Except UInt8 CompressionType :=
  if byte = 0 then .ok none else if byte = 1 then .ok zstdDict else .error byte

@[simp] theorem fromByte_toByte (c : CompressionType) : fromByte c.toByte = .ok c := by
  cases c <;> rfl

end CompressionType

/-- A smaller block is a build feature. -/
def minibatchSizeBytes (smallMetablock : Bool) : ℕ := if smallMetablock then 206 else 718

def fixedBlockSizeBytes (smallMetablock : Bool) : ℕ := if smallMetablock then 512 else 1024

def defaultAutoStackScratchBytes : ℕ := 4096

def maxDecodeBytes : ℕ := 1024 * 1024 * 1024

def wireVersionWalDatablock : ℕ := 1

def wireVersionWalMetablock : ℕ := 1

/-- A minibatch of full size. -/
structure DatablockInlineData (small : Bool) where
  minibatch : Bytes
  length_eq : minibatch.length = minibatchSizeBytes small

/-- A minibatch is filled up with zeros. -/
def DatablockInlineData.ofBytes {small : Bool} (body : Bytes)
    (fits : body.length ≤ minibatchSizeBytes small) : DatablockInlineData small where
  minibatch := body ++ List.replicate (minibatchSizeBytes small - body.length) 0
  length_eq := by
    rw [length_append, length_replicate]
    omega

/-- Where the bytes of a datablock are. -/
inductive DatablockStorageKind (small : Bool)
  | none
  | inline (data : DatablockInlineData small)
  | block (crc32c : UInt32)

/-- The kind without its payload. -/
def DatablockStorageKind.tag {small : Bool} :
    DatablockStorageKind small → Celeriant.DatablockStorageKind
  | none => .none
  | inline _ => .inline
  | block _ => .block

/-- What the metablock records, and the bytes outside. -/
structure SerialisedDatablock (small : Bool) where
  uncompressedSize : ℕ
  compressedSize : ℕ
  datablockVersion : ℕ
  compressionType : UInt8
  storageKind : DatablockStorageKind small
  externalData : Option Bytes

section Datablock

variable {D : Type} (bincode : Bincode D) (dict : DictCodec) (crc32c : Bytes → UInt32)
  {small : Bool}

/-- `fixed_serialise_stack`: the bytes, if they fit the buffer. -/
def fixedSerialiseStack (d : D) (size : ℕ) : Option Bytes :=
  if (bincode.encode d).length ≤ size then some (bincode.encode d) else none

def fixedDeserialise (data : Bytes) : Except DiskFormatError D :=
  match bincode.decode maxDecodeBytes data with
  | .ok d => .ok d
  | .error message => .error (.codec (.deserialization message))

/-- A failed compression is an error of the codec. -/
def DictCodec.tryCompress (data : Bytes) : Except CodecError Bytes :=
  match dict.compress data with
  | .ok compressed => .ok compressed
  | .error message => .error (.compression ("zstd-dict: " ++ message))

/-- `DictCodec::decompress`, with the allocation in front. -/
def DictCodec.tryDecompress (data : Bytes) (size : ℕ) : Except DiskFormatError Bytes :=
  if dict.allocatable < size then .error .allocationFailed
  else match dict.decompress data size with
    | .ok decompressed => .ok decompressed
    | .error message => .error (.codec (.compression ("zstd-dict: " ++ message)))

/-- A datablock stored in its metablock. -/
def inline (uncompressedSize compressedSize : ℕ) (compressionType : UInt8)
    (data : DatablockInlineData small) : SerialisedDatablock small :=
  ⟨uncompressedSize, compressedSize, wireVersionWalDatablock, compressionType, .inline data, none⟩

/-- A datablock stored outside, with its checksum. -/
def externalBlock (uncompressedSize compressedSize : ℕ) (compressionType : UInt8) (body : Bytes) :
    SerialisedDatablock small :=
  ⟨uncompressedSize, compressedSize, wireVersionWalDatablock, compressionType,
    .block (crc32c body), some body⟩

/-- The leader's choice of compression and place. -/
def serialiseAuto (small : Bool) (stackScratch : ℕ) (d : D) (compressionAllowed : Bool) :
    Except CodecError (SerialisedDatablock small) :=
  match fixedSerialiseStack bincode d stackScratch with
  | some uncompressed =>
    if fits : uncompressed.length ≤ minibatchSizeBytes small then
      .ok (inline uncompressed.length uncompressed.length CompressionType.none.toByte
        (.ofBytes uncompressed fits))
    else if !compressionAllowed then
      .ok (externalBlock crc32c uncompressed.length uncompressed.length
        CompressionType.none.toByte uncompressed)
    else do
      let compressed ← dict.tryCompress uncompressed
      if fits : compressed.length ≤ minibatchSizeBytes small then
        .ok (inline uncompressed.length compressed.length CompressionType.zstdDict.toByte
          (.ofBytes compressed fits))
      else .ok (externalBlock crc32c uncompressed.length compressed.length
        CompressionType.zstdDict.toByte compressed)
  | none =>
    let uncompressed := bincode.encode d
    if !compressionAllowed then
      .ok (externalBlock crc32c uncompressed.length uncompressed.length
        CompressionType.none.toByte uncompressed)
    else do
      let compressed ← dict.tryCompress uncompressed
      if fits : compressed.length ≤ minibatchSizeBytes small then
        .ok (inline uncompressed.length compressed.length CompressionType.zstdDict.toByte
          (.ofBytes compressed fits))
      else .ok (externalBlock crc32c uncompressed.length compressed.length
        CompressionType.zstdDict.toByte compressed)

/-- The stored bytes at a compression. -/
def fixedBody (uncompressed : Bytes) : CompressionType → Except CodecError Bytes
  | .none => .ok uncompressed
  | .zstdDict => dict.tryCompress uncompressed

/-- The follower's, at the recorded compression. -/
def serialiseFixed (small : Bool) (d : D) (compressionType : CompressionType) :
    Except CodecError (SerialisedDatablock small) := do
  let uncompressed := bincode.encode d
  let body ← fixedBody dict uncompressed compressionType
  if fits : body.length ≤ minibatchSizeBytes small then
    .ok (inline uncompressed.length body.length compressionType.toByte (.ofBytes body fits))
  else .ok (externalBlock crc32c uncompressed.length body.length compressionType.toByte body)

/-- The datablock in stored bytes, decompressed as recorded. -/
def decodeBody (uncompressedSize : ℕ) (compressionTypeId : UInt8)
    (data : Except DiskFormatError Bytes) : Except DiskFormatError D :=
  match CompressionType.fromByte compressionTypeId with
  | .error byte => .error (.unknownCompression byte)
  | .ok compressionType => do
    let data ← data
    match compressionType with
    | .none => fixedDeserialise bincode data
    | .zstdDict =>
      let decompressed ← dict.tryDecompress data uncompressedSize
      fixedDeserialise bincode decompressed

def deserialiseDatablock (uncompressedSize compressedSize datablockVersion : ℕ)
    (compressionTypeId : UInt8) (storageKind : DatablockStorageKind small)
    (externalData : Option Bytes) : Except DiskFormatError D :=
  match storageKind with
  | .none => .error .datablockExpected
  | .inline data =>
    if datablockVersion ≠ 0 ∧ datablockVersion ≠ wireVersionWalDatablock then
      .error (.unsupportedVersion datablockVersion)
    else decodeBody bincode dict uncompressedSize compressionTypeId
      (if compressedSize ≤ minibatchSizeBytes small then .ok (data.minibatch.take compressedSize)
      else .error .sliceOutOfRange)
  | .block expected =>
    match externalData with
    | none => .error .externalDataMissing
    | some data =>
      if crc32c data ≠ expected then .error (.checksumMismatch expected (crc32c data))
      else if datablockVersion ≠ wireVersionWalDatablock then
        .error (.unsupportedVersion datablockVersion)
      else decodeBody bincode dict uncompressedSize compressionTypeId (.ok data)

/-- `deserialise_datablock` on what a serialiser returned. -/
def SerialisedDatablock.deserialise (s : SerialisedDatablock small) : Except DiskFormatError D :=
  deserialiseDatablock bincode dict crc32c s.uncompressedSize s.compressedSize s.datablockVersion
    s.compressionType s.storageKind s.externalData

/-! ## The two serialisers agree -/

/-- The compression that `serialise_auto` ends up with. -/
def autoCompression (small : Bool) (d : D) (compressionAllowed : Bool) : CompressionType :=
  if (bincode.encode d).length ≤ minibatchSizeBytes small ∨ !compressionAllowed then .none
  else .zstdDict

theorem minibatchSizeBytes_le : minibatchSizeBytes small ≤ defaultAutoStackScratchBytes := by
  cases small <;> decide

/-- **The leader's datablock is the fixed one** at the compression it chose. -/
theorem serialiseAuto_eq (d : D) (allowed : Bool) :
    serialiseAuto bincode dict crc32c small defaultAutoStackScratchBytes d allowed =
      serialiseFixed bincode dict crc32c small d (autoCompression bincode small d allowed) := by
  by_cases fits : (bincode.encode d).length ≤ minibatchSizeBytes small
  · have stack := Nat.le_trans fits minibatchSizeBytes_le
    simp [serialiseAuto, serialiseFixed, fixedBody, autoCompression, fixedSerialiseStack, bind,
      Except.bind, stack, fits]
  · cases allowed <;>
      by_cases stack : (bincode.encode d).length ≤ defaultAutoStackScratchBytes <;>
      simp [serialiseAuto, serialiseFixed, fixedBody, autoCompression, fixedSerialiseStack, bind,
        Except.bind, stack, fits]

variable {bincode dict crc32c} {d : D} {c : CompressionType} {r : SerialisedDatablock small}

/-- What `serialise_fixed` returns, and from which bytes. -/
theorem serialiseFixed_ok (h : serialiseFixed bincode dict crc32c small d c = .ok r) :
    ∃ body, fixedBody dict (bincode.encode d) c = .ok body ∧
      ((∃ fits, r = inline (bincode.encode d).length body.length c.toByte (.ofBytes body fits)) ∨
        r = externalBlock crc32c (bincode.encode d).length body.length c.toByte body) := by
  simp only [serialiseFixed, bind, Except.bind] at h
  split at h
  · cases h
  next body made =>
    refine ⟨body, made, ?_⟩
    split at h
    next fits => exact .inl ⟨fits, (Except.ok.inj h).symm⟩
    · exact .inr (Except.ok.inj h).symm

theorem decodeBody_fixedBody {body : Bytes}
    (made : fixedBody dict (bincode.encode d) c = .ok body) :
    decodeBody bincode dict (bincode.encode d).length c.toByte (.ok body) =
      fixedDeserialise bincode (bincode.encode d) := by
  simp only [decodeBody, CompressionType.fromByte_toByte, bind, Except.bind]
  cases c with
  | none =>
    obtain rfl := Except.ok.inj made
    rfl
  | zstdDict =>
    simp only [fixedBody, DictCodec.tryCompress] at made
    split at made
    next compressed =>
      obtain rfl := Except.ok.inj made
      obtain ⟨fits, back⟩ := dict.decompress_compress compressed
      simp only [DictCodec.tryDecompress, Nat.not_lt.mpr fits, if_false, back]
    · cases made

/-- **What is read back** is what the decoder makes of the encoded datablock. -/
theorem deserialise_serialiseFixed (h : serialiseFixed bincode dict crc32c small d c = .ok r) :
    r.deserialise bincode dict crc32c = fixedDeserialise bincode (bincode.encode d) := by
  obtain ⟨body, made, ⟨fits, rfl⟩ | rfl⟩ := serialiseFixed_ok h
  · have front : (.ofBytes body fits : DatablockInlineData small).minibatch.take body.length =
        body := take_left
    simp only [SerialisedDatablock.deserialise, deserialiseDatablock, inline, front, fits,
      if_true, ne_eq, not_true_eq_false, and_false, if_false]
    exact decodeBody_fixedBody made
  · simp only [SerialisedDatablock.deserialise, deserialiseDatablock, externalBlock, ne_eq,
      not_true_eq_false, if_false]
    exact decodeBody_fixedBody made

variable (bincode dict crc32c) in
/-- The external bytes that a follower makes of a replicated datablock. -/
def reserialise (small : Bool) (compressionByte : ℕ) (d : D) :
    Except CodecError (Option Bytes) :=
  match CompressionType.fromByte (.ofNat compressionByte) with
  | .error byte => .error (.compression ("unknown compression byte " ++ toString byte))
  | .ok compressionType => do
    let serialised ← serialiseFixed bincode dict crc32c small d compressionType
    .ok serialised.externalData

/-- **A follower queues the leader's bytes** for an item that records the leader's datablock. -/
theorem prepareItem_serialiseFixed {H B : Type*} {item : ReplicationBatchItem H B D}
    (h : serialiseFixed bincode dict crc32c small d c = .ok r)
    (recorded : item.metablock.content.datablockCompressionType = r.compressionType.toNat)
    (kind : item.metablock.content.datablock = r.storageKind.tag)
    (datablock : item.datablock = some d) :
    ∃ queued, prepareItem (reserialise bincode dict crc32c small) item = .ok queued ∧
      queued.datablockBytes = r.externalData ∧ queued.metablock = item.metablock := by
  obtain ⟨body, made, ⟨fits, rfl⟩ | rfl⟩ := serialiseFixed_ok h
  · refine ⟨⟨none, none, item.metablock⟩, ?_, rfl, rfl⟩
    simp only [prepareItem, kind, DatablockStorageKind.tag, inline]
  · refine ⟨⟨some d, some body, item.metablock⟩, ?_, rfl, rfl⟩
    have byte : CompressionType.fromByte (.ofNat
        item.metablock.content.datablockCompressionType) = .ok c := by
      rw [recorded, UInt8.ofNat_toNat]
      exact CompressionType.fromByte_toByte c
    simp only [prepareItem, kind, DatablockStorageKind.tag, datablock, reserialise, externalBlock,
      byte, h, bind, Except.bind]

end Datablock

/-! ## The stored block and its hash -/

abbrev EntryHashBytes := { bytes : Bytes // bytes.length = 32 }

/-- The fields of a metablock that the entry does not name. The minibatch counts for an inline
datablock, the checksum for an external one. -/
structure MetablockBody (K : Type) (small : Bool) where
  serverTimestamp : ℕ
  nodeId : ℕ
  uncompressedSize : ℕ
  compressedSize : ℕ
  datablockVersion : ℕ
  walMetablockType : K
  minibatch : DatablockInlineData small
  crc32c : UInt32

/-- A metablock as it is stored: the entry of the chain and its two node-local positions. -/
structure Metablock (K : Type) (small : Bool) where
  entry : Celeriant.Metablock EntryHashBytes (MetablockBody K small)
  datablockPosition : ℕ
  previousAggregateMetablockPos : ℕ

/-- The little-endian bytes of an integer of `w` bytes. -/
def toLeBytes (w n : ℕ) : Bytes := (List.range w).map fun i => .ofNat (n / 256 ^ i)

@[simp] theorem length_toLeBytes (w n : ℕ) : (toLeBytes w n).length = w := by simp [toLeBytes]

namespace Metablock

variable {K : Type} {small : Bool} (encodeKind : K → Bytes) (m : Metablock K small)

def offsetDatablockPosition : ℕ := 8 + 8 + 8 + 16 + 8 + 8 + 4 + 1 + 32

/-- `WIRE_SIZE_DATABLOCK_POSITION` and `WIRE_SIZE_PREVIOUS_AGGREGATE_METABLOCK_POS` -/
def wireSizePositions : ℕ := 8 + 8

def storageKind : DatablockStorageKind small :=
  match m.entry.content.datablock with
  | .none => .none
  | .inline => .inline m.entry.content.body.minibatch
  | .block => .block m.entry.content.body.crc32c

/-- The fields in front of the positions. -/
def front : Bytes :=
  toLeBytes 8 m.entry.walSeq ++ toLeBytes 8 m.entry.content.body.serverTimestamp ++
  toLeBytes 8 m.entry.content.leaseEpoch ++ toLeBytes 16 m.entry.content.body.nodeId ++
  toLeBytes 8 m.entry.content.body.uncompressedSize ++
  toLeBytes 8 m.entry.content.body.compressedSize ++
  toLeBytes 4 m.entry.content.body.datablockVersion ++
  toLeBytes 1 m.entry.content.datablockCompressionType ++ m.entry.previousTipHash.1

def positions : Bytes :=
  toLeBytes 8 m.datablockPosition ++ toLeBytes 8 m.previousAggregateMetablockPos

/-- The fields behind them: the payload variant and the datablock, behind their discriminants. -/
def rear : Bytes :=
  encodeKind m.entry.content.body.walMetablockType ++
  match m.storageKind with
  | .none => toLeBytes 4 0
  | .inline data => toLeBytes 4 1 ++ data.minibatch
  | .block crc32c => toLeBytes 4 2 ++ toLeBytes 4 crc32c.toNat

def encode : Bytes := m.front ++ m.positions ++ m.rear encodeKind

theorem length_front : m.front.length = offsetDatablockPosition := by
  simp [front, offsetDatablockPosition, m.entry.previousTipHash.2]

theorem length_positions : m.positions.length = wireSizePositions := by
  simp [positions, wireSizePositions]

end Metablock

def crcSize : ℕ := 4

def headerSize : ℕ := 4 + crcSize

/-- `serialize_versioned_message` into a buffer of `size` bytes, if the payload fits. -/
def serializeVersionedMessage (crc32c : Bytes → UInt32) (payload : Bytes) (version size : ℕ) :
    Option Bytes :=
  if headerSize + payload.length ≤ size then
    let content := toLeBytes 4 version ++ payload ++
      List.replicate (size - headerSize - payload.length) 0
    some (toLeBytes crcSize (crc32c content).toNat ++ content)
  else none

/-- The hash of an entry, without its positions. -/
def computeEntryHash (blake3 : Bytes → EntryHashBytes) (previousHash : EntryHashBytes)
    (content : Bytes) : EntryHashBytes :=
  let skipStart := headerSize + Metablock.offsetDatablockPosition
  let skipEnd := skipStart + Metablock.wireSizePositions
  blake3 (previousHash.1 ++ (content.take skipStart).drop crcSize ++ content.drop skipEnd)

section Hash

variable {K : Type} {small : Bool} (crc32c : Bytes → UInt32) (blake3 : Bytes → EntryHashBytes)
  (encodeKind : K → Bytes) (m : Metablock K small)

/-- The block that `sync` writes for a metablock. -/
def Metablock.serialize : Option Bytes :=
  serializeVersionedMessage crc32c (m.encode encodeKind) wireVersionWalMetablock
    (fixedBlockSizeBytes small)

/-- The zeros behind a metablock. -/
def Metablock.padding : Bytes :=
  List.replicate (fixedBlockSizeBytes small - headerSize - (m.encode encodeKind).length) 0

variable {crc32c encodeKind m} {block : Bytes}

/-- The hash of a stored block covers the fields around the positions. -/
theorem computeEntryHash_serialize (previousHash : EntryHashBytes)
    (h : m.serialize crc32c encodeKind = some block) :
    computeEntryHash blake3 previousHash block =
      blake3 (previousHash.1 ++ (toLeBytes 4 wireVersionWalMetablock ++ m.front) ++
        (m.rear encodeKind ++ m.padding encodeKind)) := by
  unfold Metablock.serialize serializeVersionedMessage at h
  split at h
  next room =>
    obtain ⟨crc, sized, hblock⟩ : ∃ crc : Bytes, crc.length = crcSize ∧ block =
        (crc ++ (toLeBytes 4 wireVersionWalMetablock ++ m.front)) ++
          (m.positions ++ (m.rear encodeKind ++ m.padding encodeKind)) := by
      obtain rfl := Option.some.inj h
      simp only [Metablock.encode, Metablock.padding, ← append_assoc]
      exact ⟨_, length_toLeBytes crcSize _, rfl⟩
    have before : (crc ++ (toLeBytes 4 wireVersionWalMetablock ++ m.front)).length =
        headerSize + Metablock.offsetDatablockPosition := by
      simp only [length_append, sized, length_toLeBytes, m.length_front, headerSize]
      omega
    simp only [computeEntryHash, hblock]
    rw [← before, take_left, drop_left' sized, ← m.length_positions, ← drop_drop,
      drop_left, drop_left]
  · cases h

/-- **The positions are not hashed**, and whether a metablock fits its block does not depend on
them. -/
theorem computeEntryHash_positions {m' : Metablock K small} (same : m'.entry = m.entry)
    (previousHash : EntryHashBytes) (h : m.serialize crc32c encodeKind = some block) :
    ∃ block', m'.serialize crc32c encodeKind = some block' ∧
      computeEntryHash blake3 previousHash block' = computeEntryHash blake3 previousHash block := by
  have front : m'.front = m.front := by rw [Metablock.front, same, ← Metablock.front]
  have rear : m'.rear encodeKind = m.rear encodeKind := by
    rw [Metablock.rear, Metablock.storageKind, same, ← Metablock.storageKind, ← Metablock.rear]
  have length : (m'.encode encodeKind).length = (m.encode encodeKind).length := by
    simp only [Metablock.encode, length_append, front, rear, Metablock.length_positions]
  have padding : m'.padding encodeKind = m.padding encodeKind := by
    rw [Metablock.padding, length, ← Metablock.padding]
  obtain ⟨block', stored⟩ : ∃ block', m'.serialize crc32c encodeKind = some block' := by
    unfold Metablock.serialize serializeVersionedMessage at h ⊢
    split at h
    next room =>
      rw [← length] at room
      exact ⟨_, if_pos room⟩
    · cases h
  refine ⟨block', stored, ?_⟩
  rw [computeEntryHash_serialize blake3 previousHash h,
    computeEntryHash_serialize blake3 previousHash stored, front, rear, padding]

end Hash

/-! ## Leader and follower -/

section Nodes

variable {D K : Type} {bincode : Bincode D} {dict : DictCodec} {crc32c : Bytes → UInt32}
  {small : Bool} {d : D} {allowed : Bool} {r : SerialisedDatablock small}

/-- **The hash chain does not depend on the node.** For a datablock within the decoder's limit:
`serialise_fixed` makes the leader's bytes again from the recorded compression, the events are read
back from them, a follower queues these bytes, and entries that differ in their positions have one
hash. -/
theorem serialised_node_independent (blake3 : Bytes → EntryHashBytes) (encodeKind : K → Bytes)
    (auto : serialiseAuto bincode dict crc32c small defaultAutoStackScratchBytes d allowed = .ok r)
    (within : bincode.claimed d ≤ maxDecodeBytes) :
    (∃ c, CompressionType.fromByte r.compressionType = .ok c ∧
      serialiseFixed bincode dict crc32c small d c = .ok r) ∧
    r.deserialise bincode dict crc32c = .ok d ∧
    (∀ item : ReplicationBatchItem EntryHashBytes (MetablockBody K small) D,
      item.metablock.content.datablockCompressionType = r.compressionType.toNat →
      item.metablock.content.datablock = r.storageKind.tag → item.datablock = some d →
      ∃ queued, prepareItem (reserialise bincode dict crc32c small) item = .ok queued ∧
        queued.datablockBytes = r.externalData ∧ queued.metablock = item.metablock) ∧
    ∀ (m m' : Metablock K small) (previousHash : EntryHashBytes) (block : Bytes),
      m'.entry = m.entry → m.serialize crc32c encodeKind = some block →
      ∃ block', m'.serialize crc32c encodeKind = some block' ∧
        computeEntryHash blake3 previousHash block' =
          computeEntryHash blake3 previousHash block := by
  rw [serialiseAuto_eq] at auto
  refine ⟨⟨_, ?_, auto⟩, ?_, fun item => prepareItem_serialiseFixed auto,
    fun m m' previousHash block same => computeEntryHash_positions blake3 same previousHash⟩
  · obtain ⟨body, -, ⟨fits, rfl⟩ | rfl⟩ := serialiseFixed_ok auto <;>
      exact CompressionType.fromByte_toByte _
  · rw [deserialise_serialiseFixed auto, fixedDeserialise, bincode.decode_encode within]

variable (bincode dict crc32c small) in
/-- A datablock above the decoder's limit is serialised, and cannot be read back. -/
theorem exists_not_deserialised (above : maxDecodeBytes < bincode.claimed d) :
    ∃ r, serialiseAuto bincode dict crc32c small defaultAutoStackScratchBytes d false = .ok r ∧
      ∃ e, r.deserialise bincode dict crc32c = .error e := by
  have raw : autoCompression bincode small d false = .none := by
    simp only [autoCompression, Bool.not_false, or_true, if_true]
  have made : ∃ r, serialiseFixed bincode dict crc32c small d .none = .ok r := by
    simp only [serialiseFixed, fixedBody, bind, Except.bind]
    split <;> exact ⟨_, rfl⟩
  obtain ⟨r, hr⟩ := made
  obtain ⟨e, he⟩ := bincode.decode_above above
  refine ⟨r, by rw [serialiseAuto_eq, raw, hr], ?_⟩
  rw [deserialise_serialiseFixed hr, fixedDeserialise, he]
  exact ⟨_, rfl⟩

/-- A datablock that is its own encoding. -/
def rawBincode : Bincode Bytes where
  encode := id
  decode limit data := if data.length ≤ limit then .ok data else .error "LimitExceeded"
  claimed := List.length
  decode_encode h := if_pos h
  decode_above h := ⟨_, if_neg (Nat.not_le.mpr h)⟩

/-- A compressor that copies, in a process that allocates up to the decoder's limit. -/
def copyCodec : DictCodec where
  compress data := if data.length ≤ maxDecodeBytes then .ok data else .error "Allocation error"
  decompress data _ := .ok data
  allocatable := maxDecodeBytes
  decompress_compress := by
    intro data out h
    split at h
    next fits => exact ⟨fits, by rw [Except.ok.inj h]⟩
    · cases h

theorem oversized_not_read_back : ∃ r : SerialisedDatablock false,
    serialiseAuto rawBincode copyCodec (fun _ => 0) false defaultAutoStackScratchBytes
      (List.replicate (maxDecodeBytes + 1) 0) false = .ok r ∧
    ∃ e, r.deserialise rawBincode copyCodec (fun _ => 0) = .error e := by
  have length : rawBincode.claimed (List.replicate (maxDecodeBytes + 1) 0) = maxDecodeBytes + 1 :=
    length_replicate
  have above : maxDecodeBytes < maxDecodeBytes + 1 := Nat.lt_succ_self _
  rw [← length] at above
  exact exists_not_deserialised rawBincode copyCodec _ false above

/-- A datablock one byte above a minibatch. -/
def oneAbove : Bytes := List.replicate 719 7

theorem claimed_oneAbove : rawBincode.claimed oneAbove ≤ maxDecodeBytes := by
  rw [show rawBincode.claimed oneAbove = 719 from length_replicate]
  decide

theorem serialiseFixed_oneAbove :
    serialiseFixed rawBincode copyCodec (fun _ => 0) false oneAbove .zstdDict =
      .ok (externalBlock (fun _ => 0) 719 719 CompressionType.zstdDict.toByte oneAbove) := by
  have length : oneAbove.length = 719 := length_replicate
  simp [serialiseFixed, fixedBody, DictCodec.tryCompress, copyCodec, rawBincode, length,
    maxDecodeBytes, minibatchSizeBytes, bind, Except.bind]

/-- A byte that is stored inline as it is, and a datablock that is compressed and stored outside. -/
theorem serialised_node_independent_raw :
    (∃ r : SerialisedDatablock false,
      serialiseAuto rawBincode copyCodec (fun _ => 0) false defaultAutoStackScratchBytes [7] true =
        .ok r ∧ r.deserialise rawBincode copyCodec (fun _ => 0) = .ok [7]) ∧
    ∃ r : SerialisedDatablock false,
      serialiseAuto rawBincode copyCodec (fun _ => 0) false defaultAutoStackScratchBytes oneAbove
        true = .ok r ∧
      (r.compressionType, r.externalData) = (CompressionType.zstdDict.toByte, some oneAbove) ∧
      r.deserialise rawBincode copyCodec (fun _ => 0) = .ok oneAbove := by
  constructor
  · have made : ∃ r : SerialisedDatablock false, serialiseAuto rawBincode copyCodec (fun _ => 0)
        false defaultAutoStackScratchBytes [7] true = .ok r := by
      rw [serialiseAuto, fixedSerialiseStack, if_pos (by decide)]
      exact ⟨_, dif_pos (by decide)⟩
    obtain ⟨r, auto⟩ := made
    exact ⟨r, auto, (serialised_node_independent (fun _ => ⟨.replicate 32 0, rfl⟩)
      (fun _ : Unit => []) auto (by decide)).2.1⟩
  · have compressed : autoCompression rawBincode false oneAbove true = .zstdDict := by
      have length : (rawBincode.encode oneAbove).length = 719 := length_replicate
      simp [autoCompression, length, minibatchSizeBytes]
    have auto := @serialiseAuto_eq _ rawBincode copyCodec (fun _ => 0) false oneAbove true
    rw [compressed, serialiseFixed_oneAbove] at auto
    exact ⟨_, auto, rfl, (serialised_node_independent (fun _ => ⟨.replicate 32 0, rfl⟩)
      (fun _ : Unit => []) auto claimed_oneAbove).2.1⟩

end Nodes

/-! ## Replicated entries on disk

The fsync of a follower numbers and chains the queued contents onto the local tip, whatever the item
came with, and writes the external bytes that the follower made itself. A reader takes an external
datablock over the recorded size and compares the recorded checksum. `apply_external_batch` checks
neither. -/

variable {D K : Type} (bincode : Bincode D) (dict : DictCodec) (crc32c : Bytes → UInt32)
  {small : Bool}

/-- `fetch_datablocks_for_metablocks`: an external datablock is read over its recorded size, from
its `bytes` and what lies `behind` them in the file. -/
def Metablock.fetch (m : Metablock K small) (bytes : Option Bytes) (behind : Bytes) :
    Except DiskFormatError (Option D) :=
  let read (externalData : Option Bytes) := (deserialiseDatablock bincode dict crc32c
    m.entry.content.body.uncompressedSize m.entry.content.body.compressedSize
    m.entry.content.body.datablockVersion (.ofNat m.entry.content.datablockCompressionType)
    m.storageKind externalData).map some
  match m.entry.content.datablock with
  | .none => .ok none
  | .inline => read none
  | .block =>
    read (bytes.map fun bytes => (bytes ++ behind).take m.entry.content.body.compressedSize)

/-- The item records the sizes of the bytes that a follower makes of its datablock. -/
structure RecordsSizes (body : MetablockBody K small) (d : D) (bytes : Bytes) : Prop where
  compressed : body.compressedSize = bytes.length
  uncompressed : body.uncompressedSize = (bincode.encode d).length

/-- The item records the checksum and the version of these bytes, and they are within the decoder's
limit. -/
structure Readable (body : MetablockBody K small) (d : D) (bytes : Bytes) : Prop where
  checksum : crc32c bytes = body.crc32c
  version : body.datablockVersion = wireVersionWalDatablock
  within : bincode.claimed d ≤ maxDecodeBytes

section Reading

variable {bincode dict crc32c} {d : D} {bytes : Bytes} {byte : ℕ}

theorem CompressionType.fromByte_eq_ok {b : UInt8} {c : CompressionType}
    (h : fromByte b = .ok c) : b = c.toByte := by
  unfold fromByte at h
  split at h
  next zero => cases h; exact zero
  next =>
    split at h
    next one => cases h; exact one
    next => cases h

/-- The bytes a follower makes decode to the datablock, up to the decoder's limit. -/
theorem decodeBody_reserialise
    (h : reserialise bincode dict crc32c small byte d = .ok (some bytes)) :
    decodeBody bincode dict (bincode.encode d).length (.ofNat byte) (.ok bytes) =
      fixedDeserialise bincode (bincode.encode d) := by
  simp only [reserialise, bind, Except.bind] at h
  split at h
  · cases h
  next c known =>
    split at h
    · cases h
    next r made =>
      obtain ⟨body, fixed, ⟨fits, rfl⟩ | rfl⟩ := serialiseFixed_ok made
      · cases h
      · obtain rfl : body = bytes := Option.some.inj (Except.ok.inj h)
        rw [CompressionType.fromByte_eq_ok known]
        exact decodeBody_fixedBody fixed

theorem fixedDeserialise_encode_iff :
    fixedDeserialise bincode (bincode.encode d) = .ok d ↔ bincode.claimed d ≤ maxDecodeBytes := by
  unfold fixedDeserialise
  by_cases within : bincode.claimed d ≤ maxDecodeBytes
  · simp only [bincode.decode_encode within, within]
  · obtain ⟨e, he⟩ := bincode.decode_above (Nat.lt_of_not_le within)
    simp only [he, within, reduceCtorEq]

/-- **When an external datablock is read back.** -/
theorem fetch_block_iff {m : Metablock K small} (external : m.entry.content.datablock = .block)
    (made : reserialise bincode dict crc32c small m.entry.content.datablockCompressionType d =
      .ok (some bytes)) (sizes : RecordsSizes bincode m.entry.content.body d bytes)
    (behind : Bytes) :
    m.fetch bincode dict crc32c (some bytes) behind = .ok (some d) ↔
      Readable bincode crc32c m.entry.content.body d bytes := by
  have front : (bytes ++ behind).take m.entry.content.body.compressedSize = bytes := by
    rw [sizes.compressed, take_left]
  have some_ok : ∀ r : Except DiskFormatError D, r.map some = .ok (some d) ↔ r = .ok d := by
    intro r
    cases r <;> simp [Except.map]
  simp only [Metablock.fetch, external, Option.map_some, front, some_ok, Metablock.storageKind,
    deserialiseDatablock, sizes.uncompressed]
  constructor
  · intro h
    split at h
    · cases h
    next checksum =>
      split at h
      · cases h
      next version =>
        rw [decodeBody_reserialise made, fixedDeserialise_encode_iff] at h
        exact ⟨not_not.mp checksum, not_not.mp version, h⟩
  · intro h
    rw [if_neg (not_not.mpr h.checksum), if_neg (not_not.mpr h.version),
      decodeBody_reserialise made]
    exact fixedDeserialise_encode_iff.mpr h.within

end Reading

section Stored

variable {H B X E : Type*} [DecidableEq H] {serialise : ℕ → D → Except E (Option X)}
  {hash : Celeriant.Metablock H B → H} {s : ShardLog H B D X}
  {items : List (ReplicationBatchItem H B D)} {queue : List (ShardLogQueueItem H B D X)}

variable (hash s items queue) in
/-- After the fsync of the queue that an apply left, every new item is stored as it was sent: its
entry, which is every field but the two positions, stands behind what was queued before. -/
def StoredAsSent : Prop :=
  ∀ k item, (newItems s.log.walSeq items)[k]? = some item →
    (ShardLog.sync hash { s with pendingAppendQueue := queue }).log.entryAt
      (s.log.walSeq + 1 + (s.pendingAppendQueue.length + k)) = some item.metablock

/-- **When the items of an applied batch are stored as they were sent.** -/
theorem storedAsSent_iff
    (applied : applyExternalBatch serialise s.log s.pendingAppendQueue items = .ok queue) :
    StoredAsSent hash s items queue ↔
      (newItems s.log.walSeq items ≠ [] → s.pendingAppendQueue = []) ∧
        Linked hash (metablocksOf (newItems s.log.walSeq items)) := by
  unfold StoredAsSent
  obtain ⟨fits, queued⟩ := applyExternalBatch_ok serialise applied
  set new := newItems s.log.walSeq items
  have contents : queue.map (·.metablock.content) =
      s.pendingAppendQueue.map (·.metablock.content) ++ (metablocksOf new).map (·.content) := by
    simpa [Function.comp_def] using congrArg (List.map (·.content)) queued
  -- the entry stored for the k-th new item
  have stored : ∀ k item, new[k]? = some item →
      (ShardLog.sync hash { s with pendingAppendQueue := queue }).log.entryAt
        (s.log.walSeq + 1 + (s.pendingAppendQueue.length + k)) =
      (stamp hash s.log.walSeq s.log.tipHash
        (queue.map (·.metablock.content)))[s.pendingAppendQueue.length + k]? := by
    intro k item found
    refine WalLog.entryAt_append hash _ ?_
    obtain ⟨inside, -⟩ := List.getElem?_eq_some_iff.mp found
    simp only [contents, metablocksOf, length_append, length_map]
    omega
  constructor
  · intro held
    have alone : new ≠ [] → s.pendingAppendQueue = [] := by
      intro some
      obtain ⟨first, rest, eq⟩ := exists_cons_of_ne_nil some
      have found : new[0]? = Option.some first := by rw [eq]; rfl
      have number := walSeq_of_stamp ((stored 0 first found).symm.trans (held 0 first found))
      rw [walSeq_of_fits fits found] at number
      exact length_eq_zero_iff.mp (by omega)
    refine ⟨alone, ?_⟩
    by_cases none : new = []
    · rw [none]; exact .nil
    · have empty := alone none
      rw [empty, map_nil, nil_append] at contents
      suffices stamp hash s.log.walSeq s.log.tipHash ((metablocksOf new).map (·.content)) =
          metablocksOf new from (extends_iff_linked fits).mp (stamp_eq_iff.mp this).2
      refine ext_getElem? fun k => ?_
      cases found : new[k]? with
      | none =>
        have outside : new.length ≤ k := List.getElem?_eq_none_iff.mp found
        rw [List.getElem?_eq_none (by simpa [metablocksOf] using outside),
          List.getElem?_eq_none (by simpa [metablocksOf] using outside)]
      | some item =>
        have held := (stored k item found).symm.trans (held k item found)
        rw [empty, contents, length_nil, Nat.zero_add] at held
        rw [held, metablocksOf, List.getElem?_map, found]
        rfl
  · rintro ⟨alone, linked⟩ k item found
    have empty := alone (ne_nil_of_mem (mem_of_getElem? found))
    rw [stored k item found, contents, empty, map_nil, nil_append, length_nil,
      Nat.zero_add, stamp_eq_iff.mpr ⟨rfl, (extends_iff_linked fits).mpr linked⟩, metablocksOf,
      List.getElem?_map, found]
    rfl

end Stored

section Faithful

variable {bincode dict crc32c}

/-- **Replicated entries are stored faithfully** when nothing is queued ahead of the batch, the
batch is linked, and every external item records what the follower's bytes have. A metablock without
an external datablock reads as the item's own does; an external datablock whose sizes are recorded
is read back exactly when its checksum and version are recorded and it is within the decoder's
limit. -/
theorem replicated_entries_stored_faithfully
    (hash : Celeriant.Metablock EntryHashBytes (MetablockBody K small) → EntryHashBytes)
    {s : ShardLog EntryHashBytes (MetablockBody K small) D Bytes}
    {items : List (ReplicationBatchItem EntryHashBytes (MetablockBody K small) D)}
    {queue : List (ShardLogQueueItem EntryHashBytes (MetablockBody K small) D Bytes)}
    (applied : applyExternalBatch (reserialise bincode dict crc32c small) s.log s.pendingAppendQueue
      items = .ok queue) :
    (StoredAsSent hash s items queue ↔
      (newItems s.log.walSeq items ≠ [] → s.pendingAppendQueue = []) ∧
        Linked hash (metablocksOf (newItems s.log.walSeq items))) ∧
    ∀ k item, (newItems s.log.walSeq items)[k]? = some item →
      ∃ queued, queue[s.pendingAppendQueue.length + k]? = some queued ∧
        ∀ (m sent : Metablock K small) (behind : Bytes),
          m.entry = item.metablock → sent.entry = item.metablock →
          if item.metablock.content.datablock = .block then
            ∃ d bytes, item.datablock = some d ∧ queued.datablockBytes = some bytes ∧
              (RecordsSizes bincode item.metablock.content.body d bytes →
                (m.fetch bincode dict crc32c queued.datablockBytes behind = .ok (some d) ↔
                  Readable bincode crc32c item.metablock.content.body d bytes))
          else m.fetch bincode dict crc32c queued.datablockBytes behind =
            sent.fetch bincode dict crc32c none [] := by
  refine ⟨storedAsSent_iff applied, fun k item found => ?_⟩
  obtain ⟨-, prepared, all, rfl⟩ := applyExternalBatch_prepared _ applied
  obtain ⟨queued, at_, prepares⟩ := getElem?_of_prepareAll _ all found
  refine ⟨queued, by rw [List.getElem?_append_right (by omega), Nat.add_sub_cancel_left, at_], ?_⟩
  intro m sent behind hm hsent
  unfold prepareItem at prepares
  split at prepares
  next kind =>
    simp only [Metablock.fetch, hm, hsent, kind, reduceCtorEq, if_false]
  next kind =>
    simp only [Metablock.fetch, hm, hsent, kind, reduceCtorEq, if_false, Metablock.storageKind]
  next kind =>
    rw [if_pos kind]
    split at prepares
    · cases prepares
    next d datablock =>
      split at prepares
      · cases prepares
      · cases prepares
      next bytes made =>
        cases prepares
        rw [← hm] at kind made ⊢
        exact ⟨d, bytes, datablock, rfl, fun sizes => fetch_block_iff kind made sizes behind⟩

end Faithful

section Untrusted

/-! ## Blocks of untrusted origin -/

def fromLeBytes (bytes : Bytes) : ℕ := bytes.foldr (fun byte n => byte.toNat + 256 * n) 0

/-- `validate_header`, on a whole block. -/
def validateHeader (data : Bytes) : Except DiskFormatError ℕ :=
  let storedCrc := UInt32.ofNat (fromLeBytes (data.take crcSize))
  let actualCrc := crc32c (data.drop crcSize)
  if storedCrc ≠ actualCrc then .error (.checksumMismatch storedCrc actualCrc)
  else .ok (fromLeBytes ((data.take headerSize).drop crcSize))

/-- Checksum and version, then the decoder. -/
def deserialiseMetablock (decode : Bytes → Except String (Metablock K small)) (data : Bytes) :
    Except DiskFormatError (Metablock K small) := do
  let version ← validateHeader crc32c data
  if version ≠ wireVersionWalMetablock then .error (.unsupportedVersion version)
  else match decode (data.drop headerSize) with
    | .ok m => .ok m
    | .error message => .error (.codec (.deserialization message))

/-- `deserialise_datablock` on the fields of a metablock. -/
def Metablock.deserialise (m : Metablock K small) (externalData : Option Bytes) :
    Except DiskFormatError D :=
  deserialiseDatablock bincode dict crc32c m.entry.content.body.uncompressedSize
    m.entry.content.body.compressedSize m.entry.content.body.datablockVersion
    (.ofNat m.entry.content.datablockCompressionType) m.storageKind externalData

/-- The read ends in a panic or an abort, not in a value or a typed error. -/
def Panics {α : Type*} (result : Except DiskFormatError α) : Prop :=
  result = .error .sliceOutOfRange ∨ result = .error .allocationFailed

/-- The recorded compression is known. -/
def Metablock.compression (m : Metablock K small) : Except UInt8 CompressionType :=
  CompressionType.fromByte (.ofNat m.entry.content.datablockCompressionType)

/-- An inline datablock of a supported version. -/
def Metablock.Inline (m : Metablock K small) : Prop :=
  m.entry.content.datablock = .inline ∧
    (m.entry.content.body.datablockVersion = 0 ∨
      m.entry.content.body.datablockVersion = wireVersionWalDatablock)

/-- An external datablock of a supported version. -/
def Metablock.External (m : Metablock K small) : Prop :=
  m.entry.content.datablock = .block ∧
    m.entry.content.body.datablockVersion = wireVersionWalDatablock

/-- An inline datablock of a known version and compression that claims more than a minibatch. -/
def Metablock.Overlong (m : Metablock K small) : Prop :=
  m.Inline ∧ (∃ c, m.compression = .ok c) ∧
    minibatchSizeBytes small < m.entry.content.body.compressedSize

/-- A compressed datablock whose claimed size cannot be allocated. -/
def Metablock.Oversized (m : Metablock K small) : Prop :=
  m.compression = .ok .zstdDict ∧ dict.allocatable < m.entry.content.body.uncompressedSize

variable {bincode dict crc32c}

theorem not_panics_fixedDeserialise (data : Bytes) : ¬ Panics (fixedDeserialise bincode data) := by
  unfold fixedDeserialise Panics
  split <;> simp

/-- Decoding panics on what it is given, or on the size that it allocates. -/
theorem panics_decodeBody_iff {size : ℕ} {byte : UInt8} {data : Bytes} :
    Panics (decodeBody bincode dict size byte (.ok data)) ↔
      CompressionType.fromByte byte = .ok .zstdDict ∧ dict.allocatable < size := by
  unfold decodeBody
  cases CompressionType.fromByte byte with
  | error => simp [Panics]
  | ok c =>
    cases c with
    | none => simp [bind, Except.bind, not_panics_fixedDeserialise]
    | zstdDict =>
      by_cases above : dict.allocatable < size
      · simp [Panics, bind, Except.bind, DictCodec.tryDecompress, above]
      · cases back : dict.decompress data size with
        | error => simp [Panics, bind, Except.bind, DictCodec.tryDecompress, above, back]
        | ok =>
          simp [bind, Except.bind, DictCodec.tryDecompress, above, back,
            not_panics_fixedDeserialise]

/-- **When reading a datablock panics**: an inline one on its slice, and either kind on the size
that it allocates. -/
theorem Metablock.panics_deserialise_iff (m : Metablock K small) (externalData : Option Bytes) :
    Panics (m.deserialise (D := D) bincode dict crc32c externalData) ↔
      m.Overlong ∨ (m.Inline ∨ m.External ∧
        externalData.map crc32c = some m.entry.content.body.crc32c) ∧ m.Oversized dict := by
  unfold Metablock.deserialise deserialiseDatablock Metablock.storageKind Metablock.Overlong
    Metablock.Oversized Metablock.Inline Metablock.External Metablock.compression
  cases m.entry.content.datablock with
  | none => simp [Panics]
  | inline =>
    dsimp only
    split
    next unsupported =>
      simp only [Panics, Except.error.injEq, reduceCtorEq, or_self, false_iff]
      omega
    next version =>
      have supported : m.entry.content.body.datablockVersion = 0 ∨
          m.entry.content.body.datablockVersion = wireVersionWalDatablock := by omega
      split
      next fits => simp [panics_decodeBody_iff, Nat.not_lt.mpr fits, supported]
      next overlong =>
        -- the slice comes before the decompression
        unfold decodeBody
        cases known : CompressionType.fromByte
          (.ofNat m.entry.content.datablockCompressionType) with
        | error => simp [Panics]
        | ok c => simp [Panics, bind, Except.bind, supported, Nat.lt_of_not_le overlong]
  | block =>
    cases externalData with
    | none => simp [Panics]
    | some data =>
      dsimp only
      split
      next other => simp [Panics, other]
      next same =>
        split
        next unsupported => simp [Panics, unsupported]
        next supported =>
          rw [not_not] at same supported
          simp [panics_decodeBody_iff, same, supported]

/-- An inline datablock is read from its own metablock. -/
theorem Metablock.panics_fetch_iff (m : Metablock K small)
    (inlined : m.entry.content.datablock = .inline) (bytes : Option Bytes) (behind : Bytes) :
    Panics (m.fetch (D := D) bincode dict crc32c bytes behind) ↔
      Panics (m.deserialise (D := D) bincode dict crc32c none) := by
  simp only [Metablock.fetch, inlined]
  rw [← Metablock.deserialise]
  cases m.deserialise (D := D) bincode dict crc32c none <;> simp [Panics, Except.map]

/-- **When decoding a block cannot panic.** For every block that passes its checksum and version and
decodes to a metablock, with whatever bytes are supplied for its datablock: neither
`deserialise_datablock` nor the inline branch of `fetch_datablocks_for_metablocks` panics exactly if
an inline datablock claims no more than its minibatch, and a compressed one that is read no more
than can be allocated. -/
theorem reads_in_bounds_iff (decode : Bytes → Except String (Metablock K small)) (data : Bytes)
    (m : Metablock K small) : deserialiseMetablock crc32c decode data = .ok m →
      ((∀ externalData, ¬ Panics (m.deserialise (D := D) bincode dict crc32c externalData)) ∧
        (m.entry.content.datablock = .inline →
          ∀ bytes behind, ¬ Panics (m.fetch (D := D) bincode dict crc32c bytes behind)) ↔
        ¬ m.Overlong ∧ (m.Oversized dict → ¬ m.Inline ∧
          (m.External → ∀ externalData, crc32c externalData ≠ m.entry.content.body.crc32c))) := by
  intro _
  constructor
  · rintro ⟨safe, -⟩
    refine ⟨fun overlong => safe none ((m.panics_deserialise_iff none).mpr (.inl overlong)), ?_⟩
    intro oversized
    constructor
    · intro inlined
      exact safe none ((m.panics_deserialise_iff none).mpr (.inr ⟨.inl inlined, oversized⟩))
    · intro external externalData same
      apply safe (some externalData)
      rw [m.panics_deserialise_iff]
      exact .inr ⟨.inr ⟨external, congrArg some same⟩, oversized⟩
  · rintro ⟨fits, allocatable⟩
    have safe : ∀ externalData,
        ¬ Panics (m.deserialise (D := D) bincode dict crc32c externalData) := by
      intro externalData panics
      rcases (m.panics_deserialise_iff externalData).mp panics with overlong | ⟨read, oversized⟩
      · exact fits overlong
      · rcases read with inlined | ⟨external, same⟩
        · exact (allocatable oversized).1 inlined
        · obtain ⟨supplied, -, same⟩ := Option.map_eq_some_iff.mp same
          exact (allocatable oversized).2 external supplied same
    refine ⟨safe, ?_⟩
    intro inlined bytes behind
    rw [m.panics_fetch_iff inlined]
    exact safe none

/-- A decoder that knows one block. -/
def decodeOnly (m : Metablock Unit false) (bytes : Bytes) :
    Except String (Metablock Unit false) :=
  if bytes = m.encode (fun _ => []) ++ m.padding (fun _ => []) then .ok m
  else .error "UnexpectedEnd"

/-- An inline datablock that claims the given compression and sizes. -/
def claiming (compression : CompressionType) (uncompressedSize compressedSize : ℕ) :
    Metablock Unit false :=
  ⟨⟨1, ⟨List.replicate 32 0, rfl⟩, ⟨1, compression.toByte.toNat, .inline,
    ⟨0, 0, uncompressedSize, compressedSize, 1, (), .ofBytes [] (by decide), 0⟩⟩⟩, 0, 0⟩

/-- A block of which every checksum is zero. -/
def blockOf (m : Metablock Unit false) : Bytes :=
  [0, 0, 0, 0, 1, 0, 0, 0] ++ (m.encode (fun _ => []) ++ m.padding (fun _ => []))

theorem decoded_blockOf (m : Metablock Unit false) :
    deserialiseMetablock (fun _ => 0) (decodeOnly m) (blockOf m) = .ok m := by
  simp [deserialiseMetablock, validateHeader, blockOf, fromLeBytes, crcSize, headerSize, decodeOnly,
    bind, Except.bind, wireVersionWalMetablock]

/-- A full minibatch that decompresses to as much as can be allocated. -/
theorem reads_in_bounds_iff_full :
    ¬ Panics ((claiming .zstdDict maxDecodeBytes 718).deserialise rawBincode copyCodec
      (fun _ => 0) none) := by
  refine ((reads_in_bounds_iff _ _ _ (decoded_blockOf _)).mpr ⟨?_, ?_⟩).1 none
  · exact fun overlong => absurd overlong.2.2 (by decide)
  · exact fun oversized => absurd oversized.2 (Nat.lt_irrefl _)

/-- The block of the metablock decodes, and both reads of its datablock panic. -/
def ReadsPanic (m : Metablock Unit false) : Prop :=
  deserialiseMetablock (fun _ => 0) (decodeOnly m) (blockOf m) = .ok m ∧
    Panics (m.deserialise rawBincode copyCodec (fun _ => 0) none) ∧
    Panics (m.fetch rawBincode copyCodec (fun _ => 0) none [])

theorem readsPanic_of_inline {m} (inline : m.entry.content.datablock = .inline)
    (panics : Panics (m.deserialise rawBincode copyCodec (fun _ => 0) none)) : ReadsPanic m :=
  ⟨decoded_blockOf m, panics, (m.panics_fetch_iff inline none []).mpr panics⟩

/-- Two blocks that decode, one with a byte more than its minibatch holds and one that claims to
decompress to more than can be allocated. -/
theorem untrusted_inline_panics :
    ReadsPanic (claiming .none 0 719) ∧ ReadsPanic (claiming .zstdDict (2 ^ 63) 50) := by
  refine ⟨readsPanic_of_inline rfl ?_, readsPanic_of_inline rfl ?_⟩ <;>
    rw [Metablock.panics_deserialise_iff]
  · exact .inl ⟨⟨rfl, .inr rfl⟩, ⟨.none, rfl⟩, by decide⟩
  · exact .inr ⟨.inl ⟨rfl, .inr rfl⟩, rfl, by decide⟩

end Untrusted

/-! ## An unlinked batch -/

/-- A metablock without a datablock. -/
def bareMetablock (walSeq : ℕ) (previousTipHash : EntryHashBytes) :
    Celeriant.Metablock EntryHashBytes (MetablockBody Unit false) :=
  ⟨walSeq, previousTipHash, ⟨1, 0, .none, ⟨0, 0, 0, 0, 0, (), .ofBytes [] (by decide), 0⟩⟩⟩

def hashOf (byte : UInt8) : EntryHashBytes := ⟨List.replicate 32 byte, length_replicate⟩

def emptyShardLog : ShardLog EntryHashBytes (MetablockBody Unit false) Bytes Bytes :=
  ⟨⟨fun _ => none, 0, hashOf 0⟩, []⟩

/-- Two items behind the empty log; the second names a hash of the first. -/
def twoBare (named : UInt8) :
    List (ReplicationBatchItem EntryHashBytes (MetablockBody Unit false) Bytes) :=
  [⟨bareMetablock 1 (hashOf 0), none⟩, ⟨bareMetablock 2 (hashOf named), none⟩]

def queueOf (items : List (ReplicationBatchItem EntryHashBytes (MetablockBody Unit false) Bytes)) :
    List (ShardLogQueueItem EntryHashBytes (MetablockBody Unit false) Bytes Bytes) :=
  items.map fun item => ⟨none, none, item.metablock⟩

theorem twoBare_applied (named : UInt8) : applyExternalBatch
    (reserialise rawBincode copyCodec (fun _ => 0) false) emptyShardLog.log
    emptyShardLog.pendingAppendQueue (twoBare named) = .ok (queueOf (twoBare named)) := rfl

/-- The second item of a batch, with an external datablock that the leader compressed. -/
def externalMetablock : Celeriant.Metablock EntryHashBytes (MetablockBody Unit false) :=
  ⟨2, hashOf 1, ⟨1, 1, .block, ⟨0, 0, 719, 719, 1, (), .ofBytes [] (by decide), 0⟩⟩⟩

/-- An item without a datablock and one with an external datablock, behind the empty log. -/
def bareAndExternal : List (ReplicationBatchItem EntryHashBytes (MetablockBody Unit false) Bytes) :=
  [⟨bareMetablock 1 (hashOf 0), none⟩, ⟨externalMetablock, some oneAbove⟩]

theorem bareAndExternal_applied : applyExternalBatch
    (reserialise rawBincode copyCodec (fun _ => 0) false) emptyShardLog.log
    emptyShardLog.pendingAppendQueue bareAndExternal =
      .ok [⟨none, none, bareMetablock 1 (hashOf 0)⟩,
        ⟨some oneAbove, some oneAbove, externalMetablock⟩] := by
  have made : reserialise rawBincode copyCodec (fun _ => 0) false 1 oneAbove =
      .ok (some oneAbove) := by
    have byte : CompressionType.fromByte (.ofNat 1) = .ok .zstdDict := rfl
    simp only [reserialise, byte, serialiseFixed_oneAbove, bind, Except.bind, externalBlock]
  simp [applyExternalBatch, newItems, bareAndExternal, queueReplicatedEntries, firstGap,
    prepareAll, prepareItem, made, externalMetablock, bareMetablock, emptyShardLog]

theorem replicated_entries_stored_faithfully_two :
    ∃ queue, ∃ m : Metablock Unit false,
      StoredAsSent (fun _ => hashOf 1) emptyShardLog bareAndExternal queue ∧
      (ShardLog.sync (fun _ => hashOf 1) { emptyShardLog with
        pendingAppendQueue := queue }).log.entryAt 2 = some m.entry ∧
      m.fetch rawBincode copyCodec (fun _ => 0) (some oneAbove) [1] = .ok (some oneAbove) := by
  obtain ⟨stored, read⟩ :=
    replicated_entries_stored_faithfully (fun _ => hashOf 1) bareAndExternal_applied
  obtain ⟨queued, at_, back⟩ := read 1 _ rfl
  cases at_
  obtain ⟨d, bytes, hd, hb, iff⟩ :=
    back ⟨externalMetablock, 0, 0⟩ ⟨externalMetablock, 0, 0⟩ [1] rfl rfl
  cases hd
  cases hb
  have sizes : RecordsSizes rawBincode externalMetablock.content.body oneAbove oneAbove :=
    ⟨length_replicate.symm, length_replicate.symm⟩
  exact ⟨_, _, stored.mpr ⟨fun _ => rfl, .cons_cons rfl (.singleton _)⟩, rfl,
    (iff sizes).mpr ⟨rfl, rfl, claimed_oneAbove⟩⟩

/-- The second item names another hash than the first one has. It is accepted, and stored with the
hash of the first. -/
theorem unlinked_item_stored_with_another_hash :
    applyExternalBatch (reserialise rawBincode copyCodec (fun _ => 0) false) emptyShardLog.log
        emptyShardLog.pendingAppendQueue (twoBare 2) = .ok (queueOf (twoBare 2)) ∧
      (ShardLog.sync (fun _ => hashOf 1) { emptyShardLog with
        pendingAppendQueue := queueOf (twoBare 2) }).log.entryAt 2 =
          some (bareMetablock 2 (hashOf 1)) ∧
      hashOf 1 ≠ hashOf 2 :=
  ⟨twoBare_applied 2, rfl, by decide⟩

end Celeriant.Wire
