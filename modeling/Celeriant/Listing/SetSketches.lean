import Mathlib.Data.List.Basic

/-!
# Set sketches

A summary answers whether a hash is definitely absent from a segment, so a sketch may err on the
side of presence only. Large sets are kept in a split-block bloom filter: the high half of a hash
picks a block of four words, and the low half one bit in each of the eight lanes of the block. Small
client sets are kept exactly. A set of hashes is the list of its elements in the order of iteration.

## Main results

* `Absorbs.foldl`: what is inserted into a sketch one by one is in it
* `Sbbf.absorbs`, `SchemaHashAccumulator.absorbs`: for the filter and the accumulator
* `SchemaHashAccumulator.merge_mayContain`: a merge answers for both sides
* `no_false_absent`: no sketch answers absent for a member
-/

namespace Celeriant

open List

/-- What is inserted into a sketch is in it, and stays. -/
structure Absorbs {S α : Type*} (insert : S → α → S) (Holds : S → α → Prop) (Ok : S → Prop) :
    Prop where
  ok {s x} : Ok s → Ok (insert s x)
  new {s x} : Ok s → Holds (insert s x) x
  old {s x y} : Ok s → Holds s y → Holds (insert s x) y

theorem Absorbs.foldl {S α : Type*} {insert Holds Ok}
    (laws : Absorbs insert Holds Ok) {s : S} (ok : Ok s) (xs : List α) :
    Ok (xs.foldl insert s) ∧ ∀ y, y ∈ xs ∨ Holds s y → Holds (xs.foldl insert s) y := by
  induction xs generalizing s with
  | nil => exact ⟨ok, fun y found => found.resolve_left nofun⟩
  | cons x xs ih =>
    obtain ⟨okAll, holds⟩ := ih (laws.ok ok)
    refine ⟨okAll, fun y found => holds y ?_⟩
    rcases found with mem | old
    · rcases mem_cons.mp mem with rfl | mem
      · exact .inr (laws.new ok)
      · exact .inl mem
    · exact .inr (laws.old ok old)

/-! ## The split-block filter -/

namespace Sbbf

def salt : List UInt32 :=
  [0x47b6137b, 0x44974d91, 0x8824ad5b, 0xa2b7289d, 0x705495c7, 0x2df1424c, 0x9efc4947, 0x5c6bfb31]

def u64PerBlock : ℕ := 4

/-- The block of a hash, by its high half. -/
def blockIndex (hash : UInt64) (numBlocks : ℕ) : ℕ :=
  (((hash >>> 32) * UInt64.ofNat numBlocks) >>> 32).toNat

/-- The word and the bit of each lane; two lanes share a word. -/
def lanes (length : ℕ) (hash : UInt64) : List (ℕ × UInt64) :=
  let base := blockIndex hash (length / u64PerBlock) * u64PerBlock
  salt.mapIdx fun lane salt =>
    let bit := (1 : UInt64) <<< ((hash.toUInt32 * salt) >>> 27).toUInt64
    (base + lane / 2, bit <<< UInt64.ofNat (32 * (lane % 2)))

def mark (words : List UInt64) (lane : ℕ × UInt64) : List UInt64 :=
  words.modify lane.1 (· ||| lane.2)

def insert (words : List UInt64) (hash : UInt64) : List UInt64 :=
  (lanes words.length hash).foldl mark words

/-- The filter has a bit of the lane. -/
def marked (words : List UInt64) (lane : ℕ × UInt64) : Bool :=
  words.getD lane.1 0 &&& lane.2 != 0

def contains (words : List UInt64) (hash : UInt64) : Bool :=
  (lanes words.length hash).all (marked words)

theorem blockIndex_lt (hash : UInt64) {numBlocks} (positive : 0 < numBlocks) :
    blockIndex hash numBlocks < numBlocks := by
  have high : (hash >>> 32).toNat < 2 ^ 32 := by
    rw [UInt64.toNat_shiftRight, Nat.shiftRight_eq_div_pow]
    exact Nat.div_lt_of_lt_mul hash.toNat_lt
  rw [blockIndex, UInt64.toNat_shiftRight, Nat.shiftRight_eq_div_pow, UInt64.toNat_mul]
  refine Nat.div_lt_of_lt_mul (Nat.lt_of_le_of_lt (Nat.mod_le _ _) ?_)
  calc _ ≤ (hash >>> 32).toNat * numBlocks := Nat.mul_le_mul_left _ (Nat.mod_le _ _)
    _ < 2 ^ 32 * numBlocks := Nat.mul_lt_mul_of_pos_right high positive

/-- A lane is one bit of a word of the filter. -/
theorem of_mem_lanes {hash blocks lane}
    (mem : lane ∈ lanes (4 * (blocks + 1)) hash) : lane.1 < 4 * (blocks + 1) ∧ lane.2 ≠ 0 := by
  obtain ⟨i, bound, rfl⟩ := mem_mapIdx.mp mem
  constructor
  · have below := blockIndex_lt hash (Nat.succ_pos blocks)
    rw [Nat.succ_eq_add_one] at below
    simp only [salt, length_cons, length_nil, u64PerBlock] at bound ⊢
    rw [Nat.mul_div_cancel_left _ (by decide)]
    omega
  · have all : ∀ k < 32, ∀ j < 2,
        ((1 : UInt64) <<< UInt64.ofNat k) <<< UInt64.ofNat (32 * j) ≠ 0 := by decide
    have small : ((hash.toUInt32 * salt[i]) >>> 27).toNat < 32 := by
      rw [UInt32.toNat_shiftRight, Nat.shiftRight_eq_div_pow]
      exact Nat.div_lt_of_lt_mul (hash.toUInt32 * salt[i]).toNat_lt
    have := all _ small (i % 2) (Nat.mod_lt _ (by decide))
    rwa [UInt64.ofNat_uInt32ToNat] at this

theorem or_and_ne_zero {w m n : UInt64} : (w ||| m) &&& n ≠ 0 ↔ w &&& n ≠ 0 ∨ m &&& n ≠ 0 := by
  have distrib : (w ||| m) &&& n = (w &&& n) ||| (m &&& n) := by
    apply UInt64.toNat_inj.mp
    simp only [UInt64.toNat_and, UInt64.toNat_or, Nat.and_or_distrib_right]
  rw [distrib, Ne, UInt64.or_eq_zero_iff, not_and_or]

theorem mark_absorbs (length : ℕ) : Absorbs mark
    (fun words lane => lane.1 < length ∧ lane.2 ≠ 0 → marked words lane = true)
    (·.length = length) where
  ok same := (length_modify ..).trans same
  new {words lane} same := by
    rintro ⟨inside, bits⟩
    rw [marked, mark, getD_eq_getElem?_getD, getElem?_modify,
      getElem?_eq_getElem (same ▸ inside)]
    simp [or_and_ne_zero, bits]
  old {words next lane} same old := by
    rintro ⟨inside, bits⟩
    have old := old ⟨inside, bits⟩
    rw [marked, getD_eq_getElem?_getD, getElem?_eq_getElem (same ▸ inside)] at old
    rw [marked, mark, getD_eq_getElem?_getD, getElem?_modify,
      getElem?_eq_getElem (same ▸ inside)]
    by_cases here : next.1 = lane.1
    · simpa [here, or_and_ne_zero] using .inl (by simpa using old)
    · simpa [here] using old

/-- **A filter contains what was inserted into it.** -/
theorem absorbs (blocks : ℕ) :
    Absorbs insert (contains · · = true) (·.length = 4 * (blocks + 1)) := by
  have marks {words : List UInt64} (same : words.length = 4 * (blocks + 1)) (hash : UInt64) :
      (insert words hash).length = words.length ∧ _ :=
    ((mark_absorbs _).foldl same (lanes words.length hash)).imp_left (·.trans same.symm)
  refine ⟨fun same => (marks same _).1.trans same, fun {words hash} same => ?_,
    fun {words next hash} same old => ?_⟩
  · obtain ⟨length, holds⟩ := marks same hash
    refine all_eq_true.mpr fun lane mem => ?_
    rw [length] at mem
    exact holds lane (.inl mem) (of_mem_lanes (same ▸ mem))
  · obtain ⟨length, holds⟩ := marks same next
    refine all_eq_true.mpr fun lane mem => ?_
    rw [length] at mem
    exact holds lane (.inr fun _ => all_eq_true.mp old lane mem) (of_mem_lanes (same ▸ mem))

theorem contains_zipWith {blocks mine words hash} (length : mine.length = 4 * (blocks + 1))
    (same : words.length = 4 * (blocks + 1))
    (h : contains mine hash = true ∨ contains words hash = true) :
    contains (zipWith (· ||| ·) mine words) hash = true := by
  refine all_eq_true.mpr fun lane mem => ?_
  rw [length_zipWith, length, same, Nat.min_self] at mem
  obtain ⟨inside, -⟩ := of_mem_lanes mem
  have word (w : List UInt64) (length : w.length = 4 * (blocks + 1)) :
      w[lane.1]? = some (w.getD lane.1 0) := by
    rw [getD_eq_getElem?_getD, getElem?_eq_getElem (length ▸ inside), Option.getD_some]
  rw [marked, getD_eq_getElem?_getD, getElem?_zipWith, word mine length, word words same]
  simp only [Option.getD_some, bne_iff_ne]
  rcases h with h | h
  · have bits := all_eq_true.mp h lane (length ▸ mem)
    exact or_and_ne_zero.mpr (.inl (bne_iff_ne.mp bits))
  · have bits := all_eq_true.mp h lane (same ▸ mem)
    exact or_and_ne_zero.mpr (.inr (bne_iff_ne.mp bits))

end Sbbf

/-! ## Sketches of a set of hashes -/

def exactClientSetMax : ℕ := 32
def clientSetBloomBitsPerKey : ℕ := 10
def sbbfBlockBytes : ℕ := 32
def clientSetBloomMaxBytes : ℕ := 8 * 1024
def schemaBloomMaxBytes : ℕ := 8 * 1024
def schemaAccumulatorMaxHashes : ℕ := 8 * 1024

/-- A filter of the given size that is filled. -/
def bloomOf (bytes : ℕ) (hashes : List UInt64) : List UInt64 :=
  hashes.foldl Sbbf.insert (replicate (bytes / 8) 0)

def sizedBloomFromHashes (count : ℕ) (hashes : List UInt64) (maxBytes : ℕ) : List UInt64 :=
  let bytes := max ((count * clientSetBloomBitsPerKey + 7) / 8) sbbfBlockBytes
  bloomOf (min ((bytes + sbbfBlockBytes - 1) / sbbfBlockBytes * sbbfBlockBytes) maxBytes) hashes

/-- A word count that is not one of a filter cannot answer: the hash may be present. -/
def bloomMayContain (words : List UInt64) (hash : UInt64) : Bool :=
  words.isEmpty || words.length % 4 != 0 || Sbbf.contains words hash

/-- The clients of an aggregate: unknown, all, or a filter. -/
inductive ClientSet
  | unknown
  | exact (sorted : List UInt64)
  | bloom (words : List UInt64)

namespace ClientSet

def fromClientHashes (hashes : List UInt64) : ClientSet :=
  if hashes.isEmpty then unknown
  else if hashes.length ≤ exactClientSetMax then exact (hashes.mergeSort (· ≤ ·))
  else bloom (sizedBloomFromHashes hashes.length hashes clientSetBloomMaxBytes)

/-- The binary search in a sorted list is membership. -/
def mayContainHash (hash : UInt64) : ClientSet → Bool
  | unknown => true
  | exact sorted => sorted.contains hash
  | bloom words => bloomMayContain words hash

end ClientSet

/-- The hashes, or a filter once there are too many. -/
structure SchemaHashAccumulator where
  hashes : List UInt64
  overflowBloom : Option (List UInt64)

namespace SchemaHashAccumulator

def default : SchemaHashAccumulator := ⟨[], none⟩

def insert : SchemaHashAccumulator → UInt64 → SchemaHashAccumulator
  | ⟨hashes, some words⟩, hash => ⟨hashes, some (Sbbf.insert words hash)⟩
  | ⟨hashes, none⟩, hash =>
    let hashes := hashes.insert hash
    if schemaAccumulatorMaxHashes < hashes.length then
      ⟨[], some (bloomOf schemaBloomMaxBytes hashes)⟩
    else ⟨hashes, none⟩

/-- Two filters are joined word by word; hashes that one side still has go into the other. -/
def merge (acc : SchemaHashAccumulator) : SchemaHashAccumulator → SchemaHashAccumulator
  | ⟨_, some words⟩ =>
    match acc with
    | ⟨hashes, some mine⟩ => ⟨hashes, some (zipWith (· ||| ·) mine words)⟩
    | ⟨hashes, none⟩ => ⟨[], some (hashes.foldl Sbbf.insert words)⟩
  | ⟨hashes, none⟩ => hashes.foldl insert acc

def mayContain : SchemaHashAccumulator → UInt64 → Bool
  | ⟨_, some words⟩, hash => Sbbf.contains words hash
  | ⟨hashes, none⟩, hash => hashes.contains hash

def toSchemaBloom : SchemaHashAccumulator → Bool → Option (List UInt64)
  | _, false => none
  | ⟨_, some words⟩, true => some words
  | ⟨hashes, none⟩, true => some (sizedBloomFromHashes hashes.length hashes schemaBloomMaxBytes)

end SchemaHashAccumulator

/-- The answer of a payload with the flag and the schema bloom. -/
def schemaMayContainHash (complete : Bool) (schemaBloom : Option (List UInt64)) (hash : UInt64) :
    Bool :=
  !complete || schemaBloom.all (bloomMayContain · hash)

theorem bloomOf_spec (blocks : ℕ) (hashes : List UInt64) :
    (bloomOf (32 * (blocks + 1)) hashes).length = 4 * (blocks + 1) ∧
      ∀ hash ∈ hashes, Sbbf.contains (bloomOf (32 * (blocks + 1)) hashes) hash = true := by
  have length : (replicate (32 * (blocks + 1) / 8) (0 : UInt64)).length = 4 * (blocks + 1) := by
    rw [length_replicate]
    omega
  obtain ⟨same, holds⟩ := (Sbbf.absorbs blocks).foldl length hashes
  exact ⟨same, fun hash mem => holds hash (.inl mem)⟩

theorem contains_sizedBloomFromHashes (count blocks : ℕ) {hashes hash} (mem : hash ∈ hashes) :
    Sbbf.contains (sizedBloomFromHashes count hashes (32 * (blocks + 1))) hash = true := by
  have size : ∃ n, min ((max ((count * 10 + 7) / 8) 32 + 32 - 1) / 32 * 32) (32 * (blocks + 1)) =
      32 * (n + 1) :=
    ⟨min ((max ((count * 10 + 7) / 8) 32 + 32 - 1) / 32) (blocks + 1) - 1, by omega⟩
  obtain ⟨n, size⟩ := size
  rw [sizedBloomFromHashes, clientSetBloomBitsPerKey, sbbfBlockBytes, size]
  exact (bloomOf_spec n hashes).2 hash mem

theorem bloomMayContain_of_contains {words hash}
    (h : Sbbf.contains words hash = true) : bloomMayContain words hash = true := by
  rw [bloomMayContain, h, Bool.or_true]

theorem SchemaHashAccumulator.absorbs : Absorbs insert (mayContain · · = true)
    (∀ words ∈ ·.overflowBloom, words.length = 4 * (255 + 1)) where
  ok {acc hash} sized := by
    obtain ⟨hashes, _ | words⟩ := acc
    · rw [insert]
      split
      · rintro _ ⟨⟩
        exact (bloomOf_spec 255 _).1
      · exact nofun
    · rintro _ ⟨⟩
      exact (Sbbf.absorbs 255).ok (sized words rfl)
  new {acc hash} sized := by
    obtain ⟨hashes, _ | words⟩ := acc
    · rw [insert]
      split
      · exact (bloomOf_spec 255 _).2 hash mem_insert_self
      · exact contains_iff_mem.mpr mem_insert_self
    · exact (Sbbf.absorbs 255).new (sized words rfl)
  old {acc next hash} sized old := by
    obtain ⟨hashes, _ | words⟩ := acc
    · have mem : hash ∈ hashes.insert next := mem_insert_of_mem (contains_iff_mem.mp old)
      rw [insert]
      split
      · exact (bloomOf_spec 255 _).2 hash mem
      · exact contains_iff_mem.mpr mem
    · exact (Sbbf.absorbs 255).old (sized words rfl) old

/-- A merge of two accumulators answers for what either side was given. -/
theorem SchemaHashAccumulator.merge_mayContain (xs ys : List UInt64) {hash : UInt64}
    (mem : hash ∈ xs ∨ hash ∈ ys) :
    ((xs.foldl insert default).merge (ys.foldl insert default)).mayContain hash = true := by
  have filled (l : List UInt64) := absorbs.foldl (s := default) (by rintro _ ⟨⟩) l
  obtain ⟨sized, holds⟩ := filled xs
  obtain ⟨sized', holds'⟩ := filled ys
  have present := mem.imp (fun mem => holds hash (.inl mem)) fun mem => holds' hash (.inl mem)
  generalize xs.foldl insert default = a at sized present
  generalize ys.foldl insert default = b at sized' present
  obtain ⟨hashes', _ | words⟩ := b
  · refine (absorbs.foldl sized hashes').2 hash (present.symm.imp_left ?_)
    exact contains_iff_mem.mp
  · obtain ⟨hashes, _ | mine⟩ := a
    · exact ((Sbbf.absorbs 255).foldl (sized' words rfl) hashes).2 hash
        (present.imp_left contains_iff_mem.mp)
    · exact Sbbf.contains_zipWith (sized mine rfl) (sized' words rfl) present

/-- **No sketch answers absent for a member.** -/
theorem no_false_absent (hash : UInt64) :
    (∀ count blocks hashes, hash ∈ hashes →
      Sbbf.contains (sizedBloomFromHashes count hashes (32 * (blocks + 1))) hash = true) ∧
    (∀ hashes, hash ∈ hashes → (ClientSet.fromClientHashes hashes).mayContainHash hash = true) ∧
    ∀ inserted : List UInt64, hash ∈ inserted →
      let acc := inserted.foldl SchemaHashAccumulator.insert .default
      acc.mayContain hash = true ∧
        ∀ complete sawAll, schemaMayContainHash complete (acc.toSchemaBloom sawAll) hash =
          true := by
  refine ⟨fun count blocks hashes mem => contains_sizedBloomFromHashes count blocks mem,
    fun hashes mem => ?_, fun inserted mem => ?_⟩
  · rw [ClientSet.fromClientHashes]
    split
    · rfl
    · split
      · exact contains_iff_mem.mpr (mem_mergeSort.mpr mem)
      · exact bloomMayContain_of_contains (contains_sizedBloomFromHashes _ 255 mem)
  · intro acc
    have present : acc.mayContain hash = true :=
      (SchemaHashAccumulator.absorbs.foldl (by rintro _ ⟨⟩) inserted).2 hash (.inl mem)
    refine ⟨present, fun complete sawAll => Bool.or_eq_true_iff.mpr (.inr ?_)⟩
    cases sawAll with
    | false => rfl
    | true =>
      generalize acc = acc at present
      obtain ⟨hashes, _ | words⟩ := acc
      · exact bloomMayContain_of_contains
          (contains_sizedBloomFromHashes _ 255 (contains_iff_mem.mp present))
      · exact bloomMayContain_of_contains present

end Celeriant
