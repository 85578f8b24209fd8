import Mathlib.Data.List.Basic
import Mathlib.Algebra.Ring.Nat

/-!
# Files as bytes by offset

A file is the function that gives the byte at each offset. Writes put a list of bytes at an offset.
When a group of writes is interrupted, any part of it may have reached the file: `Landed` says that
each byte is the old one or one that some write of the group put there. A group that went through is
the special case where everything landed, so a fact about the bytes no write covers is proved once,
for `Landed`.

## Main results

* `readAt_apply`: a read inside a write gives the bytes written
* `Landed.eq_of_not_covered`: what no write covers is unchanged
-/

namespace ByteFile

open List

/-! ## Alignment -/

def alignUp (alignment n : ℕ) : ℕ := (n + (alignment - 1)) / alignment * alignment

def alignDown (alignment n : ℕ) : ℕ := n / alignment * alignment

section Align

variable {a n m : ℕ}

theorem alignDown_le : alignDown a n ≤ n := Nat.div_mul_le_self n a

theorem lt_alignDown_add (positive : 0 < a) : n < alignDown a n + a := by
  have remainder := Nat.mod_lt n positive
  have split := Nat.div_add_mod n a
  rw [Nat.mul_comm] at split
  unfold alignDown
  omega

theorem le_alignUp (positive : 0 < a) : n ≤ alignUp a n := by
  have : n + (a - 1) < alignDown a (n + (a - 1)) + a := lt_alignDown_add positive
  unfold alignDown at this
  unfold alignUp
  omega

theorem dvd_alignUp : a ∣ alignUp a n := Nat.dvd_mul_left a _

/-- Rounding up stays below any multiple above. -/
theorem alignUp_le (positive : 0 < a) (le : n ≤ m) (dvd : a ∣ m) : alignUp a n ≤ m := by
  obtain ⟨k, rfl⟩ := dvd
  have below : (n + (a - 1)) / a < k + 1 := by
    rw [Nat.div_lt_iff_lt_mul positive, Nat.add_mul, Nat.mul_comm k a]
    omega
  rw [Nat.mul_comm a k]
  exact Nat.mul_le_mul_right a (by omega)

theorem alignUp_of_dvd (positive : 0 < a) (dvd : a ∣ n) : alignUp a n = n :=
  le_antisymm (alignUp_le positive (Nat.le_refl n) dvd) (le_alignUp positive)

end Align

/-! ## Reads and writes -/

variable {β : Type*}

/-- The bytes of a file from an offset on. -/
def readAt (file : ℕ → β) (offset length : ℕ) : List β := (List.range' offset length).map file

@[simp] theorem length_readAt (file : ℕ → β) (offset length : ℕ) :
    (readAt file offset length).length = length := by
  simp [readAt]

theorem readAt_congr {file file' : ℕ → β} {offset length}
    (same : ∀ i, offset ≤ i → i < offset + length → file i = file' i) :
    readAt file offset length = readAt file' offset length := by
  refine map_congr_left fun i mem => ?_
  obtain ⟨lower, upper⟩ := mem_range'_1.mp mem
  exact same i lower upper

theorem getElem?_readAt {file : ℕ → β} {offset length k} (inside : k < length) :
    (readAt file offset length)[k]? = some (file (offset + k)) := by
  simp [readAt, inside]

theorem readAt_add (file : ℕ → β) (offset length length' : ℕ) :
    readAt file offset (length + length') =
      readAt file offset length ++ readAt file (offset + length) length' := by
  unfold readAt
  rw [← map_append, List.range'_append_1]

/-- Bytes to be put at an offset. -/
structure FileWrite (β : Type*) where
  offset : ℕ
  bytes : List β
  deriving DecidableEq, Repr

namespace FileWrite

variable (w : FileWrite β)

/-- The end of the range that is written. -/
def ending : ℕ := w.offset + w.bytes.length

/-- The offset lies in the range that is written. -/
def Covers (i : ℕ) : Prop := w.offset ≤ i ∧ i < w.ending

def apply (file : ℕ → β) (i : ℕ) : β :=
  if w.offset ≤ i then (w.bytes[i - w.offset]?).getD (file i) else file i

variable {w} {file : ℕ → β} {i : ℕ}

theorem apply_of_not_covers (outside : ¬ w.Covers i) : w.apply file i = file i := by
  unfold apply
  split
  next lower =>
    have beyond : w.bytes.length ≤ i - w.offset := by
      unfold Covers ending at outside
      omega
    rw [List.getElem?_eq_none beyond]
    rfl
  · rfl

/-- A write puts its byte where it covers. -/
theorem getElem?_of_covers (covers : w.Covers i) :
    w.bytes[i - w.offset]? = some (w.apply file i) := by
  have inside : i - w.offset < w.bytes.length := by
    unfold Covers ending at covers
    omega
  rw [apply, if_pos covers.1, List.getElem?_eq_getElem inside]
  rfl

end FileWrite

/-- **A read inside a write gives the bytes written.** -/
theorem readAt_apply {w : FileWrite β} {file front inner rest}
    (split : w.bytes = front ++ inner ++ rest) :
    readAt (w.apply file) (w.offset + front.length) inner.length = inner := by
  refine ext_getElem? fun k => ?_
  by_cases inside : k < inner.length
  · have covers : w.Covers (w.offset + front.length + k) := by
      unfold FileWrite.Covers FileWrite.ending
      rw [split]
      simp only [length_append]
      omega
    rw [getElem?_readAt inside, ← FileWrite.getElem?_of_covers covers, split, append_assoc,
      List.getElem?_append_right (by omega), List.getElem?_append_left (by omega)]
    congr 1
    omega
  · rw [List.getElem?_eq_none (by simpa using inside),
      List.getElem?_eq_none (by simpa using inside)]

/-- The writes of a group in order. -/
def applyAll (writes : List (FileWrite β)) (file : ℕ → β) : ℕ → β :=
  writes.foldl (fun file w => w.apply file) file

/-- The writes of a group in order, each byte only if it reached the file. -/
def applySome (reached : ℕ → ℕ → Bool) : ℕ → List (FileWrite β) → (ℕ → β) → ℕ → β
  | _, [], file => file
  | k, w :: ws, file =>
    applySome reached (k + 1) ws fun i => if reached k i then w.apply file i else file i

/-- An interrupted group of writes may have left `file'`: each byte is the old one or one that was
written there. -/
def Landed (file : ℕ → β) (writes : List (FileWrite β)) (file' : ℕ → β) : Prop :=
  ∀ i, file' i = file i ∨ ∃ w ∈ writes, w.Covers i ∧ w.bytes[i - w.offset]? = some (file' i)

section Landed

variable {file file' : ℕ → β} {writes : List (FileWrite β)}

theorem Landed.refl (file : ℕ → β) (writes : List (FileWrite β)) : Landed file writes file :=
  fun _ => .inl rfl

/-- What no write covers is unchanged. -/
theorem Landed.eq_of_not_covered (landed : Landed file writes file') {i}
    (outside : ∀ w ∈ writes, ¬ w.Covers i) : file' i = file i := by
  rcases landed i with same | ⟨w, mem, covers, -⟩
  · exact same
  · exact absurd covers (outside w mem)

/-- A group of which some bytes reached the file is one that landed. -/
theorem landed_applySome (reached : ℕ → ℕ → Bool) (k : ℕ) (writes : List (FileWrite β))
    (file : ℕ → β) : Landed file writes (applySome reached k writes file) := by
  induction writes generalizing k file with
  | nil => exact Landed.refl file []
  | cons w ws ih =>
    intro i
    rcases ih (k + 1) (fun i => if reached k i then w.apply file i else file i) i with
      same | ⟨v, mem, covers, byte⟩
    · dsimp only at same
      by_cases covered : w.Covers i ∧ reached k i = true
      · refine .inr ⟨w, mem_cons_self, covered.1, ?_⟩
        have byte : w.bytes[i - w.offset]? = some (w.apply file i) :=
          FileWrite.getElem?_of_covers covered.1
        rw [byte, applySome, same, if_pos covered.2]
      · left
        rw [applySome, same]
        split
        next landed =>
          exact FileWrite.apply_of_not_covers fun covers => covered ⟨covers, landed⟩
        · rfl
    · exact .inr ⟨v, mem_cons_of_mem w mem, covers, byte⟩

theorem applySome_all (k : ℕ) (writes : List (FileWrite β)) (bytes : ℕ → β) :
    applySome (fun _ _ => true) k writes bytes = applyAll writes bytes := by
  induction writes generalizing k bytes with
  | nil => rfl
  | cons w ws ih =>
    rw [applySome, ih]
    rfl

/-- So is one that went through. -/
theorem landed_applyAll (file : ℕ → β) (writes : List (FileWrite β)) :
    Landed file writes (applyAll writes file) :=
  applySome_all 0 writes file ▸ landed_applySome _ 0 writes file

end Landed

end ByteFile
