import Mathlib.Data.List.Chain
import Mathlib.Data.Set.Basic

/-!
# Hash-chained logs

A log whose entries are numbered consecutively and carry the hash of their predecessor. `stamp`
numbers and chains a list of contents onto a tip, as an appending log does; `Extends` says that
given entries already are such a continuation. Both agree: stamping the contents of some entries
gives these entries back exactly when they extend the tip.

## Main results

* `stamp_eq_iff`: stamping reproduces entries exactly when they extend the tip
* `WalLog.entryAt_append`: what an append stores, number by number
* `GapFree.supplies`: from any entry of a reached piece on, the target is supplied
-/

namespace HashChain

open List

variable {H C : Type*}

/-- An entry: its number, the hash of its predecessor and its content. -/
structure Entry (H C : Type*) where
  walSeq : ℕ
  previousTipHash : H
  content : C
  deriving DecidableEq, Repr

section Stamp

variable (hash : Entry H C → H)

/-- Numbers and chains contents onto the tip `h` of entry `n`. -/
def stamp : ℕ → H → List C → List (Entry H C)
  | _, _, [] => []
  | n, h, c :: cs => ⟨n + 1, h, c⟩ :: stamp (n + 1) (hash ⟨n + 1, h, c⟩) cs

/-- The entries continue the chain whose entry `n` has the hash `h`. -/
def Extends : ℕ → H → List (Entry H C) → Prop
  | _, _, [] => True
  | n, h, e :: es => e.walSeq = n + 1 ∧ e.previousTipHash = h ∧ Extends (n + 1) (hash e) es

/-- The hash of the last entry, `h` when there is none. -/
def tipAfter (h : H) (es : List (Entry H C)) : H := es.foldl (fun _ e => hash e) h

/-- Each entry carries the hash of the one before it. -/
def Linked (es : List (Entry H C)) : Prop :=
  es.IsChain fun a b => b.previousTipHash = hash a

/-- Each entry has the next number after the one before it. -/
def Contiguous (es : List (Entry H C)) : Prop := es.IsChain fun a b => a.walSeq + 1 = b.walSeq

/-- Whether entries continue a chain can be checked. -/
instance decidableExtends [DecidableEq H] :
    (n : ℕ) → (h : H) → (es : List (Entry H C)) → Decidable (Extends hash n h es)
  | _, _, [] => isTrue trivial
  | n, h, e :: es =>
    have := decidableExtends (n + 1) (hash e) es
    inferInstanceAs
      (Decidable (e.walSeq = n + 1 ∧ e.previousTipHash = h ∧ Extends hash (n + 1) (hash e) es))

end Stamp

variable {hash : Entry H C → H}

@[simp] theorem length_stamp (n : ℕ) (h : H) (cs : List C) :
    (stamp hash n h cs).length = cs.length := by
  induction cs generalizing n h with
  | nil => rfl
  | cons c cs ih => simp [stamp, ih]

theorem stamp_take (n : ℕ) (h : H) (cs : List C) (k : ℕ) :
    (stamp hash n h cs).take k = stamp hash n h (cs.take k) := by
  induction cs generalizing n h k with
  | nil => simp [stamp]
  | cons c cs ih =>
    cases k with
    | zero => rfl
    | succ k => simp [stamp, ih]

variable {n : ℕ} {h : H} {es es' : List (Entry H C)}

theorem walSeq_of_stamp {cs k} {e : Entry H C}
    (found : (stamp hash n h cs)[k]? = some e) : e.walSeq = n + 1 + k := by
  induction cs generalizing n h k with
  | nil => simp [stamp] at found
  | cons c cs ih =>
    cases k with
    | zero =>
      obtain rfl : (⟨n + 1, h, c⟩ : Entry H C) = e := by simpa [stamp] using found
      rfl
    | succ k =>
      have rest : (stamp hash (n + 1) (hash ⟨n + 1, h, c⟩) cs)[k]? = some e := by
        simpa [stamp] using found
      rw [ih rest]
      omega

/-- **Stamping reproduces entries exactly when they extend the tip.** -/
theorem stamp_eq_iff {cs} :
    stamp hash n h cs = es ↔ cs = es.map (·.content) ∧ Extends hash n h es := by
  induction cs generalizing n h es with
  | nil =>
    cases es with
    | nil => simp [stamp, Extends]
    | cons e es => simp [stamp]
  | cons c cs ih =>
    cases es with
    | nil => simp [stamp]
    | cons e es =>
      constructor
      · intro eq
        obtain ⟨rfl, rest⟩ := List.cons.inj eq
        obtain ⟨contents, extend⟩ := ih.mp rest
        exact ⟨by simp [contents], rfl, rfl, extend⟩
      · rintro ⟨contents, number, previous, extend⟩
        obtain ⟨rfl, tail⟩ := List.cons.inj contents
        have entry : e = ⟨n + 1, h, e.content⟩ := by
          rw [← number, ← previous]
        refine cons_eq_cons.mpr ⟨entry.symm, ih.mpr ⟨tail, ?_⟩⟩
        rw [← entry]
        exact extend

/-- To extend a tip is to start at it, to be numbered consecutively and to be linked. -/
theorem extends_cons_iff {e} :
    Extends hash n h (e :: es) ↔
      e.walSeq = n + 1 ∧ e.previousTipHash = h ∧ Contiguous (e :: es) ∧ Linked hash (e :: es) := by
  induction es generalizing n h e with
  | nil => simp [Extends, Contiguous, Linked]
  | cons e' es ih =>
    have rest := ih (n := n + 1) (h := hash e) (e := e')
    unfold Contiguous Linked at rest ⊢
    rw [Extends, rest, isChain_cons_cons, isChain_cons_cons]
    constructor
    · rintro ⟨number, previous, number', previous', contiguous, linked⟩
      exact ⟨number, previous, ⟨by omega, contiguous⟩, previous', linked⟩
    · rintro ⟨number, previous, ⟨number', contiguous⟩, previous', linked⟩
      exact ⟨number, previous, by omega, previous', contiguous, linked⟩

/-- A list without gaps holds every number of its range. -/
theorem Contiguous.exists_walSeq {first last} (contiguous : Contiguous es)
    (head : es.head? = some first) (stop : es.getLast? = some last) {k}
    (above : first.walSeq ≤ k) (below : k ≤ last.walSeq) : ∃ e ∈ es, e.walSeq = k := by
  induction es generalizing first with
  | nil => cases head
  | cons e es ih =>
    cases head
    rcases Nat.eq_or_lt_of_le above with same | later
    · exact ⟨e, mem_cons_self, same⟩
    cases es with
    | nil =>
      cases Option.some.inj stop
      exact absurd below (Nat.not_le_of_lt later)
    | cons b es =>
      obtain ⟨next, rest⟩ := isChain_cons_cons.mp contiguous
      obtain ⟨e', mem, number⟩ := ih rest rfl stop (by omega)
      exact ⟨e', mem_cons_of_mem _ mem, number⟩

/-- In an extension each entry sits at its number. -/
theorem Extends.walSeq (ext : Extends hash n h es) {k}
    {e : Entry H C} (found : es[k]? = some e) : e.walSeq = n + 1 + k := by
  have stamped : stamp hash n h (es.map (·.content)) = es := stamp_eq_iff.mpr ⟨rfl, ext⟩
  rw [← stamped] at found
  exact walSeq_of_stamp found

/-- The numbers of a continuation are consecutive. -/
theorem Extends.map_walSeq (ext : Extends hash n h es) :
    es.map (·.walSeq) = List.range' (n + 1) es.length := by
  induction es generalizing n h with
  | nil => rfl
  | cons e es ih =>
    obtain ⟨number, -, rest⟩ := ext
    rw [map_cons, ih rest, number, length_cons, List.range'_succ]

theorem extends_append :
    Extends hash n h (es ++ es') ↔
      Extends hash n h es ∧ Extends hash (n + es.length) (tipAfter hash h es) es' := by
  induction es generalizing n h with
  | nil => simp [Extends, tipAfter]
  | cons e es ih =>
    have number : n + 1 + es.length = n + (e :: es).length := by
      simp only [length_cons]
      omega
    rw [cons_append, Extends, Extends, ih, number]
    simp only [tipAfter, foldl_cons, and_assoc]

theorem tipAfter_append :
    tipAfter hash h (es ++ es') = tipAfter hash (tipAfter hash h es) es' :=
  foldl_append

/-! ## Logs -/

/-- A log: its entries by number, the number of the last one and its hash. -/
structure WalLog (H C : Type*) where
  entryAt : ℕ → Option (Entry H C)
  walSeq : ℕ
  tipHash : H

namespace WalLog

variable (hash : Entry H C → H) (log : WalLog H C)

/-- Stores one content behind the tip. -/
def appendOne (c : C) : WalLog H C :=
  let e : Entry H C := ⟨log.walSeq + 1, log.tipHash, c⟩
  { entryAt := fun n => if n = log.walSeq + 1 then some e else log.entryAt n
    walSeq := log.walSeq + 1
    tipHash := hash e }

/-- Stores contents in order behind the tip. -/
def append (cs : List C) : WalLog H C := cs.foldl (appendOne hash) log

variable {log}

theorem append_cons (c : C) (cs : List C) :
    log.append hash (c :: cs) = (log.appendOne hash c).append hash cs := rfl

@[simp] theorem walSeq_append (cs : List C) :
    (log.append hash cs).walSeq = log.walSeq + cs.length := by
  induction cs generalizing log with
  | nil => rfl
  | cons c cs ih =>
    rw [append_cons, ih]
    simp only [appendOne, length_cons]
    omega

/-- What was stored before stays. -/
theorem entryAt_append_of_le {n} (cs : List C) (h : n ≤ log.walSeq) :
    (log.append hash cs).entryAt n = log.entryAt n := by
  induction cs generalizing log with
  | nil => rfl
  | cons c cs ih =>
    rw [append_cons, ih (Nat.le_succ_of_le h)]
    exact if_neg (by omega)

/-- **What an append stores, number by number.** -/
theorem entryAt_append {k} (cs : List C) (h : k < cs.length) :
    (log.append hash cs).entryAt (log.walSeq + 1 + k) =
      (stamp hash log.walSeq log.tipHash cs)[k]? := by
  induction cs generalizing log k with
  | nil => cases h
  | cons c cs ih =>
    rw [append_cons]
    cases k with
    | zero =>
      have first : ((log.appendOne hash c).append hash cs).entryAt (log.walSeq + 1) =
          (log.appendOne hash c).entryAt (log.walSeq + 1) :=
        entryAt_append_of_le hash cs le_rfl
      exact first.trans (if_pos rfl)
    | succ k =>
      have number : log.walSeq + 1 + (k + 1) = (log.appendOne hash c).walSeq + 1 + k := by
        simp only [appendOne]
        omega
      rw [number, ih (Nat.lt_of_succ_lt_succ h)]
      rfl

end WalLog

/-! ## Chains stored in pieces

Which numbers can pieces of a chain, as files of a store, supply from a given ancestor on? Pieces
may overlap and may belong to different branches, so a piece is continued by an *entry* of another
piece, not by a piece that starts right behind it. If every piece that is reached from the ancestor
and ends below a target is continued, the target is reached. -/

section Definitions

variable (hash : Entry H C → H) (pieces : Set (List (Entry H C)))

/-- Entries of the pieces continue the chain whose entry `n` has the hash `h`, at least up to the
number `target`. -/
def Supplies (n : ℕ) (h : H) (target : ℕ) : Prop :=
  ∃ es, Extends hash n h es ∧ target ≤ n + es.length ∧ ∀ e ∈ es, ∃ p ∈ pieces, e ∈ p

/-- An entry of `q` follows the last entry of `p`. -/
def Continues (p q : List (Entry H C)) : Prop :=
  ∃ last ∈ p.getLast?, ∃ e ∈ q, e.walSeq = last.walSeq + 1 ∧ e.previousTipHash = hash last

/-- The pieces that are a root or follow a reached one. -/
inductive Reached (root : List (Entry H C) → Prop) : List (Entry H C) → Prop
  | root {p} : p ∈ pieces → root p → Reached root p
  | next {p q} : Reached root p → q ∈ pieces → Continues hash p q → Reached root q

/-- Every reached piece that ends below the target is continued. -/
def GapFree (root : List (Entry H C) → Prop) (target : ℕ) : Prop :=
  ∀ p, Reached hash pieces root p → ∀ last ∈ p.getLast?, last.walSeq < target →
    ∃ q ∈ pieces, Continues hash p q

end Definitions

variable {hash : Entry H C → H} {pieces : Set (List (Entry H C))}
  {root : List (Entry H C) → Prop} {target : ℕ}

theorem Reached.mem {p} (reached : Reached hash pieces root p) : p ∈ pieces := by
  cases reached with
  | root mem _ => exact mem
  | next _ mem _ => exact mem

/-- The part of a chained piece from an entry on extends what that entry follows. -/
theorem extends_of_suffix {p} (chained : Contiguous p ∧ Linked hash p)
    {e} {rest : List (Entry H C)} (suffix : e :: rest <:+ p) {n h}
    (number : e.walSeq = n + 1) (previous : e.previousTipHash = h) :
    Extends hash n h (e :: rest) :=
  extends_cons_iff.mpr ⟨number, previous, chained.1.suffix suffix, chained.2.suffix suffix⟩

/-- The last entry of a continuation carries its last number and its hash. -/
theorem Extends.getLast {n h es} (ext : Extends hash n h es) {last} (isLast : last ∈ es.getLast?) :
    last.walSeq = n + es.length ∧ tipAfter hash h es = hash last := by
  obtain ⟨init, rfl⟩ := List.getLast?_eq_some_iff.mp isLast
  obtain ⟨-, number, -⟩ := extends_append.mp ext
  constructor
  · rw [number, length_append]
    rfl
  · rw [tipAfter_append]
    rfl

section Supply

variable (chained : ∀ p ∈ pieces, Contiguous p ∧ Linked hash p)
include chained

/-- **Without a gap the target is supplied from any entry of a reached piece on.** -/
theorem GapFree.supplies (gapFree : GapFree hash pieces root target) {p}
    (reached : Reached hash pieces root p) {e} {rest : List (Entry H C)}
    (suffix : e :: rest <:+ p) {n h} (number : e.walSeq = n + 1)
    (previous : e.previousTipHash = h) : Supplies hash pieces n h target := by
  -- on what the piece leaves open below the target
  induction missing : target - (n + (e :: rest).length) using Nat.strong_induction_on
    generalizing p e rest n h with
  | _ gap ih =>
    have ext := extends_of_suffix (chained p reached.mem) suffix number previous
    have stored : ∀ x ∈ e :: rest, ∃ q ∈ pieces, x ∈ q :=
      fun x mem => ⟨p, reached.mem, suffix.subset mem⟩
    by_cases reaches : target ≤ n + (e :: rest).length
    · exact ⟨e :: rest, ext, reaches, stored⟩
    · obtain ⟨last, isLast⟩ : ∃ last, last ∈ (e :: rest).getLast? :=
        ⟨(e :: rest).getLast (cons_ne_nil _ _), List.getLast?_eq_some_getLast _⟩
      obtain ⟨lastNumber, tip⟩ := ext.getLast isLast
      have lastOfPiece : last ∈ p.getLast? := by
        obtain ⟨front, rfl⟩ := suffix
        rw [List.getLast?_append_of_ne_nil _ (cons_ne_nil _ _)]
        exact isLast
      obtain ⟨q, mem, last', isLast', e', mem', number', previous'⟩ :=
        gapFree p reached last lastOfPiece (by omega)
      obtain rfl := Option.mem_unique isLast' lastOfPiece
      obtain ⟨front, rest', split⟩ := append_of_mem mem'
      have further : Supplies hash pieces (n + (e :: rest).length) (hash last') target := by
        refine ih _ ?_ (.next reached mem ⟨last', isLast', e', mem', number', previous'⟩)
          ⟨front, split.symm⟩ (by omega) previous' rfl
        simp only [length_cons] at reaches missing ⊢
        omega
      obtain ⟨es, extends', reaches', stored'⟩ := further
      refine ⟨e :: rest ++ es, extends_append.mpr ⟨ext, tip ▸ extends'⟩, ?_, ?_⟩
      · rw [length_append]
        omega
      · intro x mem
        exact (mem_append.mp mem).elim (stored x) (stored' x)

/-- What follows an entry of a reached piece is supplied, by the piece itself or by one that
continues it. -/
theorem GapFree.supplies_after (gapFree : GapFree hash pieces root target) {p}
    (reached : Reached hash pieces root p) {front rest : List (Entry H C)} {e}
    (split : p = front ++ e :: rest) (below : e.walSeq < target) :
    Supplies hash pieces e.walSeq (hash e) target := by
  cases rest with
  | nil =>
    have isLast : e ∈ p.getLast? := List.getLast?_eq_some_iff.mpr ⟨front, split⟩
    obtain ⟨q, mem, last, isLast', e', mem', number, previous⟩ := gapFree p reached e isLast below
    obtain rfl := Option.mem_unique isLast' isLast
    obtain ⟨front', rest', split'⟩ := append_of_mem mem'
    exact gapFree.supplies chained (.next reached mem ⟨last, isLast', e', mem', number, previous⟩)
      ⟨front', split'.symm⟩ number previous
  | cons e' rest =>
    have suffix : e :: e' :: rest <:+ p := ⟨front, split.symm⟩
    obtain ⟨contiguous, linked⟩ := chained p reached.mem
    have number := (isChain_cons_cons.mp (contiguous.suffix suffix)).1
    have previous := (isChain_cons_cons.mp (linked.suffix suffix)).1
    exact gapFree.supplies chained reached ((suffix_cons e _).trans suffix) number.symm previous

end Supply

end HashChain
