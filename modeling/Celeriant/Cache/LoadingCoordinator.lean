import Celeriant.Lib.Transition
import Mathlib.Data.List.Nodup
import Mathlib.Data.List.Perm.Basic

/-!
# Loads of one key

A cache miss is answered by a load: a backward scan of the log whose result is put into the cache.
`LoadingCoordinator` hands every task that loads a key the same `RwLock`, kept in a map while some
`LoadingGuard` refers to it. The loaders (`cache_aggregate_client`, `ensure_schema_cached`,
`aggregate_exists_and_cache`) take that lock for writing, look into the cache again, and scan. The
keys of the three coordinators are one type here; the permits of `cache_load_semaphore` are shared.

Taking the lock yields a second guard, and the lock is held as long as *that* guard lives: bound to
a name, to the end of the loader, bound to `_`, for one statement. `GuardBinding` is this choice;
the loaders of the source all make the second one (`sourceBinding`). The permit lives as long as the
scan.

## Main results

* `Loading.map_follows_guards`: the guards of a key share the lock that the map has for it
* `loads_exclusive_iff`
-/

namespace Celeriant

open Transition Function List

abbrev LockId := ℕ

/-- Where the guard returned by `write_with_timeout` goes: `let _guard = …` keeps it, `let _ = …`
drops it at once. -/
inductive GuardBinding
  | named
  | wildcard
  deriving DecidableEq, Repr

/-- How `cache_aggregate_client`, `ensure_schema_cached` and `aggregate_exists_and_cache` bind
it. -/
def sourceBinding : GuardBinding := .wildcard

/-- A load waits in `write_with_timeout`; past the second look into the cache it waits for a permit;
with the permit it reads the disk. -/
inductive LoadPhase
  | waiting
  | awaitingPermit
  | scanning
  deriving DecidableEq, Repr

/-- A task inside a loader. `lock` is the reference its `LoadingGuard` owns, `holdsLock` says
whether its `RwLockWriteGuard` is alive. -/
structure Load (κ : Type*) where
  key : κ
  lock : LockId
  phase : LoadPhase
  holdsLock : Bool
  deriving DecidableEq, Repr

/-- The coordinator's map, a supply of new locks, the loads under way, and what is cached. -/
structure Loading (κ : Type*) where
  pending : κ → Option LockId
  nextLock : LockId
  loads : List (Load κ)
  cached : κ → Bool

/-- What a task does next. -/
inductive LoadAction (κ : Type*)
  /-- a loader is entered -/
  | call (key : κ)
  /-- `write` is ready for the `i`-th load; a negative lookup may prove the key absent -/
  | lockGranted (i : ℕ) (absent : Bool)
  /-- a permit of the semaphore is free for the `i`-th load -/
  | permitGranted (i : ℕ)
  /-- the `i`-th load ends without a result: a timeout or an error -/
  | abandoned (i : ℕ)
  /-- the scan of the `i`-th load ends, with or without a value to cache -/
  | scanDone (i : ℕ) (stored : Bool)
  /-- a commit or another load caches the key -/
  | put (key : κ)
  | evict (key : κ)
  deriving DecidableEq, Repr

namespace Loading

variable {κ : Type*} [DecidableEq κ]

/-- No load is under way and nothing is cached. -/
def initial : Loading κ := ⟨fun _ => none, 0, [], fun _ => false⟩

section Steps

variable (s : Loading κ)

/-- The lock that `acquire` finds or makes. -/
def lockFor (key : κ) : LockId := (s.pending key).getD s.nextLock

/-- `LoadingCoordinator::acquire`, and the wait for the lock. -/
def acquire (key : κ) : Loading κ :=
  { s with
    pending := update s.pending key (some (s.lockFor key))
    nextLock := if (s.pending key).isNone then s.nextLock + 1 else s.nextLock
    loads := s.loads ++ [⟨key, s.lockFor key, .waiting, false⟩] }

/-- `Rc::strong_count` of a lock in the map: the map's reference and those of the guards. -/
def strongCount (lock : LockId) : ℕ := 1 + s.loads.countP fun l => l.lock = lock

/-- `Drop for LoadingGuard`; the count is taken before the guard's own reference goes. -/
def dropGuard (i : ℕ) (l : Load κ) : Loading κ :=
  { s with
    pending := match s.pending l.key with
      | some lock => if s.strongCount lock = 2 then update s.pending l.key none else s.pending
      | none => s.pending
    loads := s.loads.eraseIdx i }

/-- Some task's write guard of the lock is alive. -/
def locked (lock : LockId) : Bool := s.loads.any fun l => l.lock = lock && l.holdsLock

/-- The permits that are taken: one for each scan, of whatever key. -/
def permitsTaken : ℕ := s.loads.countP fun l => l.phase = .scanning

/-- One task runs to its next await, with `readMaxConcurrent` permits in all. -/
def step (binding : GuardBinding) (readMaxConcurrent : ℕ) : LoadAction κ → Option (Loading κ)
  | .call key => if s.cached key then some s else some (s.acquire key)
  | .lockGranted i absent =>
    match s.loads[i]? with
    | none => none
    | some l =>
      if l.phase ≠ .waiting ∨ s.locked l.lock then none
      -- the second look into the cache: another task has done the work
      else if s.cached l.key then some (s.dropGuard i l)
      else if absent then some { s.dropGuard i l with cached := update s.cached l.key true }
      else some { s with
        loads := s.loads.set i { l with phase := .awaitingPermit, holdsLock := binding = .named } }
  | .permitGranted i =>
    match s.loads[i]? with
    | none => none
    | some l =>
      if l.phase = .awaitingPermit ∧ s.permitsTaken < readMaxConcurrent then
        some { s with loads := s.loads.set i { l with phase := .scanning } }
      else none
  | .abandoned i => s.loads[i]?.map (s.dropGuard i)
  | .scanDone i stored =>
    match s.loads[i]? with
    | none => none
    | some l =>
      if l.phase = .scanning then
        some { s.dropGuard i l with
          cached := update s.cached l.key (s.cached l.key || stored) }
      else none
  | .put key => some { s with cached := update s.cached key true }
  | .evict key => some { s with cached := update s.cached key false }

/-- The tasks in the disk-scanning section of the load for a key. -/
def scans (key : κ) : ℕ := s.loads.countP fun l => l.key = key ∧ l.phase = .scanning

end Steps

variable {s t : Loading κ} {binding : GuardBinding} {permits : ℕ} {a : LoadAction κ}

/-- What a step does to the loads: one more waits, one advances, one ends, or none changes. -/
inductive Step (binding : GuardBinding) (permits : ℕ) (s : Loading κ) : Loading κ → Prop
  | miss (key) : Step binding permits s (s.acquire key)
  | locked (i l) : s.loads[i]? = some l → l.phase = .waiting → s.locked l.lock = false →
      Step binding permits s { s with
        loads := s.loads.set i { l with phase := .awaitingPermit, holdsLock := binding = .named } }
  | permitted (i l) : s.loads[i]? = some l → l.phase = .awaitingPermit → s.permitsTaken < permits →
      Step binding permits s { s with loads := s.loads.set i { l with phase := .scanning } }
  | ended (i l cached) : s.loads[i]? = some l →
      Step binding permits s { s.dropGuard i l with cached := cached }
  | cache (cached) : Step binding permits s { s with cached := cached }

theorem Step.of_step (h : s.step binding permits a = some t) : Step binding permits s t := by
  cases a with
  | call key =>
    simp only [step] at h
    split at h <;> cases h
    · exact .cache s.cached
    · exact .miss key
  | lockGranted i absent =>
    simp only [step] at h
    split at h
    · cases h
    next l hl =>
      split at h
      · cases h
      next free =>
        rw [not_or, Decidable.not_not] at free
        split at h
        · cases h
          exact .ended i l s.cached hl
        · split at h <;> cases h
          · exact .ended i l _ hl
          · exact .locked i l hl free.1 (by simpa using free.2)
  | permitGranted i =>
    simp only [step] at h
    split at h
    · cases h
    next l hl =>
      split at h
      next free =>
        cases h
        exact .permitted i l hl free.1 free.2
      · cases h
  | abandoned i =>
    obtain ⟨l, hl, rfl⟩ := Option.map_eq_some_iff.mp h
    exact .ended i l s.cached hl
  | scanDone i stored =>
    simp only [step] at h
    split at h
    · cases h
    next l hl =>
      split at h
      · cases h
        exact .ended i l _ hl
      · cases h
  | put | evict =>
    cases h
    exact .cache _

/-- An element may be replaced by one with the same image. -/
theorem map_set_of_getElem? {α β : Type*} {f : α → β} {xs : List α} {i x y}
    (hx : xs[i]? = some x) (same : f y = f x) : (xs.set i y).map f = xs.map f := by
  obtain ⟨lt, rfl⟩ := List.getElem?_eq_some_iff.mp hx
  rw [map_set, same, ← getElem_map f, set_getElem_self]
  simpa using lt

/-! ## The map of locks -/

/-- The live guards, each with the lock it refers to. -/
def guards (s : Loading κ) : List (κ × LockId) := s.loads.map fun l => (l.key, l.lock)

/-- The map has exactly the locks of the live guards, and different keys have different locks. So a
lock is dropped from the map only with the last guard of its key. -/
structure Coordinated (s : Loading κ) : Prop where
  pending : ∀ key lock, s.pending key = some lock ↔ (key, lock) ∈ s.guards
  known : ∀ key lock, s.pending key = some lock → lock < s.nextLock
  distinct : ∀ key key' lock, s.pending key = some lock → s.pending key' = some lock → key = key'

omit [DecidableEq κ] in
theorem coordinated_initial : (initial : Loading κ).Coordinated :=
  ⟨fun _ _ => ⟨nofun, nofun⟩, nofun, nofun⟩

omit [DecidableEq κ] in
theorem Coordinated.shared (h : s.Coordinated) {l} (hl : l ∈ s.loads) :
    s.pending l.key = some l.lock := (h.pending _ _).mpr (mem_map_of_mem hl)

theorem Coordinated.acquire (h : s.Coordinated) (key : κ) : (s.acquire key).Coordinated := by
  have own : ∀ lock, s.pending key = some lock → s.lockFor key = lock := by
    intro lock hp
    rw [lockFor, hp, Option.getD_some]
  -- the lock of the map, or one that no key has
  have fresh : ∀ key', s.pending key' = some (s.lockFor key) → key' = key := by
    intro key' hk
    cases hp : s.pending key with
    | some lock => exact h.distinct key' key lock (own lock hp ▸ hk) hp
    | none =>
      have := h.known key' _ hk
      simp [lockFor, hp] at this
  refine ⟨fun k lock => ?_, fun k lock hk => ?_, fun k k' lock hk hk' => ?_⟩
  · simp only [guards, Loading.acquire, map_append, map_cons, map_nil, mem_append, mem_singleton]
    rw [← guards, ← h.pending, Prod.mk.injEq]
    by_cases same : k = key
    · subst same
      rw [update_self]
      constructor
      · rintro ⟨⟩
        exact .inr ⟨rfl, rfl⟩
      · rintro (old | ⟨-, rfl⟩)
        · rw [own lock old]
        · rfl
    · simp [same]
  · simp only [Loading.acquire, update_apply] at hk ⊢
    cases hp : s.pending key with
    | some lock' =>
      rw [own lock' hp] at hk
      split at hk
      · cases hk
        exact h.known key lock hp
      · exact h.known k lock hk
    | none =>
      split at hk
      · cases hk
        simp [lockFor, hp]
      · exact Nat.lt_succ_of_lt (h.known k lock hk)
  · simp only [Loading.acquire, update_apply] at hk hk'
    split at hk <;> split at hk'
    next e e' => rw [e, e']
    next e e' =>
      rw [e]
      exact (fresh k' (hk'.trans hk.symm)).symm
    next e e' =>
      rw [e']
      exact fresh k (hk.trans hk'.symm)
    next e e' => exact h.distinct k k' lock hk hk'

theorem Coordinated.dropGuard (h : s.Coordinated) {i l}
    (hl : s.loads[i]? = some l) : (s.dropGuard i l).Coordinated := by
  obtain ⟨lt, hget⟩ := List.getElem?_eq_some_iff.mp hl
  have perm := getElem_cons_eraseIdx_perm lt
  rw [hget] at perm
  have own := h.shared (mem_of_getElem? hl)
  have before (k : κ) (lock : LockId) :
      s.pending k = some lock ↔ (k, lock) = (l.key, l.lock) ∨
        (k, lock) ∈ (s.dropGuard i l).guards := by
    rw [h.pending, guards, ← (perm.map _).mem_iff, map_cons, mem_cons]
    rfl
  -- the count says whether another guard refers to the lock
  have last : s.strongCount l.lock = 2 ↔ ∀ k, (k, l.lock) ∉ (s.dropGuard i l).guards := by
    have none_left : (s.loads.eraseIdx i).countP (fun m => m.lock = l.lock) = 0 ↔
        ∀ k, (k, l.lock) ∉ (s.dropGuard i l).guards := by
      simp only [countP_eq_zero, decide_eq_true_eq, guards, mem_map, Prod.mk.injEq, not_exists]
      exact ⟨fun h k m ⟨hm, _, same⟩ => h m hm same, fun h m hm same => h _ m ⟨hm, rfl, same⟩⟩
    rw [← none_left, strongCount, ← perm.countP_eq, countP_cons, if_pos (by simp)]
    omega
  have pending (k : κ) (lock : LockId) :
      (s.dropGuard i l).pending k = some lock ↔ (k, lock) ∈ (s.dropGuard i l).guards := by
    simp only [Loading.dropGuard, own]
    split
    next only =>
      rw [update_apply]
      split
      next same =>
        subst same
        refine ⟨nofun, fun left => ?_⟩
        have := (before _ _).mpr (.inr left)
        rw [own] at this
        cases this
        exact absurd left (last.mp only _)
      next other =>
        rw [before]
        simp [other]
        rfl
    next more =>
      rw [before, or_iff_right_of_imp]
      · rfl
      rintro ⟨⟩
      rw [last] at more
      push Not at more
      obtain ⟨k, left⟩ := more
      exact h.distinct k l.key l.lock ((before _ _).mpr (.inr left)) own ▸ left
  have old : ∀ k lock, (s.dropGuard i l).pending k = some lock → s.pending k = some lock :=
    fun k lock hk => (before k lock).mpr (.inr ((pending k lock).mp hk))
  exact ⟨pending, fun k lock hk => h.known k lock (old k lock hk),
    fun k k' lock hk hk' => h.distinct k k' lock (old k lock hk) (old k' lock hk')⟩

theorem Coordinated.step (h : s.Coordinated) (hstep : s.step binding permits a = some t) :
    t.Coordinated := by
  -- a load that advances keeps its key and its lock
  have kept : ∀ i l l', s.loads[i]? = some l → (l'.key, l'.lock) = (l.key, l.lock) →
      Coordinated { s with loads := s.loads.set i l' } := by
    intro i l l' hl same
    refine ⟨fun key lock => ?_, h.known, h.distinct⟩
    rw [guards, map_set_of_getElem? hl same]
    exact h.pending key lock
  cases Step.of_step hstep with
  | miss key => exact h.acquire key
  | locked i l hl | permitted i l hl => exact kept i l _ hl rfl
  | ended i l cached hl =>
    have dropped := h.dropGuard hl
    exact ⟨dropped.pending, dropped.known, dropped.distinct⟩
  | cache => exact ⟨h.pending, h.known, h.distinct⟩

/-- What the users of the coordinator do with it. -/
inductive GuardAction (κ : Type*)
  | acquire (key : κ)
  /-- the `i`-th live guard is dropped -/
  | drop (i : ℕ)

/-- The coordinator alone. -/
def guardStep (s : Loading κ) : GuardAction κ → Option (Loading κ)
  | .acquire key => some (s.acquire key)
  | .drop i => s.loads[i]?.map (s.dropGuard i)

/-- **The map of locks follows the live guards.** After every sequence of acquires and drops the
guards of a key refer to one lock, a newcomer gets that lock, and the map has an entry for a key
exactly while a guard of it is live. -/
theorem map_follows_guards (run : Reaches guardStep Always initial s) (key : κ) :
    (∀ lock, (key, lock) ∈ s.guards → s.lockFor key = lock) ∧
      ((s.pending key).isSome ↔ ∃ lock, (key, lock) ∈ s.guards) := by
  have h : s.Coordinated := by
    refine run.invariant (fun s a t h _ hstep => ?_) coordinated_initial
    cases a with
    | acquire key =>
      cases hstep
      exact h.acquire key
    | drop i =>
      obtain ⟨l, hl, rfl⟩ := Option.map_eq_some_iff.mp hstep
      exact h.dropGuard hl
  constructor
  · intro lock live
    rw [lockFor, (h.pending key lock).mpr live, Option.getD_some]
  · simp only [Option.isSome_iff_exists, h.pending]

/-- Of two guards of a key the older is dropped, and the other keeps the lock in the map. -/
theorem map_follows_guards_dropped :
    ∃ s, Reaches guardStep Always initial s ∧
      s.guards = [(2, 1), (1, 0)] ∧ ((s.pending 1).isSome ↔ ∃ lock, (1, lock) ∈ s.guards) := by
  refine exists_and_of_exec [.acquire 1, .acquire 2, .acquire 1, .drop 0] (by decide) ?_
  intro s run _
  exact (map_follows_guards run 1).2

/-! ## A guard that is kept -/

/-- A task past its second look holds the lock of its load, and a lock is held once. -/
structure Held (s : Loading κ) : Prop where
  coordinated : s.Coordinated
  locked : ∀ l ∈ s.loads, l.phase ≠ .waiting → l.holdsLock = true
  once : ∀ lock, s.loads.countP (fun l => l.lock = lock ∧ l.holdsLock) ≤ 1

theorem Held.step (h : s.Held) (hstep : s.step .named permits a = some t) : t.Held := by
  refine ⟨h.coordinated.step hstep, ?_, ?_⟩
  · intro m hm past
    cases Step.of_step hstep with
    | cache => exact h.locked m hm past
    | miss key =>
      rcases mem_append.mp hm with hm | hm
      · exact h.locked m hm past
      · obtain rfl := mem_singleton.mp hm
        exact absurd rfl past
    | locked i l hl =>
      rcases mem_or_eq_of_mem_set hm with hm | rfl
      · exact h.locked m hm past
      · rfl
    | permitted i l hl awaiting =>
      rcases mem_or_eq_of_mem_set hm with hm | rfl
      · exact h.locked m hm past
      · exact h.locked l (mem_of_getElem? hl) (by simp [awaiting])
    | ended => exact h.locked m (mem_of_mem_eraseIdx hm) past
  · intro lock
    cases Step.of_step hstep with
    | cache => exact h.once lock
    | miss key =>
      rw [acquire, countP_append]
      simpa using h.once lock
    | locked i l hl waiting free =>
      -- the lock was free, so the load that takes it is the only holder
      obtain ⟨lt, -⟩ := List.getElem?_eq_some_iff.mp hl
      rw [countP_set (h := lt)]
      by_cases own : lock = l.lock
      · have none_holds : s.loads.countP (fun l => l.lock = lock ∧ l.holdsLock) = 0 := by
          rw [countP_eq_zero]
          intro m hm
          simp only [Loading.locked, any_eq_false] at free
          simpa [own] using free m hm
        rw [none_holds, Nat.zero_sub, Nat.zero_add]
        split
        · exact Nat.le_refl 1
        · exact Nat.zero_le 1
      · have other : ¬ (l.lock = lock) := fun e => own e.symm
        have := h.once lock
        simp only [other, false_and, decide_false, Bool.false_eq_true, if_false]
        omega
    | permitted i l hl =>
      obtain ⟨lt, rfl⟩ := List.getElem?_eq_some_iff.mp hl
      have := h.once lock
      have there := boole_getElem_le_countP (p := fun l => l.lock = lock ∧ l.holdsLock) lt
      rw [countP_set (h := lt)]
      dsimp only
      omega
    | ended i =>
      exact Nat.le_trans ((eraseIdx_sublist s.loads i).countP_le) (h.once lock)

theorem Held.scans_le_one (h : s.Held) (key : κ) : s.scans key ≤ 1 := by
  cases hp : s.pending key with
  | none =>
    have none_scans : s.scans key = 0 := by
      rw [scans, countP_eq_zero]
      intro l hl both
      have both := of_decide_eq_true both
      have := h.coordinated.shared hl
      rw [both.1, hp] at this
      cases this
    omega
  | some lock =>
    refine Nat.le_trans (countP_mono_left fun l hl both => ?_) (h.once lock)
    have both := of_decide_eq_true both
    have shared := h.coordinated.shared hl
    rw [both.1, hp] at shared
    exact decide_eq_true ⟨(Option.some.inj shared).symm, h.locked l hl (by simp [both.2])⟩

/-- A guard that lives to the end of the loader excludes every second scan of its key. -/
theorem scans_le_one_of_named (run : Reaches (step · .named permits) Always initial s) (key : κ) :
    s.scans key ≤ 1 := by
  refine Held.scans_le_one ?_ key
  exact Reaches.invariant (fun _ _ _ inv _ hstep => inv.step hstep) run
    ⟨coordinated_initial, nofun, fun _ => Nat.zero_le 1⟩

/-! ## The permits -/

theorem permitsTaken_step (h : s.permitsTaken ≤ permits)
    (hstep : s.step binding permits a = some t) : t.permitsTaken ≤ permits := by
  unfold permitsTaken at h ⊢
  cases Step.of_step hstep with
  | cache => exact h
  | miss key =>
    rw [acquire, countP_append]
    simpa using h
  | locked i l hl waiting =>
    obtain ⟨lt, -⟩ := List.getElem?_eq_some_iff.mp hl
    rw [countP_set (h := lt)]
    simp only [reduceCtorEq, decide_false, Bool.false_eq_true, if_false]
    omega
  | permitted i l hl awaiting free =>
    -- a load takes a permit only while one is free
    obtain ⟨lt, -⟩ := List.getElem?_eq_some_iff.mp hl
    unfold permitsTaken at free
    rw [countP_set (h := lt)]
    simp only [decide_true, if_true]
    omega
  | ended i => exact Nat.le_trans ((eraseIdx_sublist s.loads i).countP_le) h

/-- There are never more scans than permits. -/
theorem scans_le_permits (run : Reaches (step · binding permits) Always initial s) (key : κ) :
    s.scans key ≤ permits := by
  have taken : s.permitsTaken ≤ permits :=
    run.invariant (I := fun s => s.permitsTaken ≤ permits)
      (fun _ _ _ inv _ hstep => permitsTaken_step inv hstep) (Nat.zero_le _)
  refine Nat.le_trans (countP_mono_left fun l _ both => ?_) taken
  exact decide_eq_true (of_decide_eq_true both).2

/-! ## The loaders of the source -/

/-- Two tasks miss the cache for one key, and both get the lock and a permit. -/
def overlappingLoads (key : κ) : List (LoadAction κ) :=
  [.call key, .lockGranted 0 false, .permitGranted 0, .call key, .lockGranted 1 false,
    .permitGranted 1]

/-- With the guard of the source and a second permit both tasks scan, and neither holds the lock. -/
theorem exec_overlappingLoads (key : κ) (n : ℕ) :
    ∃ s, exec (step · sourceBinding (n + 2)) Always initial (overlappingLoads key) = some s ∧
      s.scans key = 2 ∧ ∀ l ∈ s.loads, l.holdsLock = false := by
  refine ⟨⟨update (update (fun _ => none) key (some 0)) key (some 0), 1,
    [⟨key, 0, .scanning, false⟩, ⟨key, 0, .scanning, false⟩], fun _ => false⟩, ?_, ?_, ?_⟩
  · simp [exec, overlappingLoads, step, initial, acquire, lockFor, locked, permitsTaken,
      sourceBinding, Always]
  · simp [scans]
  · simp

end Loading

/-- **When the loads of one key exclude each other.** In every interleaving at most one task is in
the disk-scanning section for a key, exactly if the guard of the key's lock lives to the end of the
loader or `read_max_concurrent` is at most one. -/
theorem loads_exclusive_iff {κ : Type*} [DecidableEq κ] [Inhabited κ] (binding : GuardBinding)
    (readMaxConcurrent : ℕ) :
    (∀ s, Reaches (Loading.step · binding readMaxConcurrent) Always
      (Loading.initial : Loading κ) s →
      ∀ key, s.scans key ≤ 1) ↔ binding = .named ∨ readMaxConcurrent ≤ 1 := by
  constructor
  · intro exclusive
    cases binding with
    | named => exact .inl rfl
    | wildcard =>
      right
      by_contra more
      obtain ⟨n, rfl⟩ : ∃ n, readMaxConcurrent = n + 2 := ⟨readMaxConcurrent - 2, by omega⟩
      obtain ⟨s, ran, two, -⟩ := Loading.exec_overlappingLoads (default : κ) n
      have := exclusive s (reaches_of_exec _ ran) default
      omega
  · rintro (rfl | single) s run key
    · exact Loading.scans_le_one_of_named run key
    · exact Nat.le_trans (Loading.scans_le_permits run key) single

/-- With one permit, and the guard of the source: the second task scans behind the first. -/
theorem loads_exclusive_iff_single : ∃ s, Reaches (Loading.step · sourceBinding 1) Always
    (Loading.initial : Loading ℕ) s ∧ (s.scans 1 = 1 ∧ s.loads.length = 2) ∧
      ∀ key, s.scans key ≤ 1 := by
  refine exists_and_of_exec [.call 1, .lockGranted 0 false, .permitGranted 0, .call 1,
    .lockGranted 1 false, .call 1, .scanDone 0 true, .permitGranted 0] (by decide) ?_
  intro s run _
  exact (loads_exclusive_iff sourceBinding 1).mpr (.inr (Nat.le_refl 1)) s run

/-- Two writes of one aggregate miss the cache, with the default of 64 permits: both tasks scan for
the key, and neither holds its lock. -/
theorem overlapping_loads_scan_together :
    ∃ s, Reaches (Loading.step · sourceBinding 64) Always (Loading.initial : Loading ℕ) s ∧
      s.scans 1 = 2 ∧ ∀ l ∈ s.loads, l.holdsLock = false := by
  obtain ⟨s, ran, two⟩ := Loading.exec_overlappingLoads 1 62
  exact ⟨s, reaches_of_exec _ ran, two⟩

end Celeriant
