import Celeriant.Cache.LogOrder
import Celeriant.Cache.SchemaLoad
import Celeriant.Cache.StoredSeqs

/-!
# Loads that race with commits

A load puts what it found into the cache without looking at what is there. Where it saw exactly what
is durable now, committed on the read path, it puts what the newest metablock implies, and no stored
client sequence goes down. A load that was suspended while its key was written puts older state over
newer: a created aggregate becomes unknown, a client's sequence goes back.

## Main results

* `load_brings_newest`
* `suspended_load_replaces_newer`
-/

namespace Celeriant

open Option

/-- The actions that put something into a cache of the write path. -/
def WriteAction.isLoad {γ : Type} : WriteAction γ → Bool
  | .finishScan _ => true
  | .clientAbsent _ => true
  | .finishClientScan _ => true
  | .passAggregate _ _ => true
  | .passClient _ => true
  | _ => false

namespace WritePath

variable {γ : Type} [DecidableEq γ]

/-- An aggregate scan ends when exactly what it saw is durable, or committed on the read path; a
client scan when it saw every durable batch of its client; the negative lookup answers for a client
without one. -/
def seesNewest (s : WritePath γ) : WriteAction γ → Prop
  | .finishScan i =>
    ∀ scan ∈ s.scanAt i, ∀ e ∈ s.wal, e.walSeq ≤ s.scanBound scan.1.cachePath ↔ e.walSeq ≤ scan.2
  | .finishClientScan i =>
    ∀ scan ∈ s.clientScanAt i, ∀ e ∈ s.wal, (e.block.clientSeq scan.1).isSome = true →
      e.walSeq ≤ scan.2
  | .clientAbsent i =>
    ∀ req ∈ s.writeAt i .clientWaiting, s.clientLoaded req.clientId = false →
      (newestClientSeq req.clientId s.wal).isNone = true
  | _ => True

def Fresh (s : WritePath γ) (a : WriteAction γ) : Prop := s.keepsSeqs a ∧ s.seesNewest a

instance : DecidableRel (Fresh : WritePath γ → WriteAction γ → Prop) := fun s a => by
  induction a using WriteAction.casesOn <;> dsimp only [Fresh, seesNewest] <;> infer_instance

/-! ## What a fresh load leaves -/

section Loads

variable {s t : WritePath γ}

omit [DecidableEq γ] in
theorem enter_snapshotOn (op : AggregateOperation γ) (found : Bool) (path : CachePath) :
    (s.enter op found).snapshotOn path = s.snapshotOn path := by
  rcases s.enter_cases op found with ⟨tasks, same⟩ | ⟨keepFrom, -, -, -, -, trimmed⟩
  · rw [same]
    cases path <;> rfl
  · rw [trimmed]
    cases path <;> rfl

omit [DecidableEq γ] in
theorem enter_clients (op : AggregateOperation γ) (found : Bool) :
    (s.enter op found).clients = s.clients := by
  cases s.quiet_enter op found with
  | same _ clients => exact clients
  | queued _ _ _ _ clients _ => exact clients

/-- A fresh aggregate load leaves what the newest metablock implies. -/
theorem finishScan_newest {i op bound}
    (scan : s.scanAt i = some (op, bound)) (fresh : s.seesNewest (.finishScan i))
    (hstep : s.step (.finishScan i) = some t) :
    t.snapshotOn op.cachePath = some (.coldLoad (s.logUpTo (s.scanBound op.cachePath))) := by
  have fresh := fresh (op, bound) scan
  have seen : s.logUpTo bound = s.logUpTo (s.scanBound op.cachePath) := by
    rw [logUpTo, logUpTo, upTo, upTo]
    refine congrArg _ (List.filter_congr fun e mem => ?_)
    rw [decide_eq_decide]
    exact (fresh e mem).symm
  cases Step.of_step hstep with
  | scanned _ op' bound' task =>
    obtain ⟨rfl, rfl⟩ := Prod.mk.inj (some.inj ((scanAt_task task).symm.trans scan))
    rw [enter_snapshotOn, loadAggregate_snapshotOn]
    exact congrArg (fun log => some (MemSnapshotAggregate.coldLoad log)) seen

/-- A fresh client load leaves the sequence of the newest batch. -/
theorem finishClientScan_newest (ordered : s.Ordered) {i c bound}
    (scan : s.clientScanAt i = some (c, bound)) (fresh : s.seesNewest (.finishClientScan i))
    (hstep : s.step (.finishClientScan i) = some t) :
    t.clients c = some ((newestClientSeq c s.wal).getD 0, 0) := by
  have seen := newest_seen ordered (fresh (c, bound) scan)
  cases Step.of_step hstep with
  | clientScanned _ req bound' task =>
    obtain ⟨rfl, rfl⟩ := Prod.mk.inj (some.inj ((clientScanAt_task task).symm.trans scan))
    rw [← seen]
    exact if_pos rfl

/-- The negative lookup leaves the sequence of the newest batch: there is none. -/
theorem clientAbsent_newest {i req}
    (task : s.writeAt i .clientWaiting = some req) (absent : s.clientLoaded req.clientId = false)
    (fresh : s.seesNewest (.clientAbsent i)) (hstep : s.step (.clientAbsent i) = some t) :
    t.clients req.clientId = some ((newestClientSeq req.clientId s.wal).getD 0, 0) := by
  have none := fresh req task absent
  rw [isNone_iff_eq_none] at none
  simp only [step, task, absent, Bool.false_eq_true, if_false, some.injEq] at hstep
  rw [none, ← hstep]
  exact if_pos rfl

/-- A put that is not below the newest durable batch lowers no entry. -/
theorem SeqInv.put_le (h : s.SeqInv) {d x}
    (newest : (s.clients d).isSome = true → (newestClientSeq d s.wal).getD 0 ≤ x) {c p}
    (entry : s.clients c = some p) : AtLeast ((s.putClient d x).clients c) p.1 := by
  unfold putClient
  by_cases own : c = d
  · subst own
    simp only [if_true]
    exact ⟨_, rfl, le_trans (h.stored_le_newest entry) (newest (by rw [entry]; rfl))⟩
  · simp only [own, if_false]
    exact ⟨p, entry, le_rfl⟩

/-- The newest metablock is the newest batch of its client. -/
theorem newest_of_last {e b} (last : s.wal.getLast? = some e)
    (block : e.block = .eventBatch b) : newestClientSeq b.clientId s.wal = some b.maxClientSeq := by
  obtain ⟨older, wal⟩ := List.getLast?_eq_some_iff.mp last
  rw [newestClientSeq_eq, wal, List.map_append, batchSeqs_append, List.map_singleton, block,
    batchSeqs_batch, if_pos rfl, List.getLast?_concat]

/-- A fresh load lowers no stored sequence. -/
theorem SeqInv.load_le (h : s.SeqInv) (ordered : s.Ordered) {a} (load : a.isLoad = true)
    (fresh : s.seesNewest a) (hstep : s.step a = some t) {c p}
    (entry : s.clients c = some p) : AtLeast (t.clients c) p.1 := by
  have same {clients : γ → Option (ℕ × ℕ)} (eq : clients = s.clients) : AtLeast (clients c) p.1 :=
    ⟨p, eq ▸ entry, le_rfl⟩
  cases Step.of_step hstep with
  | scanned i op bound task =>
    rw [enter_clients]
    rcases (s.dropTask i).loadAggregate_clients op.cachePath bound with
      kept | ⟨write, e, b, newest, block, put⟩
    · exact same kept
    · -- on the write path the newest metablock seen is the newest of all
      have seen : ∀ e ∈ s.wal, e.walSeq ≤ bound := by
        have fresh := fresh (op, bound) (scanAt_task task)
        rw [write] at fresh
        exact fun e mem => (fresh e mem).mp (ordered.below e mem)
      have all : s.upTo bound = s.wal :=
        List.filter_eq_self.mpr fun e mem => decide_eq_true (seen e mem)
      rw [put]
      refine h.put_le (fun _ => ?_) entry
      rw [newest_of_last (all ▸ newest) block]
      exact le_rfl
  | clientLoadedBefore i req task loaded => exact same rfl
  | clientAbsent i req task absent =>
    refine h.put_le (fun stored => ?_) entry
    simp [clientLoaded, stored] at absent
  | clientScanned i req bound task =>
    refine h.put_le (fun _ => ?_) entry
    rw [← newest_seen ordered (fresh _ (clientScanAt_task task))]
    exact le_rfl
  | passed path j e b visited _ =>
    rcases s.passAggregate_clients path e b with kept | ⟨-, -, absent, put⟩
    · exact same kept
    · rw [put]
      exact h.put_le (fun stored => by simp [absent] at stored) entry
  | clientPassedBy j e b visited =>
    rcases s.putClientIfAbsent_clients b.clientId b.maxClientSeq with kept | ⟨absent, put⟩
    · exact same kept
    · rw [put]
      exact h.put_le (fun stored => by simp [absent] at stored) entry
  | _ => cases load

end Loads

end WritePath

open Transition in
/-- **A fresh load brings the newest state**: along fresh runs an aggregate load leaves the snapshot
that the newest durable metablock implies, committed on the read path; a client load leaves the
sequence of the newest durable batch of the client, and no load lowers a stored sequence. A schema
load leaves a schema that is cached, or records an absence when no registration is durable, or
caches the newest registration. -/
theorem load_brings_newest {γ σ ν : Type} [DecidableEq γ] (compile : σ → Except String ν) :
    (∀ (s t : WritePath γ) (a : WriteAction γ),
      Reaches WritePath.step WritePath.Fresh .init s → s.Fresh a → s.step a = some t →
      (∀ i op bound, a = .finishScan i → s.scanAt i = some (op, bound) →
        t.snapshotOn op.cachePath = some (.coldLoad (s.logUpTo (s.scanBound op.cachePath)))) ∧
      (∀ i c bound, a = .finishClientScan i → s.clientScanAt i = some (c, bound) →
        t.clients c = some ((WritePath.newestClientSeq c s.wal).getD 0, 0)) ∧
      (∀ i req, a = .clientAbsent i → s.writeAt i .clientWaiting = some req →
        s.clientLoaded req.clientId = false →
          t.clients req.clientId =
            some ((WritePath.newestClientSeq req.clientId s.wal).getD 0, 0)) ∧
      (a.isLoad = true → ∀ c p, s.clients c = some p → WritePath.AtLeast (t.clients c) p.1)) ∧
    (∀ (s t : SchemaPath σ ν) (a : SchemaAction σ),
      Reaches (SchemaPath.step compile) SchemaPath.Fresh .init s → s.Fresh a →
      s.step compile a = some t →
      (∀ i bound, a = .finishScan i → s.scanAt i = some bound → s.newestUpTo bound = none →
        t.schemaCache = s.schemaCache ∧
          (s.schemaCache.isSome = true ∧ t.noSchema = false ∨
            s.schemaCache = none ∧ t.noSchema = true ∧ s.wal = [])) ∧
      (∀ i found, a = .finishFetch i → s.fetchAt i = some found →
        t.schemaCache = some (SchemaPath.compiled compile found.schema) ∧ t.noSchema = false ∧
          s.wal.getLast? = some found)) := by
  refine ⟨fun s t a run fresh hstep => ?_, fun s t a run fresh hstep => ?_⟩
  · have seqs : s.SeqInv := Reaches.invariant
      (fun _ _ _ h fresh hstep => WritePath.SeqInv.step h fresh.1 hstep) run .init
    have ordered : s.Ordered := Reaches.invariant
      (fun _ _ _ h _ hstep => WritePath.Ordered.step h hstep) run .init
    refine ⟨?_, ?_, ?_, fun load c p entry => seqs.load_le ordered load fresh.2 hstep entry⟩
    · rintro i op bound rfl scan
      exact WritePath.finishScan_newest scan fresh.2 hstep
    · rintro i c bound rfl scan
      exact WritePath.finishClientScan_newest ordered scan fresh.2 hstep
    · rintro i req rfl task absent
      exact WritePath.clientAbsent_newest task absent fresh.2 hstep
  · have inv : s.Inv := Reaches.invariant
      (fun _ _ _ h _ hstep => SchemaPath.Inv.step h hstep) run .init
    refine ⟨?_, ?_⟩
    · rintro i bound rfl scan absent
      exact SchemaPath.finishScan_absent inv scan absent fresh hstep
    · rintro i found rfl fetch
      exact SchemaPath.finishFetch_newest inv fetch fresh hstep

open Transition in
/-- A write, its eviction and a second load of the aggregate and its client; a registration, its
eviction and a second load of the schema. -/
theorem load_brings_newest_reloaded :
    (∃ s t : WritePath Unit, Reaches WritePath.step WritePath.Fresh .init s ∧
      s.step (.finishScan 0) = some t ∧ s.writeSnapshot = none ∧
      t.writeSnapshot = some (.coldLoad (s.logUpTo s.tip)) ∧
        t.writeSnapshot = some (.found 1 1 1)) ∧
    (∃ s t : SchemaPath Unit Unit,
      Reaches (SchemaPath.step fun _ => .ok ()) SchemaPath.Fresh .init s ∧
      s.step (fun _ => .ok ()) (.finishFetch 0) = some t ∧ s.schemaCache = none ∧
      t.schemaCache = some (.validated ())) := by
  have fetched := load_brings_newest (γ := Unit) (σ := Unit) (ν := Unit) fun _ => .ok ()
  constructor
  · let req : WriteRequest Unit := ⟨(), [5], true, none, true⟩
    let actions : List (WriteAction Unit) :=
      [.start (.write req), .beginScan 0, .finishScan 0, .clientCheck 0, .beginClientScan 0,
        .finishClientScan 0, .validate 0 true, .prepare 0 true, .capture,
        .syncSucceeded .fullCommit false [2] 1, .evictWrite, .start (.write req), .beginScan 0]
    obtain ⟨s, t, run, hstep, evicted, bound, path, fresh, loaded⟩ : ∃ s t,
        Reaches WritePath.step WritePath.Fresh .init s ∧ s.step (.finishScan 0) = some t ∧
        s.writeSnapshot = none ∧ (s.scanAt 0).map (·.2) = some 4 ∧
        (s.scanAt 0).map (·.1.cachePath) = some .write ∧ s.Fresh (.finishScan 0) ∧
        t.writeSnapshot = some (.found 1 1 1) := exists_step_of_exec actions (by decide +kernel)
    obtain ⟨⟨op, _⟩, scan, rfl⟩ := map_eq_some_iff.mp bound
    rw [scan, map_some, some.injEq] at path
    have newest := (fetched.1 s t _ run fresh hstep).1 0 op 4 rfl scan
    rw [path] at newest
    exact ⟨s, t, run, hstep, evicted, newest, loaded⟩
  · let actions : List (SchemaAction Unit) :=
      [.start (some ()), .beginScan 0, .finishScan 0, .enter 0, .capture, .syncSucceeded true 0,
        .evictSchema, .start none, .beginScan 0, .finishScan 0]
    obtain ⟨s, t, run, hstep, evicted, fetch, fresh⟩ : ∃ s t : SchemaPath Unit Unit,
        Reaches (SchemaPath.step fun _ => .ok ()) SchemaPath.Fresh .init s ∧
        s.step (fun _ => .ok ()) (.finishFetch 0) = some t ∧ s.schemaCache = none ∧
        s.fetchAt 0 = some ⟨1, ()⟩ ∧ s.Fresh (.finishFetch 0) :=
      exists_step_of_exec actions (by decide +kernel)
    exact ⟨s, t, run, hstep, evicted, ((fetched.2 s t _ run fresh hstep).2 0 _ rfl fetch).1⟩

open Transition in
/-- Loads that are suspended while their key is written: a created aggregate becomes unknown, a
stored client sequence goes back to none, and a committed schema is recorded as absent. -/
theorem suspended_load_replaces_newer :
    (∃ s t : WritePath Unit, Reaches WritePath.step Always .init s ∧
      s.step (.finishScan 0) = some t ∧ s.writeSnapshot = some (.found 1 1 1) ∧
      t.writeSnapshot = some .notFound) ∧
    (∃ s t : WritePath Unit, Reaches WritePath.step Always .init s ∧
      s.step (.finishClientScan 0) = some t ∧ s.clients () = some (5, 1) ∧
      t.clients () = some (0, 0)) ∧
    (∃ s t : SchemaPath Unit Unit, Reaches (SchemaPath.step fun _ => .ok ()) Always .init s ∧
      s.step (fun _ => .ok ()) (.finishScan 0) = some t ∧ s.wal = [⟨1, ()⟩] ∧ s.readCursor = 1 ∧
      t.schemaCache = none ∧ t.noSchema = true) := by
  let req : WriteRequest Unit := ⟨(), [5], true, none, true⟩
  refine ⟨?_, ?_, ?_⟩
  · let actions : List (WriteAction Unit) :=
      [.start (.write req), .beginScan 0, .start (.write req), .beginScan 1, .finishScan 1,
        .clientCheck 1, .beginClientScan 1, .finishClientScan 1, .validate 1 true, .prepare 1 true,
        .capture, .syncSucceeded .fullCommit false [] 0]
    exact exists_step_of_exec actions (by decide +kernel)
  · let actions : List (WriteAction Unit) :=
      [.start (.write req), .beginScan 0, .finishScan 0, .clientCheck 0, .beginClientScan 0,
        .start (.write req), .clientCheck 1, .beginClientScan 1, .finishClientScan 1,
        .validate 1 true, .prepare 1 true, .capture, .syncSucceeded .fullCommit false [] 0]
    exact exists_step_of_exec actions (by decide +kernel)
  · let actions : List (SchemaAction Unit) :=
      [.start none, .beginScan 0, .start (some ()), .beginScan 1, .finishScan 1, .enter 1, .capture,
        .syncSucceeded true 0, .evictSchema]
    exact exists_step_of_exec actions (by decide +kernel)

end Celeriant
