import Celeriant.Replication.S3Catchup
import Celeriant.Lib.Transition

/-!
# Caught, and over a hole

`Caught` should mean that no peer file of the last listing ends beyond the local write cursor. The
verdict counts every processed path as dealt with, and a path is processed when its batch was
applied, but also when the file was given up: corrupt, with a gap, with mixed lease epochs, beaten
by another file with the same start, or without a common ancestor (`caught_over_foreign_file`). Two
more inputs lead there: a file whose name reaches further than its items, and a file that made the
node truncate what it had applied and then is gone from the next listing.

`HoleSafe` excludes these three. The invariant is that a processed file that reaches the next entry
or beyond is outlasted by an unprocessed one of the listing: then the round cannot end in Caught.

## Main results

* `caught_without_hole`: in every run whose steps meet the condition
* `caught_over_foreign_file`: without it
-/

namespace Celeriant

open HashChain Transition List

section Choice

variable {H B D P : Type*}

/-- What is read or given up was among the candidates. -/
theorem mem_of_readCovering {download order}
    {read : ReadCovering H B D P} (h : readCovering download order = some read) :
    (∀ c ∈ read.unreadable, c ∈ order) ∧ ∀ x ∈ read.downloaded, x.2 ∈ order := by
  induction order generalizing read with
  | nil =>
    cases h
    exact ⟨nofun, nofun⟩
  | cons c cs ih =>
    rw [readCovering] at h
    split at h
    · cases h
    split at h
    · cases h
    next rest hrest =>
      obtain ⟨unreadable, downloaded⟩ := ih hrest
      have later : ∀ x ∈ rest.downloaded, x.2 ∈ c :: cs :=
        fun x hx => mem_cons_of_mem _ (downloaded x hx)
      split at h
      · cases h
        refine ⟨fun x hx => ?_, later⟩
        rcases mem_cons.mp hx with rfl | hx
        · exact mem_cons_self
        · exact mem_cons_of_mem _ (unreadable x hx)
      · cases h
        refine ⟨fun x hx => mem_cons_of_mem _ (unreadable x hx), fun x hx => ?_⟩
        rcases mem_cons.mp hx with rfl | hx
        · exact mem_cons_self
        · exact later x hx

/-- Winners and losers were read. -/
theorem mem_of_dedupe (downloaded : List (FallbackBatch H B D × CatchupCandidate P)) :
    (∀ x ∈ (dedupe downloaded).byStart, x ∈ downloaded) ∧
      ∀ c ∈ (dedupe downloaded).losers, ∃ x ∈ downloaded, x.2 = c := by
  -- the accumulator of the fold holds only batches that were visited
  refine List.foldlRecOn downloaded Deduped.insert
    (motive := fun d => (∀ x ∈ d.byStart, x ∈ downloaded) ∧
      ∀ c ∈ d.losers, ∃ x ∈ downloaded, x.2 = c) ?_ ?_
  · exact ⟨fun x hx => absurd hx not_mem_nil, fun c hc => absurd hc not_mem_nil⟩
  rintro d ⟨winners, losers⟩ x read
  unfold Deduped.insert
  split
  · exact ⟨forall_mem_append.mpr ⟨winners, forall_mem_singleton.mpr read⟩, losers⟩
  next prev found =>
    split
    · refine ⟨forall_mem_map.mpr fun w hw => ?_, forall_mem_append.mpr ⟨losers, ?_⟩⟩
      · split
        · exact read
        · exact winners w hw
      · exact forall_mem_singleton.mpr
          ⟨prev, winners prev (mem_of_find?_eq_some found), rfl⟩
    · exact ⟨winners, forall_mem_append.mpr
        ⟨losers, forall_mem_singleton.mpr ⟨x, read, rfl⟩⟩⟩

/-- The best batch is one of them. -/
theorem mem_of_pickBest {batches}
    {best : FallbackBatch H B D × CatchupCandidate P} (h : pickBest batches = some best) :
    best ∈ batches := by
  refine List.foldlRecOn batches better (motive := fun o => ∀ x ∈ o, x ∈ batches) ?_ ?_ best h
  · intro x hx
    cases hx
  intro o held x visited y hy
  unfold better at hy
  split at hy
  · cases hy
    exact visited
  · split at hy
    · exact held y hy
    · cases hy
      exact visited

end Choice

namespace S3Catchup

variable {H B D X E F P : Type*} {cfg : CatchupConfig H B D X E P} {s t : S3Catchup H B D X E F P}

/-! ## The invariant -/

/-- A name that reaches the next entry or beyond is outlasted by an unprocessed file. -/
def Settled (s : S3Catchup H B D X E F P) (name : FallbackName) : Prop :=
  name.endWalSeq < s.nextWalSeq ∨
    ∃ u ∈ s.entries, u.path ∉ s.processedPaths ∧ name.endWalSeq ≤ u.endWalSeq

/-- Processed files are settled, and Caught has no hole. -/
structure HoleInv (cfg : CatchupConfig H B D X E P) (s : S3Catchup H B D X E F P) : Prop where
  /-- the candidates carry the end of their name -/
  named : ∀ c ∈ s.entries, ∃ name ∈ cfg.parseFallbackPath c.path, name.endWalSeq = c.endWalSeq
  next : s.nextWalSeq ≤ s.shardLog.log.walSeq + 1
  processed : ∀ p ∈ s.processedPaths, ∀ name ∈ cfg.parseFallbackPath p, s.Settled name
  caught : ∀ exit, s.phase = .finished exit → exit.completion = .caught → exit ≠ .liveTailYield →
    ∀ c ∈ s.lastListing, c.endWalSeq ≤ s.shardLog.log.walSeq

theorem holeInv_start (shardLog : ShardLog H B D X) (yielded : ℕ) :
    HoleInv cfg (start shardLog yielded : S3Catchup H B D X E F P) :=
  ⟨nofun, le_rfl, nofun, nofun⟩

variable {c best : CatchupCandidate P} {given : List (CatchupCandidate P)}
  {batch : FallbackBatch H B D} {a : Action H B D F P}
  {objects : List (S3ObjectRef P)} {exit : CatchupExit H E F} {divergence : Option (H × ℕ)}

theorem named_of_candidates (h : c ∈ cfg.candidates objects) :
    ∃ name ∈ cfg.parseFallbackPath c.path, name.endWalSeq = c.endWalSeq := by
  obtain ⟨obj, -, hc⟩ := mem_filterMap.mp h
  unfold CatchupConfig.candidate at hc
  split at hc
  · cases hc
  next name parsed =>
    split at hc
    · cases hc
      exact ⟨name, parsed, rfl⟩
    · cases hc

/-- Candidates with one path have one end. -/
theorem end_eq_of_path {d : CatchupCandidate P}
    (hc : ∃ name ∈ cfg.parseFallbackPath c.path, name.endWalSeq = c.endWalSeq)
    (hd : ∃ name ∈ cfg.parseFallbackPath d.path, name.endWalSeq = d.endWalSeq)
    (path : c.path = d.path) : c.endWalSeq = d.endWalSeq := by
  obtain ⟨name, parsed, ends⟩ := hc
  obtain ⟨name', parsed', ends'⟩ := hd
  rw [path] at parsed
  rw [← ends, ← ends', Option.some.inj (parsed.symm.trans parsed')]

/-- A step that leaves files, processed paths and position alone, and does not finish. -/
theorem HoleInv.same (h : HoleInv cfg s) (shardLog : t.shardLog = s.shardLog)
    (next : t.nextWalSeq = s.nextWalSeq) (processed : t.processedPaths = s.processedPaths)
    (entries : t.entries = s.entries)
    (caught : ∀ exit, t.phase = .finished exit → exit.completion = .caught →
      exit ≠ .liveTailYield → ∀ c ∈ t.lastListing, c.endWalSeq ≤ t.shardLog.log.walSeq) :
    HoleInv cfg t := by
  refine ⟨entries ▸ h.named, ?_, ?_, caught⟩
  · rw [next, shardLog]
    exact h.next
  · unfold Settled
    rw [next, processed, entries]
    exact h.processed

theorem HoleInv.finish_retry (h : HoleInv cfg s)
    (retry : exit.completion = .retry) : HoleInv cfg (s.finish exit) := by
  refine h.same rfl rfl rfl rfl ?_
  rintro _ ⟨⟩ caught
  rw [retry] at caught
  cases caught

theorem HoleInv.openRound (h : HoleInv cfg s)
    (kept : ∀ u ∈ s.entries, u.path ∉ s.processedPaths → s.nextWalSeq ≤ u.endWalSeq →
      ∃ v ∈ cfg.candidates objects, v.path ∉ s.processedPaths ∧ u.endWalSeq ≤ v.endWalSeq) :
    HoleInv cfg (s.openRound (cfg.candidates objects)) where
  named _ hc := named_of_candidates hc
  next := h.next
  processed p hp name parsed := by
    rcases h.processed p hp name parsed with below | ⟨u, hu, unprocessed, reaches⟩
    · exact .inl below
    · by_cases ahead : s.nextWalSeq ≤ u.endWalSeq
      · obtain ⟨v, hv, fresh, further⟩ := kept u hu unprocessed ahead
        exact .inr ⟨v, hv, fresh, le_trans reaches further⟩
      · exact .inl (lt_of_le_of_lt reaches (Nat.lt_of_not_le ahead))
  caught := nofun

/-! ## The condition -/

variable [DecidableEq H] [DecidableEq P]

/-- Whether a batch goes on with an entry that does not continue the local tip. -/
def diverges (s : S3Catchup H B D X E F P) (batch : FallbackBatch H B D) : Bool :=
  (newItems s.shardLog.log.walSeq batch.items).head?.any fun first =>
    first.metablock.previousTipHash ≠ s.shardLog.log.tipHash

/-- The files a pass gives up: the unreadable ones, the losers, and a best one that diverges when no
common ancestor is found. -/
def skips (s : S3Catchup H B D X E F P) (read : ReadCovering H B D P)
    (divergence : Option (H × ℕ)) : List (CatchupCandidate P) :=
  read.unreadable ++ (dedupe read.downloaded).losers ++
    match pickBest (dedupe read.downloaded).byStart, divergence with
    | some (batch, candidate), none => if s.diverges batch then [candidate] else []
    | _, _ => []

/-- Every one of the files ends no later than an unprocessed file that is not among them. -/
def Outlasted (s : S3Catchup H B D X E F P) (given : List (CatchupCandidate P)) : Prop :=
  ∀ c ∈ given, ∃ g ∈ s.entries,
    (g.path ∉ s.processedPaths ∧ g.path ∉ given.map (·.path)) ∧ c.endWalSeq ≤ g.endWalSeq

instance (given : List (CatchupCandidate P)) : Decidable (s.Outlasted given) := by
  unfold Outlasted
  infer_instance

/-- The name of a file does not reach beyond its items. -/
def NamedByItems (x : FallbackBatch H B D × CatchupCandidate P) : Prop :=
  ∃ item ∈ x.1.items, x.2.endWalSeq ≤ item.metablock.walSeq
  deriving Decidable

/-- What a step must avoid: a listing that lost sight of a file ahead; a file named beyond its
items; giving up a file that nothing outlasts. -/
def HoleSafe (cfg : CatchupConfig H B D X E P) (s : S3Catchup H B D X E F P) :
    Action H B D F P → Prop
  | .list objects =>
    ∀ listed ∈ objects, ∀ u ∈ s.entries, u.path ∉ s.processedPaths → s.nextWalSeq ≤ u.endWalSeq →
      ∃ v ∈ cfg.candidates listed, v.path ∉ s.processedPaths ∧ u.endWalSeq ≤ v.endWalSeq
  | .consume order download divergence _ _ =>
    ∀ read ∈ readCovering download order,
      (∀ x ∈ read.downloaded, NamedByItems x) ∧ s.Outlasted (s.skips read divergence)
  | .endRound _ => True

instance : DecidableRel (HoleSafe (F := F) cfg) := fun s a => by
  induction a using Action.casesOn <;> dsimp only [HoleSafe] <;> infer_instance

theorem unprocessed_of_verdict {visible ahead beyond role}
    (h : noProgressVerdict visible ahead role beyond ≠ .awaitMore) : ahead = false := by
  cases ahead with
  | false => rfl
  | true => exact absurd rfl h

omit [DecidableEq H] in
/-- A settled barrier has seen only files that are processed or of the round's listing. -/
theorem known_of_drain {relist processed seen} {rounds round last listing}
    (h : cfg.drainSettleBarrier (F := F) relist processed seen rounds round last =
      .ok (false, listing))
    (init : ∀ c ∈ last, (∃ name ∈ cfg.parseFallbackPath c.path, name.endWalSeq = c.endWalSeq) ∧
      (c.path ∈ processed ∨ c.path ∈ seen)) :
    ∀ c ∈ listing, (∃ name ∈ cfg.parseFallbackPath c.path, name.endWalSeq = c.endWalSeq) ∧
      (c.path ∈ processed ∨ c.path ∈ seen) := by
  induction rounds generalizing round last with
  | zero =>
    cases h
    exact init
  | succ rounds ih =>
    rw [CatchupConfig.drainSettleBarrier] at h
    split at h
    · cases h
    next objects _ =>
      dsimp only at h
      split at h
      · cases h
      next none =>
        refine ih h fun c hc => ⟨named_of_candidates hc, ?_⟩
        by_contra fresh
        exact none (any_eq_true.mpr ⟨c, hc, by simpa [not_or] using fresh⟩)

namespace HoleInv

variable (h : HoleInv cfg s)
include h

/-! ## A round opens -/

theorem list {objects} (safe : HoleSafe cfg s (.list objects)) :
    HoleInv cfg (s.list cfg objects) := by
  unfold S3Catchup.list
  split
  · exact h.finish_retry rfl
  have counted : HoleInv cfg
      { s with result := { s.result with rounds := s.result.rounds + 1 } } :=
    h.same rfl rfl rfl rfl h.caught
  cases objects with
  | none => exact counted.finish_retry rfl
  | some objects =>
    have opened := counted.openRound (safe objects rfl)
    dsimp only
    split
    · refine opened.same rfl rfl rfl rfl ?_
      rintro _ ⟨⟩ - other
      exact absurd rfl other
    · exact opened

/-! ## A pass of the inner loop -/

omit [DecidableEq H] in
/-- An unprocessed file, or one that outlasts it, is still unprocessed. -/
theorem outlasting (listed : ∀ c ∈ given, c ∈ s.entries)
    (outlasted : s.Outlasted given) {u : CatchupCandidate P} (hu : u ∈ s.entries)
    (fresh : u.path ∉ s.processedPaths) :
    ∃ g ∈ s.entries, g.path ∉ s.processedPaths ++ given.map (·.path) ∧
      u.endWalSeq ≤ g.endWalSeq := by
  by_cases dropped : u.path ∈ given.map (·.path)
  · obtain ⟨c, hc, path⟩ := mem_map.mp dropped
    obtain ⟨g, hg, ⟨unprocessed, kept⟩, further⟩ := outlasted c hc
    refine ⟨g, hg, fun mem => (mem_append.mp mem).elim unprocessed kept, ?_⟩
    rwa [← end_eq_of_path (h.named c (listed c hc)) (h.named u hu) path]
  · exact ⟨u, hu, fun mem => (mem_append.mp mem).elim fresh dropped, le_rfl⟩

omit [DecidableEq H] in
/-- Giving up files that are outlasted keeps every processed name settled. -/
theorem settled_of_given (listed : ∀ c ∈ given, c ∈ s.entries) (outlasted : s.Outlasted given) {p}
    (hp : p ∈ s.processedPaths ++ given.map (·.path)) {name}
    (parsed : name ∈ cfg.parseFallbackPath p) :
    name.endWalSeq < s.nextWalSeq ∨ ∃ u ∈ s.entries,
      u.path ∉ s.processedPaths ++ given.map (·.path) ∧ name.endWalSeq ≤ u.endWalSeq := by
  rcases mem_append.mp hp with old | new
  · refine (h.processed p old name parsed).imp_right ?_
    rintro ⟨u, hu, fresh, reaches⟩
    obtain ⟨g, hg, kept, further⟩ := h.outlasting listed outlasted hu fresh
    exact ⟨g, hg, kept, le_trans reaches further⟩
  · obtain ⟨c, hc, rfl⟩ := mem_map.mp new
    obtain ⟨g, hg, ⟨fresh, kept⟩, further⟩ := outlasted c hc
    obtain ⟨name', parsed', ends⟩ := h.named c (listed c hc)
    rw [Option.some.inj (parsed.symm.trans parsed'), ends]
    exact .inr ⟨g, hg, fun mem => (mem_append.mp mem).elim fresh kept, further⟩

omit [DecidableEq H] in
theorem giveUp (running : ∀ exit, s.phase ≠ .finished exit) (bytes : ℕ)
    (listed : ∀ c ∈ given, c ∈ s.entries)
    (outlasted : s.Outlasted given) : HoleInv cfg (s.giveUp bytes given) where
  named := h.named
  next := h.next
  processed _ hp _ parsed := h.settled_of_given listed outlasted hp parsed
  caught exit finished := absurd finished (running exit)

omit [DecidableEq H] [DecidableEq P] in
/-- A truncation: whatever was applied, the file that caused it reaches further. -/
theorem truncate (ahead : s.nextWalSeq ≤ best.endWalSeq)
    (unprocessed : ∃ u ∈ s.entries, u.path ∉ s.processedPaths ∧ best.endWalSeq ≤ u.endWalSeq)
    (ancestorHash : H) (divergentWalSeq : ℕ) (truncation : Option F) :
    HoleInv cfg (s.handleDivergence best (some (ancestorHash, divergentWalSeq)) truncation) := by
  cases truncation with
  | some e => exact h.finish_retry rfl
  | none =>
    refine ⟨h.named, le_rfl, fun p hp name parsed => .inr ?_, nofun⟩
    rcases h.processed p hp name parsed with below | outlasted
    · obtain ⟨u, hu, fresh, reaches⟩ := unprocessed
      exact ⟨u, hu, fresh, by omega⟩
    · exact outlasted

/-- An applied batch takes the position to the end of its name, and the log reaches it. -/
theorem applyBatch (running : ∀ exit, s.phase ≠ .finished exit) (hbest : best ∈ s.entries)
    (ahead : s.nextWalSeq ≤ best.endWalSeq) (items : NamedByItems (batch, best))
    (fsync : Option F) :
    HoleInv cfg
      (s.applyBatch cfg (newItems s.shardLog.log.walSeq batch.items) best fsync) := by
  unfold S3Catchup.applyBatch
  split
  · exact h.finish_retry rfl
  next queue applied =>
    cases fsync with
    | some e => exact h.finish_retry rfl
    | none =>
      refine ⟨h.named, ?_, ?_, fun exit finished => absurd finished (running exit)⟩
      · obtain ⟨item, hitem, reaches⟩ := items
        have stored : item.metablock.walSeq ≤ s.shardLog.log.walSeq + queue.length := by
          rcases mem_newItems_or_le (n := s.shardLog.log.walSeq) hitem with new | behind
          · exact walSeq_le_of_applied cfg.serialise applied new
          · omega
        simp only [ShardLog.sync, WalLog.walSeq_append, length_map]
        dsimp only at reaches
        omega
      · intro p hp name parsed
        rcases mem_append.mp hp with old | new
        · rcases h.processed p old name parsed with below | ⟨u, hu, fresh, reaches⟩
          · exact .inl (by dsimp only; omega)
          · by_cases same : u.path = best.path
            · have ends := end_eq_of_path (h.named u hu) (h.named best hbest) same
              exact .inl (by dsimp only; omega)
            · refine .inr ⟨u, hu, fun mem => ?_, reaches⟩
              exact (mem_append.mp mem).elim fresh fun last =>
                same (mem_singleton.mp last)
        · obtain rfl := mem_singleton.mp new
          obtain ⟨name', parsed', ends⟩ := h.named best hbest
          rw [Option.some.inj (parsed.symm.trans parsed')]
          exact .inl (by dsimp only; omega)

/-- The rest of a pass, once files were given up. -/
theorem consumeBest (running : ∀ exit, s.phase ≠ .finished exit) (hbest : best ∈ s.entries)
    (ahead : s.nextWalSeq ≤ best.endWalSeq) (items : NamedByItems (batch, best))
    (unprocessed : ∃ u ∈ s.entries, u.path ∉ s.processedPaths ∧ best.endWalSeq ≤ u.endWalSeq)
    (found : s.diverges batch → divergence ≠ none)
    (truncation fsync : Option F) :
    HoleInv cfg (s.consumeBest cfg batch best divergence truncation fsync) := by
  unfold S3Catchup.consumeBest
  split
  next none =>
    split
    · exact h.same rfl rfl rfl rfl nofun
    · -- nothing is new: the name ends at or below the cursor
      obtain ⟨item, hitem, reaches⟩ := items
      have behind : item.metablock.walSeq ≤ s.shardLog.log.walSeq := by
        rcases mem_newItems_or_le (n := s.shardLog.log.walSeq) hitem with new | behind
        · rw [none] at new
          cases new
        · exact behind
      dsimp only at reaches
      refine ⟨h.named, ?_, fun p hp name parsed => ?_,
        fun exit finished => absurd finished (running exit)⟩
      · dsimp only
        omega
      · rcases h.processed p hp name parsed with below | outlasted
        · exact .inl (by dsimp only; omega)
        · exact .inr outlasted
  next first rest new =>
    split
    next differs =>
      have diverges : s.diverges batch := by
        unfold S3Catchup.diverges
        rw [new]
        simpa using differs
      obtain ⟨⟨ancestorHash, divergentWalSeq⟩, rfl⟩ :=
        Option.ne_none_iff_exists'.mp (found diverges)
      exact h.truncate ahead unprocessed ancestorHash divergentWalSeq truncation
    · rw [← new]
      exact h.applyBatch running hbest ahead items fsync

/-- A best candidate that diverges without a common ancestor is one more file given up. -/
theorem noAncestor {bytes}
    (listed : ∀ c ∈ given ++ [best], c ∈ s.entries) (outlasted : s.Outlasted (given ++ [best]))
    (diverges : s.diverges batch) (truncation fsync : Option F) :
    HoleInv cfg ((s.giveUp bytes given).consumeBest cfg batch best none truncation fsync) := by
  have step : (s.giveUp bytes given).consumeBest cfg batch best none truncation fsync =
      (s.giveUp bytes given).handleDivergence best none truncation := by
    obtain ⟨first, head, differs⟩ := (Option.any_eq_true ..).mp diverges
    obtain ⟨rest, new⟩ := List.head?_eq_some_iff.mp head
    unfold S3Catchup.consumeBest
    have same : newItems (s.giveUp bytes given).shardLog.log.walSeq batch.items =
        first :: rest := new
    rw [same]
    exact if_pos (by simpa [S3Catchup.giveUp] using differs)
  rw [step]
  refine ⟨h.named, h.next, fun p hp name parsed => ?_, nofun⟩
  have paths : (s.giveUp bytes given).processedPaths ++ [best.path] =
      s.processedPaths ++ (given ++ [best]).map (·.path) := by
    simp [S3Catchup.giveUp]
  simp only [handleDivergence] at hp ⊢
  rw [paths] at hp ⊢
  exact h.settled_of_given listed outlasted hp parsed

theorem consume (phase : s.phase = .consuming) {order} (perm : order.Perm s.covering)
    {download : P → Download H B D} {truncation fsync : Option F}
    (safe : HoleSafe cfg s (.consume order download divergence truncation fsync)) :
    HoleInv cfg (s.consume cfg order download divergence truncation fsync) := by
  have running : ∀ exit, s.phase ≠ .finished exit := by
    rw [phase]
    exact nofun
  unfold S3Catchup.consume
  split
  · exact h.same rfl rfl rfl rfl nofun
  split
  · exact h.finish_retry rfl
  next read hread =>
    obtain ⟨named, outlasted⟩ := safe read hread
    obtain ⟨unreadable, downloaded⟩ := mem_of_readCovering hread
    obtain ⟨winners, losers⟩ := mem_of_dedupe read.downloaded
    have covers : ∀ c ∈ order, c ∈ s.entries ∧ s.nextWalSeq ≤ c.endWalSeq ∧
        c.path ∉ s.processedPaths := by
      intro c hc
      obtain ⟨listed, covering⟩ := mem_filter.mp (perm.mem_iff.mp hc)
      exact ⟨listed, (of_decide_eq_true covering).2⟩
    have listed : ∀ c ∈ read.unreadable ++ (dedupe read.downloaded).losers, c ∈ s.entries := by
      intro c hc
      rcases mem_append.mp hc with hc | hc
      · exact (covers c (unreadable c hc)).1
      · obtain ⟨x, hx, rfl⟩ := losers c hc
        exact (covers x.2 (downloaded x hx)).1
    unfold skips at outlasted
    dsimp only
    split
    next nothing =>
      rw [nothing, append_nil] at outlasted
      exact (h.giveUp running read.bytes listed outlasted).same rfl rfl rfl rfl nofun
    next batch best picked =>
      have hread := winners _ (mem_of_pickBest picked)
      obtain ⟨hbest, ahead, fresh⟩ := covers best (downloaded _ hread)
      rw [picked] at outlasted
      by_cases skipped : s.diverges batch ∧ divergence = none
      · obtain ⟨diverges, rfl⟩ := skipped
        dsimp only at outlasted
        rw [if_pos diverges] at outlasted
        exact h.noAncestor (forall_mem_append.mpr
          ⟨listed, forall_mem_singleton.mpr hbest⟩) outlasted diverges truncation fsync
      · have given : s.Outlasted (read.unreadable ++ (dedupe read.downloaded).losers) := by
          cases divergence with
          | none =>
            have fits : ¬ s.diverges batch := fun diverges => skipped ⟨diverges, rfl⟩
            dsimp only at outlasted
            rwa [if_neg fits, append_nil] at outlasted
          | some d =>
            rwa [append_nil] at outlasted
        exact (h.giveUp running read.bytes listed given).consumeBest running hbest ahead
          (named _ hread) (h.outlasting listed given hbest fresh)
          (fun diverges none => skipped ⟨diverges, none⟩) truncation fsync

/-! ## The end of a round -/

omit [DecidableEq H] in
/-- With nothing unprocessed ahead, every name that was seen or processed is behind the cursor. -/
theorem end_le (behind : s.unprocessedAtOrAhead = false)
    (hc : ∃ name ∈ cfg.parseFallbackPath c.path, name.endWalSeq = c.endWalSeq)
    (known : c.path ∈ s.processedPaths ∨ c.path ∈ s.entries.map (·.path)) :
    c.endWalSeq ≤ s.shardLog.log.walSeq := by
  have unprocessed : ∀ u ∈ s.entries, u.path ∉ s.processedPaths → u.endWalSeq < s.nextWalSeq := by
    intro u hu fresh
    by_contra ahead
    exact any_eq_false.mp behind u hu (decide_eq_true ⟨Nat.le_of_not_lt ahead, fresh⟩)
  have next := h.next
  suffices c.endWalSeq < s.nextWalSeq by omega
  by_cases processed : c.path ∈ s.processedPaths
  · obtain ⟨name, parsed, ends⟩ := hc
    rcases h.processed _ processed name parsed with below | ⟨u, hu, fresh, reaches⟩
    · omega
    · have := unprocessed u hu fresh
      omega
  · obtain ⟨u, hu, path⟩ := mem_map.mp (known.resolve_left processed)
    rw [← end_eq_of_path (h.named u hu) hc path]
    exact unprocessed u hu (path ▸ processed)

omit [DecidableEq H] in
theorem drain (relist : ℕ → Option (List (S3ObjectRef P)))
    (settles : exit.completion = .caught → s.unprocessedAtOrAhead = false) :
    HoleInv cfg (s.drain cfg relist exit) := by
  unfold S3Catchup.drain
  split
  · exact h.finish_retry rfl
  next late listing barrier =>
    split
    · -- a late file: another round, or the promotion yields
      unfold drainContinue
      dsimp only
      split
      · refine h.same rfl rfl rfl rfl ?_
        rintro _ ⟨⟩ caught
        cases caught
      · exact h.same rfl rfl rfl rfl nofun
    next stable =>
      refine h.same rfl rfl rfl rfl ?_
      rintro _ ⟨⟩ caught - c hc
      rw [Bool.not_eq_true] at stable
      subst stable
      obtain ⟨name, known⟩ := known_of_drain barrier
        (fun c hc => ⟨h.named c hc, .inr (mem_map_of_mem hc)⟩) c hc
      exact h.end_le (settles caught) name known

omit [DecidableEq H] in
theorem endRound
    (listing : s.lastListing = s.entries) (relist : ℕ → Option (List (S3ObjectRef P))) :
    HoleInv cfg (s.endRound cfg relist) := by
  unfold S3Catchup.endRound
  split
  · exact h.same rfl rfl rfl rfl nofun
  split
  · exact h.finish_retry rfl
  split
  next verdict =>
    have behind := unprocessed_of_verdict (by rw [verdict]; nofun)
    refine h.same rfl rfl rfl rfl ?_
    rintro _ ⟨⟩ - - c hc
    have hc : c ∈ s.entries := listing ▸ hc
    exact h.end_le behind (h.named c hc) (.inr (mem_map_of_mem hc))
  next verdict =>
    exact h.drain relist fun _ => unprocessed_of_verdict (by rw [verdict]; nofun)
  next verdict => exact h.drain relist nofun

end HoleInv

/-! ## Runs -/

/-- Inside a round, the last listing is the round's. -/
def RoundListing (s : S3Catchup H B D X E F P) : Prop :=
  s.phase = .consuming ∨ s.phase = .roundEnd → s.lastListing = s.entries

/-- The two listings of a state. -/
def listings (s : S3Catchup H B D X E F P) :
    List (CatchupCandidate P) × List (CatchupCandidate P) :=
  (s.lastListing, s.entries)

omit [DecidableEq P] in
theorem listings_consumeBest (batch : FallbackBatch H B D) (best : CatchupCandidate P)
    (divergence : Option (H × ℕ)) (truncation fsync : Option F) :
    (s.consumeBest cfg batch best divergence truncation fsync).listings = s.listings := by
  unfold consumeBest handleDivergence applyBatch
  repeat' split
  all_goals rfl

/-- A pass leaves the listing alone. -/
theorem listings_consume (order : List (CatchupCandidate P)) (download : P → Download H B D)
    (divergence : Option (H × ℕ)) (truncation fsync : Option F) :
    (s.consume cfg order download divergence truncation fsync).listings = s.listings := by
  unfold consume
  split
  · rfl
  split
  · rfl
  dsimp only
  split
  · rfl
  · exact listings_consumeBest ..

/-- What a step is, by the phase it is taken in. -/
inductive Step (cfg : CatchupConfig H B D X E P) (s : S3Catchup H B D X E F P) :
    Action H B D F P → S3Catchup H B D X E F P → Prop
  | list (objects : Option (List (S3ObjectRef P))) : s.phase = .listing →
      Step cfg s (.list objects) (s.list cfg objects)
  | consume (order download)
      (divergence) (truncation fsync) : s.phase = .consuming →
      order.Perm s.covering → Step cfg s (.consume order download divergence truncation fsync)
        (s.consume cfg order download divergence truncation fsync)
  | endRound (relist : ℕ → Option (List (S3ObjectRef P))) : s.phase = .roundEnd →
      Step cfg s (.endRound relist) (s.endRound cfg relist)

theorem Step.of_step (h : s.step cfg a = some t) : Step cfg s a t := by
  unfold step at h
  split at h
  · split at h
    · cases h
      exact .list _ ‹_›
    · cases h
  · split at h
    · split at h
      next perm =>
        cases h
        exact .consume _ _ _ _ _ ‹_› (isPerm_iff.mp perm)
      · cases h
    · cases h
  · split at h
    · cases h
      exact .endRound _ ‹_›
    · cases h

theorem RoundListing.step (h : s.RoundListing) (hstep : Step cfg s a t) :
    t.RoundListing := by
  cases hstep with
  | list objects =>
    unfold list
    dsimp only
    repeat' split
    all_goals first | exact fun _ => rfl | rintro (⟨⟨⟩⟩ | ⟨⟨⟩⟩)
  | consume order download divergence truncation fsync phase =>
    obtain ⟨last, entries⟩ := Prod.mk.inj (listings_consume (s := s) order download divergence
      truncation fsync)
    intro _
    rw [last, entries]
    exact h (.inl phase)
  | endRound relist =>
    unfold endRound drain drainContinue
    dsimp only
    repeat' split
    all_goals rintro (⟨⟨⟩⟩ | ⟨⟨⟩⟩)

theorem HoleInv.step (h : HoleInv cfg s) (round : s.RoundListing)
    (safe : HoleSafe cfg s a) (hstep : Step cfg s a t) : HoleInv cfg t := by
  cases hstep with
  | list objects => exact h.list safe
  | consume order download divergence truncation fsync phase perm => exact h.consume phase perm safe
  | endRound relist phase => exact h.endRound (round (.inr phase)) relist

end S3Catchup

/-! ## The result -/

section Result

variable {H B D X E F P : Type*} [DecidableEq H] [DecidableEq P]

/-- **Caught is never over a hole.** When an invocation whose steps all meet the condition ends in
Caught by any exit but the live-tail yield, no peer file of the last listing ends beyond the local
write cursor. -/
theorem caught_without_hole {cfg : CatchupConfig H B D X E P} {shardLog : ShardLog H B D X}
    {yielded : ℕ} {s : S3Catchup H B D X E F P}
    (run : Reaches (S3Catchup.step cfg) (S3Catchup.HoleSafe cfg) (.start shardLog yielded) s)
    {exit : CatchupExit H E F} (finished : s.phase = .finished exit)
    (caught : exit.completion = .caught) (other : exit ≠ .liveTailYield) :
    ∀ c ∈ s.lastListing, c.endWalSeq ≤ s.shardLog.log.walSeq := by
  have inv : s.HoleInv cfg ∧ s.RoundListing := by
    refine run.invariant (I := fun s => s.HoleInv cfg ∧ s.RoundListing) ?_
      ⟨S3Catchup.holeInv_start shardLog yielded, fun _ => rfl⟩
    rintro s a t ⟨inv, round⟩ safe hstep
    have hstep := S3Catchup.Step.of_step hstep
    exact ⟨inv.step round safe hstep, round.step hstep⟩
  exact inv.1.caught exit finished caught other

end Result

/-! ## Runs on one file -/

section OneFile

/-- The configuration of node 1 with the peer 2, at boot; a path is its name. -/
def bootConfig : CatchupConfig ℕ ℕ Unit Unit Unit FallbackName where
  hash := sumHash
  serialise := noCodec
  parseFallbackPath := some
  nodeId := 1
  peerNodeId := some 2
  maxCatchupGapBytes := none
  role := .boot
  catchupTargetWalSeq := 0

/-- The peer's file with the entries 1 and 2. -/
def peerFile : S3ObjectRef FallbackName := ⟨⟨0, 1, 2, 2⟩, 10⟩

def peerCandidate : CatchupCandidate FallbackName := ⟨⟨0, 1, 2, 2⟩, 10, 1, 2⟩

/-- The batch in that file. -/
def peerBatch : FallbackBatch ℕ ℕ Unit where
  leaseEpoch := 1
  uploadSequence := 0
  items := (stamp sumHash 0 0 ([7, 8].map plainContent)).map (⟨·, none⟩)

def emptyShardLog : ShardLog ℕ ℕ Unit Unit := ⟨⟨fun _ => none, 0, 0⟩, []⟩

/-- The file is applied, the second round finds nothing more. -/
def fileApplied : List (S3Catchup.Action ℕ ℕ Unit Unit FallbackName) :=
  [.list (some [peerFile]),
    .consume [peerCandidate] (fun _ => .data 10 (some peerBatch)) none none none,
    .consume [] (fun _ => .failed) none none none, .endRound fun _ => none,
    .list (some [peerFile]), .consume [] (fun _ => .failed) none none none, .endRound fun _ => none]

theorem caught_without_hole_applied :
    ∃ s : S3Catchup ℕ ℕ Unit Unit Unit Unit FallbackName,
      exec (S3Catchup.step bootConfig) (S3Catchup.HoleSafe bootConfig) (.start emptyShardLog 0)
        fileApplied = some s ∧
      s.result.batchesApplied = 1 ∧ s.phase = .finished .caughtNow ∧
      s.lastListing = [peerCandidate] ∧
      ∀ c ∈ s.lastListing, c.endWalSeq ≤ s.shardLog.log.walSeq :=
  ⟨_, rfl, rfl, rfl, rfl, caught_without_hole (reaches_of_exec _ (show exec
    (S3Catchup.step bootConfig) _ (.start emptyShardLog 0) fileApplied = some _ from rfl))
    rfl rfl nofun⟩

/-- A log with three entries of this node. -/
def threeEntryLog : ShardLog ℕ ℕ Unit Unit :=
  ShardLog.sync sumHash { emptyShardLog with
    pendingAppendQueue := [1, 2, 3].map fun body => ⟨none, none, 0, 0, plainContent body⟩ }

/-- The peer's entries 4 and 5, which do not follow entry 3. -/
def foreignBatch : FallbackBatch ℕ ℕ Unit where
  leaseEpoch := 1
  uploadSequence := 0
  items := (stamp sumHash 3 0 ([7, 8].map plainContent)).map (⟨·, none⟩)

/-- The only file of the peer has no common ancestor with the log. -/
def fileForeign : List (S3Catchup.Action ℕ ℕ Unit Unit FallbackName) :=
  [.list (some [⟨⟨0, 4, 5, 2⟩, 10⟩]),
    .consume [⟨⟨0, 4, 5, 2⟩, 10, 4, 5⟩] (fun _ => .data 10 (some foreignBatch)) none none none,
    .endRound fun _ => none]

/-- **A node is Caught with nothing applied although the peer's file reaches entry 5.** -/
theorem caught_over_foreign_file :
    ∃ s : S3Catchup ℕ ℕ Unit Unit Unit Unit FallbackName,
      Reaches (S3Catchup.step bootConfig) Always (.start threeEntryLog 0) s ∧
      s.phase = .finished .caughtNow ∧ s.result.completion = .caught ∧
      s.result.batchesApplied = 0 ∧ s.shardLog.log.walSeq = 3 ∧
      ∃ c ∈ s.lastListing, s.shardLog.log.walSeq < c.endWalSeq :=
  ⟨_, reaches_of_exec fileForeign rfl, rfl, rfl, rfl, rfl, by decide⟩

end OneFile

end Celeriant
