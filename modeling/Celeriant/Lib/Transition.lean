import Mathlib.Logic.Relation
import Mathlib.Order.Defs.PartialOrder

/-!
# Runs of a partial step function

A system is an executable partial step `step : σ → α → Option σ`: the action `a` is enabled in
`s` when `step s a` is defined. A run is any finite sequence of enabled actions; a run *under a
condition* `ok` takes only actions that meet `ok` in the state they are taken from. Conditions
are how a safety property with a known exception is stated: every state of every run whose
steps avoid the exception.

## Main results

* `Reaches.invariant`: what every step preserves holds in every state reached
* `Reaches.related`: a preorder that every step respects relates the ends of a run
* `reaches_of_exec`, `exists_of_exec`, `exists_step_of_exec`: a computed run is a run
-/

namespace Transition

variable {σ α : Type*}

/-- One enabled step that meets the condition. -/
def Next (step : σ → α → Option σ) (ok : σ → α → Prop) (s t : σ) : Prop :=
  ∃ a, ok s a ∧ step s a = some t

/-- Some run from `s` to `t` meets the condition at every step. -/
def Reaches (step : σ → α → Option σ) (ok : σ → α → Prop) : σ → σ → Prop :=
  Relation.ReflTransGen (Next step ok)

/-- The condition that every step meets. -/
def Always (_ : σ) (_ : α) : Prop := True

instance : DecidableRel (Always : σ → α → Prop) := fun _ _ => isTrue trivial

section Rules

variable {step : σ → α → Option σ} {ok : σ → α → Prop} {s t u : σ}

theorem Reaches.refl (s : σ) : Reaches step ok s s := Relation.ReflTransGen.refl

theorem Reaches.trans (h : Reaches step ok s t) (k : Reaches step ok t u) :
    Reaches step ok s u := Relation.ReflTransGen.trans h k

theorem Reaches.tail (h : Reaches step ok s t) {a} (hok : ok t a)
    (hstep : step t a = some u) : Reaches step ok s u :=
  Relation.ReflTransGen.tail h ⟨a, hok, hstep⟩

/-- A run under a stricter condition. -/
theorem Reaches.mono {ok'} (imp : ∀ s a, ok s a → ok' s a)
    (h : Reaches step ok s t) : Reaches step ok' s t := by
  induction h with
  | refl => exact Reaches.refl s
  | tail _ hnext ih =>
    obtain ⟨a, hok, hstep⟩ := hnext
    exact ih.tail (imp _ a hok) hstep

/-- **The invariant rule**: what holds at the start and is kept by every step that meets the
condition holds in every state reached. -/
theorem Reaches.invariant {I : σ → Prop} (keep : ∀ s a t, I s → ok s a → step s a = some t → I t)
    (h : Reaches step ok s t) (init : I s) : I t := by
  induction h with
  | refl => exact init
  | tail _ hnext ih =>
    obtain ⟨a, hok, hstep⟩ := hnext
    exact keep _ a _ ih hok hstep

/-- **The monotonicity rule**: a preorder that every step from an invariant state respects
relates the two ends of a run. -/
theorem Reaches.related {I : σ → Prop} {R : σ → σ → Prop} (rfl' : ∀ s, R s s)
    (trans' : ∀ s t u, R s t → R t u → R s u)
    (keep : ∀ s a t, I s → ok s a → step s a = some t → I t)
    (mono : ∀ s a t, I s → ok s a → step s a = some t → R s t)
    (h : Reaches step ok s t) (init : I s) : R s t := by
  induction h with
  | refl => exact rfl' s
  | tail hpre hnext ih =>
    obtain ⟨a, hok, hstep⟩ := hnext
    exact trans' _ _ _ ih (mono _ a _ (Reaches.invariant keep hpre init) hok hstep)

end Rules

/-- The run along a list of actions; undefined when an action is not enabled or does not meet
the condition. -/
def exec (step : σ → α → Option σ) (ok : σ → α → Prop) [DecidableRel ok] : σ → List α → Option σ
  | s, [] => some s
  | s, a :: as =>
    if ok s a then
      match step s a with
      | some t => exec step ok t as
      | none => none
    else none

variable {step : σ → α → Option σ} {ok : σ → α → Prop}

/-- A computed run is a run. -/
theorem reaches_of_exec [DecidableRel ok]
    {s t} (as : List α) (h : exec step ok s as = some t) : Reaches step ok s t := by
  induction as generalizing s with
  | nil =>
    cases h
    exact Reaches.refl _
  | cons a as ih =>
    simp only [exec] at h
    split at h
    next hok =>
      split at h
      next u hstep => exact Relation.ReflTransGen.head ⟨a, hok, hstep⟩ (ih h)
      next => cases h
    next => cases h

section Computed

variable [DecidableRel ok] {s : σ}

/-- What can be decided at the end of a computed run holds at the end of some run. -/
theorem exists_of_exec {P} [DecidablePred P] (as : List α)
    (h : (exec step ok s as).any (fun t => decide (P t)) = true) :
    ∃ t, Reaches step ok s t ∧ P t := by
  obtain ⟨t, run, holds⟩ := (Option.any_eq_true _ _).mp h
  exact ⟨t, reaches_of_exec as run, of_decide_eq_true holds⟩

/-- As before, with what follows in every state that a run reaches. -/
theorem exists_and_of_exec {P Q : σ → Prop} [DecidablePred P] (as : List α)
    (h : (exec step ok s as).any (fun t => decide (P t)) = true)
    (follows : ∀ t, Reaches step ok s t → P t → Q t) : ∃ t, Reaches step ok s t ∧ P t ∧ Q t := by
  obtain ⟨t, run, holds⟩ := exists_of_exec as h
  exact ⟨t, run, holds, follows t run holds⟩

/-- What can be decided about the step that follows a computed run. -/
theorem exists_step_of_exec {P : σ → σ → Prop} [∀ t u, Decidable (P t u)] {a} (as : List α)
    (h : (exec step ok s as).any (fun t => (step t a).any fun u => decide (P t u)) = true) :
    ∃ t u, Reaches step ok s t ∧ step t a = some u ∧ P t u := by
  obtain ⟨t, run, taken⟩ := (Option.any_eq_true _ _).mp h
  obtain ⟨u, hstep, holds⟩ := (Option.any_eq_true _ _).mp taken
  exact ⟨t, u, reaches_of_exec as run, hstep, of_decide_eq_true holds⟩

end Computed

end Transition
