import Mathlib.Data.List.Basic

/-!
# A compare-and-swap object

One object of a linearizable store with two conditional writes: *create only*, which succeeds when
the object does not exist, and *if match*, which succeeds when the tag of the current version is the
one presented. Tags may be unique version numbers or digests of the contents; the object asks only
that one tag never stands for two different values, a field of the structure.

The object keeps all its versions, oldest first, each with the writer that stored it.

## Main results

* `CasObject.put_cases`: a write is refused and changes nothing, or appends one version
* `CasObject.admits_ifMatch`: an admitted conditional write follows a current version whose
  value is the one the presented tag was read with
-/

/-- One stored version of the object. -/
structure Version (V E W : Type) where
  value : V
  tag : E
  writer : W
  deriving DecidableEq

/-- Everything ever stored, oldest first; a tag determines the value it was handed out with. -/
structure CasObject (V E W : Type) where
  versions : List (Version V E W)
  tag_inj : ∀ v ∈ versions, ∀ w ∈ versions, v.tag = w.tag → v.value = w.value

/-- What a conditional write asks of the object. -/
inductive PutCondition (E : Type)
  | createOnly
  | ifMatch (tag : E)
  deriving DecidableEq

namespace CasObject

variable {V E W}

/-- The object before its first write. -/
def empty : CasObject V E W := ⟨[], by simp⟩

/-- The current version, if the object exists. -/
def current (o : CasObject V E W) : Option (Version V E W) := o.versions.getLast?

theorem mem_of_current {o : CasObject V E W} {v} (h : o.current = some v) :
    v ∈ o.versions :=
  List.mem_of_getLast? h

section Admission

variable [DecidableEq E]

/-- Whether a write under the condition is accepted. -/
def admits (o : CasObject V E W) : PutCondition E → Bool
  | .createOnly => o.current.isNone
  | .ifMatch tag =>
    match o.current with
    | some v => decide (v.tag = tag)
    | none => false

variable {o : CasObject V E W}

theorem admits_createOnly (h : o.admits .createOnly = true) : o.versions = [] :=
  List.getLast?_eq_none_iff.mp (Option.isNone_iff_eq_none.mp h)

/-- A conditional write that is admitted on a tag once read together with a value follows a
current version holding that value. -/
theorem admits_ifMatch {tag : E} (h : o.admits (.ifMatch tag) = true) {read}
    (hread : read ∈ o.versions) (htag : read.tag = tag) :
    ∃ before last, o.versions = before ++ [last] ∧ last.value = read.value := by
  simp only [admits] at h
  split at h
  next last hcur =>
    obtain ⟨before, hbefore⟩ := List.getLast?_eq_some_iff.mp hcur
    have hlast : last.tag = read.tag := (of_decide_eq_true h).trans htag.symm
    exact ⟨before, last, hbefore, o.tag_inj last (mem_of_current hcur) read hread hlast⟩
  next => cases h

end Admission

variable [DecidableEq V] [DecidableEq E]

/-- The tag may be handed out with the value: it does not stand for another one. -/
def TagFits (o : CasObject V E W) (value : V) (tag : E) : Prop :=
  ∀ v ∈ o.versions, v.tag = tag → v.value = value

instance (o : CasObject V E W) (value : V) (tag : E) : Decidable (o.TagFits value tag) :=
  inferInstanceAs (Decidable (∀ v ∈ o.versions, v.tag = tag → v.value = value))

/-- Append a version under the tag the store picked; undefined when the store cannot pick it. -/
def store (o : CasObject V E W) (value : V) (tag : E) (writer : W) : Option (CasObject V E W) :=
  if h : o.TagFits value tag then
    some ⟨o.versions ++ [⟨value, tag, writer⟩], by
      intro v hv w hw htag
      simp only [List.mem_append, List.mem_singleton] at hv hw
      rcases hv with hv | rfl <;> rcases hw with hw | rfl
      · exact o.tag_inj v hv w hw htag
      · exact h v hv htag
      · exact (h w hw htag.symm).symm
      · rfl⟩
  else none

/-- A conditional write, and whether it was accepted. -/
def put (o : CasObject V E W) (condition : PutCondition E) (value : V) (tag : E) (writer : W) :
    Option (CasObject V E W × Bool) :=
  if o.admits condition then (o.store value tag writer).map fun o' => (o', true)
  else some (o, false)

variable {o o' : CasObject V E W} {value : V} {tag : E} {writer : W}
  {condition : PutCondition E} {accepted : Bool}

theorem store_versions (h : o.store value tag writer = some o') :
    o'.versions = o.versions ++ [⟨value, tag, writer⟩] := by
  unfold store at h
  split at h
  · cases h; rfl
  · cases h

/-- A write is refused and changes nothing, or it is accepted and appends its version. -/
theorem put_cases (h : o.put condition value tag writer = some (o', accepted)) :
    (accepted = false ∧ o' = o) ∨
      (accepted = true ∧ o.admits condition = true ∧
        o'.versions = o.versions ++ [⟨value, tag, writer⟩]) := by
  unfold put at h
  split at h
  next hadm =>
    obtain ⟨o₁, hstore, heq⟩ := Option.map_eq_some_iff.mp h
    cases heq
    exact .inr ⟨rfl, hadm, store_versions hstore⟩
  next =>
    cases h
    exact .inl ⟨rfl, rfl⟩

end CasObject
