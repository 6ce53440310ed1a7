import Mathlib.Data.List.Basic

/-!
# Labelled transition systems and their runs

A system is a relation `Step s a t`: in state `s` the action `a` may lead to
`t`.  Interleavings of concurrent parties are runs of such a relation, an
action naming the party that moves and what its environment answered.

Two views of a run are used.  `Reaches Step s t` forgets the path; it carries
the induction rules for invariants.  `IsRun Step s run` keeps the path as a
list of actions and reached states; it is what statements about every step or
every state of one run quantify over.  `Recording Step observe` carries along
what `observe` sees of the steps so far.
-/

namespace GoPrep.Verified.Transition

variable {σ α : Type*} {Step : σ → α → σ → Prop}

/-- `t` is reached from `s` by finitely many steps. -/
inductive Reaches (Step : σ → α → σ → Prop) (s : σ) : σ → Prop
  | refl : Reaches Step s s
  | tail {t : σ} {a : α} {u : σ} :
      Reaches Step s t → Step t a u → Reaches Step s u

theorem Reaches.single {s t : σ} {a : α} (h : Step s a t) :
    Reaches Step s t :=
  .tail .refl h

theorem Reaches.trans {s t u : σ} (hst : Reaches Step s t)
    (htu : Reaches Step t u) : Reaches Step s u := by
  induction htu with
  | refl => exact hst
  | tail _ hlast ih => exact ih.tail hlast

theorem Reaches.head {s t u : σ} {a : α} (h : Step s a t)
    (htu : Reaches Step t u) : Reaches Step s u :=
  (Reaches.single h).trans htu

/-- A run of a smaller system is a run of a larger one. -/
theorem Reaches.mono {Step' : σ → α → σ → Prop}
    (hstep : ∀ {s a t}, Step s a t → Step' s a t) {s t : σ}
    (h : Reaches Step s t) : Reaches Step' s t := by
  induction h with
  | refl => exact .refl
  | tail _ hlast ih => exact ih.tail (hstep hlast)

/-- **Invariant rule.**  What every step preserves, every run preserves. -/
theorem Reaches.invariant {I : σ → Prop}
    (hstep : ∀ s a t, I s → Step s a t → I t) {s t : σ}
    (h : Reaches Step s t) (hs : I s) : I t := by
  induction h with
  | refl => exact hs
  | tail _ hlast ih => exact hstep _ _ _ ih hlast

/-- **Two-state rule.**  A reflexive and transitive relation that holds across
every step holds across every run. -/
theorem Reaches.related {R : σ → σ → Prop} (hrefl : ∀ s, R s s)
    (htrans : ∀ {s t u}, R s t → R t u → R s u)
    (hstep : ∀ {s a t}, Step s a t → R s t) {s t : σ}
    (h : Reaches Step s t) : R s t := by
  induction h with
  | refl => exact hrefl s
  | tail _ hlast ih => exact htrans ih (hstep hlast)

/-! ## Records -/

/-- The system that also writes down what `observe` sees of each step. -/
def Recording {β : Type*} (Step : σ → α → σ → Prop)
    (observe : σ → α → List β) (p : σ × List β) (a : α) (q : σ × List β) :
    Prop :=
  Step p.1 a q.1 ∧ q.2 = p.2 ++ observe p.1 a

/-- Every run can be recorded. -/
theorem Reaches.recording {β : Type*} (observe : σ → α → List β) {s t : σ}
    (h : Reaches Step s t) (record : List β) :
    ∃ record', Reaches (Recording Step observe) (s, record) (t, record') := by
  induction h with
  | refl => exact ⟨record, .refl⟩
  | tail _ hlast ih =>
      obtain ⟨record', hrecord⟩ := ih
      exact ⟨_, hrecord.tail ⟨hlast, rfl⟩⟩

theorem Reaches.record {β : Type*} {observe : σ → α → List β}
    {p : σ × List β} {s t : σ} {record : List β} {a : α}
    (h : Reaches (Recording Step observe) p (s, record)) (hstep : Step s a t) :
    Reaches (Recording Step observe) p (t, record ++ observe s a) :=
  h.tail ⟨hstep, rfl⟩

/-- What was recorded is a run. -/
theorem Reaches.of_recording {β : Type*} {observe : σ → α → List β}
    {p q : σ × List β} (h : Reaches (Recording Step observe) p q) :
    Reaches Step p.1 q.1 := by
  induction h with
  | refl => exact .refl
  | tail _ hlast ih => exact ih.tail hlast.1

/-! ## Paths -/

/-- `run` lists the actions taken from `s` and the states they reached. -/
def IsRun (Step : σ → α → σ → Prop) : σ → List (α × σ) → Prop
  | _, [] => True
  | s, (a, t) :: rest => Step s a t ∧ IsRun Step t rest

/-- Every step of the run, taken from its own source state, satisfies `C`. -/
def StepsAll (C : σ → α → Prop) : σ → List (α × σ) → Prop
  | _, [] => True
  | s, (a, t) :: rest => C s a ∧ StepsAll C t rest

/-- Every state of the run after the first satisfies `P`. -/
def StatesAll (P : σ → Prop) (run : List (α × σ)) : Prop :=
  ∀ entry ∈ run, P entry.2

@[simp] theorem statesAll_nil (P : σ → Prop) :
    StatesAll (α := α) P [] := by
  simp [StatesAll]

@[simp] theorem statesAll_cons (P : σ → Prop) (a : α) (t : σ)
    (rest : List (α × σ)) :
    StatesAll P ((a, t) :: rest) ↔ P t ∧ StatesAll P rest := by
  simp [StatesAll]

/-- **Sufficiency rule.**  What steps that satisfy `C` preserve holds along
every run all of whose steps satisfy `C`. -/
theorem statesAll_of_stepsAll {I : σ → Prop} {C : σ → α → Prop}
    (hI : ∀ s a t, I s → C s a → Step s a t → I t) {s : σ}
    {run : List (α × σ)} (hrun : IsRun Step s run) (hs : I s)
    (hC : StepsAll C s run) : StatesAll I run := by
  induction run generalizing s with
  | nil => exact statesAll_nil I
  | cons entry rest ih =>
      obtain ⟨a, t⟩ := entry
      have ht := hI s a t hs hC.1 hrun.1
      exact (statesAll_cons I a t rest).mpr ⟨ht, ih hrun.2 ht hC.2⟩

/-- **Congruence rule.**  Conditions that agree in good states hold along the
same runs from them. -/
theorem stepsAll_congr {I : σ → Prop} {C D : σ → α → Prop}
    (hI : ∀ s a t, I s → Step s a t → I t)
    (hiff : ∀ s a, I s → (C s a ↔ D s a)) {s : σ} {run : List (α × σ)}
    (hrun : IsRun Step s run) (hs : I s) :
    StepsAll C s run ↔ StepsAll D s run := by
  induction run generalizing s with
  | nil => exact Iff.rfl
  | cons entry rest ih =>
      obtain ⟨a, t⟩ := entry
      have ht := hI s a t hs hrun.1
      rw [StepsAll, StepsAll, hiff s a hs, ih hrun.2 ht]

end GoPrep.Verified.Transition
