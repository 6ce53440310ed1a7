import GoPrep.Verified.Transition

/-!
# States that every run comes to

`Inevitable Step P s` says that no run from `s` can avoid `P`: none goes on
for ever outside it, and none stops before it.  It needs no fairness, so it
is the right notion for a system in which every step is progress.

## Main results

* `Inevitable.of_rank` — a rank that every step lowers, and a step to take
  wherever `P` does not hold yet, make `P` inevitable.
* `Inevitable.not_of_trap` — a trap outside `P` refutes it.
* `IsRun.length_le_rank` — the rank bounds the length of every run.
-/

namespace GoPrep.Verified.Transition

variable {σ α : Type*} {Step : σ → α → σ → Prop} {P Q : σ → Prop}

/-- Every maximal run from the state meets `P`. -/
inductive Inevitable (Step : σ → α → σ → Prop) (P : σ → Prop) : σ → Prop
  | here {s : σ} : P s → Inevitable Step P s
  | later {s : σ} : (∃ a t, Step s a t) →
      (∀ a t, Step s a t → Inevitable Step P t) → Inevitable Step P s

namespace Inevitable

/-- **Ranking rule.** -/
theorem of_rank {I : σ → Prop} (rank : σ → Nat)
    (hI : ∀ s a t, I s → Step s a t → I t)
    (hrank : ∀ s a t, I s → Step s a t → rank t < rank s)
    (hprogress : ∀ s, I s → ¬ P s → ∃ a t, Step s a t) {s : σ} (hs : I s) :
    Inevitable Step P s := by
  induction hn : rank s using Nat.strongRecOn generalizing s with
  | ind n ih =>
      by_cases hP : P s
      · exact .here hP
      · refine .later (hprogress s hs hP) fun a t hstep => ?_
        have hlower := hrank s a t hs hstep
        exact ih (rank t) (hn ▸ hlower) (hI s a t hs hstep) rfl

theorem mono (hPQ : ∀ s, P s → Q s) {s : σ} (h : Inevitable Step P s) :
    Inevitable Step Q s := by
  induction h with
  | here hP => exact .here (hPQ _ hP)
  | later hstep _ ih => exact .later hstep ih

/-- What every run comes to, and does not leave, is still ahead after part of
a run. -/
theorem of_reaches (hP : ∀ s a t, P s → Step s a t → P t) {s t : σ}
    (h : Inevitable Step P s) (hst : Reaches Step s t) :
    Inevitable Step P t := by
  induction hst with
  | refl => exact h
  | tail _ hstep ih =>
      cases ih with
      | here hs => exact .here (hP _ _ _ hs hstep)
      | later _ hnext => exact hnext _ _ hstep

/-- **Trap rule.**  In a trap outside `P` nothing leads to `P`. -/
theorem not_of_trap {D : σ → Prop} (hD : ∀ s a t, D s → Step s a t → D t)
    (houtside : ∀ s, D s → ¬ P s) {s : σ} (hs : D s) :
    ¬ Inevitable Step P s := by
  intro h
  induction h with
  | here hP => exact houtside _ hs hP
  | later hstep _ ih =>
      obtain ⟨a, t, hst⟩ := hstep
      exact ih a t hst (hD _ _ _ hs hst)

end Inevitable

/-- A rank that every step lowers bounds the length of the runs. -/
theorem IsRun.length_le_rank {I : σ → Prop} (rank : σ → Nat)
    (hI : ∀ s a t, I s → Step s a t → I t)
    (hrank : ∀ s a t, I s → Step s a t → rank t < rank s) {s : σ}
    {run : List (α × σ)} (hrun : IsRun Step s run) (hs : I s) :
    run.length ≤ rank s := by
  induction run generalizing s with
  | nil => exact Nat.zero_le _
  | cons entry rest ih =>
      obtain ⟨a, t⟩ := entry
      have hlower := hrank s a t hs hrun.1
      have hrest := ih hrun.2 (hI s a t hs hrun.1)
      rw [List.length_cons]
      omega

end GoPrep.Verified.Transition
