import GoPrep.Verified.ThreadTable

/-!
# Wakeups under way

A condition variable loses no wakeup if, whenever a thread sleeps although
`needed` threads could go on, at least as many have been woken and will look
again.  `Enough` counts the woken threads, or those that are about to wake
all: it asks for nothing when nobody sleeps.

## Main results

* `Enough.set` — a thread that moves without falling asleep may use up as many
  wakeups as it leaves less to be needed.
* `Enough.notifyOne` — waking one sleeper pays for one more.
-/

namespace GoPrep.Verified.Wakeups

open GoPrep.Verified.ThreadTable

variable {τ : Type*} {asleep woken : τ → Bool} {ts ts' : List τ}
variable {needed : Nat}

/-- Nobody sleeps, or `needed` threads have been woken. -/
def Enough (asleep woken : τ → Bool) (ts : List τ) (needed : Nat) : Prop :=
  (∀ t ∈ ts, asleep t = false) ∨ needed ≤ ts.countP woken

namespace Enough

theorem zero (asleep woken : τ → Bool) (ts : List τ) :
    Enough asleep woken ts 0 :=
  .inr (Nat.zero_le _)

theorem mono (h : Enough asleep woken ts needed) {needed' : Nat}
    (hle : needed' ≤ needed) : Enough asleep woken ts needed' :=
  h.imp_right fun henough => Nat.le_trans hle henough

/-- A woken thread is enough for one. -/
theorem of_mem {t : τ} (ht : t ∈ ts) (hwoken : woken t = true) :
    Enough asleep woken ts 1 :=
  .inr (List.countP_pos_iff.mpr ⟨t, ht, hwoken⟩)

/-- A thread that begins awake. -/
theorem concat (h : Enough asleep woken ts needed) {new : τ}
    (hnew : asleep new = false) : Enough asleep woken (ts ++ [new]) needed := by
  rcases h with hnobody | henough
  · exact .inl (forall_mem_concat hnobody hnew)
  · refine .inr (Nat.le_trans henough ?_)
    rw [List.countP_append]
    exact Nat.le_add_right _ _

/-- **A thread that moves and stays awake** takes its wakeup along. -/
theorem set (h : Enough asleep woken ts needed) {i : Nat} {old new : τ}
    (hold : ts[i]? = some old) (hnew : asleep new = false) {needed' : Nat}
    (hcount : 0 < needed' → needed' + (if woken old then 1 else 0) ≤
      needed + (if woken new then 1 else 0)) :
    Enough asleep woken (ts.set i new) needed' := by
  rcases h with hnobody | henough
  · exact .inl (forall_mem_set hnobody hnew)
  · have hset := countP_set woken hold new
    rcases Nat.eq_zero_or_pos needed' with rfl | hpos
    · exact zero asleep woken _
    · have hle := hcount hpos
      exact .inr (by omega)

/-- A thread that is woken for something else. -/
theorem wakeOne (h : Enough asleep woken ts needed) (wake : τ → τ)
    (hasleep : ∀ t, asleep (wake t) = true → asleep t = true)
    (hwoken : ∀ t, woken t = true → woken (wake t) = true) {i : Nat} {t : τ}
    (ht : ts[i]? = some t) :
    Enough asleep woken (ts.set i (wake t)) needed := by
  rcases h with hnobody | henough
  · refine .inl (forall_mem_set hnobody ?_)
    have hold := hnobody t (List.mem_of_getElem? ht)
    cases hnew : asleep (wake t) with
    | false => rfl
    | true => exact absurd (hold.symm.trans (hasleep t hnew)) (by simp)
  · have hset := countP_set woken ht (wake t)
    have hle : (if woken t then 1 else 0) ≤
        (if woken (wake t) then 1 else 0) := by
      split
      next hold => exact Nat.le_of_eq (if_pos (hwoken t hold)).symm
      · exact Nat.zero_le _
    exact .inr (by omega)

theorem wakeAll (h : Enough asleep woken ts needed) (wake : τ → τ)
    (hasleep : ∀ t, asleep (wake t) = true → asleep t = true)
    (hwoken : ∀ t, woken t = true → woken (wake t) = true) :
    Enough asleep woken (ts.map wake) needed := by
  rcases h with hnobody | henough
  · refine .inl (forall_mem_map hnobody fun t ht => ?_)
    cases hnew : asleep (wake t) with
    | false => rfl
    | true => exact absurd (ht.symm.trans (hasleep t hnew)) (by simp)
  · refine .inr (Nat.le_trans henough ?_)
    rw [List.countP_map]
    exact List.countP_mono_left fun t _ => hwoken t

/-- **Waking one sleeper** pays for one more. -/
theorem notifyOne (h : Enough asleep woken ts needed) {wake : τ → τ}
    (hwake : ∀ t, asleep t = true →
      woken t = false ∧ woken (wake t) = true)
    (hnotify : NotifyOne asleep wake ts ts') :
    Enough asleep woken ts' (needed + 1) := by
  cases hnotify with
  | nobody hnobody => exact .inl hnobody
  | one i t ht hasleep =>
      rcases h with hnobody | henough
      · rw [hnobody t (List.mem_of_getElem? ht)] at hasleep
        cases hasleep
      · obtain ⟨hold, hnew⟩ := hwake t hasleep
        have hset := countP_set woken ht (wake t)
        simp only [hold, hnew, Bool.false_eq_true, if_false, if_true] at hset
        exact .inr (by omega)

/-- A sleeper finds a wakeup under way. -/
theorem exists_woken (h : Enough asleep woken ts needed) {t : τ} (ht : t ∈ ts)
    (hasleep : asleep t = true) (hpos : 0 < needed) :
    ∃ t ∈ ts, woken t = true := by
  rcases h with hnobody | henough
  · rw [hnobody t ht] at hasleep
    cases hasleep
  · exact List.countP_pos_iff.mp (Nat.lt_of_lt_of_le hpos henough)

end Enough

end GoPrep.Verified.Wakeups
