import Mathlib.Data.Nat.Find
import GoPrep.Ports.ConnectionPool

/-!
# Failed constructions of a connection pool

`NewPool` returns at the first error of the factory.  The connections it made
before stay in the channel of a pool that nobody gets hold of: none of them is
closed, unlike in `Release`, which closes a connection it cannot put back.  A
size that is refused, by the check or by `make`, is so before any factory call.

## Main results

* `spinUp_of_fails` — what the loop leaves behind when a factory call fails.
* `newPool_accountsFor_iff` — a construction closes what it made exactly when
  it made nothing or did not fail.
* `newPool_leaves_open` — a construction that fails and leaves a connection
  open.
-/

namespace GoPrep.Ports.ConnectionPool

variable {succeeds : Nat → Bool}

/-- The loop when all of its factory calls succeed. -/
theorem spinUp_of_succeeds {n : Nat} {p : Pool}
    (hall : ∀ i < n, succeeds (p.made + i) = true) :
    ∃ q, spinUp succeeds n p = .ok q := by
  induction n generalizing p with
  | zero => exact ⟨p, rfl⟩
  | succ n ih =>
      have hfirst : succeeds p.made = true := hall 0 (Nat.succ_pos n)
      rw [spinUp, if_pos hfirst]
      apply ih
      intro i hi
      show succeeds (p.made + 1 + i) = true
      rw [Nat.add_assoc, Nat.add_comm 1 i]
      exact hall (i + 1) (Nat.succ_lt_succ hi)

/-- **The loop when factory call `k` is the first to fail.**  The connections
made until then are in the channel, and no other field has changed. -/
theorem spinUp_of_fails {n k : Nat} {p : Pool} (hk : k < n)
    (hbefore : ∀ i < k, succeeds (p.made + i) = true)
    (hfails : succeeds (p.made + k) = false) :
    spinUp succeeds n p = .error (.creatingConnection { p with
      idle := p.idle ++ (List.range' p.made k).map some
      made := p.made + k }) := by
  induction k generalizing n p with
  | zero =>
      obtain ⟨n, rfl⟩ := Nat.exists_eq_succ_of_ne_zero (Nat.ne_of_gt hk)
      have hfirst : ¬ succeeds p.made = true := by
        rw [Nat.add_zero] at hfails
        rw [hfails]
        exact Bool.false_ne_true
      rw [spinUp, if_neg hfirst]
      simp
  | succ k ih =>
      obtain ⟨n, rfl⟩ :=
        Nat.exists_eq_succ_of_ne_zero (Nat.ne_zero_of_lt hk)
      have hshift : ∀ i, p.made + 1 + i = p.made + (i + 1) := by omega
      have hrest := ih (p := p.make.send (some p.made))
        (Nat.lt_of_succ_lt_succ hk)
        (fun i hi => hshift i ▸ hbefore (i + 1) (Nat.succ_lt_succ hi))
        (hshift k ▸ hfails)
      have hfirst : succeeds p.made = true := hbefore 0 (Nat.succ_pos k)
      rw [spinUp, if_pos hfirst, hrest]
      simp [Pool.make, Pool.send, List.range'_succ, hshift]

/-- The pool of `NewPool` when factory call `k` fails. -/
def Pool.left (maxSize k : Nat) : Pool where
  maxSize := maxSize
  idle := (List.range' 0 k).map some
  cancelled := false
  made := k
  closed := []

/-- **How `NewPool` ends**, for every size and every sequence of factory
outcomes. -/
theorem newPool_cases (maxCap : Nat) (maxSize : Int) (succeeds : Nat → Bool) :
    (maxSize ≤ 0 ∧ newPool maxCap maxSize succeeds = .error .invalidParam) ∨
    ((maxCap : Int) < maxSize ∧
      newPool maxCap maxSize succeeds = .error .makeChanSize) ∨
    ((∀ i < maxSize.toNat, succeeds i = true) ∧
      newPool maxCap maxSize succeeds = .ok (State.initial maxSize.toNat)) ∨
    (0 < maxSize ∧ maxSize ≤ maxCap ∧
      ∃ k < maxSize.toNat, (∀ i < k, succeeds i = true) ∧
        succeeds k = false ∧
        newPool maxCap maxSize succeeds =
          .error (.creatingConnection (.left maxSize.toNat k))) := by
  by_cases hsize : maxSize ≤ 0
  · exact .inl ⟨hsize, if_pos hsize⟩
  refine .inr ?_
  by_cases hcap : (maxCap : Int) < maxSize
  · exact .inl ⟨hcap, by rw [newPool, if_neg hsize, if_pos hcap]⟩
  refine .inr ?_
  by_cases hall : ∀ i < maxSize.toNat, succeeds i = true
  · obtain ⟨q, hq⟩ := spinUp_of_succeeds (p := .left maxSize.toNat 0)
      fun i hi => (Nat.zero_add i).symm ▸ hall i hi
    simp only [Pool.left, List.range'_zero, List.map_nil] at hq
    have hnew : newPool maxCap maxSize succeeds = .ok ⟨q, []⟩ := by
      rw [newPool, if_neg hsize, if_neg hcap, hq]
    obtain ⟨-, hinitial⟩ := eq_initial_of_newPool hnew
    exact .inl ⟨hall, hinitial ▸ hnew⟩
  · have hfails : ∃ i, i < maxSize.toNat ∧ succeeds i = false := by
      simpa using hall
    -- the loop stops at the first of the failing calls
    obtain ⟨hk, hfail⟩ := Nat.find_spec hfails
    have hbefore : ∀ i < Nat.find hfails, succeeds i = true := by
      intro i hi
      have hmin := Nat.find_min hfails hi
      simpa [Nat.lt_trans hi hk] using hmin
    refine .inr ⟨by omega, by omega, Nat.find hfails, hk, hbefore, hfail, ?_⟩
    have hspin := spinUp_of_fails (p := .left maxSize.toNat 0) hk
      (fun i hi => (Nat.zero_add i).symm ▸ hbefore i hi)
      ((Nat.zero_add _).symm ▸ hfail)
    simp only [Pool.left, List.range'_zero, List.map_nil, List.nil_append,
      Nat.zero_add] at hspin
    rw [newPool, if_neg hsize, if_neg hcap, hspin]
    rfl

/-- If this was a construction that failed, the connections it made are
closed; one whose size was refused has made none. -/
def AccountsFor : Except NewError State → Prop
  | .ok _ => True
  | .error .invalidParam => True
  | .error .makeChanSize => True
  | .error (.creatingConnection left) =>
      ∀ conn < left.made, some conn ∈ left.closed

/-- **A construction leaks nothing exactly when it made nothing or did not
fail**: when the size is refused, by `NewPool` or by `make`, the first factory
call fails, or none does. -/
theorem newPool_accountsFor_iff (maxCap : Nat) (maxSize : Int)
    (succeeds : Nat → Bool) :
    AccountsFor (newPool maxCap maxSize succeeds) ↔
      maxSize ≤ 0 ∨ (maxCap : Int) < maxSize ∨ succeeds 0 = false ∨
        ∀ i < maxSize.toNat, succeeds i = true := by
  rcases newPool_cases maxCap maxSize succeeds with ⟨hsize, hnew⟩ |
    ⟨hcap, hnew⟩ | ⟨hall, hnew⟩ | ⟨hpos, hle, k, hk, hbefore, hfail, hnew⟩
  · rw [hnew]
    exact iff_of_true trivial (.inl hsize)
  · rw [hnew]
    exact iff_of_true trivial (.inr (.inl hcap))
  · rw [hnew]
    exact iff_of_true trivial (.inr (.inr (.inr hall)))
  · rw [hnew]
    constructor
    · intro hclosed
      refine .inr (.inr (.inl ?_))
      cases k with
      | zero => exact hfail
      | succ k => exact absurd (hclosed 0 (Nat.succ_pos k)) List.not_mem_nil
    · rintro (hsize | hcap | hfirst | hall)
      · omega
      · omega
      · cases k with
        | zero => exact fun conn hconn => absurd hconn (Nat.not_lt_zero conn)
        | succ k => rw [hbefore 0 (Nat.succ_pos k)] at hfirst; cases hfirst
      · rw [hall k hk] at hfail
        cases hfail

/-- **A pool of two whose second factory call fails leaves its first connection
open.** -/
theorem newPool_leaves_open :
    ¬ ∀ (maxSize : Int) (succeeds : Nat → Bool),
      AccountsFor (newPool 1024 maxSize succeeds) := by
  intro h
  have hclosed := h 2 fun i => decide (i = 0)
  exact absurd (hclosed 0 Nat.zero_lt_one) List.not_mem_nil

end GoPrep.Ports.ConnectionPool
