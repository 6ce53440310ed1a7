import Mathlib.Data.Fintype.Card
import Mathlib.Data.Set.Finite.List
import Mathlib.Logic.Relation
import Mathlib.Order.Basic

/-!
# Wait-for graphs

Threads hold mutexes and wait for others.  The mutexes are the nodes of a
graph with an edge from each one that a thread holds to the one it waits for.
A deadlock is a cycle in this graph: `exists_cycle_of_blocked` finds it, and
an order in which all threads take their mutexes rules it out.

## Main results

* `exists_cycle` — a finite set without a way out contains a cycle.
* `exists_cycle_of_blocked` — when nobody can go on, some threads wait in a
  circle.
* `acyclic_of_lt` — edges that all go up form no cycle.
-/

namespace GoPrep.Verified.WaitGraph

open Relation (ReflTransGen TransGen)

/-! ## Cycles -/

section

variable {α : Type*} {r : α → α → Prop}

/-- There is no way back to where one came from. -/
def Acyclic (r : α → α → Prop) : Prop := ∀ a, ¬ TransGen r a a

/-- The node after one on a cycle is on a cycle. -/
theorem cycle_next {a : α} (h : TransGen r a a) :
    ∃ b, r a b ∧ TransGen r b b := by
  obtain ⟨b, hab, hba⟩ := TransGen.head'_iff.mp h
  exact ⟨b, hab, .tail' hba hab⟩

theorem Acyclic.mono {r' : α → α → Prop} (h : Acyclic r)
    (hsub : ∀ a b, r' a b → r a b) : Acyclic r' :=
  fun a hcycle => h a (TransGen.mono hsub a a hcycle)

/-- **A finite set that every node leaves into the set contains a cycle.** -/
theorem exists_cycle {s : Set α} (hfinite : s.Finite) (hne : s.Nonempty)
    (hnext : ∀ a ∈ s, ∃ b ∈ s, r a b) : ∃ a ∈ s, TransGen r a a := by
  by_contra hacyclic
  push Not at hacyclic
  have := hfinite.to_subtype
  let after : s → s → Prop := fun b a => TransGen r a b
  have htrans : IsTrans s after := ⟨fun _ _ _ hba hcb => hcb.trans hba⟩
  have hirrefl : Std.Irrefl after := ⟨fun a => hacyclic a a.2⟩
  have hwf := Finite.wellFounded_of_trans_of_irrefl after
  -- a node with nothing after it, which has a next one all the same
  obtain ⟨a, ha⟩ := hne
  obtain ⟨last, -, hlast⟩ := hwf.has_min Set.univ ⟨⟨a, ha⟩, trivial⟩
  obtain ⟨b, hb, hstep⟩ := hnext last last.2
  exact hlast ⟨b, hb⟩ trivial (.single hstep)

/-- **Edges that all go up form no cycle.** -/
theorem acyclic_of_lt [Preorder α] (h : ∀ a b, r a b → a < b) :
    Acyclic r := by
  intro a hcycle
  have hup : ∀ {b}, TransGen r a b → a < b := by
    intro b hab
    induction hab with
    | single hstep => exact h _ _ hstep
    | tail _ hstep ih => exact lt_trans ih (h _ _ hstep)
  exact lt_irrefl a (hup hcycle)

end

/-! ## Blocked threads -/

variable {L τ : Type*} {holds : L → τ → Bool} {wants : τ → Option L}
  {ts : List τ}

/-- Some thread holds `l` and waits for `l'`. -/
def Waits (holds : L → τ → Bool) (wants : τ → Option L) (ts : List τ)
    (l l' : L) : Prop :=
  ∃ t ∈ ts, holds l t = true ∧ wants t = some l'

/-- **When nobody can go on, some threads wait in a circle.**  Each thread
that waits does so for a mutex that a thread holds, and each thread that holds
one waits. -/
theorem exists_cycle_of_blocked
    (hblocked : ∀ t ∈ ts, ∀ l, wants t = some l → ∃ u ∈ ts, holds l u = true)
    (hwaiting : ∀ t ∈ ts, ∀ l, holds l t = true → ∃ l', wants t = some l')
    (hne : ∃ t ∈ ts, ∃ l, wants t = some l) :
    ∃ l, TransGen (Waits holds wants ts) l l := by
  let wanted : Set L := {l | l ∈ ts.filterMap wants}
  have hmem : ∀ {t l}, t ∈ ts → wants t = some l → l ∈ wanted :=
    fun ht hl => List.mem_filterMap.mpr ⟨_, ht, hl⟩
  have hnext : ∀ l ∈ wanted, ∃ l' ∈ wanted, Waits holds wants ts l l' := by
    intro l hl
    obtain ⟨t, ht, hwants⟩ := List.mem_filterMap.mp hl
    obtain ⟨u, hu, hholds⟩ := hblocked t ht l hwants
    obtain ⟨l', hl'⟩ := hwaiting u hu l hholds
    exact ⟨l', hmem hu hl', u, hu, hholds, hl'⟩
  obtain ⟨t, ht, l, hl⟩ := hne
  obtain ⟨l, -, hcycle⟩ := exists_cycle (List.finite_toSet _)
    ⟨l, hmem ht hl⟩ hnext
  exact ⟨l, hcycle⟩

end GoPrep.Verified.WaitGraph
