import GoPrep.Ports.NestedLoopJoin

/-!
# Which side a nested loop join puts its rows on

`blockNestedLoopJoin` calls its predicate on the outer row and the inner row,
and emits the outer row left.  `nestedLoopJoin` exchanges the two rows in both
places, so with one predicate the two functions select different pairs.

## Main results

* `nestedLoopJoin_eq` — the plain join emits the pairs of the exchanged
  predicate, inner row left.
* `blockNestedLoopJoin_perm_nestedLoopJoin_iff` — the two joins agree exactly
  when each pair the predicate accepts occurs as often across the tables as it
  does with the tables exchanged.
* `rangeJoin_differs` — they differ on the range join that the source names.
-/

namespace GoPrep.Ports.NestedLoopJoin

open GoPrep.Verified.EquiJoin
open GoPrep.Ports.JoinRows

/-- The plain join is a join on the exchanged predicate. -/
theorem nestedLoopJoin_eq (outer inner : List Row)
    (predicate : Row → Row → Bool) :
    nestedLoopJoin outer inner predicate =
      thetaJoin (fun outerRow innerRow => JoinedRow.mk innerRow outerRow)
        (fun outerRow innerRow => predicate innerRow outerRow)
        outer inner := by
  rw [nestedLoopJoin, foldl_foldl_eq_thetaJoin
    (fun outerRow innerRow => JoinedRow.mk innerRow outerRow)]
  rfl

/-- How often the plain join emits a pair. -/
theorem count_nestedLoopJoin (outer inner : List Row)
    (predicate : Row → Row → Bool) (a b : Row) :
    (nestedLoopJoin outer inner predicate).count ⟨a, b⟩ =
      if predicate a b then inner.count a * outer.count b else 0 := by
  have hswapped : Function.Injective2
      fun outerRow innerRow => JoinedRow.mk innerRow outerRow := by
    intro a b c d h
    exact (JoinedRow.mk_injective2 h).symm
  rw [nestedLoopJoin_eq, Nat.mul_comm]
  exact count_thetaJoin _ _ hswapped outer inner b a

/-- **When the block join agrees with the plain one.**  For all tables, every
predicate and every block size of at least one page the block join returns;
its pairs are those of the plain join, with the same multiplicities, if and
only if every pair that the predicate accepts occurs as often with its first
row in the outer table and its second in the inner one as the other way
round. -/
theorem blockNestedLoopJoin_perm_nestedLoopJoin_iff (outer inner : Table)
    (predicate : Row → Row → Bool) (blockSizePages : UInt64)
    (hB : 1 ≤ blockSizePages) (pageIOCount : Int) :
    ∃ blocked, (∀ fuel, outer.pages.length < fuel →
        blockNestedLoopJoin fuel outer inner predicate blockSizePages
          pageIOCount = some blocked) ∧
      (blocked.result.Perm
          (nestedLoopJoin outer.rows inner.rows predicate) ↔
        ∀ a b, predicate a b = true →
          outer.rows.count a * inner.rows.count b =
            inner.rows.count a * outer.rows.count b) := by
  obtain ⟨blocked, hrun, hblocked⟩ :=
    blockNestedLoopJoin_spec outer inner predicate hB pageIOCount
  refine ⟨blocked, hrun, ?_⟩
  have hcount : ∀ a b, blocked.result.count ⟨a, b⟩ =
      if predicate a b then outer.rows.count a * inner.rows.count b
      else 0 := by
    intro a b
    rw [hblocked.count_eq]
    exact count_thetaJoin _ predicate JoinedRow.mk_injective2 _ _ a b
  rw [List.perm_iff_count]
  constructor
  · intro hagree a b haccepts
    have hpair := hagree ⟨a, b⟩
    rwa [hcount, count_nestedLoopJoin, if_pos haccepts,
      if_pos haccepts] at hpair
  · rintro hbalanced ⟨a, b⟩
    rw [hcount, count_nestedLoopJoin]
    by_cases haccepts : predicate a b = true
    · rw [if_pos haccepts, if_pos haccepts]
      exact hbalanced a b haccepts
    · rw [if_neg haccepts, if_neg haccepts]

/-- `[](const Row& a, const Row& b) { return a.key >= b.key && a.key < b.key
+ 10; }`, the range join of the source. -/
def withinRange (a b : Row) : Bool :=
  a.key ≥ b.key && decide (a.key < b.key + 10)

private def events : Table := ⟨[[⟨5, "event"⟩]], by decide⟩

private def ranges : Table := ⟨[[⟨0, "range"⟩]], by decide⟩

/-- **The range join of the source differs.**  The block join finds the event
in its range; the plain join asks whether the range lies within the event. -/
theorem rangeJoin_differs :
    ∃ blocked,
      blockNestedLoopJoin 2 events ranges withinRange 1 0 = some blocked ∧
      blocked.result = [⟨⟨5, "event"⟩, ⟨0, "range"⟩⟩] ∧
      nestedLoopJoin events.rows ranges.rows withinRange = [] ∧
      ¬ blocked.result.Perm
        (nestedLoopJoin events.rows ranges.rows withinRange) := by
  refine ⟨⟨[⟨⟨5, "event"⟩, ⟨0, "range"⟩⟩], 2⟩, by decide, rfl, by decide, ?_⟩
  intro hperm
  have hlength := hperm.length_eq
  exact absurd hlength (by decide)

/-- Over two tables with the same rows the joins agree. -/
theorem blockNestedLoopJoin_perm_nestedLoopJoin_iff_ranges :
    ∃ blocked,
      blockNestedLoopJoin 2 ranges ranges withinRange 1 0 = some blocked ∧
      blocked.result.Perm
        (nestedLoopJoin ranges.rows ranges.rows withinRange) := by
  obtain ⟨blocked, hrun, hiff⟩ :=
    blockNestedLoopJoin_perm_nestedLoopJoin_iff ranges ranges withinRange 1
      (by decide) 0
  exact ⟨blocked, hrun 2 (by decide), hiff.mpr fun _ _ _ => rfl⟩

end GoPrep.Ports.NestedLoopJoin
