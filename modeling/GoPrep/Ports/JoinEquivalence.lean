import GoPrep.Ports.NestedLoopJoin
import GoPrep.Ports.SortMergeJoin

/-!
# The four equality joins agree

Hash join, index nested loop join, sort-merge join and the block nested loop
join on key equality come from three source files and share no code beyond
the row types.  Each is related to `equalityJoin`, so they are related to one
another.
-/

namespace GoPrep.Ports.JoinEquivalence

open GoPrep.Verified.EquiJoin
open GoPrep.Verified.UnorderedMultimap
open GoPrep.Ports.JoinRows
open GoPrep.Ports.HashJoin
open GoPrep.Ports.SortMergeJoin
open GoPrep.Ports.NestedLoopJoin

/-- `[](const Row& a, const Row& b) { return a.key == b.key; }` -/
def keysEqual (a b : Row) : Bool := a.key == b.key

theorem predicateJoin_keysEqual (left right : List Row) :
    predicateJoin keysEqual left right = equalityJoin left right := by
  rw [equalityJoin, equiJoin_eq_thetaJoin]
  congr 1
  funext a b
  simp only [keysEqual, Bool.beq_eq_decide_eq, decide_eq_decide]
  exact eq_comm

/-- The output lists the left rows in the order of `left`, each row's pairs
contiguous and complete. -/
def GroupedByLeft (left right : List Row) (result : List JoinedRow) : Prop :=
  ∃ group : Row → List Row,
    (∀ r, (group r).Perm (matching Row.key right r.key)) ∧
    result = left.flatMap fun r => (group r).map (JoinedRow.mk r)

theorem hashJoin_groupedByLeft (order : EnumerationOrder Int Row)
    (R S : List Row) : GroupedByLeft R S (hashJoin order R S) :=
  ⟨probeMatches order S, probeMatches_perm order S, hashJoin_eq order R S⟩

theorem indexNestedLoopJoin_groupedByLeft (order : EnumerationOrder Int Row)
    (R S : List Row) : GroupedByLeft R S (indexNestedLoopJoin order R S) :=
  ⟨probeMatches order S, probeMatches_perm order S,
    indexNestedLoopJoin_eq order R S⟩

/-- **The four joins compute one relation.**  `outer` and `inner` are any two
row lists cut into pages in any way; the two multimaps may enumerate in
different orders.  The two sorting and looping joins return, and all four
results are permutations of each other. -/
theorem equality_joins_agree (orderHash orderIndex : EnumerationOrder Int Row)
    (outer inner : Table) (blockSizePages : UInt64)
    (hB : 1 ≤ blockSizePages) (pageIOCount : Int) :
    ∃ sorted R' S' blocked,
      sortMergeJoin outer.rows inner.rows = some (sorted, R', S') ∧
      (∀ fuel, outer.pages.length < fuel →
        blockNestedLoopJoin fuel outer inner keysEqual blockSizePages
          pageIOCount = some blocked) ∧
      (indexNestedLoopJoin orderIndex outer.rows inner.rows).Perm
        (hashJoin orderHash outer.rows inner.rows) ∧
      sorted.Perm (hashJoin orderHash outer.rows inner.rows) ∧
      blocked.result.Perm (hashJoin orderHash outer.rows inner.rows) ∧
      GroupedByLeft outer.rows inner.rows
        (hashJoin orderHash outer.rows inner.rows) ∧
      GroupedByLeft outer.rows inner.rows
        (indexNestedLoopJoin orderIndex outer.rows inner.rows) := by
  have hhash := (hashJoin_perm orderHash outer.rows inner.rows).symm
  obtain ⟨R', S', hsmj, hsorted, _, _⟩ :=
    sortMergeJoin_spec outer.rows inner.rows
  obtain ⟨blocked, hrun, hblocked⟩ :=
    blockNestedLoopJoin_spec outer inner keysEqual hB pageIOCount
  rw [predicateJoin_keysEqual] at hblocked
  exact ⟨mergeOrderJoin outer.rows inner.rows, R', S', blocked, hsmj, hrun,
    (indexNestedLoopJoin_perm orderIndex outer.rows inner.rows).trans hhash,
    hsorted.trans hhash, hblocked.trans hhash,
    hashJoin_groupedByLeft orderHash outer.rows inner.rows,
    indexNestedLoopJoin_groupedByLeft orderIndex outer.rows inner.rows⟩

/-- Three orders in two pages against two customers in one. -/
private def orderPages : Table :=
  ⟨[[⟨1, "order_A"⟩, ⟨2, "order_B"⟩], [⟨1, "order_C"⟩]], by decide⟩

private def customerPages : Table :=
  ⟨[[⟨1, "Alice"⟩, ⟨2, "Bob"⟩]], by decide⟩

theorem equality_joins_agree_orders :
    ∃ sorted R' S' blocked,
      sortMergeJoin orderPages.rows customerPages.rows =
        some (sorted, R', S') ∧
      (∀ fuel, 2 < fuel →
        blockNestedLoopJoin fuel orderPages customerPages keysEqual 1 0 =
          some blocked) ∧
      (indexNestedLoopJoin .insertion orderPages.rows customerPages.rows).Perm
        (hashJoin .insertion orderPages.rows customerPages.rows) ∧
      sorted.Perm (hashJoin .insertion orderPages.rows customerPages.rows) ∧
      blocked.result.Perm
        (hashJoin .insertion orderPages.rows customerPages.rows) ∧
      GroupedByLeft orderPages.rows customerPages.rows
        (hashJoin .insertion orderPages.rows customerPages.rows) ∧
      GroupedByLeft orderPages.rows customerPages.rows
        (indexNestedLoopJoin .insertion orderPages.rows customerPages.rows) :=
  equality_joins_agree .insertion .insertion orderPages customerPages 1
    (by decide) 0

end GoPrep.Ports.JoinEquivalence
