import Mathlib.Algebra.Ring.Nat
import GoPrep.Verified.Subrange
import GoPrep.Ports.HashJoin

/-!
# Plain, block and index nested loop joins

`join-practice/nested-loop-join-variations.cpp`.  The plain join scans the
inner rows once per outer row; the block join reads the outer table in blocks
of `blockSizePages` pages and scans the whole inner table once per block; the
index join probes a multimap over the inner rows.

The block loop advances `blockStart` by a caller-supplied `size_t` with
wrap-around, so nothing in its text makes it stop.  It runs on fuel, and
`none` means that the fuel was not enough.

## Main results

* `blockNestedLoopJoin_spec` — for every block size of at least one page the
  loop stops within one iteration per outer page, and returns the join on the
  predicate up to order.
* `indexNestedLoopJoin_eq` — the index join groups its output by outer row.
-/

namespace GoPrep.Ports.NestedLoopJoin

open GoPrep.Verified.EquiJoin
open GoPrep.Verified.Subrange
open GoPrep.Verified.UnorderedMultimap
open GoPrep.Ports.JoinRows
open GoPrep.Ports.HashJoin

/-! ## The plain nested loop join -/

/-- The predicate is called on the inner row first, and the inner row becomes
the left one. -/
def nestedLoopJoin (outer inner : List Row) (predicate : Row → Row → Bool) :
    List JoinedRow :=
  outer.foldl (fun res outerRow =>
    inner.foldl (fun res innerRow =>
      if predicate innerRow outerRow then res ++ [⟨innerRow, outerRow⟩]
      else res) res) []

/-! ## Tables -/

/-- A sequence of pages.  A `std::vector` never holds more elements than a
pointer difference can count. -/
structure Table where
  pages : List (List Row)
  size_lt : pages.length < 2 ^ 63

/-- The rows of a table, page after page. -/
def Table.rows (table : Table) : List Row := table.pages.flatten

/-- `table.size()`. -/
def Table.size (table : Table) : UInt64 := UInt64.ofNat table.pages.length

theorem Table.toNat_size (table : Table) :
    table.size.toNat = table.pages.length := by
  have h := table.size_lt
  rw [Table.size, UInt64.toNat_ofNat']
  exact Nat.mod_eq_of_lt (by omega)

theorem Table.lt_size_iff {table : Table} {n : UInt64} :
    n < table.size ↔ n.toNat < table.pages.length := by
  rw [UInt64.lt_iff_toNat_lt, Table.toNat_size]

/-! ## The block nested loop join -/

/-- The result vector and the caller's I/O counter. -/
structure Progress where
  result : List JoinedRow
  pageIOCount : Int
  deriving Repr, DecidableEq

/-- The loops over one outer page and one inner page. -/
def joinPages (predicate : Row → Row → Bool) (outerPage page : List Row)
    (result : List JoinedRow) : List JoinedRow :=
  outerPage.foldl (fun result outerRow =>
    page.foldl (fun result innerRow =>
      if predicate outerRow innerRow then result ++ [⟨outerRow, innerRow⟩]
      else result) result) result

/-- One inner page against the outer pages `[blockStart, blockEnd)`. -/
def scanPage (outer : Table) (predicate : Row → Row → Bool)
    (blockStart blockEnd : Nat) (acc : Progress) (page : List Row) :
    Progress :=
  { pageIOCount := acc.pageIOCount + 1
    result := (List.range' blockStart (blockEnd - blockStart)).foldl
      (fun result p => joinPages predicate (outer.pages.getD p []) page result)
      acc.result }

/-- `for (blockStart = …; blockStart < M; blockStart += blockSizePages)`. -/
def blockLoop (outer inner : Table) (predicate : Row → Row → Bool)
    (blockSizePages : UInt64) : Nat → UInt64 → Progress → Option Progress
  | 0, _, _ => none
  | fuel + 1, blockStart, acc =>
      if blockStart < outer.size then
        let blockEnd := min (blockStart + blockSizePages) outer.size
        blockLoop outer inner predicate blockSizePages fuel
          (blockStart + blockSizePages)
          (inner.pages.foldl
            (scanPage outer predicate blockStart.toNat blockEnd.toNat) acc)
      else some acc

/-- The joined rows and the final value of the counter. -/
def blockNestedLoopJoin (fuel : Nat) (outer inner : Table)
    (predicate : Row → Row → Bool) (blockSizePages : UInt64)
    (pageIOCount : Int) : Option Progress :=
  blockLoop outer inner predicate blockSizePages fuel 0
    ⟨[], pageIOCount + outer.pages.length⟩

/-- The join on a predicate, outer row left. -/
abbrev predicateJoin (predicate : Row → Row → Bool) (left right : List Row) :
    List JoinedRow :=
  thetaJoin JoinedRow.mk predicate left right

theorem joinPages_eq (predicate : Row → Row → Bool)
    (outerPage page : List Row) (result : List JoinedRow) :
    joinPages predicate outerPage page result =
      result ++ predicateJoin predicate outerPage page :=
  foldl_foldl_eq_thetaJoin JoinedRow.mk predicate outerPage page result

/-- The rows of the outer pages `[blockStart, blockEnd)`. -/
def blockRows (outer : Table) (blockStart blockEnd : Nat) : List Row :=
  (subrange outer.pages blockStart blockEnd).flatten

/-- Scanning one inner page adds its join with the block. -/
theorem scanPage_eq (outer : Table) (predicate : Row → Row → Bool)
    {blockStart blockEnd : Nat} (acc : Progress) (page : List Row)
    (hle : blockStart ≤ blockEnd) (hend : blockEnd ≤ outer.pages.length) :
    scanPage outer predicate blockStart blockEnd acc page =
      ⟨acc.result ++
        predicateJoin predicate (blockRows outer blockStart blockEnd) page,
        acc.pageIOCount + 1⟩ := by
  have hpages : ∀ (pages : List (List Row)) (result : List JoinedRow),
      pages.foldl (fun result outerPage =>
          joinPages predicate outerPage page result) result =
        result ++ predicateJoin predicate pages.flatten page := by
    intro pages
    induction pages with
    | nil => intro result; simp
    | cons outerPage pages ih =>
        intro result
        rw [List.foldl_cons, ih, joinPages_eq]
        simp only [List.flatten_cons, predicateJoin, thetaJoin_append_left,
          List.append_assoc]
  have hindex := foldl_range'_eq_subrange outer.pages
    (fun result p => joinPages predicate (outer.pages.getD p []) page result)
    (fun result outerPage => joinPages predicate outerPage page result)
    (by
      intro result p outerPage hp
      simp [List.getD_eq_getElem?_getD, hp])
    blockStart (blockEnd - blockStart) acc.result (by omega)
  rw [Nat.add_sub_cancel' hle] at hindex
  rw [scanPage]
  congr 1
  exact hindex.trans (hpages _ _)

/-- Scanning the whole inner table adds the block's join with it, up to
order. -/
theorem foldl_scanPage_perm (outer : Table) (predicate : Row → Row → Bool)
    (blockStart blockEnd : Nat) (hle : blockStart ≤ blockEnd)
    (hend : blockEnd ≤ outer.pages.length) (pages : List (List Row))
    (acc : Progress) :
    (pages.foldl (scanPage outer predicate blockStart blockEnd) acc).result.Perm
      (acc.result ++ predicateJoin predicate
        (blockRows outer blockStart blockEnd) pages.flatten) := by
  induction pages generalizing acc with
  | nil => simp
  | cons page pages ih =>
      rw [List.foldl_cons, scanPage_eq outer predicate acc page hle hend]
      have hperm := ih
        ⟨acc.result ++ predicateJoin predicate
          (blockRows outer blockStart blockEnd) page, acc.pageIOCount + 1⟩
      have hsplit := thetaJoin_append_right_perm JoinedRow.mk predicate
        (blockRows outer blockStart blockEnd) page pages.flatten
      rw [List.append_assoc] at hperm
      exact hperm.trans (hsplit.symm.append_left _)

/-- It reads each inner page once. -/
theorem pageIOCount_foldl_scanPage (outer : Table)
    (predicate : Row → Row → Bool) (blockStart blockEnd : Nat)
    (pages : List (List Row)) (acc : Progress) :
    (pages.foldl (scanPage outer predicate blockStart blockEnd)
      acc).pageIOCount = acc.pageIOCount + pages.length := by
  induction pages generalizing acc with
  | nil => simp
  | cons page pages ih =>
      rw [List.foldl_cons, ih, scanPage, List.length_cons]
      push_cast
      omega

theorem toNat_min (a b : UInt64) :
    (min a b).toNat = min a.toNat b.toNat := by
  show (if a ≤ b then a else b).toNat = min a.toNat b.toNat
  split
  · rename_i h
    exact (Nat.min_eq_left (UInt64.le_iff_toNat_le.mp h)).symm
  · rename_i h
    have hlt := Nat.not_le.mp fun hle => h (UInt64.le_iff_toNat_le.mpr hle)
    exact (Nat.min_eq_right (Nat.le_of_lt hlt)).symm

/-- Cutting the unread outer pages at the end of the current block. -/
theorem flatten_drop_eq_blockRows (outer : Table) {blockStart next : Nat}
    (hle : blockStart ≤ next) (hlt : blockStart ≤ outer.pages.length) :
    (outer.pages.drop blockStart).flatten =
      blockRows outer blockStart (min next outer.pages.length) ++
        (outer.pages.drop next).flatten := by
  have hdrop : outer.pages.drop next =
      (outer.pages.drop blockStart).drop (next - blockStart) := by
    rw [List.drop_drop, Nat.add_sub_cancel' hle]
  have hseg : subrange outer.pages blockStart (min next outer.pages.length) =
      (outer.pages.drop blockStart).take (next - blockStart) := by
    rw [subrange]
    by_cases h : next ≤ outer.pages.length
    · rw [Nat.min_eq_left h]
    · have hlen : (outer.pages.drop blockStart).length ≤ next - blockStart := by
        rw [List.length_drop]
        omega
      have hlen' : (outer.pages.drop blockStart).length ≤
          outer.pages.length - blockStart := by
        rw [List.length_drop]
      rw [Nat.min_eq_right (by omega), List.take_of_length_le hlen,
        List.take_of_length_le hlen']
  rw [blockRows, hseg, hdrop, ← List.flatten_append, List.take_append_drop]

/-- Every start the block loop can reach is zero or at least one block. -/
def BlockAligned (blockSizePages blockStart : UInt64) : Prop :=
  blockStart = 0 ∨ blockSizePages ≤ blockStart

/-- An aligned start inside the table advances without wrapping. -/
theorem toNat_blockStart_add {outer : Table}
    {blockSizePages blockStart : UInt64}
    (haligned : BlockAligned blockSizePages blockStart)
    (hlt : blockStart < outer.size) :
    (blockStart + blockSizePages).toNat =
      blockStart.toNat + blockSizePages.toNat := by
  have hsize := outer.size_lt
  have hlt' := Table.lt_size_iff.mp hlt
  have hword := UInt64.toNat_lt blockSizePages
  rw [UInt64.toNat_add]
  apply Nat.mod_eq_of_lt
  rcases haligned with rfl | hle
  · simpa using hword
  · have hle' := UInt64.le_iff_toNat_le.mp hle
    omega

theorem BlockAligned.next {outer : Table}
    {blockSizePages blockStart : UInt64}
    (haligned : BlockAligned blockSizePages blockStart)
    (hlt : blockStart < outer.size) :
    BlockAligned blockSizePages (blockStart + blockSizePages) := by
  right
  rw [UInt64.le_iff_toNat_le, toNat_blockStart_add haligned hlt]
  omega

/-- The block loop from an aligned start: one unit of fuel per remaining
page and one more are enough, and the remaining pages are joined with the
inner table. -/
theorem blockLoop_spec (outer inner : Table) (predicate : Row → Row → Bool)
    {blockSizePages : UInt64} (hB : 1 ≤ blockSizePages) (fuel : Nat) :
    ∀ (blockStart : UInt64) (acc : Progress),
      BlockAligned blockSizePages blockStart →
      outer.pages.length - blockStart.toNat < fuel →
      ∃ out, blockLoop outer inner predicate blockSizePages fuel blockStart
          acc = some out ∧
        out.result.Perm (acc.result ++ predicateJoin predicate
          (outer.pages.drop blockStart.toNat).flatten inner.rows) := by
  induction fuel with
  | zero => intro _ _ _ hfuel; exact absurd hfuel (Nat.not_lt_zero _)
  | succ fuel ih =>
      intro blockStart acc haligned hfuel
      have hB' : 1 ≤ blockSizePages.toNat := UInt64.le_iff_toNat_le.mp hB
      by_cases hlt : blockStart < outer.size
      · have hnext := toNat_blockStart_add haligned hlt
        have hltNat := Table.lt_size_iff.mp hlt
        have hend : (min (blockStart + blockSizePages) outer.size).toNat =
            min (blockStart.toNat + blockSizePages.toNat)
              outer.pages.length := by
          rw [toNat_min, hnext, Table.toNat_size]
        have hblock := foldl_scanPage_perm outer predicate
          blockStart.toNat
          (min (blockStart.toNat + blockSizePages.toNat) outer.pages.length)
          (by omega) (by omega) inner.pages acc
        obtain ⟨out, hout, hperm⟩ := ih (blockStart + blockSizePages)
          (inner.pages.foldl (scanPage outer predicate blockStart.toNat
            (min (blockStart + blockSizePages) outer.size).toNat) acc)
          (haligned.next hlt) (by omega)
        refine ⟨out, ?_, ?_⟩
        · rw [blockLoop, if_pos hlt]
          exact hout
        · have hcut := flatten_drop_eq_blockRows outer
            (Nat.le_add_right blockStart.toNat blockSizePages.toNat)
            (Nat.le_of_lt hltNat)
          rw [hnext, hend] at hperm
          rw [hcut, predicateJoin, thetaJoin_append_left, ← List.append_assoc]
          exact hperm.trans (hblock.append_right _)
      · refine ⟨acc, ?_, ?_⟩
        · rw [blockLoop, if_neg hlt]
        · have hge := Nat.not_lt.mp (mt Table.lt_size_iff.mpr hlt)
          simp [List.drop_eq_nil_of_le hge]

/-- More fuel does not change a result. -/
theorem blockLoop_mono (outer inner : Table) (predicate : Row → Row → Bool)
    (blockSizePages : UInt64) {fuel fuel' : Nat} (hle : fuel ≤ fuel') :
    ∀ (blockStart : UInt64) (acc out : Progress),
      blockLoop outer inner predicate blockSizePages fuel blockStart acc =
        some out →
      blockLoop outer inner predicate blockSizePages fuel' blockStart acc =
        some out := by
  induction fuel generalizing fuel' with
  | zero => intro _ _ _ h; exact absurd h (by simp [blockLoop])
  | succ fuel ih =>
      intro blockStart acc out h
      obtain ⟨fuel', rfl⟩ : ∃ n, fuel' = n + 1 := ⟨fuel' - 1, by omega⟩
      rw [blockLoop] at h ⊢
      split
      · rename_i hlt
        rw [if_pos hlt] at h
        exact ih (by omega) _ _ _ h
      · rename_i hlt
        rwa [if_neg hlt] at h

/-- **Block nested loop join is the join on its predicate**, up to order, for
every block size of at least one page; one iteration per outer page and a
final test suffice. -/
theorem blockNestedLoopJoin_spec (outer inner : Table)
    (predicate : Row → Row → Bool) {blockSizePages : UInt64}
    (hB : 1 ≤ blockSizePages) (pageIOCount : Int) :
    ∃ out, (∀ fuel, outer.pages.length < fuel →
        blockNestedLoopJoin fuel outer inner predicate blockSizePages
          pageIOCount = some out) ∧
      out.result.Perm (predicateJoin predicate outer.rows inner.rows) := by
  obtain ⟨out, hout, hperm⟩ := blockLoop_spec outer inner predicate hB
    (outer.pages.length + 1) 0 ⟨[], pageIOCount + outer.pages.length⟩
    (Or.inl rfl) (by simp)
  refine ⟨out, fun fuel hfuel => ?_, by simpa [Table.rows] using hperm⟩
  exact blockLoop_mono outer inner predicate blockSizePages hfuel 0 _ out hout

/-! ## The index nested loop join -/

/-- The index is built and probed exactly like the hash table of
`hashJoin`. -/
def indexNestedLoopJoin (order : EnumerationOrder Int Row)
    (outer inner : List Row) : List JoinedRow :=
  let index := buildTable inner
  probeTable order index outer []

/-- The index join groups its output by outer row, in outer order. -/
theorem indexNestedLoopJoin_eq (order : EnumerationOrder Int Row)
    (outer inner : List Row) :
    indexNestedLoopJoin order outer inner =
      outer.flatMap fun outerRow =>
        (probeMatches order inner outerRow).map (JoinedRow.mk outerRow) := by
  rw [indexNestedLoopJoin, probeTable_eq, List.nil_append]

theorem indexNestedLoopJoin_perm (order : EnumerationOrder Int Row)
    (outer inner : List Row) :
    (indexNestedLoopJoin order outer inner).Perm
      (equalityJoin outer inner) := by
  simpa [indexNestedLoopJoin] using probeTable_perm order inner outer []

end GoPrep.Ports.NestedLoopJoin
