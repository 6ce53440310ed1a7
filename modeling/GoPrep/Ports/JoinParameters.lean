import GoPrep.Ports.NestedLoopJoin

/-!
# The tuning parameters of the joins

`blockNestedLoopJoin` takes the number of pages in a block and `graceHashJoin`
the number of partitions, both as a `size_t` of the caller that nothing checks.
Every value but zero will do: a block start never wraps around before the table
ends, and a remainder is the index of a partition.  Zero will do only where
there is nothing to read.  A number of partitions beyond what a vector may hold
is refused with an exception, before any row is looked at.

## Main results

* `blockNestedLoopJoin_stops_iff` — the block loop stops exactly when blocks
  have pages or the outer table has none.
* `graceHashJoin_defined_iff` — partitioning is defined exactly when there are
  partitions or no rows.
* `tuning_parameters_iff` — both.
-/

namespace GoPrep.Ports.JoinParameters

open GoPrep.Verified.UnorderedMultimap
open GoPrep.Ports.JoinRows
open GoPrep.Ports.HashJoin
open GoPrep.Ports.NestedLoopJoin

theorem one_le_toNat {n : UInt64} (hne : n ≠ 0) : 1 ≤ n.toNat := by
  apply Nat.one_le_iff_ne_zero.mpr
  intro hzero
  exact hne (UInt64.toNat_inj.mp hzero)

/-! ## Pages per block -/

/-- Blocks of no pages: the loop stays where it is, whatever the fuel. -/
theorem blockLoop_zero (outer inner : Table) (predicate : Row → Row → Bool)
    (fuel : Nat) {blockStart : UInt64} (hlt : blockStart < outer.size)
    (acc : Progress) :
    blockLoop outer inner predicate 0 fuel blockStart acc = none := by
  induction fuel generalizing acc with
  | zero => rfl
  | succ fuel ih =>
      rw [blockLoop, if_pos hlt, UInt64.add_zero]
      exact ih _

/-- A start that is not below the size ends the loop. -/
theorem blockLoop_of_not_lt (outer inner : Table)
    (predicate : Row → Row → Bool) (blockSizePages : UInt64) (fuel : Nat)
    {blockStart : UInt64} (hge : ¬ blockStart < outer.size)
    (acc : Progress) :
    blockLoop outer inner predicate blockSizePages (fuel + 1) blockStart acc =
      some acc := by
  rw [blockLoop, if_neg hge]

theorem zero_lt_size_iff {table : Table} :
    0 < table.size ↔ table.pages ≠ [] := by
  rw [Table.lt_size_iff, UInt64.toNat_zero, List.length_pos_iff]

/-- **The block loop stops exactly when blocks have pages or there are none to
read.** -/
theorem blockNestedLoopJoin_stops_iff (outer inner : Table)
    (predicate : Row → Row → Bool) (blockSizePages : UInt64)
    (pageIOCount : Int) :
    (∃ fuel out, blockNestedLoopJoin fuel outer inner predicate
      blockSizePages pageIOCount = some out) ↔
      blockSizePages ≠ 0 ∨ outer.pages = [] := by
  constructor
  · rintro ⟨fuel, out, hout⟩
    by_contra hnot
    obtain ⟨hzero, hpages⟩ := not_or.mp hnot
    rw [not_not] at hzero
    rw [hzero, blockNestedLoopJoin,
      blockLoop_zero outer inner predicate fuel (zero_lt_size_iff.mpr hpages)]
      at hout
    cases hout
  · rintro (hne | hpages)
    · have hpos : 1 ≤ blockSizePages :=
        UInt64.le_iff_toNat_le.mpr (one_le_toNat hne)
      obtain ⟨out, hout, -⟩ := blockNestedLoopJoin_spec outer inner predicate
        hpos pageIOCount
      exact ⟨outer.pages.length + 1, out, hout _ (Nat.lt_succ_self _)⟩
    · have hge := mt zero_lt_size_iff.mp (not_not.mpr hpages)
      exact ⟨1, _, blockLoop_of_not_lt outer inner predicate blockSizePages 0
        hge _⟩

/-! ## Partitions -/

/-- Without partitions the first row divides by zero. -/
theorem partitionRows_zero (h1 : Int → UInt64) (row : Row)
    (rows : List Row) :
    partitionRows h1 (row :: rows) 0 = .error (.undefined .moduloByZero) :=
  rfl

/-- **No partitions and a row**: whichever side it is on, it divides by
zero. -/
theorem graceHashJoin_zero (orders : Nat → EnumerationOrder Int Row)
    (h1 : Int → UInt64) {probeSide buildSide : List Row}
    (hrows : ¬ (probeSide = [] ∧ buildSide = [])) :
    graceHashJoin orders h1 probeSide buildSide 0 =
      .error (.undefined .moduloByZero) := by
  rw [graceHashJoin]
  cases probeSide with
  | cons row rows => rw [partitionRows_zero]; rfl
  | nil =>
      cases buildSide with
      | cons row rows => rw [partitionRows_zero]; rfl
      | nil => exact absurd ⟨rfl, rfl⟩ hrows

/-- **Partitioning is defined exactly when there are partitions or no rows to
put into them.** -/
theorem graceHashJoin_defined_iff (orders : Nat → EnumerationOrder Int Row)
    (h1 : Int → UInt64) (probeSide buildSide : List Row)
    (numPartitions : UInt64) :
    (∀ fault, graceHashJoin orders h1 probeSide buildSide numPartitions ≠
      .error (.undefined fault)) ↔
      numPartitions ≠ 0 ∨ probeSide = [] ∧ buildSide = [] := by
  constructor
  · intro hdefined
    by_contra hnot
    obtain ⟨hzero, hrows⟩ := not_or.mp hnot
    rw [not_not] at hzero
    rw [hzero] at hdefined
    exact hdefined _ (graceHashJoin_zero orders h1 hrows)
  · intro hparam fault hfault
    by_cases hzero : numPartitions = 0
    · obtain ⟨hprobe, hbuild⟩ := hparam.resolve_left (not_not.mpr hzero)
      rw [hzero, hprobe, hbuild] at hfault
      cases hfault
    · by_cases hmax : numPartitions.toNat ≤ maxPartitions
      · obtain ⟨out, hout, -⟩ := graceHashJoin_perm orders h1 probeSide
          buildSide (one_le_toNat hzero) hmax
        rw [hout] at hfault
        cases hfault
      · rw [graceHashJoin_of_gt orders h1 probeSide buildSide
          (Nat.not_le.mp hmax)] at hfault
        cases hfault

/-- **The tuning parameters hang or trap a join exactly at zero, and then only
if there is something to join.**  For all relations and all words. -/
theorem tuning_parameters_iff (orders : Nat → EnumerationOrder Int Row)
    (h1 : Int → UInt64) (outer inner : Table)
    (predicate : Row → Row → Bool) (pageIOCount : Int)
    (probeSide buildSide : List Row)
    (blockSizePages numPartitions : UInt64) :
    ((∃ fuel out, blockNestedLoopJoin fuel outer inner predicate
        blockSizePages pageIOCount = some out) ↔
      blockSizePages ≠ 0 ∨ outer.pages = []) ∧
    ((∀ fault, graceHashJoin orders h1 probeSide buildSide numPartitions ≠
        .error (.undefined fault)) ↔
      numPartitions ≠ 0 ∨ probeSide = [] ∧ buildSide = []) :=
  ⟨blockNestedLoopJoin_stops_iff outer inner predicate blockSizePages
      pageIOCount,
    graceHashJoin_defined_iff orders h1 probeSide buildSide numPartitions⟩

/-- **Zero pages per block and one row: the loop runs forever.  Zero partitions
and one row: a division by zero.** -/
theorem tuning_parameters_zero :
    (¬ ∀ (outer inner : Table) (predicate : Row → Row → Bool)
      (pageIOCount : Int) (blockSizePages : UInt64),
      ∃ fuel out, blockNestedLoopJoin fuel outer inner predicate
        blockSizePages pageIOCount = some out) ∧
    ¬ ∀ (orders : Nat → EnumerationOrder Int Row) (h1 : Int → UInt64)
      (probeSide buildSide : List Row) (numPartitions : UInt64)
      (fault : Fault), graceHashJoin orders h1 probeSide buildSide
        numPartitions ≠ .error (.undefined fault) := by
  let row : Row := ⟨1, "a"⟩
  constructor
  · intro h
    let table : Table := ⟨[[row]], by decide⟩
    have hstops := (blockNestedLoopJoin_stops_iff table table (fun _ _ => true)
      0 0).mp (h table table _ 0 0)
    exact absurd hstops (by decide)
  · intro h
    exact h (fun _ => .insertion) (fun _ => 0) [row] [] 0 .moduloByZero rfl

end GoPrep.Ports.JoinParameters
