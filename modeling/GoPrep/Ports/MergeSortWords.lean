import Mathlib.Algebra.Ring.Nat
import GoPrep.Ports.SortMergeJoin

/-!
# Merge sort on machine words

The merge sort of `join-practice/sort-merge-join.cpp` once more, with the
indices of the source: `left`, `mid`, `right` and the cursors are of type
`size_t`, and their sums and differences wrap around.  A call on any two words
comes to an end, because both halves are shorter than the range even when
`right - left` has wrapped; and on a range inside the vector nothing wraps, so
it is the merge sort of `SortMergeJoin`.

## Main results

* `mergeSort_eq` — on an ordered range the words compute what the natural
  numbers do.
* `mergeSort_range` — a stable in-place sort of `rows[left, right)` that leaves
  every other position alone.
-/

namespace GoPrep.Ports.MergeSortWords

open GoPrep.Verified.Subrange
open GoPrep.Verified.StableSort
open GoPrep.Ports.JoinRows
open GoPrep.Ports.SortMergeJoin (copyBack)

/-! ## The functions of the source -/

/-- A cursor below its end does not wrap around. -/
theorem toNat_succ {i stop : UInt64} (hlt : i < stop) :
    (i + 1).toNat = i.toNat + 1 := by
  have hnat := UInt64.lt_iff_toNat_lt.mp hlt
  have hword := stop.toNat_lt
  rw [UInt64.toNat_add, UInt64.toNat_one, Nat.mod_eq_of_lt (by omega)]

/-- `while (i < stop) temp.push_back(rows[i++]);` -/
def drainRun (rows : List Row) (stop i : UInt64) (temp : List Row) :
    Option (List Row) :=
  if i < stop then do
    let row ← rows[i.toNat]?
    drainRun rows stop (i + 1) (temp ++ [row])
  else some temp
termination_by stop.toNat - i.toNat
decreasing_by
  rename_i hlt
  have hnat := UInt64.lt_iff_toNat_lt.mp hlt
  rw [toNat_succ hlt]
  omega

/-- The comparing loop of `merge`, then its two draining loops. -/
def mergeRuns (rows : List Row) (mid right i j : UInt64) (temp : List Row) :
    Option (List Row) :=
  if i < mid ∧ j < right then do
    let a ← rows[i.toNat]?
    let b ← rows[j.toNat]?
    if a.key ≤ b.key then mergeRuns rows mid right (i + 1) j (temp ++ [a])
    else mergeRuns rows mid right i (j + 1) (temp ++ [b])
  else do
    let temp ← drainRun rows mid i temp
    drainRun rows right j temp
termination_by (mid.toNat - i.toNat) + (right.toNat - j.toNat)
decreasing_by
  all_goals
    rename_i hlt _
    have hi := UInt64.lt_iff_toNat_lt.mp hlt.1
    have hj := UInt64.lt_iff_toNat_lt.mp hlt.2
    have hi' := toNat_succ hlt.1
    have hj' := toNat_succ hlt.2
    omega

def merge (rows : List Row) (left mid right : UInt64) :
    Option (List Row) := do
  let temp ← mergeRuns rows mid right left mid []
  copyBack rows left.toNat temp

/-- The left half of a range is half as long as it. -/
theorem toNat_mid_sub (left right : UInt64) :
    (left + (right - left) / 2 - left).toNat = (right - left).toNat / 2 := by
  rw [UInt64.add_comm, UInt64.add_sub_cancel, UInt64.toNat_div]
  rfl

/-- The right half is the rest, whether or not the length has wrapped. -/
theorem toNat_sub_mid (left right : UInt64) :
    (right - (left + (right - left) / 2)).toNat =
      (right - left).toNat - (right - left).toNat / 2 := by
  have hleft := left.toNat_lt
  have hright := right.toNat_lt
  have htwo : (2 : UInt64).toNat = 2 := rfl
  simp only [UInt64.toNat_sub, UInt64.toNat_add, UInt64.toNat_div, htwo]
  omega

/-- Sorts `rows[left, right)`.  The length of the range decreases for any two
words, so no order between them is needed to end. -/
def mergeSort (rows : List Row) (left right : UInt64) :
    Option (List Row) :=
  if right - left ≤ 1 then some rows
  else do
    let mid := left + (right - left) / 2
    let rows ← mergeSort rows left mid
    let rows ← mergeSort rows mid right
    merge rows left mid right
termination_by (right - left).toNat
decreasing_by
  all_goals
    rename_i hlong
    have hnat := mt UInt64.le_iff_toNat_le.mpr hlong
    rw [UInt64.toNat_one] at hnat
  · rw [toNat_mid_sub]
    omega
  · rw [toNat_sub_mid]
    omega

/-! ## The words against the natural numbers -/

theorem drainRun_eq (rows : List Row) (stop i : UInt64) (temp : List Row) :
    drainRun rows stop i temp =
      SortMergeJoin.drainRun rows stop.toNat i.toNat temp := by
  fun_induction drainRun rows stop i temp with
  | case1 i temp hlt ih =>
      have hnat := UInt64.lt_iff_toNat_lt.mp hlt
      rw [SortMergeJoin.drainRun, if_pos hnat, ← toNat_succ hlt]
      simp only [ih]
  | case2 i temp hge =>
      have hnat := mt UInt64.lt_iff_toNat_lt.mpr hge
      rw [SortMergeJoin.drainRun, if_neg hnat]

theorem mergeRuns_eq (rows : List Row) (mid right i j : UInt64)
    (temp : List Row) :
    mergeRuns rows mid right i j temp =
      SortMergeJoin.mergeRuns rows mid.toNat right.toNat i.toNat j.toNat
        temp := by
  fun_induction mergeRuns rows mid right i j temp with
  | case1 i j temp hlt ihLeft ihRight =>
      have hi := UInt64.lt_iff_toNat_lt.mp hlt.1
      have hj := UInt64.lt_iff_toNat_lt.mp hlt.2
      rw [SortMergeJoin.mergeRuns, if_pos ⟨hi, hj⟩, ← toNat_succ hlt.1,
        ← toNat_succ hlt.2]
      simp only [fun a => ihLeft a a, fun b => ihRight b b]
  | case2 i j temp hge =>
      have hnat : ¬ (i.toNat < mid.toNat ∧ j.toNat < right.toNat) := by
        rw [← UInt64.lt_iff_toNat_lt, ← UInt64.lt_iff_toNat_lt]
        exact hge
      rw [SortMergeJoin.mergeRuns, if_neg hnat]
      simp only [drainRun_eq]

theorem merge_eq (rows : List Row) (left mid right : UInt64) :
    merge rows left mid right =
      SortMergeJoin.merge rows left.toNat mid.toNat right.toNat := by
  rw [merge, SortMergeJoin.merge, mergeRuns_eq]

/-- The middle of an ordered range. -/
theorem toNat_mid {left right : UInt64} (hle : left ≤ right) :
    (left + (right - left) / 2).toNat =
      left.toNat + (right.toNat - left.toNat) / 2 := by
  have hnat := UInt64.le_iff_toNat_le.mp hle
  have hright := right.toNat_lt
  have htwo : (2 : UInt64).toNat = 2 := rfl
  rw [UInt64.toNat_add, UInt64.toNat_div, UInt64.toNat_sub_of_le _ _ hle,
    htwo]
  exact Nat.mod_eq_of_lt (by omega)

/-- **On an ordered range the words compute what the natural numbers do.** -/
theorem mergeSort_eq (rows : List Row) (left right : UInt64)
    (hle : left ≤ right) :
    mergeSort rows left right =
      SortMergeJoin.mergeSort rows left.toNat right.toNat := by
  fun_induction mergeSort rows left right with
  | case1 rows left right hshort =>
      have hsub := UInt64.toNat_sub_of_le _ _ hle
      have hnat := UInt64.le_iff_toNat_le.mp hshort
      rw [hsub, UInt64.toNat_one] at hnat
      rw [SortMergeJoin.mergeSort, if_pos hnat]
  | case2 rows left right hlong mid ihLeft ihRight =>
      have hsub := UInt64.toNat_sub_of_le _ _ hle
      have hnat := mt UInt64.le_iff_toNat_le.mpr hlong
      rw [hsub, UInt64.toNat_one] at hnat
      have hmid : mid.toNat = left.toNat + (right.toNat - left.toNat) / 2 :=
        toNat_mid hle
      have hleft : left ≤ mid := UInt64.le_iff_toNat_le.mpr (by omega)
      have hright : mid ≤ right := UInt64.le_iff_toNat_le.mpr (by omega)
      rw [SortMergeJoin.mergeSort, if_neg hnat,
        ihLeft hleft, ← hmid]
      simp only [fun rows => ihRight rows hright, merge_eq]

/-! ## A range of a vector -/

/-- `out` is `rows` with the range `[left, right)` stably sorted and nothing
else changed. -/
structure SortsRange (rows out : List Row) (left right : Nat) : Prop where
  length_eq : out.length = rows.length
  frame : ∀ pos, pos < left ∨ right ≤ pos → out[pos]? = rows[pos]?
  sorts : StableSortOf Row.key (subrange rows left right)
    (subrange out left right)
  perm : (subrange out left right).Perm (subrange rows left right)

/-- Writing a stable sort of the range over it sorts the range. -/
theorem sortsRange_replaceSubrange {rows sorted : List Row}
    {left right : Nat} (hle : left ≤ right) (hlen : right ≤ rows.length)
    (hsorts : StableSortOf Row.key (subrange rows left right) sorted) :
    SortsRange rows (replaceSubrange rows left right sorted) left right := by
  have hlength : sorted.length = right - left := by
    rw [hsorts.perm.length_eq, length_subrange hlen]
  have hself := subrange_replaceSubrange_self hle hlen hlength
  refine ⟨length_replaceSubrange hle hlen hlength,
    fun pos hpos => getElem?_replaceSubrange hle hlen hlength hpos, ?_, ?_⟩
  · rw [hself]
    exact hsorts
  · rw [hself]
    exact hsorts.perm

/-- **Merge sort on a range of a vector is a stable in-place sort with a
frame.**  For every vector and all indices `left ≤ right ≤ rows.size()` the call
returns, so every element it reads or writes is in bounds. -/
theorem mergeSort_range (rows : List Row) (left right : UInt64)
    (hle : left ≤ right) (hlen : right.toNat ≤ rows.length) :
    ∃ out, mergeSort rows left right = some out ∧
      SortsRange rows out left.toNat right.toNat := by
  have hnat := UInt64.le_iff_toNat_le.mp hle
  obtain ⟨sorted, hsort, hstable⟩ :=
    SortMergeJoin.mergeSort_spec rows left.toNat right.toNat hnat hlen
  rw [← mergeSort_eq rows left right hle] at hsort
  exact ⟨_, hsort, sortsRange_replaceSubrange hnat hlen hstable⟩

/-- The inner three of five rows, two of which have the same key. -/
theorem mergeSort_range_inner :
    let rows : List Row :=
      [⟨9, "x"⟩, ⟨2, "a"⟩, ⟨1, "b"⟩, ⟨2, "c"⟩, ⟨0, "y"⟩]
    ∃ out, mergeSort rows 1 4 = some out ∧ SortsRange rows out 1 4 := by
  intro rows
  exact mergeSort_range rows 1 4 (by decide) (by decide)

end GoPrep.Ports.MergeSortWords
