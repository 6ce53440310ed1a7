import GoPrep.Ports.GoIndex

/-!
# The Go query and its migration

The Go `Query` scans the whole map and tests the limit after it has looked at
an entry; the C++ `Query` starts at the upper bound and tests before.  A limit
that is not positive therefore still lets the Go loop take its first entry, if
the smallest id is already above the bound.

## Main results

* `rangeLoop_eq` — with room for one more, the Go loop takes the ids above the
  bound up to the limit.
* `collect_eq_iff` — the two queries agree exactly when the limit is positive
  or the smallest id is not above the bound.
* `collect_zero_differs` — a limit of zero on which they differ.
-/

namespace GoPrep.Ports.GoIndex

open GoPrep.Verified.SortedMap
open GoPrep.Ports

/-- The offsets of the first `max limit 0` ids above the bound, in ascending
order. -/
def firstAbove (m : OrderedMap UInt64 Nat) (minId : UInt64) (limit : Int) :
    List Nat :=
  ((m.entries.filter fun e => decide (minId < e.1)).take limit.toNat).map
    Prod.snd

/-- **With room for one more entry the Go loop stops at the limit.** -/
theorem rangeLoop_eq (minId : UInt64) (limit : Int)
    (es : List (UInt64 × Nat)) (offsets : List Nat) (count : Int)
    (hroom : count < limit) :
    Index.rangeLoop minId limit es offsets count =
      offsets ++ ((es.filter fun e => decide (minId < e.1)).take
        (limit - count).toNat).map Prod.snd := by
  induction es generalizing offsets count with
  | nil => simp [Index.rangeLoop]
  | cons e rest ih =>
      obtain ⟨id, offset⟩ := e
      rw [Index.rangeLoop]
      by_cases habove : minId < id
      · obtain ⟨n, hn⟩ : ∃ n, (limit - count).toNat = n + 1 :=
          ⟨(limit - count).toNat - 1, by omega⟩
        simp only [gt_iff_lt, habove, decide_true, if_true,
          List.filter_cons_of_pos, hn, List.take_succ_cons, List.map_cons]
        by_cases hfull : count + 1 ≥ limit
        · have hzero : n = 0 := by omega
          rw [if_pos hfull, hzero, List.take_zero]
          rfl
        · have hrest : (limit - (count + 1)).toNat = n := by omega
          rw [if_neg hfull, ih _ _ (by omega), hrest, List.append_assoc]
          rfl
      · have hnot : ¬ count ≥ limit := by omega
        simp only [gt_iff_lt, habove, decide_false, Bool.false_eq_true,
          if_false, hnot, List.filter_cons_of_neg, not_false_eq_true]
        exact ih offsets count hroom

/-- Without room the Go loop looks at one entry all the same. -/
theorem rangeLoop_of_le (minId : UInt64) {limit : Int} (hlimit : limit ≤ 0)
    (es : List (UInt64 × Nat)) :
    Index.rangeLoop minId limit es [] 0 =
      ((es.take 1).filter fun e => decide (minId < e.1)).map Prod.snd := by
  cases es with
  | nil => rfl
  | cons e rest =>
      obtain ⟨id, offset⟩ := e
      rw [Index.rangeLoop]
      by_cases habove : minId < id
      · have hfull : (0 : Int) + 1 ≥ limit := by omega
        simp only [gt_iff_lt, habove, decide_true, if_true]
        rw [if_pos hfull]
        simp [habove]
      · have hfull : (0 : Int) ≥ limit := hlimit
        simp only [gt_iff_lt, habove, decide_false, Bool.false_eq_true,
          if_false]
        rw [if_pos hfull]
        simp [habove]

/-- The C++ query collects the first offsets above the bound. -/
theorem cpp_collect_eq (x : IteratorPlusIndex.Index) (minId : UInt64)
    (limit : Int) :
    x.collect minId limit = firstAbove x.indexMap minId limit := by
  rw [IteratorPlusIndex.Index.collect, IteratorPlusIndex.Index.traverse_eq,
    OrderedMap.upperBound_eq_filter, Int.sub_zero]
  rfl

/-- **The migration agrees with the Go query exactly when the limit is
positive or the smallest id is not above the bound.**  For every content of
the map, every bound and every limit; the C++ side always collects the first
`max limit 0` ids above the bound. -/
theorem collect_eq_iff (go : Index) (cpp : IteratorPlusIndex.Index)
    (hmap : go.indexMap = cpp.indexMap) (minId : UInt64) (limit : Int) :
    (go.collect minId limit = cpp.collect minId limit ∧
        cpp.collect minId limit = firstAbove cpp.indexMap minId limit) ↔
      0 < limit ∨ ∀ e ∈ cpp.indexMap.entries.head?, e.1 ≤ minId := by
  rw [cpp_collect_eq, and_iff_left rfl, Index.collect, hmap, firstAbove]
  by_cases hlimit : 0 < limit
  · rw [rangeLoop_eq minId limit _ [] 0 hlimit, Int.sub_zero, List.nil_append]
    exact iff_of_true rfl (.inl hlimit)
  · have hzero : limit.toNat = 0 := by omega
    rw [rangeLoop_of_le minId (by omega), hzero, List.take_zero, List.map_nil,
      List.map_eq_nil_iff, List.filter_eq_nil_iff, or_iff_right hlimit]
    cases cpp.indexMap.entries with
    | nil => simp
    | cons e rest => simp

/-- Both queries of an index with the ids 3 and 7. -/
theorem collect_eq_iff_two :
    let map := (OrderedMap.empty.insert 7 9).insert 3 20
    let go : Index := { Index.initial with indexMap := map }
    let cpp : IteratorPlusIndex.Index :=
      { IteratorPlusIndex.Index.initial with indexMap := map }
    go.collect 2 1 = [20] ∧ cpp.collect 2 1 = [20] ∧
      (go.collect 2 1 = cpp.collect 2 1 ∧
          cpp.collect 2 1 = firstAbove cpp.indexMap 2 1 ↔
        (0 : Int) < 1 ∨ ∀ e ∈ cpp.indexMap.entries.head?, e.1 ≤ 2) := by
  refine ⟨by decide, by decide, collect_eq_iff _ _ rfl 2 1⟩

/-- **With a limit of zero the Go query still takes one offset.** -/
theorem collect_zero_differs :
    ¬ ∀ (go : Index) (cpp : IteratorPlusIndex.Index),
      go.indexMap = cpp.indexMap → ∀ (minId : UInt64) (limit : Int),
      go.collect minId limit = cpp.collect minId limit ∧
        cpp.collect minId limit = firstAbove cpp.indexMap minId limit := by
  intro h
  let map : OrderedMap UInt64 Nat := OrderedMap.empty.insert 3 0
  have hagree := (h { Index.initial with indexMap := map }
    { IteratorPlusIndex.Index.initial with indexMap := map } rfl 2 0).1
  exact absurd hagree (by decide)

end GoPrep.Ports.GoIndex
