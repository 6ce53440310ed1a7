import GoPrep.Ports.GoIndexQuery
import GoPrep.Ports.IndexAndIterator

/-!
# The limit of a query on the index and iterator

`query` of `src/index_and_iterator.cpp` compares the number of offsets it has
collected, a `size_t`, with its limit cast to `size_t`; `Query` of
`src/iterator_plus_index.cpp` counts in `int`.  Below zero the cast wraps around
to a number that no map reaches.

## Main results

* `collect_eq_take` — the loop takes the ids above the bound up to the cast.
* `query_respectsLimit_iff` — the two queries agree exactly when the limit is
  not negative or there is nothing above the bound.
* `query_negative_differs` — a negative limit on which they differ.
-/

namespace GoPrep.Ports.IndexAndIterator

open GoPrep.Verified.SortedMap
open GoPrep.Ports.GoIndex (firstAbove cpp_collect_eq)

/-- The loop collects the offsets of the first ids above the bound. -/
theorem collect_eq_take (x : Index) (minId : UInt64) (limit : Int32) :
    x.collect minId limit =
      ((x.idToOffsetMap.entries.filter fun e => decide (minId < e.1)).take
        (toSizeT limit)).map Prod.snd := by
  rw [Index.collect, collectLoop_eq, List.nil_append, List.length_nil,
    Nat.sub_zero, OrderedMap.upperBound_eq_filter]

theorem toInt_neg {limit : Int32} (h : ¬ 0 ≤ limit) : limit.toInt < 0 := by
  have hlt := mt Int32.le_iff_toInt_le.mpr h
  simpa using hlt

/-- A negative limit wraps around. -/
theorem toSizeT_of_neg {limit : Int32} (h : ¬ 0 ≤ limit) :
    toSizeT limit = 2 ^ 64 - limit.toInt.natAbs := by
  have hneg := toInt_neg h
  have hlow := limit.le_toInt
  rw [toSizeT]
  omega

/-- The iterator goes through the first `max limit 0` ids above the bound, from
the first of them on, which are the ones the sibling selects. -/
def RespectsLimit (x : Index) (sibling : IteratorPlusIndex.Index)
    (minId : UInt64) (limit : Int32) : Prop :=
  ∃ it, x.query minId limit true = .ok it ∧ it.currentIndex = 0 ∧
    it.offsets = firstAbove x.idToOffsetMap minId limit.toInt ∧
    it.offsets = sibling.collect minId limit.toInt

/-- Over the same map, what counts is the selection of this index. -/
theorem respectsLimit_iff {x : Index} {sibling : IteratorPlusIndex.Index}
    (hmap : x.idToOffsetMap = sibling.indexMap) (minId : UInt64)
    (limit : Int32) :
    RespectsLimit x sibling minId limit ↔
      x.collect minId limit =
        firstAbove x.idToOffsetMap minId limit.toInt := by
  constructor
  · rintro ⟨it, hquery, -, hoffsets, -⟩
    cases hquery
    exact hoffsets
  · intro hcollect
    refine ⟨⟨x.collect minId limit, 0, .ofFile x.table⟩, rfl, rfl, hcollect,
      ?_⟩
    rw [cpp_collect_eq, ← hmap]
    exact hcollect

/-- **The limit is respected exactly when it is not negative or no id is above
the bound.**  For every content of the map, every bound and every limit. -/
theorem query_respectsLimit_iff (x : Index)
    (sibling : IteratorPlusIndex.Index)
    (hmap : x.idToOffsetMap = sibling.indexMap) (minId : UInt64)
    (limit : Int32) :
    RespectsLimit x sibling minId limit ↔
      0 ≤ limit ∨ ∀ e ∈ x.idToOffsetMap.entries, e.1 ≤ minId := by
  rw [respectsLimit_iff hmap, collect_eq_take, firstAbove]
  by_cases hlimit : 0 ≤ limit
  · rw [toSizeT_of_nonneg hlimit]
    exact iff_of_true rfl (.inl hlimit)
  · have hneg := toInt_neg hlimit
    have hlow := limit.le_toInt
    have hroom : toSizeT limit ≠ 0 := by
      rw [toSizeT_of_neg hlimit]
      omega
    have hzero : limit.toInt.toNat = 0 := by omega
    rw [hzero, List.take_zero, List.map_nil, List.map_eq_nil_iff,
      List.take_eq_nil_iff, or_iff_right hroom, List.filter_eq_nil_iff,
      or_iff_right hlimit]
    simp only [decide_eq_true_eq, not_lt]

/-- Both queries of an index with the ids 3 and 7, within the limit. -/
theorem query_respectsLimit_iff_two :
    let map := (OrderedMap.empty.insert 7 9).insert 3 20
    let x : Index := ⟨[], map⟩
    let sibling : IteratorPlusIndex.Index :=
      { IteratorPlusIndex.Index.initial with indexMap := map }
    x.collect 2 1 = [20] ∧ sibling.collect 2 1 = [20] ∧
      (RespectsLimit x sibling 2 1 ↔
        (0 : Int32) ≤ 1 ∨ ∀ e ∈ x.idToOffsetMap.entries, e.1 ≤ 2) := by
  intro map x sibling
  exact ⟨by decide, by decide, query_respectsLimit_iff x sibling rfl 2 1⟩

/-- **With a limit of minus one the query takes the whole map.**  Here it holds
the one record that was inserted. -/
theorem query_negative_differs :
    ¬ ∀ (x : Index) (sibling : IteratorPlusIndex.Index),
      x.idToOffsetMap = sibling.indexMap →
      ∀ (minId : UInt64) (limit : Int32),
        RespectsLimit x sibling minId limit := by
  intro h
  let x : Index := Index.insert ⟨[], .empty⟩ 3 [97]
  let sibling : IteratorPlusIndex.Index :=
    { IteratorPlusIndex.Index.initial with indexMap := x.idToOffsetMap }
  have hrespects := h x sibling rfl 2 (-1)
  obtain ⟨it, hquery, -, -, hsibling⟩ := hrespects
  cases hquery
  exact absurd hsibling (by decide)

end GoPrep.Ports.IndexAndIterator
