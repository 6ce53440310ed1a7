import GoPrep.Verified.EquiJoin
import Mathlib.Data.Finset.Sort
import Mathlib.Data.List.Sort

/-!
# Stable sorting by a key

`StableSortOf key xs ys` says that `ys` is the stable sort of `xs`: keys do
not decrease, and the rows of every single key are the rows `xs` has for it,
in the order `xs` has them.  Both clauses together determine `ys`
(`StableSortOf.unique`), so the predicate is a complete specification of a
stable sort, and being a permutation is a consequence.

## Main results

* `StableSortOf.merge` — a left-preferring merge of two stable sorts is the
  stable sort of the concatenation.
* `StableSortOf.eq_flatMap_keys` — a stable sort lists the distinct keys in
  increasing order, each with its rows in their original order.
-/

namespace GoPrep.Verified.StableSort

open GoPrep.Verified.EquiJoin

variable {α K : Type*} [LinearOrder K] {key : α → K}

/-- Keys do not decrease along the list. -/
def SortedBy (key : α → K) (ys : List α) : Prop :=
  ys.Pairwise fun a b => key a ≤ key b

structure StableSortOf (key : α → K) (xs ys : List α) : Prop where
  sorted : SortedBy key ys
  same_key : ∀ k, matching key ys k = matching key xs k

/-- A sorted list whose first key exceeds `k` has no row of key `k`. -/
theorem matching_eq_nil_of_lt {ys : List α} {k : K}
    (h : ∀ y ∈ ys, k < key y) : matching key ys k = [] := by
  apply List.filter_eq_nil_iff.mpr
  intro y hy
  simpa using (h y hy).ne'

theorem SortedBy.head_le {y : α} {ys : List α} (h : SortedBy key (y :: ys))
    {x : α} (hx : x ∈ y :: ys) : key y ≤ key x := by
  rcases List.mem_cons.mp hx with rfl | hx
  · exact le_rfl
  · exact List.rel_of_pairwise_cons h hx

/-! ## The specification determines the result -/

theorem mem_iff_of_matching_eq {xs ys : List α}
    (h : ∀ k, matching key ys k = matching key xs k) (a : α) :
    a ∈ ys ↔ a ∈ xs := by
  have hk := congrArg (fun l => a ∈ l) (h (key a))
  simpa [mem_matching] using hk

theorem perm_of_matching_eq {xs ys : List α}
    (h : ∀ k, matching key ys k = matching key xs k) : ys.Perm xs := by
  classical
  apply List.perm_iff_count.mpr
  intro a
  have hcount : ∀ l : List α, (matching key l (key a)).count a = l.count a :=
    fun l => List.count_filter (by simp)
  rw [← hcount ys, ← hcount xs, h]

theorem StableSortOf.perm {xs ys : List α} (h : StableSortOf key xs ys) :
    ys.Perm xs :=
  perm_of_matching_eq h.same_key

/-- Two sorted lists with the same rows for every key are equal. -/
theorem eq_of_sortedBy_of_matching_eq {ys zs : List α}
    (hy : SortedBy key ys) (hz : SortedBy key zs)
    (h : ∀ k, matching key ys k = matching key zs k) : ys = zs := by
  induction ys generalizing zs with
  | nil =>
      cases zs with
      | nil => rfl
      | cons z zs =>
          have hmem := (mem_iff_of_matching_eq h z).mpr List.mem_cons_self
          exact absurd hmem List.not_mem_nil
  | cons y ys ih =>
      cases zs with
      | nil =>
          have hmem := (mem_iff_of_matching_eq h y).mp List.mem_cons_self
          exact absurd hmem List.not_mem_nil
      | cons z zs =>
          have hyz : key y = key z := by
            have hz' := (mem_iff_of_matching_eq h z).mpr List.mem_cons_self
            have hy' := (mem_iff_of_matching_eq h y).mp List.mem_cons_self
            exact le_antisymm (hy.head_le hz') (hz.head_le hy')
          have hhead := h (key y)
          rw [matching_cons, matching_cons, if_pos rfl, if_pos hyz.symm]
            at hhead
          obtain ⟨rfl, _⟩ := List.cons.inj hhead
          have htail : ∀ k, matching key ys k = matching key zs k := by
            intro k
            have hk := h k
            rw [matching_cons, matching_cons] at hk
            split at hk
            · exact (List.cons.inj hk).2
            · exact hk
          have heq : ys = zs := ih hy.tail hz.tail htail
          rw [heq]

/-! ## Building stable sorts -/

theorem StableSortOf.of_length_le_one {xs : List α} (h : xs.length ≤ 1) :
    StableSortOf key xs xs := by
  refine ⟨?_, fun _ => rfl⟩
  match xs, h with
  | [], _ => exact List.Pairwise.nil
  | [x], _ => exact List.pairwise_singleton _ x

/-- The comparison of a merge that prefers the left run on equal keys. -/
def keyLE (key : α → K) (a b : α) : Bool := decide (key a ≤ key b)

theorem matching_merge {xs ys : List α} (hx : SortedBy key xs) (k : K) :
    matching key (List.merge xs ys (keyLE key)) k =
      matching key xs k ++ matching key ys k := by
  induction xs generalizing ys with
  | nil => simp
  | cons x xs ihx =>
      induction ys with
      | nil => simp
      | cons y ys ihy =>
          rw [List.cons_merge_cons]
          by_cases hle : key x ≤ key y
          · rw [if_pos (by simpa [keyLE] using hle), matching_cons,
              matching_cons (b := x), ihx hx.tail]
            split <;> simp
          · rw [if_neg (by simpa [keyLE] using hle), matching_cons, ihy,
              matching_cons (b := y)]
            split
            · -- the right head goes first, so no left row has its key
              rename_i hk
              have hnone : matching key (x :: xs) k = [] :=
                matching_eq_nil_of_lt fun a ha => hk ▸
                  lt_of_lt_of_le (not_le.mp hle) (hx.head_le ha)
              rw [hnone, List.nil_append, List.nil_append]
            · rfl

theorem SortedBy.merge {xs ys : List α} (hx : SortedBy key xs)
    (hy : SortedBy key ys) :
    SortedBy key (List.merge xs ys (keyLE key)) := by
  have htrans : ∀ a b c, keyLE key a b = true → keyLE key b c = true →
      keyLE key a c = true := by
    intro a b c hab hbc
    simp only [keyLE, decide_eq_true_eq] at hab hbc ⊢
    exact hab.trans hbc
  have htotal : ∀ a b, (keyLE key a b || keyLE key b a) = true := by
    intro a b
    simpa [keyLE] using le_total (key a) (key b)
  have hmerge := List.pairwise_merge htrans htotal xs ys
    (by simpa [keyLE, SortedBy] using hx) (by simpa [keyLE, SortedBy] using hy)
  simpa [keyLE, SortedBy] using hmerge

theorem StableSortOf.merge {xs xs' ys ys' : List α}
    (hx : StableSortOf key xs xs') (hy : StableSortOf key ys ys') :
    StableSortOf key (xs ++ ys) (List.merge xs' ys' (keyLE key)) := by
  refine ⟨hx.sorted.merge hy.sorted, fun k => ?_⟩
  rw [matching_merge hx.sorted, hx.same_key, hy.same_key, matching_append]

/-! ## The shape of a stable sort -/

/-- The distinct keys of a list, in increasing order. -/
def distinctKeys (key : α → K) (xs : List α) : List K :=
  (xs.map key).toFinset.sort (· ≤ ·)

theorem mem_distinctKeys {xs : List α} {k : K} :
    k ∈ distinctKeys key xs ↔ ∃ x ∈ xs, key x = k := by
  simp [distinctKeys]

theorem matching_flatMap_matching (xs : List α) (ks : List K)
    (hks : ks.Nodup) (k : K) :
    matching key (ks.flatMap (matching key xs)) k =
      if k ∈ ks then matching key xs k else [] := by
  induction ks with
  | nil => rfl
  | cons h ks ih =>
      obtain ⟨hnotin, hrest⟩ := List.nodup_cons.mp hks
      rw [List.flatMap_cons, matching_append, ih hrest]
      by_cases hk : h = k
      · subst hk
        simp [hnotin, matching, List.filter_filter]
      · have hnone : matching key (matching key xs h) k = [] := by
          apply List.filter_eq_nil_iff.mpr
          intro x hx
          simpa [((mem_matching key).mp hx).2] using hk
        simp [hnone, Ne.symm hk]

theorem sortedBy_flatMap_matching (xs : List α) {ks : List K}
    (hks : ks.Pairwise (· < ·)) :
    SortedBy key (ks.flatMap (matching key xs)) := by
  rw [SortedBy, List.pairwise_flatMap]
  refine ⟨fun k _ => ?_, hks.imp fun {k k'} hlt x hx y hy => ?_⟩
  · apply List.pairwise_of_forall_mem_list
    intro x hx y hy
    rw [((mem_matching key).mp hx).2, ((mem_matching key).mp hy).2]
  · rw [((mem_matching key).mp hx).2, ((mem_matching key).mp hy).2]
    exact hlt.le

/-- **Shape of a stable sort**: the distinct keys in increasing order, each
with the original rows of that key in their original order. -/
theorem StableSortOf.eq_flatMap_keys {xs ys : List α}
    (h : StableSortOf key xs ys) :
    ys = (distinctKeys key xs).flatMap (matching key xs) := by
  have hlt : (distinctKeys key xs).Pairwise (· < ·) :=
    Finset.sortedLT_sort _ |>.pairwise
  refine eq_of_sortedBy_of_matching_eq h.sorted
    (sortedBy_flatMap_matching xs hlt) fun k => ?_
  rw [h.same_key, matching_flatMap_matching xs _ (hlt.imp fun h => h.ne)]
  split
  · rfl
  · rename_i hk
    apply List.filter_eq_nil_iff.mpr
    intro x hx
    simpa using fun hxk => hk (mem_distinctKeys.mpr ⟨x, hx, hxk⟩)

end GoPrep.Verified.StableSort
