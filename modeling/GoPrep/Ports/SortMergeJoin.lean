import GoPrep.Verified.Subrange
import GoPrep.Verified.StableSort
import GoPrep.Ports.JoinRows

/-!
# Sort-merge join

`join-practice/sort-merge-join.cpp`: a recursive merge sort on half-open
index ranges, and the two-cursor merge that emits the cross product of the
two runs of every common key.

Every `rows[i]` of the source is `rows[i]?` here and a `none` aborts the
computation, so a theorem that a call returns `some` also says that every
element access it makes is in bounds.  The loops terminate on the distance of
their cursors to the ends of the ranges.

## Main results

* `mergeSort_spec` — on a range inside the vector, `mergeSort` replaces the
  range by its stable sort and touches nothing else.
* `sortMergeJoin_spec` — the join emits, for every common key in increasing
  order, the cross product of the two runs in their original orders, and
  leaves both inputs stably sorted.
-/

namespace GoPrep.Ports.SortMergeJoin

open GoPrep.Verified.EquiJoin
open GoPrep.Verified.Subrange
open GoPrep.Verified.StableSort
open GoPrep.Ports.JoinRows

/-! ## Merge sort -/

/-- `while (i < stop) temp.push_back(rows[i++]);` -/
def drainRun (rows : List Row) (stop i : Nat) (temp : List Row) :
    Option (List Row) :=
  if i < stop then do
    let row ← rows[i]?
    drainRun rows stop (i + 1) (temp ++ [row])
  else some temp
termination_by stop - i

/-- The comparing loop of `merge`, then its two draining loops. -/
def mergeRuns (rows : List Row) (mid right i j : Nat) (temp : List Row) :
    Option (List Row) :=
  if i < mid ∧ j < right then do
    let a ← rows[i]?
    let b ← rows[j]?
    if a.key ≤ b.key then mergeRuns rows mid right (i + 1) j (temp ++ [a])
    else mergeRuns rows mid right i (j + 1) (temp ++ [b])
  else do
    let temp ← drainRun rows mid i temp
    drainRun rows right j temp
termination_by (mid - i) + (right - j)

/-- `std::copy(temp.begin(), temp.end(), rows.begin() + pos)`. -/
def copyBack (rows : List Row) (pos : Nat) : List Row → Option (List Row)
  | [] => some rows
  | row :: temp =>
      if pos < rows.length then copyBack (rows.set pos row) (pos + 1) temp
      else none

def merge (rows : List Row) (left mid right : Nat) : Option (List Row) := do
  let temp ← mergeRuns rows mid right left mid []
  copyBack rows left temp

/-- Sorts `rows[left, right)`; a range of at most one element is left. -/
def mergeSort (rows : List Row) (left right : Nat) : Option (List Row) :=
  if right - left ≤ 1 then some rows
  else do
    let mid := left + (right - left) / 2
    let rows ← mergeSort rows left mid
    let rows ← mergeSort rows mid right
    merge rows left mid right
termination_by right - left

/-- The overload that sorts the whole vector. -/
def mergeSortAll (rows : List Row) : Option (List Row) :=
  mergeSort rows 0 rows.length

/-! ## The join -/

/-- `while (end < rows.size() && key == rows[end].key) end++;` -/
def runEnd (rows : List Row) (key : Int) (stop : Nat) : Nat :=
  if h : stop < rows.length then
    if rows[stop].key = key then runEnd rows key (stop + 1) else stop
  else stop
termination_by rows.length - stop

theorem le_runEnd (rows : List Row) (key : Int) (stop : Nat) :
    stop ≤ runEnd rows key stop := by
  fun_induction runEnd rows key stop with
  | case1 stop h hkey ih => omega
  | case2 => exact Nat.le_refl _
  | case3 => exact Nat.le_refl _

theorem lt_runEnd {rows : List Row} {stop : Nat} {row : Row}
    (hrow : rows[stop]? = some row) : stop < runEnd rows row.key stop := by
  obtain ⟨h, hget⟩ := List.getElem?_eq_some_iff.mp hrow
  rw [runEnd, dif_pos h, if_pos (congrArg Row.key hget)]
  exact le_runEnd rows row.key (stop + 1)

/-- The emitting loops: `{R[a], S[b]}` for `a` in `[i, iEnd)` and `b` in
`[j, jEnd)`. -/
def emitRuns (R S : List Row) (i iEnd j jEnd : Nat)
    (result : List JoinedRow) : Option (List JoinedRow) :=
  (List.range' i (iEnd - i)).foldlM (fun result a =>
    (List.range' j (jEnd - j)).foldlM (fun result b => do
      let left ← R[a]?
      let right ← S[b]?
      return result ++ [⟨left, right⟩]) result) result

/-- The two-cursor loop of `sortMergeJoin`. -/
def joinRuns (R S : List Row) (i j : Nat) (result : List JoinedRow) :
    Option (List JoinedRow) :=
  if i < R.length ∧ j < S.length then
    match hr : R[i]?, hs : S[j]? with
    | some r, some s =>
        if r.key < s.key then joinRuns R S (i + 1) j result
        else if r.key > s.key then joinRuns R S i (j + 1) result
        else do
          let iEnd := runEnd R r.key i
          let jEnd := runEnd S r.key j
          let result ← emitRuns R S i iEnd j jEnd result
          joinRuns R S iEnd jEnd result
    | _, _ => none
  else some result
termination_by (R.length - i) + (S.length - j)
decreasing_by
  · omega
  · omega
  · have hi := lt_runEnd hr
    have hj := le_runEnd S r.key j
    omega

/-- The result, and the two vectors as the call leaves them. -/
def sortMergeJoin (R S : List Row) :
    Option (List JoinedRow × List Row × List Row) := do
  let R ← mergeSortAll R
  let S ← mergeSortAll S
  let result ← joinRuns R S 0 0 []
  return (result, R, S)

/-! ### The sort loops -/

/-- Draining appends the rest of the run. -/
theorem drainRun_eq (rows : List Row) (stop i : Nat) (temp : List Row)
    (hstop : stop ≤ rows.length) :
    drainRun rows stop i temp = some (temp ++ subrange rows i stop) := by
  fun_induction drainRun rows stop i temp with
  | case1 i temp hlt ih =>
      have hrow := List.getElem?_eq_getElem (Nat.lt_of_lt_of_le hlt hstop)
      rw [hrow, Option.bind_eq_bind, Option.bind_some, ih,
        subrange_cons hlt hrow, List.append_assoc, List.singleton_append]
  | case2 i temp hge =>
      rw [subrange_eq_nil (Nat.not_lt.mp hge), List.append_nil]

/-- The three loops of `merge` compute the left-preferring merge of the two
runs that are still unread. -/
theorem mergeRuns_eq (rows : List Row) (mid right i j : Nat) (temp : List Row)
    (hmid : mid ≤ rows.length) (hright : right ≤ rows.length) :
    mergeRuns rows mid right i j temp =
      some (temp ++ List.merge (subrange rows i mid) (subrange rows j right)
        (keyLE Row.key)) := by
  fun_induction mergeRuns rows mid right i j temp with
  | case1 i j temp hlt ihLeft ihRight =>
      obtain ⟨a, ha⟩ : ∃ a, rows[i]? = some a :=
        ⟨_, List.getElem?_eq_getElem (Nat.lt_of_lt_of_le hlt.1 hmid)⟩
      obtain ⟨b, hb⟩ : ∃ b, rows[j]? = some b :=
        ⟨_, List.getElem?_eq_getElem (Nat.lt_of_lt_of_le hlt.2 hright)⟩
      rw [ha, hb]
      simp only [Option.bind_eq_bind, Option.bind_some]
      rw [subrange_cons hlt.1 ha, subrange_cons hlt.2 hb, List.cons_merge_cons]
      split
      · rename_i hle
        rw [ihLeft a b, if_pos (by simpa [keyLE] using hle),
          subrange_cons hlt.2 hb, List.append_assoc, List.singleton_append]
      · rename_i hle
        rw [ihRight a b, if_neg (by simpa [keyLE] using hle),
          subrange_cons hlt.1 ha, List.append_assoc, List.singleton_append]
  | case2 i j temp hge =>
      rw [drainRun_eq rows mid i temp hmid, Option.bind_eq_bind,
        Option.bind_some, drainRun_eq rows right j _ hright]
      -- one of the two runs is exhausted, so the merge is the other one
      by_cases hi : i < mid
      · have hj : right ≤ j := Nat.not_lt.mp fun hj => hge ⟨hi, hj⟩
        simp [subrange_eq_nil hj]
      · simp [subrange_eq_nil (Nat.not_lt.mp hi)]

/-- Copying back overwrites exactly the positions it covers. -/
theorem copyBack_eq (rows : List Row) (pos : Nat) (temp : List Row)
    (hfits : pos + temp.length ≤ rows.length) :
    copyBack rows pos temp =
      some (replaceSubrange rows pos (pos + temp.length) temp) := by
  induction temp generalizing rows pos with
  | nil => simp [copyBack, replaceSubrange]
  | cons row temp ih =>
      rw [List.length_cons] at hfits ⊢
      have hpos : pos < rows.length := by omega
      rw [copyBack, if_pos hpos,
        ih (rows.set pos row) (pos + 1) (by rw [List.length_set]; omega)]
      have htake : (rows.set pos row).take (pos + 1) =
          rows.take pos ++ [row] := by
        rw [List.take_add_one, List.take_set_of_le (Nat.le_refl pos)]
        simp [hpos]
      have hdrop : (rows.set pos row).drop (pos + 1 + temp.length) =
          rows.drop (pos + (temp.length + 1)) := by
        rw [List.drop_set_of_lt (by omega)]
        congr 1
        omega
      simp [replaceSubrange, htake, hdrop]

/-- On two sorted runs `merge` writes their stable merge over them. -/
theorem merge_eq {rows : List Row} {left mid right : Nat}
    (hmid : left ≤ mid) (hright : mid ≤ right) (hlen : right ≤ rows.length) :
    merge rows left mid right =
      some (replaceSubrange rows left right
        (List.merge (subrange rows left mid) (subrange rows mid right)
          (keyLE Row.key))) := by
  have hmerged : (List.merge (subrange rows left mid)
      (subrange rows mid right) (keyLE Row.key)).length = right - left := by
    rw [List.length_merge, length_subrange (hright.trans hlen),
      length_subrange hlen]
    omega
  rw [merge, mergeRuns_eq rows mid right left mid [] (hright.trans hlen) hlen,
    List.nil_append, Option.bind_eq_bind, Option.bind_some,
    copyBack_eq _ _ _ (by rw [hmerged]; omega), hmerged,
    Nat.add_sub_cancel' (hmid.trans hright)]

/-- **Merge sort is a stable in-place sort with a frame.**  The call returns,
reads and writes in bounds, replaces `rows[left, right)` by its stable sort
and leaves every other position alone. -/
theorem mergeSort_spec (rows : List Row) (left right : Nat)
    (hle : left ≤ right) (hlen : right ≤ rows.length) :
    ∃ out, mergeSort rows left right =
        some (replaceSubrange rows left right out) ∧
      StableSortOf Row.key (subrange rows left right) out := by
  fun_induction mergeSort rows left right with
  | case1 rows left right hshort =>
      refine ⟨subrange rows left right, ?_, ?_⟩
      · rw [replaceSubrange_subrange hle]
      · exact .of_length_le_one (by rw [length_subrange hlen]; exact hshort)
  | case2 rows left right hlong mid ihLeft ihRight =>
      have hmid : left ≤ mid := by omega
      have hmid' : mid ≤ right := by omega
      obtain ⟨out1, hout1, hsort1⟩ := ihLeft hmid (hmid'.trans hlen)
      have hlen1 : out1.length = mid - left := by
        rw [hsort1.perm.length_eq, length_subrange (hmid'.trans hlen)]
      have hrows1 := length_replaceSubrange hmid (hmid'.trans hlen) hlen1
      obtain ⟨out2, hout2, hsort2⟩ := ihRight
        (replaceSubrange rows left mid out1) hmid' (by omega)
      rw [subrange_replaceSubrange_after hmid (hmid'.trans hlen) hlen1
        (Nat.le_refl mid)] at hsort2
      have hlen2 : out2.length = right - mid := by
        rw [hsort2.perm.length_eq, length_subrange hlen]
      rw [replaceSubrange_adjacent out2 hmid hmid' hlen hlen1] at hout2
      have hboth : (out1 ++ out2).length = right - left := by
        rw [List.length_append, hlen1, hlen2]
        omega
      -- what the merge reads are the two sorted halves
      have hadj := replaceSubrange_adjacent out2 hmid hmid' hlen hlen1
      have hread1 : subrange (replaceSubrange rows left right (out1 ++ out2))
          left mid = out1 := by
        rw [← hadj,
          subrange_replaceSubrange_before (by omega) (Nat.le_refl mid),
          subrange_replaceSubrange_self hmid (hmid'.trans hlen) hlen1]
      have hread2 : subrange (replaceSubrange rows left right (out1 ++ out2))
          mid right = out2 := by
        rw [← hadj, subrange_replaceSubrange_self hmid' (by omega) hlen2]
      refine ⟨List.merge out1 out2 (keyLE Row.key), ?_, ?_⟩
      · simp only [hout1, hout2, Option.bind_eq_bind, Option.bind_some]
        rw [merge_eq hmid hmid'
          (by rw [length_replaceSubrange hle hlen hboth]; exact hlen),
          hread1, hread2, replaceSubrange_same _ hle hlen hboth]
      · rw [← subrange_append_subrange rows hmid hmid']
        exact hsort1.merge hsort2

theorem mergeSortAll_spec (rows : List Row) :
    ∃ out, mergeSortAll rows = some out ∧ StableSortOf Row.key rows out := by
  obtain ⟨out, hout, hsort⟩ :=
    mergeSort_spec rows 0 rows.length (Nat.zero_le _) (Nat.le_refl _)
  rw [subrange_zero_length] at hsort
  refine ⟨out, ?_, hsort⟩
  rw [mergeSortAll, hout]
  simp [replaceSubrange]

/-! ### The two cursors -/

/-- The run found by `runEnd` lies inside the vector, holds only the key, and
ends where the key changes. -/
theorem runEnd_spec (rows : List Row) (key : Int) (stop : Nat)
    (hstop : stop ≤ rows.length) :
    runEnd rows key stop ≤ rows.length ∧
      (∀ row ∈ subrange rows stop (runEnd rows key stop), row.key = key) ∧
      ∀ row, rows[runEnd rows key stop]? = some row → row.key ≠ key := by
  fun_induction runEnd rows key stop with
  | case1 stop h hkey ih =>
      obtain ⟨hle, hrun, hend⟩ := ih h
      refine ⟨hle, ?_, hend⟩
      rw [subrange_cons (lt_of_lt_of_le (Nat.lt_succ_self stop)
        (le_runEnd rows key (stop + 1))) (List.getElem?_eq_getElem h)]
      intro row hrow
      rcases List.mem_cons.mp hrow with rfl | hrow
      · exact hkey
      · exact hrun row hrow
  | case2 stop h hkey =>
      refine ⟨hstop, ?_, ?_⟩
      · rw [subrange_eq_nil (Nat.le_refl stop)]
        exact fun row hrow => absurd hrow List.not_mem_nil
      · intro row hrow
        rw [List.getElem?_eq_getElem h, Option.some.injEq] at hrow
        exact hrow ▸ hkey
  | case3 stop h =>
      refine ⟨hstop, ?_, ?_⟩
      · rw [subrange_eq_nil (Nat.le_refl stop)]
        exact fun row hrow => absurd hrow List.not_mem_nil
      · intro row hrow
        rw [List.getElem?_eq_none (Nat.not_lt.mp h)] at hrow
        exact absurd hrow (by simp)

/-- In a sorted vector, no row behind a run that starts at the cursor has the
run's key. -/
theorem ne_of_mem_drop_runEnd {rows : List Row} {i : Nat} {row : Row}
    (hsorted : SortedBy Row.key rows) (hrow : rows[i]? = some row) :
    ∀ x ∈ rows.drop (runEnd rows row.key i), x.key ≠ row.key := by
  obtain ⟨hi, hget⟩ := List.getElem?_eq_some_iff.mp hrow
  obtain ⟨hle, _, hend⟩ := runEnd_spec rows row.key i hi.le
  intro x hx
  cases hdrop : rows.drop (runEnd rows row.key i) with
  | nil => simp [hdrop] at hx
  | cons y ys =>
      have hy : rows[runEnd rows row.key i]? = some y := by
        have h0 := congrArg List.head? hdrop
        simpa [List.head?_drop] using h0
      -- the head of the rest is above the key, and the rest is above its head
      have hrest : SortedBy Row.key (rows.drop (runEnd rows row.key i)) :=
        hsorted.drop
      rw [hdrop] at hx hrest
      have hyx : y.key ≤ x.key := SortedBy.head_le hrest hx
      have hcons : rows.drop i = row :: rows.drop (i + 1) := by
        rw [List.drop_eq_getElem_cons hi, hget]
      have hfrom : y ∈ rows.drop i := by
        have hsub : rows.drop (runEnd rows row.key i) =
            (rows.drop i).drop (runEnd rows row.key i - i) := by
          rw [List.drop_drop, Nat.add_sub_cancel' (le_runEnd rows row.key i)]
        apply List.mem_of_mem_drop (i := runEnd rows row.key i - i)
        rw [← hsub, hdrop]
        exact List.mem_cons_self
      have hky : row.key ≤ y.key := by
        have hall : SortedBy Row.key (rows.drop i) := hsorted.drop
        rw [hcons] at hall hfrom
        exact SortedBy.head_le hall hfrom
      have hne : y.key ≠ row.key := hend y hy
      omega

/-- The emitting loops push the cross product of the two subranges. -/
theorem emitRuns_eq (R S : List Row) (i iEnd j jEnd : Nat)
    (result : List JoinedRow) (hi : i ≤ iEnd) (hR : iEnd ≤ R.length)
    (hj : j ≤ jEnd) (hS : jEnd ≤ S.length) :
    emitRuns R S i iEnd j jEnd result =
      some (result ++ (subrange R i iEnd).flatMap fun left =>
        (subrange S j jEnd).map (JoinedRow.mk left)) := by
  have hpush : ∀ (left : Row) (rows : List Row) (result : List JoinedRow),
      rows.foldlM (fun result right =>
          some (result ++ [JoinedRow.mk left right])) result =
        some (result ++ rows.map (JoinedRow.mk left)) := by
    intro left rows
    induction rows with
    | nil => intro result; simp
    | cons right rows ih => intro result; simp [ih]
  have hgroups : ∀ (rows : List Row) (result : List JoinedRow),
      rows.foldlM (fun result left => some (result ++
          (subrange S j jEnd).map (JoinedRow.mk left))) result =
        some (result ++ rows.flatMap fun left =>
          (subrange S j jEnd).map (JoinedRow.mk left)) := by
    intro rows
    induction rows with
    | nil => intro result; simp
    | cons left rows ih => intro result; simp [ih]
  rw [emitRuns, foldlM_range'_eq_subrange R _
    (fun result left => some (result ++
      (subrange S j jEnd).map (JoinedRow.mk left))) ?_ i (iEnd - i) result
      (by omega), Nat.add_sub_cancel' hi]
  · exact hgroups _ result
  · intro result a left hleft
    rw [foldlM_range'_eq_subrange S _
      (fun result right => some (result ++ [JoinedRow.mk left right])) ?_ j
        (jEnd - j) result (by omega), Nat.add_sub_cancel' hj]
    · exact hpush left _ result
    · intro result b right hright
      simp [hleft, hright]

private theorem drop_eq_cons {rows : List Row} {i : Nat} {row : Row}
    (hrow : rows[i]? = some row) :
    rows.drop i = row :: rows.drop (i + 1) := by
  obtain ⟨hi, hget⟩ := List.getElem?_eq_some_iff.mp hrow
  rw [List.drop_eq_getElem_cons hi, hget]

/-- In a sorted vector every row from the cursor on is at least the row at
the cursor. -/
private theorem key_le_of_mem_drop {rows : List Row} {i : Nat} {row x : Row}
    (hsorted : SortedBy Row.key rows) (hrow : rows[i]? = some row)
    (hx : x ∈ rows.drop i) : row.key ≤ x.key := by
  have hdrop : SortedBy Row.key (rows.drop i) := hsorted.drop
  rw [drop_eq_cons hrow] at hdrop hx
  exact SortedBy.head_le hdrop hx

/-- Cutting the rest of a vector at the end of the run that starts it. -/
private theorem subrange_runEnd_append_drop {rows : List Row} {i : Nat}
    (key : Int) (hi : i ≤ rows.length) :
    subrange rows i (runEnd rows key i) ++ rows.drop (runEnd rows key i) =
      rows.drop i := by
  have hle := (runEnd_spec rows key i hi).1
  have hseg := subrange_append_subrange rows (le_runEnd rows key i) hle
  have htail : ∀ n, subrange rows n rows.length = rows.drop n := by
    intro n
    rw [subrange, ← List.length_drop, List.take_length]
  rwa [htail, htail] at hseg

/-- Behind both cursors lies the equality join of what they have not read. -/
theorem joinRuns_eq (R S : List Row) (i j : Nat) (result : List JoinedRow)
    (hR : SortedBy Row.key R) (hS : SortedBy Row.key S) :
    joinRuns R S i j result =
      some (result ++ equalityJoin (R.drop i) (S.drop j)) := by
  unfold equalityJoin
  fun_induction joinRuns R S i j result with
  | case1 i j result hlt r s hr hs hkey ih =>
      -- `R[i]` is below every remaining key of `S`
      have hnone := equiJoin_eq_nil JoinedRow.mk Row.key Row.key (l := [r])
        (r := S.drop j) (by
          intro a ha b hb
          have hle := key_le_of_mem_drop hS hs hb
          rw [List.mem_singleton.mp ha]
          omega)
      rw [ih, drop_eq_cons hr, ← List.singleton_append,
        equiJoin_append_left, hnone, List.nil_append]
  | case2 i j result hlt r s hr hs hkey hkey' ih =>
      -- `S[j]` is below every remaining key of `R`
      have hskip := equiJoin_append_right_of_ne JoinedRow.mk Row.key Row.key
        (l := R.drop i) (r := [s]) (S.drop (j + 1)) (by
          intro a ha b hb
          have hle := key_le_of_mem_drop hR hr ha
          rw [List.mem_singleton.mp hb]
          omega)
      rw [ih, drop_eq_cons hs, ← List.singleton_append, hskip]
  | case3 i j result hlt r s hr hs hkey hkey' iEnd jEnd ih =>
      have heq : s.key = r.key := by omega
      have hRun := runEnd_spec R r.key i hlt.1.le
      have hSun := runEnd_spec S r.key j hlt.2.le
      have hRest := ne_of_mem_drop_runEnd hR hr
      have hSest := ne_of_mem_drop_runEnd hS hs
      rw [heq] at hSest
      have hjoin := equiJoin_runs JoinedRow.mk Row.key Row.key
        hRun.2.1 hSun.2.1 hRest hSest
      rw [subrange_runEnd_append_drop r.key hlt.1.le,
        subrange_runEnd_append_drop r.key hlt.2.le] at hjoin
      rw [emitRuns_eq R S i iEnd j jEnd result (le_runEnd R r.key i) hRun.1
        (le_runEnd S r.key j) hSun.1, Option.bind_eq_bind, Option.bind_some,
        ih, hjoin, List.append_assoc]
  | case4 i j result hlt hnone =>
      have hr := List.getElem?_eq_getElem hlt.1
      have hs := List.getElem?_eq_getElem hlt.2
      exact absurd hs (hnone _ _ hr)
  | case5 i j result hge =>
      by_cases hi : i < R.length
      · have hj : S.length ≤ j := Nat.not_lt.mp fun hj => hge ⟨hi, hj⟩
        simp [List.drop_eq_nil_of_le hj]
      · simp [List.drop_eq_nil_of_le (Nat.not_lt.mp hi)]

/-! ## The result of the join -/

/-- The keys that occur on both sides, in increasing order. -/
def commonKeys (R S : List Row) : List Int :=
  (distinctKeys Row.key R).filter fun k => decide (∃ s ∈ S, s.key = k)

/-- For each common key in increasing order, each row of `R` with that key in
the order of `R`, and under it each row of `S` with that key in the order of
`S`. -/
def mergeOrderJoin (R S : List Row) : List JoinedRow :=
  (commonKeys R S).flatMap fun k =>
    (matching Row.key R k).flatMap fun r =>
      (matching Row.key S k).map (JoinedRow.mk r)

/-- The equality join of the stable sorts, read off key by key. -/
theorem equalityJoin_stableSort {R S R' S' : List Row}
    (hR : StableSortOf Row.key R R') (hS : StableSortOf Row.key S S') :
    equalityJoin R' S' = mergeOrderJoin R S := by
  have hgroups : equalityJoin R' S' =
      (distinctKeys Row.key R).flatMap fun k =>
        (matching Row.key R k).flatMap fun r =>
          (matching Row.key S k).map (JoinedRow.mk r) := by
    rw [equalityJoin, equiJoin, hR.eq_flatMap_keys, List.flatMap_assoc]
    refine List.flatMap_congr fun k _ => List.flatMap_congr fun r hr => ?_
    rw [hS.same_key, ((mem_matching Row.key).mp hr).2]
  rw [hgroups, mergeOrderJoin, commonKeys]
  -- a key that `S` lacks contributes nothing
  generalize distinctKeys Row.key R = ks
  induction ks with
  | nil => rfl
  | cons k ks ih =>
      rw [List.flatMap_cons, ih]
      by_cases hk : ∃ s ∈ S, s.key = k
      · rw [List.filter_cons_of_pos (by simpa using hk), List.flatMap_cons]
      · have hnone : matching Row.key S k = [] :=
          List.filter_eq_nil_iff.mpr fun s hs => by
            simpa using fun hsk => hk ⟨s, hs, hsk⟩
        rw [List.filter_cons_of_neg (by simpa using hk), hnone]
        simp

/-- **Sort-merge join is exactly the equality join.**  The call returns; its
result is `mergeOrderJoin`, which holds every pair of the equality join once
per occurrence; and it leaves both inputs stably sorted by key. -/
theorem sortMergeJoin_spec (R S : List Row) :
    ∃ R' S', sortMergeJoin R S = some (mergeOrderJoin R S, R', S') ∧
      (mergeOrderJoin R S).Perm (equalityJoin R S) ∧
      StableSortOf Row.key R R' ∧ StableSortOf Row.key S S' := by
  obtain ⟨R', hR', hsortR⟩ := mergeSortAll_spec R
  obtain ⟨S', hS', hsortS⟩ := mergeSortAll_spec S
  have hjoin := equalityJoin_stableSort hsortR hsortS
  refine ⟨R', S', ?_, ?_, hsortR, hsortS⟩
  · have hrun := joinRuns_eq R' S' 0 0 [] hsortR.sorted hsortS.sorted
    rw [List.drop_zero, List.drop_zero, List.nil_append, hjoin] at hrun
    simp [sortMergeJoin, hR', hS', hrun]
  · rw [← hjoin]
    exact equiJoin_perm JoinedRow.mk Row.key Row.key hsortR.perm hsortS.perm

end GoPrep.Ports.SortMergeJoin
