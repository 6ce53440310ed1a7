import Mathlib.Data.Nat.Log
import GoPrep.Verified.Metered
import GoPrep.Ports.SortMergeJoin

/-!
# What a sort-merge join costs

The functions of `join-practice/sort-merge-join.cpp` once more, this time
counting: every comparison of two keys, every row that is written (pushed
into `temp`, copied back, or pushed into the result), the rows that `temp`
reserves, and the calls of the file's functions that are active.

## Main results

* `value_sortMergeJoin` — the counting functions compute what the plain ones
  do.
* `mergeSort_ensures` — `n⌈log₂ n⌉` comparisons, `2n⌈log₂ n⌉` writes, one
  buffer of `n` rows and `⌈log₂ n⌉ + 1` nested calls suffice for a range of
  length `n`.
* `joinRuns_ensures` — the two cursors need three comparisons for a row, and
  one write for a row of the result.
* `sortMergeJoin_cost` — the bounds for the join.
-/

namespace GoPrep.Ports.SortMergeJoinCost

open GoPrep.Verified
open GoPrep.Verified.Metered
open GoPrep.Ports.JoinRows

/-! ## Merge sort -/

def drainRun (rows : List Row) (stop i : Nat) (temp : List Row) :
    Metered (List Row) :=
  if i < stop then do
    let row ← lift rows[i]?
    write
    drainRun rows stop (i + 1) (temp ++ [row])
  else pure temp
termination_by stop - i

def mergeRuns (rows : List Row) (mid right i j : Nat) (temp : List Row) :
    Metered (List Row) :=
  if i < mid ∧ j < right then do
    let a ← lift rows[i]?
    let b ← lift rows[j]?
    comparison
    write
    if a.key ≤ b.key then mergeRuns rows mid right (i + 1) j (temp ++ [a])
    else mergeRuns rows mid right i (j + 1) (temp ++ [b])
  else do
    let temp ← drainRun rows mid i temp
    drainRun rows right j temp
termination_by (mid - i) + (right - j)

def copyBack (rows : List Row) (pos : Nat) : List Row → Metered (List Row)
  | [] => pure rows
  | row :: temp =>
      if pos < rows.length then do
        write
        copyBack (rows.set pos row) (pos + 1) temp
      else lift none

/-- `temp` reserves the length of the range and is freed on return. -/
def merge (rows : List Row) (left mid right : Nat) : Metered (List Row) :=
  call <| holding (right - left) do
    let temp ← mergeRuns rows mid right left mid []
    copyBack rows left temp

def mergeSort (rows : List Row) (left right : Nat) : Metered (List Row) :=
  call <|
    if right - left ≤ 1 then pure rows
    else do
      let mid := left + (right - left) / 2
      let rows ← mergeSort rows left mid
      let rows ← mergeSort rows mid right
      merge rows left mid right
termination_by right - left

def mergeSortAll (rows : List Row) : Metered (List Row) :=
  call (mergeSort rows 0 rows.length)

/-! ## The join -/

def runEnd (rows : List Row) (key : Int) (stop : Nat) : Metered Nat :=
  if h : stop < rows.length then do
    comparison
    if rows[stop].key = key then runEnd rows key (stop + 1) else pure stop
  else pure stop
termination_by rows.length - stop

def emitRuns (R S : List Row) (i iEnd j jEnd : Nat)
    (result : List JoinedRow) : Metered (List JoinedRow) :=
  (List.range' i (iEnd - i)).foldlM (fun result a =>
    (List.range' j (jEnd - j)).foldlM (fun result b => do
      let left ← lift R[a]?
      let right ← lift S[b]?
      write
      return result ++ [⟨left, right⟩]) result) result

theorem value_runEnd (rows : List Row) (key : Int) (stop : Nat) :
    (runEnd rows key stop).value =
      some (SortMergeJoin.runEnd rows key stop) := by
  fun_induction SortMergeJoin.runEnd rows key stop with
  | case1 stop h hkey ih =>
      rw [runEnd, dif_pos h, value_bind, value_comparison, Option.bind_some,
        if_pos hkey]
      exact ih
  | case2 stop h hkey =>
      rw [runEnd, dif_pos h, value_bind, value_comparison, Option.bind_some,
        if_neg hkey]
      rfl
  | case3 stop h =>
      rw [runEnd, dif_neg h]
      rfl

/-- The end of a run is not before its start. -/
theorem le_of_value_runEnd {rows : List Row} {key : Int} {stop out : Nat}
    (h : (runEnd rows key stop).value = some out) : stop ≤ out := by
  rw [value_runEnd, Option.some.injEq] at h
  exact h ▸ SortMergeJoin.le_runEnd rows key stop

/-- A run at a row with its key is not empty. -/
theorem lt_of_value_runEnd {rows : List Row} {stop out : Nat} {row : Row}
    (hrow : rows[stop]? = some row)
    (h : (runEnd rows row.key stop).value = some out) : stop < out := by
  rw [value_runEnd, Option.some.injEq] at h
  exact h ▸ SortMergeJoin.lt_runEnd hrow

def joinRuns (R S : List Row) (i j : Nat) (result : List JoinedRow) :
    Metered (List JoinedRow) :=
  if i < R.length ∧ j < S.length then
    match _ : R[i]?, _ : S[j]? with
    | some r, some s => do
        comparison
        if r.key < s.key then joinRuns R S (i + 1) j result
        else do
          comparison
          if r.key > s.key then joinRuns R S i (j + 1) result
          else do
            let ⟨iEnd, _⟩ ← (runEnd R r.key i).attach
            let ⟨jEnd, _⟩ ← (runEnd S r.key j).attach
            let result ← emitRuns R S i iEnd j jEnd result
            joinRuns R S iEnd jEnd result
    | _, _ => lift none
  else pure result
termination_by (R.length - i) + (S.length - j)
decreasing_by
  · omega
  · omega
  · have hi := lt_of_value_runEnd ‹R[i]? = some _› ‹_›
    have hj := le_of_value_runEnd ‹(runEnd S _ j).value = some _›
    omega

def sortMergeJoin (R S : List Row) :
    Metered (List JoinedRow × List Row × List Row) :=
  call do
    let R ← mergeSortAll R
    let S ← mergeSortAll S
    let result ← joinRuns R S 0 0 []
    return (result, R, S)

/-! ## The counting functions compute what the plain ones do -/

theorem value_drainRun (rows : List Row) (stop i : Nat) (temp : List Row) :
    (drainRun rows stop i temp).value =
      SortMergeJoin.drainRun rows stop i temp := by
  fun_induction SortMergeJoin.drainRun rows stop i temp with
  | case1 i temp hlt ih =>
      rw [drainRun, if_pos hlt]
      simp only [value_bind, value_lift, value_write, Option.bind_some, ih]
      rfl
  | case2 i temp hge =>
      rw [drainRun, if_neg hge]
      rfl

theorem value_mergeRuns (rows : List Row) (mid right i j : Nat)
    (temp : List Row) :
    (mergeRuns rows mid right i j temp).value =
      SortMergeJoin.mergeRuns rows mid right i j temp := by
  fun_induction SortMergeJoin.mergeRuns rows mid right i j temp with
  | case1 i j temp hlt ihLeft ihRight =>
      rw [mergeRuns, if_pos hlt]
      simp only [value_bind, value_lift, value_comparison, value_write,
        Option.bind_some, apply_ite Metered.value]
      refine congrArg _ (funext fun a => congrArg _ (funext fun b => ?_))
      rw [ihLeft a b, ihRight a b]
  | case2 i j temp hge =>
      rw [mergeRuns, if_neg hge]
      simp only [value_bind, value_drainRun]
      rfl

theorem value_copyBack (rows : List Row) (pos : Nat) (temp : List Row) :
    (copyBack rows pos temp).value =
      SortMergeJoin.copyBack rows pos temp := by
  induction temp generalizing rows pos with
  | nil => rfl
  | cons row temp ih =>
      rw [copyBack, SortMergeJoin.copyBack, apply_ite Metered.value,
        value_bind, value_write, Option.bind_some, ih]
      rfl

theorem value_merge (rows : List Row) (left mid right : Nat) :
    (merge rows left mid right).value =
      SortMergeJoin.merge rows left mid right := by
  simp only [merge, value_call, value_holding, value_bind, value_mergeRuns,
    value_copyBack]
  rfl

theorem value_mergeSort (rows : List Row) (left right : Nat) :
    (mergeSort rows left right).value =
      SortMergeJoin.mergeSort rows left right := by
  fun_induction SortMergeJoin.mergeSort rows left right with
  | case1 rows left right hshort =>
      rw [mergeSort, value_call, if_pos hshort]
      rfl
  | case2 rows left right hlong mid ihLeft ihRight =>
      rw [mergeSort, value_call, if_neg hlong]
      simp only [value_bind, value_merge]
      rw [ihLeft]
      exact congrArg _ (funext fun rows => by rw [ihRight]; rfl)

theorem value_mergeSortAll (rows : List Row) :
    (mergeSortAll rows).value = SortMergeJoin.mergeSortAll rows := by
  rw [mergeSortAll, value_call, value_mergeSort]
  rfl

theorem value_emitRuns (R S : List Row) (i iEnd j jEnd : Nat)
    (result : List JoinedRow) :
    (emitRuns R S i iEnd j jEnd result).value =
      SortMergeJoin.emitRuns R S i iEnd j jEnd result := by
  simp only [emitRuns, value_foldlM, value_bind, value_lift, value_write,
    Option.bind_some, value_pure]
  rfl

/-- One round of the loop, at two rows. -/
theorem joinRuns_eq {R S : List Row} {i j : Nat} {r s : Row}
    (result : List JoinedRow) (hlt : i < R.length ∧ j < S.length)
    (hr : R[i]? = some r) (hs : S[j]? = some s) :
    joinRuns R S i j result = (do
      comparison
      if r.key < s.key then joinRuns R S (i + 1) j result
      else do
        comparison
        if r.key > s.key then joinRuns R S i (j + 1) result
        else do
          let iEnd ← (runEnd R r.key i).attach
          let jEnd ← (runEnd S r.key j).attach
          let result ← emitRuns R S i iEnd j jEnd result
          joinRuns R S iEnd jEnd result) := by
  rw [joinRuns, if_pos hlt]
  split
  · rename_i r' s' hr' hs'
    rw [hr, Option.some.injEq] at hr'
    rw [hs, Option.some.injEq] at hs'
    subst hr' hs'
    rfl
  · rename_i hnone
    exact absurd hs (hnone r s hr)

theorem value_joinRuns (R S : List Row) (i j : Nat)
    (result : List JoinedRow) :
    (joinRuns R S i j result).value =
      SortMergeJoin.joinRuns R S i j result := by
  fun_induction SortMergeJoin.joinRuns R S i j result with
  | case1 i j result hlt r s hr hs hkey ih =>
      rw [joinRuns_eq result hlt hr hs, value_bind, value_comparison,
        Option.bind_some, if_pos hkey]
      exact ih
  | case2 i j result hlt r s hr hs hkey hkey' ih =>
      rw [joinRuns_eq result hlt hr hs, value_bind, value_comparison,
        Option.bind_some, if_neg hkey, value_bind, value_comparison,
        Option.bind_some, if_pos hkey']
      exact ih
  | case3 i j result hlt r s hr hs hkey hkey' iEnd jEnd ih =>
      rw [joinRuns_eq result hlt hr hs, value_bind, value_comparison,
        Option.bind_some, if_neg hkey, value_bind, value_comparison,
        Option.bind_some, if_neg hkey',
        value_attach_bind (value_runEnd R r.key i),
        value_attach_bind (value_runEnd S r.key j), value_bind,
        value_emitRuns]
      exact congrArg _ (funext ih)
  | case4 i j result hlt hnone =>
      exact absurd (List.getElem?_eq_getElem hlt.2)
        (hnone _ _ (List.getElem?_eq_getElem hlt.1))
  | case5 i j result hge =>
      rw [joinRuns, if_neg hge]
      rfl

theorem value_sortMergeJoin (R S : List Row) :
    (sortMergeJoin R S).value = SortMergeJoin.sortMergeJoin R S := by
  simp only [sortMergeJoin, value_call, value_bind, value_mergeSortAll,
    value_joinRuns, value_pure]
  rfl

/-! ## What they use -/

theorem drainRun_ensures (rows : List Row) (stop i : Nat)
    (temp : List Row) :
    (drainRun rows stop i temp).Ensures fun out u =>
      out.length = temp.length + (stop - i) ∧ u = ⟨0, stop - i, 0, 0⟩ := by
  fun_induction drainRun rows stop i temp with
  | case1 i temp hlt ih =>
      refine .bind (.lift fun row _ => .bind (.write ((ih row).mono ?_)))
      rintro out u ⟨hlen, rfl⟩
      rw [List.length_append, List.length_singleton] at hlen
      refine ⟨by omega, ?_⟩
      rw [zero_add, Usage.mk_add_mk]
      congr 1
      omega
  | case2 i temp hge =>
      rw [Nat.sub_eq_zero_of_le (Nat.not_lt.mp hge)]
      exact .pure ⟨rfl, rfl⟩

/-- A row of the range costs at most a comparison, and exactly a write. -/
theorem mergeRuns_ensures (rows : List Row) (mid right i j : Nat)
    (temp : List Row) :
    (mergeRuns rows mid right i j temp).Ensures fun out u =>
      out.length = temp.length + ((mid - i) + (right - j)) ∧
        ∃ c ≤ (mid - i) + (right - j),
          u = ⟨c, (mid - i) + (right - j), 0, 0⟩ := by
  fun_induction mergeRuns rows mid right i j temp with
  | case1 i j temp hlt ihLeft ihRight =>
      refine .bind (.lift fun a _ => .bind (.lift fun b _ =>
        .bind (.comparison (.bind (.write ?_)))))
      split
      · refine (ihLeft a b).mono ?_
        rintro out u ⟨hlen, c, hc, rfl⟩
        rw [List.length_append, List.length_singleton] at hlen
        refine ⟨by omega, 1 + c, by omega, ?_⟩
        simp only [zero_add, Usage.mk_add_mk]
        congr 1
        omega
      · refine (ihRight a b).mono ?_
        rintro out u ⟨hlen, c, hc, rfl⟩
        rw [List.length_append, List.length_singleton] at hlen
        refine ⟨by omega, 1 + c, by omega, ?_⟩
        simp only [zero_add, Usage.mk_add_mk]
        congr 1
        omega
  | case2 i j temp hge =>
      refine .bind ((drainRun_ensures rows mid i temp).mono ?_)
      rintro out u ⟨hlen, rfl⟩
      refine (drainRun_ensures rows right j out).mono ?_
      rintro out' u ⟨hlen', rfl⟩
      exact ⟨by omega, 0, Nat.zero_le _, rfl⟩

theorem copyBack_ensures (rows : List Row) (pos : Nat) (temp : List Row) :
    (copyBack rows pos temp).Ensures fun _ u =>
      u = ⟨0, temp.length, 0, 0⟩ := by
  induction temp generalizing rows pos with
  | nil => exact .pure rfl
  | cons row temp ih =>
      rw [copyBack]
      split
      · refine .bind (.write ((ih _ _).mono ?_))
        rintro out u rfl
        rw [Usage.mk_add_mk, List.length_cons, Nat.add_comm 1]
        rfl
      · exact .lift fun _ hnone => nomatch hnone

/-- A merge is linear in its range. -/
theorem merge_ensures (rows : List Row) {left mid right : Nat}
    (hmid : left ≤ mid) (hright : mid ≤ right) :
    (merge rows left mid right).Ensures fun _ u =>
      ∃ c ≤ right - left,
        u = ⟨c, 2 * (right - left), right - left, 1⟩ := by
  have hrange : mid - left + (right - mid) = right - left := by omega
  refine .call (.holding (.bind
    ((mergeRuns_ensures rows mid right left mid []).mono ?_)))
  rintro temp u ⟨hlen, c, hc, rfl⟩
  refine (copyBack_ensures rows left temp).mono ?_
  rintro out u rfl
  rw [hrange] at hlen hc
  refine ⟨c, hc, ?_⟩
  rw [hlen, hrange, Usage.mk_add_mk]
  simp [Nat.two_mul]

/-- What sorting a range of length `n` may use. -/
structure SortUsage (n : Nat) (u : Usage) : Prop where
  comparisons : u.comparisons ≤ n * Nat.clog 2 n
  writes : u.writes ≤ 2 * (n * Nat.clog 2 n)
  /-- The buffers of the two halves are freed before this one is allocated. -/
  cells : u.cells ≤ n
  frames : u.frames ≤ Nat.clog 2 n + 1

/-- The logarithm rounded up drops by one from a range to its halves. -/
theorem clog_half {n k : Nat} (hn : 1 < n) (hk : k ≤ n - n / 2) :
    Nat.clog 2 k + 1 ≤ Nat.clog 2 n := by
  rw [Nat.clog_of_two_le (by decide : 1 < 2) hn]
  exact Nat.add_le_add_right (Nat.clog_mono_right 2 (by omega)) 1

/-- The two halves and a linear merge fit into the bound. -/
theorem halves_le {n h k c : Nat} (hn : 1 < n) (hsum : h + k = n)
    (hh : h ≤ n - n / 2) (hk : k ≤ n - n / 2) (hc : c ≤ n) :
    h * Nat.clog 2 h + k * Nat.clog 2 k + c ≤ n * Nat.clog 2 n := by
  obtain ⟨m, hm⟩ : ∃ m, Nat.clog 2 n = m + 1 :=
    ⟨_, Nat.clog_of_two_le (Nat.lt_succ_self 1) hn⟩
  have hlogh : Nat.clog 2 h ≤ m := by have := clog_half hn hh; omega
  have hlogk : Nat.clog 2 k ≤ m := by have := clog_half hn hk; omega
  calc h * Nat.clog 2 h + k * Nat.clog 2 k + c
      ≤ h * m + k * m + n := Nat.add_le_add (Nat.add_le_add
        (Nat.mul_le_mul_left h hlogh) (Nat.mul_le_mul_left k hlogk)) hc
    _ = n * Nat.clog 2 n := by rw [← Nat.add_mul, hsum, hm, Nat.mul_succ]

/-- **The recurrence of merge sort**: two halves one after the other, then a
merge, in one more call. -/
theorem SortUsage.halves {n h k c : Nat} {u v : Usage} (hn : 1 < n)
    (hsum : h + k = n) (hh : h ≤ n - n / 2) (hk : k ≤ n - n / 2)
    (hu : SortUsage h u) (hv : SortUsage k v) (hc : c ≤ n) :
    SortUsage n { u + (v + ⟨c, 2 * n, n, 1⟩) with
      frames := (u + (v + ⟨c, 2 * n, n, 1⟩)).frames + 1 } := by
  have hcomparisons := halves_le hn hsum hh hk hc
  have hwrites := halves_le hn hsum hh hk (Nat.le_refl n)
  have hlogh := clog_half hn hh
  have hlogk := clog_half hn hk
  have hu' := hu.frames
  have hv' := hv.frames
  constructor
  · have := hu.comparisons
    have := hv.comparisons
    simp only [Usage.add_comparisons]
    omega
  · have := hu.writes
    have := hv.writes
    simp only [Usage.add_writes]
    omega
  · have := hu.cells
    have := hv.cells
    simp only [Usage.add_cells]
    omega
  · simp only [Usage.add_frames]
    omega

theorem mergeSort_ensures (rows : List Row) (left right : Nat) :
    (mergeSort rows left right).Ensures fun _ u =>
      SortUsage (right - left) u := by
  induction rows, left, right using SortMergeJoin.mergeSort.induct with
  | case1 rows left right hshort =>
      rw [mergeSort, if_pos hshort]
      exact .call (.pure ⟨Nat.zero_le _, Nat.zero_le _, Nat.zero_le _,
        Nat.succ_le_succ (Nat.zero_le _)⟩)
  | case2 rows left right hlong mid ihLeft ihRight =>
      rw [mergeSort, if_neg hlong]
      refine .call (.bind (ihLeft.mono fun rows u hu =>
        .bind ((ihRight rows).mono fun rows v hv => ?_)))
      refine (merge_ensures rows (by omega) (by omega)).mono ?_
      rintro out w ⟨c, hc, rfl⟩
      exact .halves (Nat.not_le.mp hlong) (by omega) (by omega) (by omega)
        hu hv hc

theorem mergeSortAll_ensures (rows : List Row) :
    (mergeSortAll rows).Ensures fun out u =>
      out.length = rows.length ∧ ∃ v, SortUsage rows.length v ∧
        u = { v with frames := v.frames + 1 } := by
  intro out hout
  refine ⟨?_, (mergeSort rows 0 rows.length).usage, ?_, rfl⟩
  · rw [value_mergeSortAll] at hout
    obtain ⟨out', hout', hsort⟩ := SortMergeJoin.mergeSortAll_spec rows
    rw [hout, Option.some.injEq] at hout'
    rw [hout']
    exact hsort.perm.length_eq
  · exact mergeSort_ensures rows 0 rows.length out hout

/-- A run costs a comparison for each of its rows and one at its end. -/
theorem runEnd_ensures (rows : List Row) (key : Int) (stop : Nat)
    (hstop : stop ≤ rows.length) :
    (runEnd rows key stop).Ensures fun out u =>
      stop ≤ out ∧ out ≤ rows.length ∧
        ∃ c ≤ out - stop + 1, u = ⟨c, 0, 0, 0⟩ := by
  fun_induction runEnd rows key stop with
  | case1 stop h ih =>
      refine .bind (.comparison ?_)
      split
      · refine (ih h).mono ?_
        rintro out u ⟨hle, hout, c, hc, rfl⟩
        exact ⟨by omega, hout, 1 + c, by omega, rfl⟩
      · exact .pure ⟨Nat.le_refl _, hstop, 1, by omega, rfl⟩
  | case2 stop h =>
      exact .pure ⟨Nat.le_refl _, hstop, 0, Nat.zero_le _, rfl⟩

/-- From `result` to `out` with at most `n` comparisons, one write for each
row that is appended and nothing else. -/
def Emits (n : Nat) (result out : List JoinedRow) (u : Usage) : Prop :=
  ∃ c ≤ n, ∃ w, out.length = result.length + w ∧ u = ⟨c, w, 0, 0⟩

theorem Emits.nothing {n c : Nat} (result : List JoinedRow) (hc : c ≤ n) :
    Emits n result result ⟨c, 0, 0, 0⟩ :=
  ⟨c, hc, 0, rfl, rfl⟩

theorem Emits.mono {n m : Nat} {result out : List JoinedRow} {u : Usage}
    (h : Emits n result out u) (hle : n ≤ m) : Emits m result out u := by
  obtain ⟨c, hc, hw⟩ := h
  exact ⟨c, hc.trans hle, hw⟩

theorem Emits.trans {n m : Nat} {result out out' : List JoinedRow}
    {u v : Usage} (h : Emits n result out u) (h' : Emits m out out' v) :
    Emits (n + m) result out' (u + v) := by
  obtain ⟨c, hc, w, hlen, rfl⟩ := h
  obtain ⟨c', hc', w', hlen', rfl⟩ := h'
  refine ⟨c + c', Nat.add_le_add hc hc', w + w', ?_, rfl⟩
  rw [hlen', hlen, Nat.add_assoc]

theorem emitRuns_ensures (R S : List Row) (i iEnd j jEnd : Nat)
    (result : List JoinedRow) :
    (emitRuns R S i iEnd j jEnd result).Ensures (Emits 0 result) := by
  refine .foldlM _ (.nothing result (Nat.le_refl 0)) fun out u a _ hout => ?_
  refine .mono (.foldlM (Emits 0 out) (.nothing out (Nat.le_refl 0))
    fun out' v b _ hout' => ?_) fun _ _ h => hout.trans h
  refine .bind (.lift fun left _ => .bind (.lift fun right _ =>
    .bind (.write (.pure (hout'.trans ⟨0, Nat.le_refl 0, 1, ?_, rfl⟩)))))
  rw [List.length_append]
  rfl

/-- **The cursors cost three comparisons for a row they pass**, runs
included, and one write for a row they emit. -/
theorem joinRuns_ensures (R S : List Row) (i j : Nat)
    (result : List JoinedRow) :
    (joinRuns R S i j result).Ensures
      (Emits (3 * ((R.length - i) + (S.length - j))) result) := by
  fun_induction joinRuns R S i j result with
  | case1 i j result hlt r s hr hs ihLeft ihRight ihEnds =>
      obtain ⟨hi, hj⟩ := hlt
      have htest := Emits.nothing result (Nat.le_refl 1)
      refine .bind (.comparison ?_)
      split
      · exact ihLeft.mono fun out u h => (htest.trans h).mono (by omega)
      · refine .bind (.comparison ?_)
        split
        · exact ihRight.mono fun out u h =>
            (htest.trans (htest.trans h)).mono (by omega)
        · -- both runs hold their first row
          rename_i hge hle
          have hkey : r.key = s.key := by omega
          refine .bind (.mono (.attach (runEnd_ensures R r.key i hi.le)) ?_)
          rintro ⟨iEnd, hiEnd⟩ u ⟨-, hlenR, c, hc, rfl⟩
          refine .bind (.mono (.attach (runEnd_ensures S r.key j hj.le)) ?_)
          rintro ⟨jEnd, hjEnd⟩ u ⟨-, hlenS, d, hd, rfl⟩
          refine .bind (.mono (emitRuns_ensures R S i iEnd j jEnd result) ?_)
          intro out u hout
          refine (ihEnds iEnd hiEnd jEnd hjEnd out).mono fun out' v h => ?_
          dsimp only at hlenR hlenS hc hd
          have hlti := lt_of_value_runEnd hr hiEnd
          have hltj := lt_of_value_runEnd hs (hkey ▸ hjEnd)
          exact (htest.trans (htest.trans ((Emits.nothing result hc).trans
            ((Emits.nothing result hd).trans (hout.trans h))))).mono (by omega)
  | case2 i j result hlt hnone =>
      exact .lift fun _ h => nomatch h
  | case3 i j result hge =>
      exact .pure (.nothing result (Nat.zero_le _))

/-- **The cost of the join.**  It returns what the plain join returns; it
needs `r⌈log₂ r⌉ + s⌈log₂ s⌉` comparisons for the sorts and three for each
row in the traversal, one write for each row of the result besides those of
the sorts, the buffer of one sort at a time, and a call stack that grows with
the logarithm. -/
theorem sortMergeJoin_cost (R S : List Row) :
    ∃ result R' S' u, sortMergeJoin R S = ⟨some (result, R', S'), u⟩ ∧
      SortMergeJoin.sortMergeJoin R S = some (result, R', S') ∧
      u.comparisons ≤ R.length * Nat.clog 2 R.length +
        S.length * Nat.clog 2 S.length + 3 * (R.length + S.length) ∧
      result.length ≤ u.writes ∧
      u.writes ≤ 2 * (R.length * Nat.clog 2 R.length +
        S.length * Nat.clog 2 S.length) + result.length ∧
      u.cells ≤ max R.length S.length ∧
      u.frames ≤ Nat.clog 2 (max R.length S.length) + 3 := by
  obtain ⟨R', S', hjoin, -⟩ := SortMergeJoin.sortMergeJoin_spec R S
  have hvalue := (value_sortMergeJoin R S).trans hjoin
  have husage : (sortMergeJoin R S).Ensures fun out u =>
      ∃ v w x, SortUsage R.length v ∧ SortUsage S.length w ∧
        Emits (3 * (R.length + S.length)) [] out.1 x ∧
        u.comparisons = v.comparisons + w.comparisons + x.comparisons ∧
        u.writes = v.writes + w.writes + x.writes ∧
        u.cells = max (max v.cells w.cells) x.cells ∧
        u.frames = max (max v.frames w.frames + 1) x.frames + 1 := by
    refine .call (.bind ((mergeSortAll_ensures R).mono ?_))
    rintro R₁ - ⟨hlenR, v, hv, rfl⟩
    refine .bind ((mergeSortAll_ensures S).mono ?_)
    rintro S₁ - ⟨hlenS, w, hw, rfl⟩
    refine .bind ((joinRuns_ensures R₁ S₁ 0 0 []).mono fun out x hx => ?_)
    rw [hlenR, hlenS, Nat.sub_zero, Nat.sub_zero] at hx
    refine .pure ⟨v, w, x, hv, hw, hx, ?_, ?_, ?_, ?_⟩
    · simp [Nat.add_assoc]
    · simp [Nat.add_assoc]
    · simp [Nat.max_assoc]
    · simp; omega
  obtain ⟨v, w, _, hv, hw, ⟨c, hc, n, hlen, rfl⟩, hcomparisons, hwrites,
    hcells, hframes⟩ := husage _ hvalue
  dsimp only at hlen hcomparisons hwrites hcells hframes
  rw [List.length_nil, Nat.zero_add] at hlen
  refine ⟨_, R', S', (sortMergeJoin R S).usage, ?_, hjoin, ?_, ?_, ?_, ?_, ?_⟩
  · rw [← hvalue]
  · have := hv.comparisons
    have := hw.comparisons
    omega
  · omega
  · have := hv.writes
    have := hw.writes
    omega
  · rw [hcells, Nat.max_zero]
    exact max_le_max hv.cells hw.cells
  · have hlogR := Nat.clog_mono_right 2 (Nat.le_max_left R.length S.length)
    have hlogS := Nat.clog_mono_right 2 (Nat.le_max_right R.length S.length)
    have := hv.frames
    have := hw.frames
    omega

end GoPrep.Ports.SortMergeJoinCost
