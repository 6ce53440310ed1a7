import Mathlib.Data.List.Basic

/-!
# Half-open subranges of a list

Programs that work in place on `rows[left, right)` read a subrange and write a
subrange of the same length back.  `subrange` is the read, `replaceSubrange` the
write; the lemmas say that a write is seen by reads of its own range, is not
seen by reads past it, and that writes to adjacent ranges compose.
-/

namespace GoPrep.Verified.Subrange

universe u v

variable {α : Type*}

/-- The elements at positions `[start, stop)`. -/
def subrange (rows : List α) (start stop : Nat) : List α :=
  (rows.drop start).take (stop - start)

/-- `rows` with positions `[start, stop)` replaced by `out`. -/
def replaceSubrange (rows : List α) (start stop : Nat) (out : List α) :
    List α :=
  rows.take start ++ out ++ rows.drop stop

theorem subrange_eq_nil {rows : List α} {start stop : Nat}
    (h : stop ≤ start) : subrange rows start stop = [] := by
  simp [subrange, Nat.sub_eq_zero_of_le h]

theorem length_subrange {rows : List α} {start stop : Nat}
    (hstop : stop ≤ rows.length) :
    (subrange rows start stop).length = stop - start := by
  simp only [subrange, List.length_take, List.length_drop]
  omega

theorem subrange_zero_length (rows : List α) :
    subrange rows 0 rows.length = rows := by
  simp [subrange]

/-- Reading off the first element of a nonempty subrange. -/
theorem subrange_cons {rows : List α} {start stop : Nat} {row : α}
    (hlt : start < stop) (hrow : rows[start]? = some row) :
    subrange rows start stop = row :: subrange rows (start + 1) stop := by
  have hstart : start < rows.length := by
    rw [List.getElem?_eq_some_iff] at hrow
    exact hrow.1
  have hget : rows[start] = row := by
    simpa [List.getElem?_eq_getElem hstart] using hrow
  rw [subrange, subrange, List.drop_eq_getElem_cons hstart, hget,
    show stop - start = (stop - (start + 1)) + 1 by omega,
    List.take_succ_cons]

theorem subrange_append_subrange (rows : List α) {start mid stop : Nat}
    (hmid : start ≤ mid) (hstop : mid ≤ stop) :
    subrange rows start mid ++ subrange rows mid stop =
      subrange rows start stop := by
  have hdrop : rows.drop mid = (rows.drop start).drop (mid - start) := by
    rw [List.drop_drop, Nat.add_sub_cancel' hmid]
  rw [subrange, subrange, subrange, hdrop,
    show stop - start = (mid - start) + (stop - mid) by omega,
    List.take_add]

/-- **An index loop is an element loop.**  If the body at index `a` only
depends on the element found there, looping over the indices of a subrange is
looping over its elements. -/
theorem foldlM_range'_eq_subrange {m : Type u → Type v} [Monad m] {β : Type u}
    (rows : List α) (byIndex : β → Nat → m β) (byElement : β → α → m β)
    (hbody : ∀ (acc : β) (a : Nat) (row : α), rows[a]? = some row →
      byIndex acc a = byElement acc row)
    (start n : Nat) (acc : β) (hlen : start + n ≤ rows.length) :
    (List.range' start n).foldlM byIndex acc =
      (subrange rows start (start + n)).foldlM byElement acc := by
  induction n generalizing start acc with
  | zero => simp [subrange_eq_nil (Nat.le_refl start)]
  | succ n ih =>
      obtain ⟨row, hrow⟩ : ∃ row, rows[start]? = some row :=
        ⟨_, List.getElem?_eq_getElem (by omega)⟩
      rw [List.range'_succ, subrange_cons (by omega) hrow, List.foldlM_cons,
        List.foldlM_cons, hbody acc start row hrow]
      congr 1
      funext acc'
      rw [ih (start + 1) acc' (by omega),
        show start + 1 + n = start + (n + 1) by omega]

theorem foldl_range'_eq_subrange {β : Type u} (rows : List α)
    (byIndex : β → Nat → β) (byElement : β → α → β)
    (hbody : ∀ (acc : β) (a : Nat) (row : α), rows[a]? = some row →
      byIndex acc a = byElement acc row)
    (start n : Nat) (acc : β) (hlen : start + n ≤ rows.length) :
    (List.range' start n).foldl byIndex acc =
      (subrange rows start (start + n)).foldl byElement acc := by
  rw [List.foldl_eq_foldlM, List.foldl_eq_foldlM]
  exact congrArg Id.run (foldlM_range'_eq_subrange rows _ _
    (fun acc a row hrow => congrArg pure (hbody acc a row hrow))
    start n acc hlen)

section Replace

variable {rows out : List α} {start stop : Nat}

theorem length_replaceSubrange (hstart : start ≤ stop)
    (hstop : stop ≤ rows.length) (hout : out.length = stop - start) :
    (replaceSubrange rows start stop out).length = rows.length := by
  simp only [replaceSubrange, List.length_append, List.length_take,
    List.length_drop]
  omega

theorem take_replaceSubrange (hstart : start ≤ rows.length) :
    (replaceSubrange rows start stop out).take start = rows.take start := by
  have hlen : (rows.take start).length = start := by
    rw [List.length_take]
    omega
  rw [replaceSubrange, List.append_assoc, List.take_append_of_le_length
    (by omega), List.take_of_length_le (by omega)]

/-- Past the written range the old elements are still there. -/
theorem drop_replaceSubrange (hstart : start ≤ stop)
    (hstop : stop ≤ rows.length) (hout : out.length = stop - start)
    {pos : Nat} (hpos : stop ≤ pos) :
    (replaceSubrange rows start stop out).drop pos = rows.drop pos := by
  have hlen : (rows.take start ++ out).length = stop := by
    rw [List.length_append, List.length_take, hout]
    omega
  rw [replaceSubrange, List.drop_append, List.drop_eq_nil_of_le (by omega),
    List.nil_append, List.drop_drop, hlen]
  congr 1
  omega

/-- Outside the written range every element is still there. -/
theorem getElem?_replaceSubrange (hstart : start ≤ stop)
    (hstop : stop ≤ rows.length) (hout : out.length = stop - start)
    {pos : Nat} (hpos : pos < start ∨ stop ≤ pos) :
    (replaceSubrange rows start stop out)[pos]? = rows[pos]? := by
  rcases hpos with hbefore | hafter
  · rw [← List.getElem?_take_of_lt hbefore,
      take_replaceSubrange (Nat.le_trans hstart hstop),
      List.getElem?_take_of_lt hbefore]
  · have hread : ∀ l : List α, l[pos]? = (l.drop pos)[0]? := by
      intro l
      rw [List.getElem?_drop, Nat.add_zero]
    rw [hread, drop_replaceSubrange hstart hstop hout hafter, ← hread]

/-- The written range reads back what was written. -/
theorem subrange_replaceSubrange_self (hstart : start ≤ stop)
    (hstop : stop ≤ rows.length) (hout : out.length = stop - start) :
    subrange (replaceSubrange rows start stop out) start stop = out := by
  have hlen : (rows.take start).length = start := by
    rw [List.length_take]
    omega
  rw [subrange, replaceSubrange, List.append_assoc, List.drop_append,
    List.drop_eq_nil_of_le (by omega), List.nil_append, hlen, Nat.sub_self,
    List.drop_zero, List.take_append_of_le_length (by omega),
    List.take_of_length_le (by omega)]

theorem subrange_replaceSubrange_after (hstart : start ≤ stop)
    (hstop : stop ≤ rows.length) (hout : out.length = stop - start)
    {pos stop' : Nat} (hpos : stop ≤ pos) :
    subrange (replaceSubrange rows start stop out) pos stop' =
      subrange rows pos stop' := by
  rw [subrange, subrange, drop_replaceSubrange hstart hstop hout hpos]

theorem subrange_replaceSubrange_before (hstop : start ≤ rows.length)
    {pos stop' : Nat} (hpos : stop' ≤ start) :
    subrange (replaceSubrange rows start stop out) pos stop' =
      subrange rows pos stop' := by
  have htake : (replaceSubrange rows start stop out).take stop' =
      rows.take stop' := by
    rw [← Nat.min_eq_left hpos, ← List.take_take, ← List.take_take,
      take_replaceSubrange hstop]
  have hseg : ∀ l : List α, subrange l pos stop' = (l.take stop').drop pos :=
    fun l => by rw [subrange, List.drop_take]
  rw [hseg, hseg, htake]

/-- Writing two adjacent ranges is writing their union. -/
theorem replaceSubrange_adjacent (out' : List α) {stop' : Nat}
    (hstart : start ≤ stop) (hstop : stop ≤ stop')
    (hstop' : stop' ≤ rows.length)
    (hout : out.length = stop - start) :
    replaceSubrange (replaceSubrange rows start stop out) stop stop' out' =
      replaceSubrange rows start stop' (out ++ out') := by
  have hle : stop ≤ rows.length := by omega
  have hlen : (rows.take start ++ out).length = stop := by
    rw [List.length_append, List.length_take, hout]
    omega
  have htake : (replaceSubrange rows start stop out).take stop =
      rows.take start ++ out := by
    rw [replaceSubrange, List.take_append_of_le_length (by omega),
      List.take_of_length_le (by omega)]
  rw [replaceSubrange, htake, drop_replaceSubrange hstart hle hout hstop,
    replaceSubrange, List.append_assoc (rows.take start)]

/-- Writing the same range twice keeps the second write. -/
theorem replaceSubrange_same (out' : List α) (hstart : start ≤ stop)
    (hstop : stop ≤ rows.length) (hout : out.length = stop - start) :
    replaceSubrange (replaceSubrange rows start stop out) start stop out' =
      replaceSubrange rows start stop out' := by
  rw [replaceSubrange, take_replaceSubrange (by omega),
    drop_replaceSubrange hstart hstop hout (Nat.le_refl _), replaceSubrange]

theorem replaceSubrange_subrange (hstart : start ≤ stop) :
    replaceSubrange rows start stop (subrange rows start stop) = rows := by
  have hdrop : rows.drop stop = (rows.drop start).drop (stop - start) := by
    rw [List.drop_drop, Nat.add_sub_cancel' hstart]
  rw [replaceSubrange, subrange, hdrop, List.append_assoc,
    List.take_append_drop, List.take_append_drop]

end Replace

end GoPrep.Verified.Subrange
