import Mathlib.Data.List.AList
import GoPrep.Verified.EquiJoin

/-!
# Folding a stream by key

A stream of keyed values is folded group by group: a table holds one
accumulator for each key met, the first value of a key is folded into `init`
and every later one into the accumulator found.  `FoldsByKey` says what the
table then holds, and `FoldsByKey.add` is the one rule a program has to use.

Nothing is asked of the fold, so a group depends on the order of its own
values; on the values of the other keys it does not depend at all
(`FoldsByKey.perm`).  `IsShuffle` says of two streams that they differ in the
order of values of different keys only.
-/

namespace GoPrep.Verified.GroupFold

open GoPrep.Verified.EquiJoin

variable {K V S : Type*} [DecidableEq K]

/-- The values of a key, in arrival order. -/
def valuesAt (rows : List (K × V)) (k : K) : List V :=
  (matching Prod.fst rows k).map Prod.snd

@[simp] theorem valuesAt_nil (k : K) : valuesAt ([] : List (K × V)) k = [] :=
  rfl

@[simp] theorem valuesAt_append (rows rows' : List (K × V)) (k : K) :
    valuesAt (rows ++ rows') k = valuesAt rows k ++ valuesAt rows' k := by
  rw [valuesAt, matching_append, List.map_append]
  rfl

theorem valuesAt_cons (row : K × V) (rows : List (K × V)) (k : K) :
    valuesAt (row :: rows) k =
      if row.1 = k then row.2 :: valuesAt rows k else valuesAt rows k := by
  rw [valuesAt, matching_cons]
  split <;> rfl

theorem valuesAt_concat_self (rows : List (K × V)) (k : K) (v : V) :
    valuesAt (rows ++ [(k, v)]) k = valuesAt rows k ++ [v] := by
  rw [valuesAt_append, valuesAt_cons, if_pos rfl, valuesAt_nil]

theorem valuesAt_concat_of_ne (rows : List (K × V)) {k k' : K} (v : V)
    (hne : k ≠ k') : valuesAt (rows ++ [(k, v)]) k' = valuesAt rows k' := by
  rw [valuesAt_append, valuesAt_cons, if_neg hne, valuesAt_nil,
    List.append_nil]

theorem mem_valuesAt {rows : List (K × V)} {k : K} {v : V} :
    v ∈ valuesAt rows k ↔ (k, v) ∈ rows := by
  rw [valuesAt, List.mem_map]
  constructor
  · rintro ⟨⟨k', v'⟩, hmem, rfl⟩
    obtain ⟨hrow, rfl⟩ := (mem_matching Prod.fst).mp hmem
    exact hrow
  · intro hrow
    exact ⟨(k, v), (mem_matching Prod.fst).mpr ⟨hrow, rfl⟩, rfl⟩

theorem valuesAt_ne_nil {rows : List (K × V)} {k : K} :
    valuesAt rows k ≠ [] ↔ ∃ v, (k, v) ∈ rows := by
  rw [ne_eq, ← List.isEmpty_iff, Bool.not_eq_true,
    List.isEmpty_eq_false_iff_exists_mem]
  exact exists_congr fun _ => mem_valuesAt

theorem length_valuesAt_le (rows : List (K × V)) (k : K) :
    (valuesAt rows k).length ≤ rows.length := by
  rw [valuesAt, List.length_map]
  exact List.length_filter_le _ rows

/-- `rows'` has, for every key, the values of `rows` in the order of `rows`;
the order in which values of different keys come is free. -/
def IsShuffle (rows rows' : List (K × V)) : Prop :=
  ∀ k, valuesAt rows' k = valuesAt rows k

/-! ## The table -/

/-- One accumulator for each key. -/
abbrev Groups (K S : Type*) := AList fun _ : K => S

/-- The table holds, for every key of the stream and for no other, the fold of
the values of that key. -/
def FoldsByKey (init : S) (step : S → V → S) (rows : List (K × V))
    (table : Groups K S) : Prop :=
  ∀ k s, table.lookup k = some s ↔
    valuesAt rows k ≠ [] ∧ s = (valuesAt rows k).foldl step init

variable {init : S} {step : S → V → S} {rows : List (K × V)}
  {table : Groups K S}

theorem foldsByKey_nil : FoldsByKey init step [] (∅ : Groups K S) := by
  intro k s
  rw [AList.lookup_empty]
  simp [valuesAt]

/-- The accumulator to fold the next value of a key into. -/
theorem FoldsByKey.getD_lookup (h : FoldsByKey init step rows table) (k : K) :
    (table.lookup k).getD init = (valuesAt rows k).foldl step init := by
  by_cases hnil : valuesAt rows k = []
  · cases hlookup : table.lookup k with
    | none => rw [hnil, Option.getD_none, List.foldl_nil]
    | some s => exact absurd hnil ((h k s).mp hlookup).1
  · rw [(h k _).mpr ⟨hnil, rfl⟩, Option.getD_some]

/-- **One more row.**  Its key's accumulator takes the value, the others are
left alone. -/
theorem FoldsByKey.add (h : FoldsByKey init step rows table) (k : K) (v : V) :
    FoldsByKey init step (rows ++ [(k, v)])
      (table.insert k (step ((table.lookup k).getD init) v)) := by
  intro k' s
  by_cases hk : k' = k
  · subst hk
    rw [AList.lookup_insert, valuesAt_concat_self, h.getD_lookup,
      List.foldl_concat, Option.some.injEq, eq_comm]
    simp
  · rw [AList.lookup_insert_ne hk, valuesAt_concat_of_ne rows v (Ne.symm hk)]
    exact h k' s

theorem FoldsByKey.mem_entries_iff (h : FoldsByKey init step rows table)
    {k : K} {s : S} :
    ⟨k, s⟩ ∈ table.entries ↔
      valuesAt rows k ≠ [] ∧ s = (valuesAt rows k).foldl step init := by
  rw [← AList.mem_lookup_iff]
  exact h k s

/-- **A shuffle of a stream makes the same groups.** -/
theorem FoldsByKey.perm {rows' : List (K × V)} {table' : Groups K S}
    (h : FoldsByKey init step rows table)
    (h' : FoldsByKey init step rows' table')
    (hsame : IsShuffle rows' rows) :
    table.entries.Perm table'.entries := by
  apply (List.perm_ext_iff_of_nodup table.nodupKeys.nodup
    table'.nodupKeys.nodup).mpr
  rintro ⟨k, s⟩
  rw [h.mem_entries_iff, h'.mem_entries_iff, hsame k]

/-! ## Visiting the table -/

/-- An order in which the entries of a table are visited, each once.  A hash
table promises no more. -/
structure IterationOrder (K S : Type*) where
  visit : List (Σ _ : K, S) → List (Σ _ : K, S)
  visit_perm : ∀ entries, (visit entries).Perm entries

end GoPrep.Verified.GroupFold
