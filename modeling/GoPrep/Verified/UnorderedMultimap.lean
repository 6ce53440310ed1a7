import GoPrep.Verified.EquiJoin

/-!
# Unordered multimaps

A hash multimap is used through two operations only: inserting an entry, and
enumerating the entries of one key.  The library documents that the
enumeration visits every entry of the key once; it promises no order, and the
order may change with anything the table was fed.

`EnumerationOrder` is exactly that promise.  It carries the enumeration
together with the proof that it is one, so a development quantifies over it
and needs no side condition.
-/

namespace GoPrep.Verified.UnorderedMultimap

open GoPrep.Verified.EquiJoin

variable {K V : Type*} [DecidableEq K]

/-- A way to enumerate the entries of one key of a multimap, given the
entries in insertion order. -/
structure EnumerationOrder (K V : Type*) [DecidableEq K] where
  equalRange : List (K × V) → K → List (K × V)
  equalRange_perm : ∀ table k,
    (equalRange table k).Perm (table.filter fun entry => decide (entry.1 = k))

/-- Enumerating in insertion order is one of the permitted orders. -/
def EnumerationOrder.insertion : EnumerationOrder K V where
  equalRange table k := table.filter fun entry => decide (entry.1 = k)
  equalRange_perm _ _ := List.Perm.refl _

instance : Inhabited (EnumerationOrder K V) := ⟨.insertion⟩

/-- Insert one entry. -/
def emplace (table : List (K × V)) (k : K) (v : V) : List (K × V) :=
  table ++ [(k, v)]

omit [DecidableEq K] in
theorem foldl_emplace (key : V → K) (rows : List V) (table : List (K × V)) :
    rows.foldl (fun table row => emplace table (key row) row) table =
      table ++ rows.map fun row => (key row, row) := by
  induction rows generalizing table with
  | nil => simp
  | cons row rows ih =>
      rw [List.foldl_cons, ih, emplace]
      simp

/-- Probing a table filled from `rows` finds the rows of that key. -/
theorem equalRange_values_perm (order : EnumerationOrder K V)
    (key : V → K) (rows : List V) (k : K) :
    ((order.equalRange (rows.map fun row => (key row, row)) k).map
      Prod.snd).Perm (matching key rows k) := by
  have hperm := (order.equalRange_perm
    (rows.map fun row => (key row, row)) k).map Prod.snd
  have hfilter : (((rows.map fun row => (key row, row)).filter
      fun entry => decide (entry.1 = k)).map Prod.snd) =
      matching key rows k := by
    simp [matching, List.filter_map, Function.comp_def]
  rwa [hfilter] at hperm

end GoPrep.Verified.UnorderedMultimap
