import Mathlib.Data.List.Basic

/-!
# Row-at-a-time and batch-at-a-time filters

`VolcanoFilter` and `VectorFilter` of `tier-1-query-algorithmic-prep.md`, both
for `WHERE value > 100`.  The first pulls rows from its child until one
passes; the second pulls a batch, moves the rows that pass to its front and
returns how many there are.  As the filter itself does with its child, a
consumer takes a count of zero for the end of the stream, so a batch in which
nothing passes hides what comes after it.

An operator is its `next` function on a state of its own.  An index outside a
column is undefined and answers `none`.

## Main results

* `Compacted.step` — the rows that pass, in order, at the front of the batch,
  and the rows still to be looked at where they were.
* `drain_volcanoFilter`, `drain_vectorFilter` — what the two filters deliver.
* `vector_filter_agrees_iff` — the second delivers a prefix of what the first
  does, and when it delivers all of it.
-/

namespace GoPrep.Ports.FilterOperators

/-- A row, which a batch keeps as one entry of each column. -/
structure Tuple where
  id : Int32
  value : Int32
  deriving DecidableEq, Repr

/-- `WHERE value > 100`. -/
def Tuple.passes (t : Tuple) : Bool := decide (t.value > 100)

theorem Tuple.passes_iff {t : Tuple} : t.passes = true ↔ t.value > 100 :=
  decide_eq_true_iff

variable {σ τ : Type}

/-! ## One row at a time -/

/-- `VolcanoFilter::next`.  `none` is `nullptr`; without fuel the loop has not
ended yet. -/
def volcanoNext (child : σ → Option Tuple × σ) :
    Nat → σ → Option (Option Tuple × σ)
  | 0, _ => none
  | fuel + 1, s =>
      match child s with
      | (none, s) => some (none, s)
      | (some current_tuple, s) =>
          if current_tuple.value > 100 then some (some current_tuple, s)
          else volcanoNext child fuel s

/-- A client calls `next` until it returns `nullptr`. -/
def drain (next : σ → Option (Option Tuple × σ)) :
    Nat → σ → Option (List Tuple)
  | 0, _ => none
  | fuel + 1, s =>
      match next s with
      | none => none
      | some (none, _) => some []
      | some (some t, s) => (drain next fuel s).map (t :: ·)

/-- Calls of `next` return these rows and then `nullptr`. -/
inductive Yields (next : σ → Option Tuple × σ) : σ → List Tuple → Prop
  | done {s s' : σ} : next s = (none, s') → Yields next s []
  | row {s s' : σ} {t : Tuple} {rows : List Tuple} :
      next s = (some t, s') → Yields next s' rows → Yields next s (t :: rows)

variable {child : σ → Option Tuple × σ} {s s' : σ} {rows : List Tuple}
  {t : Tuple}

theorem volcanoNext_done {fuel : Nat} (h : child s = (none, s')) :
    volcanoNext child (fuel + 1) s = some (none, s') := by
  rw [volcanoNext, h]

theorem volcanoNext_passes {fuel : Nat} (h : child s = (some t, s'))
    (hpasses : t.value > 100) :
    volcanoNext child (fuel + 1) s = some (some t, s') := by
  rw [volcanoNext, h]
  exact if_pos hpasses

theorem volcanoNext_skips {fuel : Nat} (h : child s = (some t, s'))
    (hfails : ¬ t.value > 100) :
    volcanoNext child (fuel + 1) s = volcanoNext child fuel s' := by
  rw [volcanoNext, h]
  exact if_neg hfails

theorem exists_fuel {n fuel : Nat} (h : n < fuel) :
    ∃ rest, fuel = rest + 1 :=
  Nat.exists_eq_add_one_of_ne_zero (Nat.ne_zero_of_lt h)

/-- More fuel than there are rows changes nothing. -/
theorem volcanoNext_fuel (h : Yields child s rows) {fuel fuel' : Nat}
    (hfuel : rows.length < fuel) (hfuel' : rows.length < fuel') :
    volcanoNext child fuel s = volcanoNext child fuel' s := by
  induction h generalizing fuel fuel' with
  | done hdone =>
      obtain ⟨fuel, rfl⟩ := exists_fuel hfuel
      obtain ⟨fuel', rfl⟩ := exists_fuel hfuel'
      rw [volcanoNext_done hdone, volcanoNext_done hdone]
  | @row s s' t rows hrow _ ih =>
      obtain ⟨fuel, rfl⟩ := exists_fuel hfuel
      obtain ⟨fuel', rfl⟩ := exists_fuel hfuel'
      by_cases hpasses : t.value > 100
      · rw [volcanoNext_passes hrow hpasses, volcanoNext_passes hrow hpasses]
      · rw [volcanoNext_skips hrow hpasses, volcanoNext_skips hrow hpasses]
        exact ih (Nat.lt_of_succ_lt_succ hfuel)
          (Nat.lt_of_succ_lt_succ hfuel')

/-- **The row-at-a-time filter delivers the rows that pass.** -/
theorem drain_volcanoFilter (h : Yields child s rows) {fuel inner : Nat}
    (hfuel : rows.length < fuel) (hinner : rows.length < inner) :
    drain (volcanoNext child inner) fuel s =
      some (rows.filter Tuple.passes) := by
  induction h generalizing fuel with
  | done hdone =>
      obtain ⟨fuel, rfl⟩ := exists_fuel hfuel
      obtain ⟨inner, rfl⟩ := exists_fuel hinner
      rw [drain, volcanoNext_done hdone]
      rfl
  | @row s s' t rows hrow hrest ih =>
      obtain ⟨fuel, rfl⟩ := exists_fuel hfuel
      have hfuel := Nat.lt_of_succ_lt_succ hfuel
      have hrest' := Nat.lt_of_succ_lt hinner
      obtain ⟨inner, rfl⟩ := exists_fuel hinner
      by_cases hpasses : t.value > 100
      · rw [drain, volcanoNext_passes hrow hpasses,
          List.filter_cons_of_pos (Tuple.passes_iff.mpr hpasses)]
        exact congrArg (Option.map (t :: ·)) (ih hfuel hrest')
      · -- the first call reads on behind the row, as one that begins there
        have hsame : volcanoNext child (inner + 1) s =
            volcanoNext child (inner + 1) s' := by
          rw [volcanoNext_skips hrow hpasses]
          exact volcanoNext_fuel hrest (Nat.lt_of_succ_lt_succ hinner) hrest'
        have hskip := ih (Nat.lt_succ_of_lt hfuel) hrest'
        rw [List.filter_cons_of_neg (mt Tuple.passes_iff.mp hpasses),
          ← hskip, drain, drain, hsame]

/-! ## One batch at a time -/

/-- `BATCH_SIZE`. -/
def batchSize : Nat := 1024

/-- One array for each column. -/
structure VectorBatch where
  id_col : List Int32
  value_col : List Int32
  deriving DecidableEq, Repr

namespace VectorBatch

def row (batch : VectorBatch) (i : Nat) : Option Tuple := do
  return ⟨← batch.id_col[i]?, ← batch.value_col[i]?⟩

/-- The first rows, as a consumer reads them. -/
def readRows (batch : VectorBatch) : Nat → Option (List Tuple)
  | 0 => some []
  | n + 1 => do
      let rows ← batch.readRows n
      return rows ++ [← batch.row n]

/-- The columns have room for a whole batch. -/
def Room (batch : VectorBatch) : Prop :=
  batch.id_col.length = batchSize ∧ batch.value_col.length = batchSize

/-- The batch begins with these rows. -/
def HasRows (batch : VectorBatch) (rows : List Tuple) : Prop :=
  ∀ (i : Nat) (t : Tuple), rows[i]? = some t → batch.row i = some t

end VectorBatch

/-- `col[i] = x`. -/
def assign (col : List Int32) (i : Nat) (x : Int32) : Option (List Int32) :=
  if i < col.length then some (col.set i x) else none

/-- One round of the loop of `VectorFilter::next`, on the batch and
`write_idx`. -/
def keepRow (p : VectorBatch × Nat) (i : Nat) :
    Option (VectorBatch × Nat) := do
  let (batch, write_idx) := p
  if (← batch.value_col[i]?) > 100 then
    let id_col ← assign batch.id_col write_idx (← batch.id_col[i]?)
    let value_col ← assign batch.value_col write_idx (← batch.value_col[i]?)
    return (⟨id_col, value_col⟩, write_idx + 1)
  else return p

/-- `VectorFilter::next`, which answers a count and leaves the rows in the
batch. -/
def vectorNext (child : τ → VectorBatch → Nat × VectorBatch × τ) (s : τ)
    (batch : VectorBatch) : Option (Nat × VectorBatch × τ) := do
  let (count, batch, s) := child s batch
  if count = 0 then return (0, batch, s)
  let (batch, write_idx) ← (List.range count).foldlM keepRow (batch, 0)
  return (write_idx, batch, s)

/-- A consumer calls `next` until the count is zero. -/
def drainBatches (next : τ → VectorBatch → Option (Nat × VectorBatch × τ)) :
    Nat → τ → VectorBatch → Option (List Tuple)
  | 0, _, _ => none
  | fuel + 1, s, batch => do
      let (count, batch, s) ← next s batch
      if count = 0 then return []
      let rows ← batch.readRows count
      return rows ++ (← drainBatches next fuel s batch)

/-- Calls of `next` put these batches, none empty, into whatever batch they
are given, and then answer zero. -/
inductive YieldsBatches (next : τ → VectorBatch → Nat × VectorBatch × τ) :
    τ → List (List Tuple) → Prop
  | done {s : τ} :
      (∀ batch, batch.Room → (next s batch).1 = 0) → YieldsBatches next s []
  | batch {s s' : τ} {rows : List Tuple} {batches : List (List Tuple)} :
      rows ≠ [] →
      (∀ batch, batch.Room → ∃ batch', next s batch =
        (rows.length, batch', s') ∧ batch'.Room ∧ batch'.HasRows rows) →
      YieldsBatches next s' batches → YieldsBatches next s (rows :: batches)

/-! ## Compaction -/

namespace VectorBatch

variable {batch : VectorBatch}

theorem row_eq_some_iff {i : Nat} {t : Tuple} :
    batch.row i = some t ↔
      batch.id_col[i]? = some t.id ∧ batch.value_col[i]? = some t.value := by
  rw [row]
  cases hid : batch.id_col[i]? with
  | none => simp
  | some id =>
      cases hvalue : batch.value_col[i]? with
      | none => simp
      | some value =>
          cases t
          simp

theorem HasRows.readRows {rows : List Tuple} (h : batch.HasRows rows) :
    ∀ n ≤ rows.length, batch.readRows n = some (rows.take n) := by
  intro n hn
  induction n with
  | zero => rfl
  | succ n ih =>
      have hrow : rows[n]? = some rows[n] := List.getElem?_eq_getElem hn
      rw [VectorBatch.readRows, ih (Nat.le_of_lt hn), h n _ hrow,
        List.take_add_one, hrow]
      rfl

/-- Writing one row leaves the others. -/
theorem row_set {i w : Nat} {t : Tuple} (hid : w < batch.id_col.length)
    (hvalue : w < batch.value_col.length) :
    VectorBatch.row ⟨batch.id_col.set w t.id, batch.value_col.set w t.value⟩ i
      = if w = i then some t else batch.row i := by
  by_cases hwi : w = i
  · subst hwi
    rw [if_pos rfl, row_eq_some_iff]
    exact ⟨List.getElem?_set_self hid, List.getElem?_set_self hvalue⟩
  · rw [if_neg hwi, row, row]
    dsimp only
    rw [List.getElem?_set_ne hwi, List.getElem?_set_ne hwi]

end VectorBatch

/-- After `i` rounds: the rows that passed are at the front, and the rows from
`i` on where they were. -/
structure Compacted (rows : List Tuple) (i : Nat) (p : VectorBatch × Nat) :
    Prop where
  room : p.1.Room
  write_idx : p.2 = ((rows.take i).filter Tuple.passes).length
  kept : p.1.HasRows ((rows.take i).filter Tuple.passes)
  rest : ∀ (j : Nat) (t : Tuple), i ≤ j → rows[j]? = some t →
    p.1.row j = some t

theorem keepRow_of_passes {p : VectorBatch × Nat} {i : Nat} {t : Tuple}
    (hrow : p.1.row i = some t) (hpasses : t.value > 100)
    (hid : p.2 < p.1.id_col.length) (hvalue : p.2 < p.1.value_col.length) :
    keepRow p i = some (⟨p.1.id_col.set p.2 t.id,
      p.1.value_col.set p.2 t.value⟩, p.2 + 1) := by
  obtain ⟨hidCol, hvalueCol⟩ := VectorBatch.row_eq_some_iff.mp hrow
  simp [keepRow, hidCol, hvalueCol, hpasses, assign, hid, hvalue]

theorem keepRow_of_fails {p : VectorBatch × Nat} {i : Nat} {t : Tuple}
    (hrow : p.1.row i = some t) (hfails : ¬ t.value > 100) :
    keepRow p i = some p := by
  obtain ⟨-, hvalueCol⟩ := VectorBatch.row_eq_some_iff.mp hrow
  simp [keepRow, hvalueCol, hfails]

/-- **A round of the loop.**  The row that is overwritten has been looked
at. -/
theorem Compacted.step {rows : List Tuple} {i : Nat} {p : VectorBatch × Nat}
    (h : Compacted rows i p) (hi : i < rows.length) :
    ∃ p', keepRow p i = some p' ∧ Compacted rows (i + 1) p' := by
  have ht : rows[i]? = some rows[i] := List.getElem?_eq_getElem hi
  have hrow := h.rest i _ (Nat.le_refl i) ht
  have htake : rows.take (i + 1) = rows.take i ++ [rows[i]] := by
    rw [List.take_add_one, ht, Option.toList_some]
  by_cases hpasses : rows[i].value > 100
  · have hle : p.2 ≤ i := by
      rw [h.write_idx]
      have hfilter := List.length_filter_le Tuple.passes (rows.take i)
      rw [List.length_take] at hfilter
      omega
    obtain ⟨hidCol, hvalueCol⟩ := VectorBatch.row_eq_some_iff.mp hrow
    have hid : p.2 < p.1.id_col.length := Nat.lt_of_le_of_lt hle
      (List.getElem?_eq_some_iff.mp hidCol).1
    have hvalue : p.2 < p.1.value_col.length := Nat.lt_of_le_of_lt hle
      (List.getElem?_eq_some_iff.mp hvalueCol).1
    have hfilter : (rows.take (i + 1)).filter Tuple.passes =
        (rows.take i).filter Tuple.passes ++ [rows[i]] := by
      rw [htake, List.filter_append,
        List.filter_cons_of_pos (Tuple.passes_iff.mpr hpasses), List.filter_nil]
    refine ⟨_, keepRow_of_passes hrow hpasses hid hvalue, ?_, ?_, ?_, ?_⟩
    · exact ⟨(List.length_set ..).trans h.room.1,
        (List.length_set ..).trans h.room.2⟩
    · rw [hfilter, List.length_append, ← h.write_idx, List.length_singleton]
    · intro j t hj
      rw [VectorBatch.row_set hid hvalue]
      rw [hfilter] at hj
      by_cases hwj : p.2 = j
      · rw [if_pos hwj]
        rw [← hwj, h.write_idx, List.getElem?_concat_length] at hj
        exact hj
      · rw [if_neg hwj]
        apply h.kept
        have hlt := (List.getElem?_eq_some_iff.mp hj).1
        rw [List.length_append, ← h.write_idx, List.length_singleton] at hlt
        rwa [List.getElem?_append_left (by rw [← h.write_idx]; omega)] at hj
    · intro j t hij hj
      rw [VectorBatch.row_set hid hvalue, if_neg (by omega)]
      exact h.rest j t (by omega) hj
  · have hfilter : (rows.take (i + 1)).filter Tuple.passes =
        (rows.take i).filter Tuple.passes := by
      rw [htake, List.filter_append, List.filter_cons_of_neg
        (mt Tuple.passes_iff.mp hpasses), List.filter_nil, List.append_nil]
    refine ⟨p, keepRow_of_fails hrow hpasses, h.room, ?_, ?_, ?_⟩
    · rw [hfilter, h.write_idx]
    · rw [hfilter]
      exact h.kept
    · intro j t hij hj
      exact h.rest j t (Nat.le_of_succ_le hij) hj

/-- The whole loop. -/
theorem compacted_range {batch : VectorBatch} (hroom : batch.Room)
    {rows : List Tuple} (hrows : batch.HasRows rows) :
    ∀ n ≤ rows.length, ∃ p,
      (List.range n).foldlM keepRow (batch, 0) = some p ∧
        Compacted rows n p := by
  intro n hn
  induction n with
  | zero =>
      exact ⟨(batch, 0), rfl, hroom, rfl, nofun, fun j t _ => hrows j t⟩
  | succ n ih =>
      obtain ⟨p, hp, hcompacted⟩ := ih (Nat.le_of_lt hn)
      obtain ⟨p', hp', hcompacted'⟩ := hcompacted.step hn
      refine ⟨p', ?_, hcompacted'⟩
      rw [List.range_succ, List.foldlM_append, hp]
      exact (bind_pure _).trans hp'

/-! ## What the batches deliver -/

variable {source : τ → VectorBatch → Nat × VectorBatch × τ} {u u' : τ}
  {batches : List (List Tuple)} {batch batch' : VectorBatch}

theorem vectorNext_done (h : (source u batch).1 = 0) :
    ∃ rest, vectorNext source u batch = some (0, rest) := by
  rcases hsource : source u batch with ⟨count, batch', u'⟩
  rw [hsource] at h
  refine ⟨(batch', u'), ?_⟩
  rw [vectorNext, hsource]
  exact if_pos h

theorem vectorNext_batch (hne : rows ≠ [])
    (h : source u batch = (rows.length, batch', u')) (hroom : batch'.Room)
    (hrows : batch'.HasRows rows) :
    ∃ out : VectorBatch, vectorNext source u batch =
        some ((rows.filter Tuple.passes).length, out, u') ∧
      out.Room ∧ out.HasRows (rows.filter Tuple.passes) := by
  obtain ⟨⟨out, write_idx⟩, hloop, hcompacted⟩ :=
    compacted_range hroom hrows rows.length (Nat.le_refl _)
  have hwrite := hcompacted.write_idx
  have hkept := hcompacted.kept
  rw [List.take_length] at hwrite hkept
  refine ⟨out, ?_, hcompacted.room, hkept⟩
  have hpos : ¬ rows.length = 0 := mt List.length_eq_zero_iff.mp hne
  rw [vectorNext, h, ← hwrite]
  simp only [if_neg hpos, hloop]
  rfl

/-- The rows that pass, up to the first batch without any. -/
def delivered (batches : List (List Tuple)) : List Tuple :=
  ((batches.map (List.filter Tuple.passes)).takeWhile
    fun kept => !kept.isEmpty).flatten

theorem delivered_of_nil (h : rows.filter Tuple.passes = []) :
    delivered (rows :: batches) = [] := by
  rw [delivered, List.map_cons, h]
  rfl

theorem delivered_of_ne_nil (h : rows.filter Tuple.passes ≠ []) :
    delivered (rows :: batches) =
      rows.filter Tuple.passes ++ delivered batches := by
  rw [delivered, List.map_cons, List.takeWhile_cons_of_pos (by simpa using h),
    List.flatten_cons, delivered]

/-- **The batch-at-a-time filter delivers the rows that pass, up to the first
batch without any.**  It stays inside the columns. -/
theorem drain_vectorFilter (h : YieldsBatches source u batches)
    (hroom : batch.Room) {fuel : Nat} (hfuel : batches.length < fuel) :
    drainBatches (vectorNext source) fuel u batch =
      some (delivered batches) := by
  induction h generalizing batch fuel with
  | done hdone =>
      obtain ⟨fuel, rfl⟩ := exists_fuel hfuel
      obtain ⟨rest, hnext⟩ := vectorNext_done (hdone batch hroom)
      rw [drainBatches, hnext]
      rfl
  | @batch u u' rows batches hne hsource _ ih =>
      obtain ⟨fuel, rfl⟩ := exists_fuel hfuel
      obtain ⟨filled, hfilled, hroom', hrows⟩ := hsource batch hroom
      obtain ⟨out, hnext, hout, hkept⟩ :=
        vectorNext_batch hne hfilled hroom' hrows
      have hrest := ih hout (Nat.lt_of_succ_lt_succ hfuel)
      have hread := hkept.readRows _ (Nat.le_refl _)
      rw [List.take_length] at hread
      by_cases hnone : rows.filter Tuple.passes = []
      · rw [delivered_of_nil hnone, drainBatches, hnext, hnone]
        rfl
      · have hpos : ¬ (rows.filter Tuple.passes).length = 0 :=
          mt List.length_eq_zero_iff.mp hnone
        rw [delivered_of_ne_nil hnone, drainBatches, hnext]
        simp only [Option.bind_eq_bind, Option.bind_some, if_neg hpos,
          hread, hrest]
        rfl

theorem delivered_prefix (batches : List (List Tuple)) :
    delivered batches <+: batches.flatten.filter Tuple.passes := by
  induction batches with
  | nil => exact List.prefix_refl _
  | cons rows batches ih =>
      rw [List.flatten_cons, List.filter_append]
      by_cases hnone : rows.filter Tuple.passes = []
      · rw [delivered_of_nil hnone]
        exact List.nil_prefix
      · rw [delivered_of_ne_nil hnone]
        exact (List.prefix_append_right_inj _).mpr ih

/-- No batch with a row that passes comes after one without. -/
def NoGap (batches : List (List Tuple)) : Prop :=
  ∀ before rows after, batches = before ++ rows :: after →
    (∀ t ∈ rows, ¬ t.value > 100) → ∀ t ∈ after.flatten, ¬ t.value > 100

theorem filter_passes_eq_nil_iff {rows : List Tuple} :
    rows.filter Tuple.passes = [] ↔ ∀ t ∈ rows, ¬ t.value > 100 := by
  simp only [List.filter_eq_nil_iff, Tuple.passes_iff]

theorem noGap_cons_of_nil (hnone : rows.filter Tuple.passes = []) :
    NoGap (rows :: batches) ↔ batches.flatten.filter Tuple.passes = [] := by
  rw [filter_passes_eq_nil_iff]
  constructor
  · intro h
    exact h [] rows batches rfl (filter_passes_eq_nil_iff.mp hnone)
  · intro h before rows' after heq _ t ht
    apply h t
    cases before with
    | nil =>
        obtain ⟨-, rfl⟩ := List.cons.inj heq
        exact ht
    | cons first before =>
        obtain ⟨-, rfl⟩ := List.cons.inj heq
        have hmem : t ∈ (before ++ rows' :: after).flatten := by
          rw [List.flatten_append, List.flatten_cons]
          exact List.mem_append_right _ (List.mem_append_right _ ht)
        exact hmem

theorem noGap_cons_of_ne_nil (hsome : rows.filter Tuple.passes ≠ []) :
    NoGap (rows :: batches) ↔ NoGap batches := by
  constructor
  · intro h before rows' after heq
    exact h (rows :: before) rows' after (congrArg (rows :: ·) heq)
  · intro h before rows' after heq hnone
    cases before with
    | nil =>
        obtain ⟨rfl, -⟩ := List.cons.inj heq
        exact absurd (filter_passes_eq_nil_iff.mpr hnone) hsome
    | cons first before =>
        obtain ⟨-, htail⟩ := List.cons.inj heq
        exact h before rows' after htail hnone

theorem delivered_eq_iff (batches : List (List Tuple)) :
    delivered batches = batches.flatten.filter Tuple.passes ↔
      NoGap batches := by
  induction batches with
  | nil =>
      refine ⟨fun _ before rows after heq => ?_, fun _ => rfl⟩
      cases before <;> cases heq
  | cons rows batches ih =>
      rw [List.flatten_cons, List.filter_append]
      by_cases hnone : rows.filter Tuple.passes = []
      · rw [delivered_of_nil hnone, hnone, List.nil_append,
          noGap_cons_of_nil hnone, eq_comm]
      · rw [delivered_of_ne_nil hnone, List.append_cancel_left_eq, ih,
          noGap_cons_of_ne_nil hnone]

/-- **The two filters on the same rows.**  Whatever the children do between
their calls, and however the rows are cut into batches: both filters come to
an end, no access is outside the columns, the row-at-a-time filter delivers
the rows that pass, and the other one a prefix of them, which is all of them
exactly when no batch with a row that passes comes after one without. -/
theorem vector_filter_agrees_iff (hscan : Yields child s batches.flatten)
    (hbatches : YieldsBatches source u batches) (hroom : batch.Room) :
    ∃ kept : List Tuple,
      (∀ fuel > batches.flatten.length,
        drain (volcanoNext child fuel) fuel s =
          some (batches.flatten.filter fun t => t.value > 100)) ∧
      (∀ fuel > batches.length,
        drainBatches (vectorNext source) fuel u batch = some kept) ∧
      kept <+: (batches.flatten.filter fun t => t.value > 100) ∧
      (kept = (batches.flatten.filter fun t => t.value > 100) ↔
        ∀ before rows after, batches = before ++ rows :: after →
          (∀ t ∈ rows, ¬ t.value > 100) →
          ∀ t ∈ after.flatten, ¬ t.value > 100) :=
  ⟨delivered batches,
    fun _ hfuel => drain_volcanoFilter hscan hfuel hfuel,
    fun _ hfuel => drain_vectorFilter hbatches hroom hfuel,
    delivered_prefix batches, delivered_eq_iff batches⟩

/-- A scan of rows in memory. -/
def scanRows : List Tuple → Option Tuple × List Tuple
  | [] => (none, [])
  | t :: rows => (some t, rows)

theorem yields_scanRows (rows : List Tuple) : Yields scanRows rows rows := by
  induction rows with
  | nil => exact .done rfl
  | cons t rows ih => exact .row rfl ih

/-- A scan of batches in memory. -/
def scanBatches (batches : List (List Tuple)) (batch : VectorBatch) :
    Nat × VectorBatch × List (List Tuple) :=
  match batches with
  | [] => (0, batch, [])
  | rows :: batches =>
      (rows.length,
        ⟨rows.map Tuple.id ++ batch.id_col.drop rows.length,
          rows.map Tuple.value ++ batch.value_col.drop rows.length⟩,
        batches)

theorem yieldsBatches_scanBatches (batches : List (List Tuple))
    (h : ∀ rows ∈ batches, rows ≠ [] ∧ rows.length ≤ batchSize) :
    YieldsBatches scanBatches batches batches := by
  induction batches with
  | nil => exact .done fun _ _ => rfl
  | cons rows batches ih =>
      obtain ⟨hne, hle⟩ := h rows List.mem_cons_self
      refine .batch hne (fun batch hroom => ⟨_, rfl, ?_, ?_⟩)
        (ih fun rows' hrows => h rows' (List.mem_cons_of_mem rows hrows))
      · constructor
        · rw [List.length_append, List.length_map, List.length_drop, hroom.1]
          omega
        · rw [List.length_append, List.length_map, List.length_drop, hroom.2]
          omega
      · intro i t ht
        have hlt := (List.getElem?_eq_some_iff.mp ht).1
        rw [VectorBatch.row_eq_some_iff,
          List.getElem?_append_left (by rwa [List.length_map]),
          List.getElem?_append_left (by rwa [List.length_map]),
          List.getElem?_map, List.getElem?_map, ht]
        exact ⟨rfl, rfl⟩

/-- A batch without a row that passes hides the one behind it. -/
theorem vector_filter_agrees_iff_gap :
    drain (volcanoNext scanRows 9) 9 [⟨1, 200⟩, ⟨2, 5⟩, ⟨3, 300⟩] =
        some [⟨1, 200⟩, ⟨3, 300⟩] ∧
      ∃ kept, kept ≠ [⟨1, 200⟩, ⟨3, 300⟩] ∧
        drainBatches (vectorNext scanBatches) 9
          [[⟨1, 200⟩], [⟨2, 5⟩], [⟨3, 300⟩]]
          ⟨List.replicate batchSize 0, List.replicate batchSize 0⟩ =
            some kept := by
  have hroom : VectorBatch.Room
      ⟨List.replicate batchSize 0, List.replicate batchSize 0⟩ :=
    ⟨List.length_replicate, List.length_replicate⟩
  have hsource := yieldsBatches_scanBatches
    [[⟨1, 200⟩], [⟨2, 5⟩], [⟨3, 300⟩]] (by decide)
  obtain ⟨kept, hdrain, hbatches, -, hagree⟩ :=
    vector_filter_agrees_iff (yields_scanRows _) hsource hroom
  refine ⟨hdrain 9 (by decide), kept, fun hall => ?_, hbatches 9 (by decide)⟩
  have hnone := hagree.mp hall [[⟨1, 200⟩]] [⟨2, 5⟩] [[⟨3, 300⟩]] rfl
    (by decide) ⟨3, 300⟩ (by decide)
  exact absurd hnone (by decide)

end GoPrep.Ports.FilterOperators
