import Mathlib.Algebra.Order.Ring.Nat
import GoPrep.Verified.UnorderedMultimap
import GoPrep.Ports.JoinRows

/-!
# Hash join and Grace hash join

`join-practice/hash-join.cpp`.  The classic join builds one multimap over the
build side and probes it with every probe row.  The Grace variant first cuts
both sides into `numPartitions` vectors by `h1(key) % numPartitions` and runs
the classic join on each pair of partitions.

The enumeration order of `std::unordered_multimap::equal_range` is a
parameter, one per table, because every table is a different object.  The
partitioning arithmetic can fail in C++ — a modulus by zero, an index past
the end, more partitions than a vector may have — so those functions return in
`Except Failure`.  Memory is taken to suffice.

## Main results

* `hashJoin_perm` — the classic join is the equality join up to order.
* `partitionRows_eq` — partitioning is bucketing by the reduced hash.
* `graceHashJoin_perm` — Grace hash join succeeds and is the equality join.
* `graceHashJoin_perm_hashJoin` — it agrees with the classic join, also with
  the build side exchanged, whatever the hash and the partition counts, as far
  as there may be a vector of so many partitions.
-/

namespace GoPrep.Ports.HashJoin

open GoPrep.Verified.EquiJoin
open GoPrep.Verified.UnorderedMultimap
open GoPrep.Ports.JoinRows

/-- `for (const auto& row : buildSide) hashTable.emplace(row.key, row);` -/
def buildTable (buildSide : List Row) : List (Int × Row) :=
  buildSide.foldl (fun hashTable row => emplace hashTable row.key row) []

/-- The probe loop: every entry of every probe row's `equal_range` is pushed
behind what `result` already holds. -/
def probeTable (order : EnumerationOrder Int Row)
    (hashTable : List (Int × Row)) (probeSide : List Row)
    (result : List JoinedRow) : List JoinedRow :=
  probeSide.foldl (fun result probeRow =>
    (order.equalRange hashTable probeRow.key).foldl
      (fun result it => result ++ [⟨probeRow, it.2⟩]) result) result

def hashJoin (order : EnumerationOrder Int Row)
    (probeSide buildSide : List Row) : List JoinedRow :=
  probeTable order (buildTable buildSide) probeSide []

theorem buildTable_eq (buildSide : List Row) :
    buildTable buildSide = buildSide.map fun row => (row.key, row) :=
  foldl_emplace Row.key buildSide []

/-- The rows one probe row is paired with, in enumeration order. -/
def probeMatches (order : EnumerationOrder Int Row) (buildSide : List Row)
    (probeRow : Row) : List Row :=
  (order.equalRange (buildTable buildSide) probeRow.key).map Prod.snd

theorem probeMatches_perm (order : EnumerationOrder Int Row)
    (buildSide : List Row) (probeRow : Row) :
    (probeMatches order buildSide probeRow).Perm
      (matching Row.key buildSide probeRow.key) := by
  rw [probeMatches, buildTable_eq]
  exact equalRange_values_perm order Row.key buildSide probeRow.key

/-- The probe loop appends one contiguous group per probe row. -/
theorem probeTable_eq (order : EnumerationOrder Int Row)
    (buildSide probeSide : List Row) (result : List JoinedRow) :
    probeTable order (buildTable buildSide) probeSide result =
      result ++ probeSide.flatMap fun probeRow =>
        (probeMatches order buildSide probeRow).map
          (JoinedRow.mk probeRow) := by
  have hinner : ∀ (probeRow : Row) (entries : List (Int × Row))
      (result : List JoinedRow),
      entries.foldl (fun result it => result ++ [⟨probeRow, it.2⟩]) result =
        result ++ (entries.map Prod.snd).map (JoinedRow.mk probeRow) := by
    intro probeRow entries
    induction entries with
    | nil => intro result; simp
    | cons entry entries ih =>
        intro result
        rw [List.foldl_cons, ih]
        simp
  unfold probeTable
  induction probeSide generalizing result with
  | nil => simp
  | cons probeRow probeSide ih =>
      rw [List.foldl_cons, hinner, ih, List.flatMap_cons, probeMatches,
        List.append_assoc]

/-- A probe phase adds the equality join of its two inputs, up to order. -/
theorem probeTable_perm (order : EnumerationOrder Int Row)
    (buildSide probeSide : List Row) (result : List JoinedRow) :
    (probeTable order (buildTable buildSide) probeSide result).Perm
      (result ++ equalityJoin probeSide buildSide) := by
  rw [probeTable_eq]
  exact (equiJoin_probe_perm JoinedRow.mk Row.key Row.key probeSide buildSide
    (probeMatches order buildSide)
    fun probeRow _ => probeMatches_perm order buildSide probeRow).append_left _

/-- The classic join groups its output by probe row, in probe order. -/
theorem hashJoin_eq (order : EnumerationOrder Int Row)
    (probeSide buildSide : List Row) :
    hashJoin order probeSide buildSide =
      probeSide.flatMap fun probeRow =>
        (probeMatches order buildSide probeRow).map
          (JoinedRow.mk probeRow) := by
  rw [hashJoin, probeTable_eq, List.nil_append]

/-- **Classic hash join is the equality join**, up to order. -/
theorem hashJoin_perm (order : EnumerationOrder Int Row)
    (probeSide buildSide : List Row) :
    (hashJoin order probeSide buildSide).Perm
      (equalityJoin probeSide buildSide) := by
  simpa [hashJoin] using probeTable_perm order buildSide probeSide []

/-! ## Partitioning -/

/-- `a % b` on `size_t`. -/
def modulo (a b : UInt64) : Except Failure UInt64 :=
  if b = 0 then .error (.undefined .moduloByZero) else .ok (a % b)

/-- `partitions[p].push_back(row)`. -/
def pushBackAt (partitions : List (List Row)) (p : UInt64) (row : Row) :
    Except Failure (List (List Row)) :=
  if p.toNat < partitions.length then
    .ok (partitions.modify p.toNat (· ++ [row]))
  else .error (.undefined .indexOutOfRange)

/-- One iteration of the partitioning loop. -/
def partitionRow (h1 : Int → UInt64) (numPartitions : UInt64)
    (partitions : List (List Row)) (row : Row) :
    Except Failure (List (List Row)) := do
  let p ← modulo (h1 row.key) numPartitions
  pushBackAt partitions p row

/-- `max_size()` of a vector of vectors, of which each takes 24 bytes. -/
def maxPartitions : Nat := (2 ^ 63 - 1) / 24

/-- `std::vector<std::vector<Row>> partitions(n)`. -/
def emptyPartitions (n : UInt64) : Except Failure (List (List Row)) :=
  if maxPartitions < n.toNat then .error .lengthError
  else .ok (List.replicate n.toNat [])

def partitionRows (h1 : Int → UInt64) (rows : List Row)
    (numPartitions : UInt64) : Except Failure (List (List Row)) := do
  let partitions ← emptyPartitions numPartitions
  rows.foldlM (partitionRow h1 numPartitions) partitions

/-- `partitions[p]` as a read. -/
def partitionAt (partitions : List (List Row)) (p : Nat) :
    Except Failure (List Row) :=
  match partitions[p]? with
  | some rows => .ok rows
  | none => .error (.undefined .indexOutOfRange)

/-- One iteration of the build-and-probe loop. -/
def joinPartition (orders : Nat → EnumerationOrder Int Row)
    (probePartitions buildPartitions : List (List Row))
    (result : List JoinedRow) (p : Nat) : Except Failure (List JoinedRow) := do
  let build ← partitionAt buildPartitions p
  let probe ← partitionAt probePartitions p
  return probeTable (orders p) (buildTable build) probe result

/-- `orders p` is the enumeration order of partition `p`'s table. -/
def graceHashJoin (orders : Nat → EnumerationOrder Int Row)
    (h1 : Int → UInt64) (probeSide buildSide : List Row)
    (numPartitions : UInt64) : Except Failure (List JoinedRow) := do
  let probePartitions ← partitionRows h1 probeSide numPartitions
  let buildPartitions ← partitionRows h1 buildSide numPartitions
  (List.range numPartitions.toNat).foldlM
    (joinPartition orders probePartitions buildPartitions) []

/-- The partition a key is sent to. -/
def partitionOf (h1 : Int → UInt64) (numPartitions : UInt64) (key : Int) :
    Nat :=
  (h1 key % numPartitions).toNat

theorem partitionOf_lt (h1 : Int → UInt64) {numPartitions : UInt64}
    (hk : 0 < numPartitions.toNat) (key : Int) :
    partitionOf h1 numPartitions key < numPartitions.toNat := by
  rw [partitionOf, UInt64.toNat_mod]
  exact Nat.mod_lt _ hk

theorem partitionRow_buckets (h1 : Int → UInt64) {numPartitions : UInt64}
    (hk : 0 < numPartitions.toNat) (rows : List Row) (row : Row) :
    partitionRow h1 numPartitions
        (buckets numPartitions.toNat
          (fun r => partitionOf h1 numPartitions r.key) rows) row =
      .ok (buckets numPartitions.toNat
        (fun r => partitionOf h1 numPartitions r.key) (rows ++ [row])) := by
  have hne : numPartitions ≠ 0 := by
    rintro rfl
    simp at hk
  have hlt := partitionOf_lt h1 hk row.key
  rw [← buckets_concat]
  simp only [partitionRow, modulo, if_neg hne, pushBackAt, length_buckets]
  exact if_pos hlt

/-- **Partitioning is bucketing**: with at least one partition, and no more
than a vector may have, nothing fails, and partition `p` holds the rows hashed
to `p`, in input order. -/
theorem partitionRows_eq (h1 : Int → UInt64) {numPartitions : UInt64}
    (hk : 0 < numPartitions.toNat) (hmax : numPartitions.toNat ≤ maxPartitions)
    (rows : List Row) :
    partitionRows h1 rows numPartitions =
      .ok (buckets numPartitions.toNat
        (fun r => partitionOf h1 numPartitions r.key) rows) := by
  have hloop : ∀ (todo seen : List Row),
      todo.foldlM (partitionRow h1 numPartitions)
          (buckets numPartitions.toNat
            (fun r => partitionOf h1 numPartitions r.key) seen) =
        .ok (buckets numPartitions.toNat
          (fun r => partitionOf h1 numPartitions r.key) (seen ++ todo)) := by
    intro todo
    induction todo with
    | nil => intro seen; simp [pure, Except.pure]
    | cons row todo ih =>
        intro seen
        rw [List.foldlM_cons, partitionRow_buckets h1 hk]
        apply (ih (seen ++ [row])).trans
        rw [List.append_assoc, List.singleton_append]
  rw [partitionRows, emptyPartitions, if_neg (Nat.not_lt.mpr hmax),
    ← buckets_nil]
  exact hloop rows []

/-- **More partitions than a vector may have** are refused before the first
row. -/
theorem graceHashJoin_of_gt (orders : Nat → EnumerationOrder Int Row)
    (h1 : Int → UInt64) (probeSide buildSide : List Row)
    {numPartitions : UInt64} (hmax : maxPartitions < numPartitions.toNat) :
    graceHashJoin orders h1 probeSide buildSide numPartitions =
      .error .lengthError := by
  rw [graceHashJoin, partitionRows, emptyPartitions, if_pos hmax]
  rfl

/-! ## Grace hash join -/

/-- The build-and-probe loop over any list of partition indices in range. -/
theorem joinPartition_foldlM_perm (orders : Nat → EnumerationOrder Int Row)
    (n : Nat) (slot : Row → Nat) (probeSide buildSide : List Row) :
    ∀ (ps : List Nat) (result : List JoinedRow), (∀ p ∈ ps, p < n) →
      ∃ out, ps.foldlM (joinPartition orders (buckets n slot probeSide)
          (buckets n slot buildSide)) result = .ok out ∧
        out.Perm (result ++ ps.flatMap fun p =>
          equalityJoin (probeSide.filter fun r => decide (slot r = p))
            (buildSide.filter fun r => decide (slot r = p))) := by
  intro ps
  induction ps with
  | nil => intro result _; exact ⟨result, rfl, by simp⟩
  | cons p ps ih =>
      intro result hps
      have hp : p < n := hps p List.mem_cons_self
      obtain ⟨out, hout, hperm⟩ := ih
        (probeTable (orders p)
          (buildTable (buildSide.filter fun r => decide (slot r = p)))
          (probeSide.filter fun r => decide (slot r = p)) result)
        fun q hq => hps q (List.mem_cons_of_mem p hq)
      refine ⟨out, ?_, ?_⟩
      · rw [List.foldlM_cons, joinPartition, partitionAt, partitionAt,
          buckets_getElem? slot buildSide hp,
          buckets_getElem? slot probeSide hp]
        exact hout
      · rw [List.flatMap_cons, ← List.append_assoc]
        exact hperm.trans ((probeTable_perm _ _ _ _).append_right _)

/-- **Grace hash join is the equality join**: for at least one partition, and
no more than a vector may have, it returns, and returns the equality join up to
order. -/
theorem graceHashJoin_perm (orders : Nat → EnumerationOrder Int Row)
    (h1 : Int → UInt64) (probeSide buildSide : List Row)
    {numPartitions : UInt64} (hk : 0 < numPartitions.toNat)
    (hmax : numPartitions.toNat ≤ maxPartitions) :
    ∃ out, graceHashJoin orders h1 probeSide buildSide numPartitions = .ok out ∧
      out.Perm (equalityJoin probeSide buildSide) := by
  obtain ⟨out, hout, hperm⟩ := joinPartition_foldlM_perm orders
    numPartitions.toNat (fun r => partitionOf h1 numPartitions r.key)
    probeSide buildSide (List.range numPartitions.toNat) []
    fun p hp => List.mem_range.mp hp
  refine ⟨out, ?_, hperm.trans ?_⟩
  · rw [graceHashJoin, partitionRows_eq h1 hk hmax,
      partitionRows_eq h1 hk hmax]
    exact hout
  · exact equiJoin_buckets_perm JoinedRow.mk Row.key Row.key
      numPartitions.toNat (partitionOf h1 numPartitions) probeSide buildSide
      fun row _ => partitionOf_lt h1 hk row.key

theorem map_swap_equalityJoin_perm (left right : List Row) :
    ((equalityJoin right left).map JoinedRow.swap).Perm
      (equalityJoin left right) := by
  have hswap : (equalityJoin right left).map JoinedRow.swap =
      equiJoin (fun b a => JoinedRow.mk a b) Row.key Row.key right left := by
    simp only [equalityJoin, equiJoin, List.map_flatMap, List.map_map]
    rfl
  rw [hswap]
  exact (equiJoin_swap_perm JoinedRow.mk Row.key Row.key left right).symm

private theorem toNat_pos_of_one_le {k : UInt64} (hk : 1 ≤ k) :
    0 < k.toNat := by
  have h := UInt64.le_iff_toNat_le.mp hk
  exact h

/-- **Partitioning changes neither the pairs nor their number.**  Grace hash
join with any hash and any partition count, up to what a vector may hold, emits
the pairs of the in-memory join with their exact multiplicities, and building
over the other side and exchanging the output columns emits them as well.  A
greater count makes it throw. -/
theorem graceHashJoin_perm_hashJoin (order : EnumerationOrder Int Row)
    (orders orders' : Nat → EnumerationOrder Int Row) (h1 : Int → UInt64)
    (P B : List Row) (k1 k2 : UInt64) (hk1 : 1 ≤ k1) (hk2 : 1 ≤ k2) :
    (k1.toNat ≤ maxPartitions →
      ∃ out, graceHashJoin orders h1 P B k1 = .ok out ∧
        out.Perm (hashJoin order P B) ∧
        ∀ p b, out.count ⟨p, b⟩ =
          if p.key = b.key then P.count p * B.count b else 0) ∧
    (k2.toNat ≤ maxPartitions →
      ∃ out, graceHashJoin orders' h1 B P k2 = .ok out ∧
        (out.map JoinedRow.swap).Perm (hashJoin order P B)) ∧
    (maxPartitions < k1.toNat →
      graceHashJoin orders h1 P B k1 = .error .lengthError) := by
  have hhash := hashJoin_perm order P B
  refine ⟨fun hmax => ?_, fun hmax => ?_, graceHashJoin_of_gt orders h1 P B⟩
  · obtain ⟨out, hout, hperm⟩ := graceHashJoin_perm orders h1 P B
      (toNat_pos_of_one_le hk1) hmax
    refine ⟨out, hout, hperm.trans hhash.symm, ?_⟩
    intro p b
    rw [hperm.count_eq]
    exact count_equiJoin JoinedRow.mk Row.key Row.key
      JoinedRow.mk_injective2 P B p b
  · obtain ⟨out, hout, hperm⟩ := graceHashJoin_perm orders' h1 B P
      (toNat_pos_of_one_le hk2) hmax
    refine ⟨out, hout, ?_⟩
    exact (hperm.map JoinedRow.swap).trans
      ((map_swap_equalityJoin_perm P B).trans hhash.symm)

/-- `std::hash<int>` is the identity on the keys below. -/
private def stdHash (key : Int) : UInt64 := key.toNat.toUInt64

/-- The theorem above at two partitions against three, and at one more than a
vector may have. -/
theorem graceHashJoin_perm_hashJoin_two_three :
    let order : EnumerationOrder Int Row := .insertion
    let P : List Row := [⟨1, "a"⟩, ⟨2, "b"⟩, ⟨1, "c"⟩]
    let B : List Row := [⟨1, "x"⟩, ⟨1, "y"⟩]
    (∃ out, graceHashJoin (fun _ => order) stdHash P B 2 = .ok out ∧
      out.Perm (hashJoin order P B) ∧
      ∀ p b, out.count ⟨p, b⟩ =
        if p.key = b.key then P.count p * B.count b else 0) ∧
    (∃ out, graceHashJoin (fun _ => order) stdHash B P 3 = .ok out ∧
      (out.map JoinedRow.swap).Perm (hashJoin order P B)) ∧
    graceHashJoin (fun _ => order) stdHash P B 384307168202282326 =
      .error .lengthError := by
  intro order P B
  obtain ⟨htwo, hthree, -⟩ := graceHashJoin_perm_hashJoin order
    (fun _ => order) (fun _ => order) stdHash P B 2 3 (by decide) (by decide)
  obtain ⟨-, -, hmany⟩ := graceHashJoin_perm_hashJoin order
    (fun _ => order) (fun _ => order) stdHash P B 384307168202282326 3
    (by decide) (by decide)
  exact ⟨htwo (by decide), hthree (by decide), hmany (by decide)⟩

/-- **Not every partition count will do**: a vector of `2^64 - 1` partitions is
too long, whatever the rows. -/
theorem graceHashJoin_throws :
    ¬ ∀ (order : EnumerationOrder Int Row)
      (orders : Nat → EnumerationOrder Int Row) (h1 : Int → UInt64)
      (P B : List Row) (k1 : UInt64), 1 ≤ k1 →
      ∃ out, graceHashJoin orders h1 P B k1 = .ok out ∧
        out.Perm (hashJoin order P B) := by
  intro h
  obtain ⟨out, hout, -⟩ := h .insertion (fun _ => .insertion) stdHash [] []
    18446744073709551615 (by decide)
  rw [graceHashJoin_of_gt _ _ _ _ (by decide)] at hout
  cases hout

end GoPrep.Ports.HashJoin
