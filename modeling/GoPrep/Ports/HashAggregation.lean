import Mathlib.Algebra.Ring.Nat
import Mathlib.Data.List.Induction
import GoPrep.Verified.GroupFold

/-!
# The hash aggregation operator

A port of `src/hash-aggregation-operator.cpp`.  Every group of rows has an
`Aggregate` of its own, cloned from a prototype when the first row of the group
arrives.

A `double` is a value of a type of which nothing is known but its zero, its
addition, its division and the conversion from `uint64_t`.  The order in which
`getResults` visits the hash table comes with the call.

## Main results

* `foldl_accumulate_empty` — what an empty aggregate is after some values.
* `aggregates_per_key` — every `getResults` of every sequence of calls returns
  one row per key, which is the fold of the values of that key.
-/

namespace GoPrep.Ports.HashAggregation

open GoPrep.Verified.GroupFold

/-- What the operator uses of `double`. -/
class DoubleOps (F : Type) extends Zero F, Add F, Div F where
  ofUInt64 : UInt64 → F

open DoubleOps (ofUInt64)

/-! ## The aggregates -/

structure CountAgg where
  count : UInt64 := 0
  deriving DecidableEq, Repr

structure SumAgg (F : Type) where
  sum : F
  deriving DecidableEq, Repr

structure AvgAgg (F : Type) where
  sum : F
  count : UInt64 := 0
  deriving DecidableEq, Repr

/-- The classes derived from `Aggregate`. -/
inductive Aggregate (F : Type)
  | countAgg (agg : CountAgg)
  | sumAgg (agg : SumAgg F)
  | avgAgg (agg : AvgAgg F)
  deriving DecidableEq, Repr

variable {F : Type} [DoubleOps F]

def CountAgg.accumulate (agg : CountAgg) (_value : F) : CountAgg :=
  ⟨agg.count + 1⟩

def CountAgg.finalize (agg : CountAgg) : F := ofUInt64 agg.count

def SumAgg.accumulate (agg : SumAgg F) (value : F) : SumAgg F :=
  ⟨agg.sum + value⟩

def SumAgg.finalize (agg : SumAgg F) : F := agg.sum

def AvgAgg.accumulate (agg : AvgAgg F) (value : F) : AvgAgg F :=
  ⟨agg.sum + value, agg.count + 1⟩

def AvgAgg.finalize (agg : AvgAgg F) : F :=
  if agg.count ≠ 0 then agg.sum / ofUInt64 agg.count else 0

namespace Aggregate

def accumulate : Aggregate F → F → Aggregate F
  | countAgg agg, value => countAgg (agg.accumulate value)
  | sumAgg agg, value => sumAgg (agg.accumulate value)
  | avgAgg agg, value => avgAgg (agg.accumulate value)

def finalize : Aggregate F → F
  | countAgg agg => agg.finalize
  | sumAgg agg => agg.finalize
  | avgAgg agg => agg.finalize

/-- A default-constructed aggregate of the same class. -/
def clone : Aggregate F → Aggregate F
  | countAgg _ => countAgg {}
  | sumAgg _ => sumAgg { sum := 0 }
  | avgAgg _ => avgAgg { sum := 0 }

end Aggregate

/-! ## The operator -/

structure ResultRow (F : Type) where
  key : String
  result : F
  deriving DecidableEq, Repr

structure HashAggregator (F : Type) where
  prototype : Aggregate F
  table : Groups String (Aggregate F)

inductive Call (F : Type)
  | addRow (key : String) (value : F)
  /-- `order` is how the call goes through the table. -/
  | getResults (order : IterationOrder String (Aggregate F))

namespace HashAggregator

/-- The constructor. -/
def new (proto : Aggregate F) : HashAggregator F := ⟨proto, ∅⟩

def addRow (h : HashAggregator F) (key : String) (value : F) :
    HashAggregator F :=
  let it :=
    match h.table.lookup key with
    | some it => it
    | none => h.prototype.clone
  { h with table := h.table.insert key (it.accumulate value) }

def getResults (h : HashAggregator F)
    (order : IterationOrder String (Aggregate F)) : List (ResultRow F) :=
  (order.visit h.table.entries).map fun e => ⟨e.1, e.2.finalize⟩

/-- What a call returns, if anything, and the operator it leaves. -/
def call (h : HashAggregator F) :
    Call F → Option (List (ResultRow F)) × HashAggregator F
  | .addRow key value => (none, h.addRow key value)
  | .getResults order => (some (h.getResults order), h)

/-- What each of some calls returns. -/
def answers (h : HashAggregator F) :
    List (Call F) → List (Option (List (ResultRow F)))
  | [] => []
  | c :: calls => (h.call c).1 :: answers (h.call c).2 calls

/-- The operator after some calls. -/
def after (h : HashAggregator F) (calls : List (Call F)) : HashAggregator F :=
  calls.foldl (fun h c => (h.call c).2) h

/-- A row goes into the aggregate of its key, a fresh one if there is none. -/
theorem table_addRow (h : HashAggregator F) (key : String) (value : F) :
    (h.addRow key value).table =
      h.table.insert key
        (((h.table.lookup key).getD h.prototype.clone).accumulate value) := by
  rw [addRow]
  cases h.table.lookup key with
  | none => rfl
  | some it => rfl

/-- A call answers as it does on the operator after the calls before it. -/
theorem getElem?_answers (h : HashAggregator F) (calls : List (Call F))
    (i : Nat) :
    (h.answers calls)[i]? =
      calls[i]?.map fun c => ((h.after (calls.take i)).call c).1 := by
  induction calls generalizing h i with
  | nil => rfl
  | cons c calls ih =>
      cases i with
      | zero => rfl
      | succ i => exact ih (h.call c).2 i

end HashAggregator

/-! ## What an aggregate has accumulated -/

inductive AggregateClass
  | countAgg
  | sumAgg
  | avgAgg
  deriving DecidableEq, Repr

def Aggregate.cls : Aggregate F → AggregateClass
  | countAgg _ => .countAgg
  | sumAgg _ => .sumAgg
  | avgAgg _ => .avgAgg

namespace AggregateClass

/-- An aggregate that has accumulated nothing. -/
def empty : AggregateClass → Aggregate F
  | countAgg => .countAgg ⟨0⟩
  | sumAgg => .sumAgg ⟨0⟩
  | avgAgg => .avgAgg ⟨0, 0⟩

/-- An aggregate that has accumulated these values. -/
def accumulated (values : List F) : AggregateClass → Aggregate F
  | countAgg => .countAgg ⟨UInt64.ofNat values.length⟩
  | sumAgg => .sumAgg ⟨values.foldl (· + ·) 0⟩
  | avgAgg => .avgAgg ⟨values.foldl (· + ·) 0, UInt64.ofNat values.length⟩

/-- **An empty aggregate after some values.**  They are counted modulo `2^64`
and added up from the left. -/
theorem foldl_accumulate_empty (c : AggregateClass) (values : List F) :
    values.foldl Aggregate.accumulate c.empty = c.accumulated values := by
  induction values using List.reverseRecOn with
  | nil => cases c <;> rfl
  | append_singleton values value ih =>
      have hcount : UInt64.ofNat (values ++ [value]).length =
          UInt64.ofNat values.length + 1 := by
        rw [List.length_append, List.length_singleton, UInt64.ofNat_add]
        rfl
      have hsum : (values ++ [value]).foldl (· + ·) 0 =
          values.foldl (· + ·) 0 + value := List.foldl_concat _ _ _ _
      rw [List.foldl_concat, ih]
      cases c with
      | countAgg => rw [accumulated, accumulated, hcount]; rfl
      | sumAgg => rw [accumulated, accumulated, hsum]; rfl
      | avgAgg => rw [accumulated, accumulated, hcount, hsum]; rfl

end AggregateClass

/-- What the prototype has accumulated is left behind. -/
theorem Aggregate.clone_eq (agg : Aggregate F) :
    agg.clone = agg.cls.empty := by
  cases agg <;> rfl

/-! ## The groups -/

/-- The row a call adds. -/
def Call.row : Call F → List (String × F)
  | addRow key value => [(key, value)]
  | getResults _ => []

def addedRows (calls : List (Call F)) : List (String × F) :=
  calls.flatMap Call.row

omit [DoubleOps F] in
theorem length_addedRows_take_le (calls : List (Call F)) (i : Nat) :
    (addedRows (calls.take i)).length ≤ (addedRows calls).length := by
  have hsplit : addedRows calls =
      addedRows (calls.take i) ++ addedRows (calls.drop i) := by
    rw [addedRows, addedRows, addedRows, ← List.flatMap_append,
      List.take_append_drop]
  rw [hsplit, List.length_append]
  omega

/-- The operator after some rows. -/
structure Aggregates (proto : Aggregate F) (rows : List (String × F))
    (h : HashAggregator F) : Prop where
  prototype : h.prototype = proto
  folds : FoldsByKey proto.cls.empty Aggregate.accumulate rows h.table

section Groups

variable {proto : Aggregate F} {rows : List (String × F)}
  {h : HashAggregator F}

theorem aggregates_new (proto : Aggregate F) :
    Aggregates proto [] (HashAggregator.new proto) :=
  ⟨rfl, foldsByKey_nil⟩

theorem Aggregates.addRow (hagg : Aggregates proto rows h) (key : String)
    (value : F) : Aggregates proto (rows ++ [(key, value)])
      (h.addRow key value) := by
  refine ⟨hagg.prototype, ?_⟩
  rw [HashAggregator.table_addRow, hagg.prototype, Aggregate.clone_eq]
  exact hagg.folds.add key value

theorem Aggregates.call (hagg : Aggregates proto rows h) (c : Call F) :
    Aggregates proto (rows ++ c.row) (h.call c).2 := by
  cases c with
  | addRow key value => exact hagg.addRow key value
  | getResults order =>
      rw [Call.row, List.append_nil]
      exact hagg

theorem Aggregates.after (hagg : Aggregates proto rows h)
    (calls : List (Call F)) :
    Aggregates proto (rows ++ addedRows calls) (h.after calls) := by
  induction calls generalizing rows h with
  | nil =>
      rw [addedRows, List.flatMap_nil, List.append_nil]
      exact hagg
  | cons c calls ih =>
      rw [addedRows, List.flatMap_cons, ← List.append_assoc]
      exact ih (hagg.call c)

/-! ## The results -/

/-- One row for every key of the stream and no other: `finalize` of the fold of
`accumulate`, from the empty state, over the values of the key. -/
structure ResultsOf (c : AggregateClass) (rows : List (String × F))
    (results : List (ResultRow F)) : Prop where
  nodup : (results.map ResultRow.key).Nodup
  keys : ∀ key, key ∈ results.map ResultRow.key ↔ ∃ value, (key, value) ∈ rows
  result : ∀ row ∈ results, row.result =
    ((valuesAt rows row.key).foldl Aggregate.accumulate c.empty).finalize

/-- The keys of the results are those of the table. -/
theorem keys_getResults_perm (h : HashAggregator F)
    (order : IterationOrder String (Aggregate F)) :
    ((h.getResults order).map ResultRow.key).Perm h.table.keys := by
  rw [HashAggregator.getResults, List.map_map]
  exact (order.visit_perm h.table.entries).map Sigma.fst

theorem Aggregates.resultsOf (hagg : Aggregates proto rows h)
    (order : IterationOrder String (Aggregate F)) :
    ResultsOf proto.cls rows (h.getResults order) := by
  have hkeys := keys_getResults_perm h order
  refine ⟨hkeys.nodup_iff.mpr h.table.keys_nodup, fun key => ?_,
    fun row hrow => ?_⟩
  · rw [hkeys.mem_iff, ← AList.mem_keys, ← AList.lookup_isSome,
      Option.isSome_iff_exists, ← valuesAt_ne_nil]
    simp only [hagg.folds key, exists_and_left, exists_eq, and_true]
  · obtain ⟨⟨key, acc⟩, he, rfl⟩ := List.mem_map.mp hrow
    have hentry := (order.visit_perm h.table.entries).mem_iff.mp he
    rw [(hagg.folds.mem_entries_iff.mp hentry).2]

/-- **The rows depend on the values of each key only.** -/
theorem Aggregates.getResults_perm {rows' : List (String × F)}
    {h' : HashAggregator F} (hagg : Aggregates proto rows h)
    (hagg' : Aggregates proto rows' h')
    (hsame : ∀ key, valuesAt rows key = valuesAt rows' key)
    (order order' : IterationOrder String (Aggregate F)) :
    (h.getResults order).Perm (h'.getResults order') := by
  have hentries := hagg.folds.perm hagg'.folds hsame
  exact ((order.visit_perm _).trans (hentries.trans
    (order'.visit_perm _).symm)).map _

/-- **A group has counted a value**, if there are fewer than `2^64` rows. -/
theorem Aggregates.count_ne_zero (hagg : Aggregates proto rows h)
    (hfew : rows.length < 2 ^ 64) {key : String} {acc : AvgAgg F}
    (hacc : ⟨key, .avgAgg acc⟩ ∈ h.table.entries) : acc.count ≠ 0 := by
  obtain ⟨hmet, hfold⟩ := hagg.folds.mem_entries_iff.mp hacc
  rw [AggregateClass.foldl_accumulate_empty] at hfold
  have hpos := List.length_pos_iff.mpr hmet
  have hle := length_valuesAt_le rows key
  have hcount : acc.count = UInt64.ofNat (valuesAt rows key).length := by
    cases hc : proto.cls with
    | countAgg => rw [hc] at hfold; cases hfold
    | sumAgg => rw [hc] at hfold; cases hfold
    | avgAgg => rw [hc] at hfold; cases hfold; rfl
  intro hzero
  have hmod := congrArg UInt64.toNat (hcount.symm.trans hzero)
  rw [UInt64.toNat_ofNat', Nat.mod_eq_of_lt (by omega)] at hmod
  exact Nat.ne_of_gt hpos hmod

end Groups

/-- **Hash aggregation is a fold per key.**  For every prototype, whatever it
has accumulated, and every sequence of calls with fewer than `2^64` rows: a
`getResults` returns one row for each key added before it, with the fold of its
values, which counts them modulo `2^64` and adds them up from the left; it
leaves the operator as it was; no average is over no values; and a
`getResults` of any other sequence in which the keys have the same values
returns the same rows in some order. -/
theorem aggregates_per_key (proto : Aggregate F) (calls : List (Call F))
    (hfew : (addedRows calls).length < 2 ^ 64) {i : Nat}
    {order : IterationOrder String (Aggregate F)}
    (hcall : calls[i]? = some (.getResults order)) :
    let h := HashAggregator.new proto
    let rows := addedRows (calls.take i)
    ∃ results, (h.answers calls)[i]? = some (some results) ∧
      ResultsOf proto.cls rows results ∧
      (∀ row ∈ results, row.result =
        (proto.cls.accumulated (valuesAt rows row.key)).finalize) ∧
      h.after (calls.take (i + 1)) = h.after (calls.take i) ∧
      (∀ key acc, ⟨key, .avgAgg acc⟩ ∈ (h.after (calls.take i)).table.entries →
        acc.count ≠ 0) ∧
      ∀ (calls' : List (Call F)) (j : Nat)
        (order' : IterationOrder String (Aggregate F)),
        calls'[j]? = some (.getResults order') →
        (∀ key, valuesAt (addedRows (calls'.take j)) key =
          valuesAt rows key) →
        ∃ results', (h.answers calls')[j]? = some (some results') ∧
          results'.Perm results := by
  intro h rows
  have hagg : ∀ calls : List (Call F),
      Aggregates proto (addedRows calls) (h.after calls) :=
    (aggregates_new proto).after
  have hresults := (hagg (calls.take i)).resultsOf order
  refine ⟨(h.after (calls.take i)).getResults order, ?_, hresults,
    fun row hrow => ?_, ?_, ?_, ?_⟩
  · rw [h.getElem?_answers, hcall]
    rfl
  · rw [hresults.result row hrow, AggregateClass.foldl_accumulate_empty]
  · rw [List.take_add_one, hcall, HashAggregator.after, List.foldl_append]
    rfl
  · intro key acc hacc
    have hle := length_addedRows_take_le calls i
    exact (hagg _).count_ne_zero (Nat.lt_of_le_of_lt hle hfew) hacc
  · intro calls' j order' hcall' hsame
    refine ⟨(h.after (calls'.take j)).getResults order', ?_, ?_⟩
    · rw [h.getElem?_answers, hcall']
      rfl
    · exact (hagg _).getResults_perm (hagg _) hsame order' order

/-- Whole numbers, for divisions without a remainder. -/
instance : DoubleOps Int where
  zero := 0
  add a b := a + b
  div a b := a / b
  ofUInt64 n := n.toNat

/-- Two interleaved groups, averaged, added up and counted, from prototypes
that have accumulated something. -/
theorem aggregates_per_key_two :
    let rows : List (String × Int) := [("a", 1), ("b", 5), ("a", 3)]
    let order : IterationOrder String (Aggregate Int) := ⟨id, fun _ => .rfl⟩
    let calls : List (Call Int) := [.addRow "a" 1, .addRow "b" 5,
      .addRow "a" 3, .getResults order]
    ∀ answer ∈ [(Aggregate.avgAgg ⟨7, 4⟩, [⟨"a", 2⟩, ⟨"b", 5⟩]),
        (.sumAgg ⟨9⟩, [⟨"a", 4⟩, ⟨"b", 5⟩]),
        (.countAgg ⟨6⟩, [⟨"a", 2⟩, ⟨"b", 1⟩])],
      ((HashAggregator.new answer.1).answers calls)[3]? =
        some (some answer.2) ∧
      ResultsOf answer.1.cls rows answer.2 ∧
      ∀ row ∈ answer.2, row.result =
        (answer.1.cls.accumulated (valuesAt rows row.key)).finalize := by
  intro rows order calls answer hanswer
  obtain ⟨results, hresults, hfolds, hvalues, -⟩ :=
    aggregates_per_key answer.1 calls (by decide)
      (rfl : calls[3]? = some (.getResults order))
  have hrun : ((HashAggregator.new answer.1).answers calls)[3]? =
      some (some answer.2) := by
    simp only [List.mem_cons, List.not_mem_nil, or_false] at hanswer
    rcases hanswer with rfl | rfl | rfl <;> decide
  rw [hrun] at hresults
  obtain rfl := Option.some.inj (Option.some.inj hresults)
  exact ⟨hrun, hfolds, hvalues⟩

end GoPrep.Ports.HashAggregation
