import Mathlib.Data.List.Basic
import Mathlib.Data.List.Induction
import Mathlib.Order.Lattice

/-!
# Ordered maps

A map kept as a list of entries in strictly ascending key order, which is how
a balanced search tree iterates.  `insert` assigns, replacing the value of a
key that is present; `upperBound` is the rest of the iteration from the first
key greater than a bound.

`latest` is the specification of a sequence of assignments: the last value
given to a key.  `SelectsAbove` says, without mentioning any map, what it
means for a list to be the first `limit` entries above a bound.

## Main results

* `mem_ofLog` — a map built by assignments holds the latest value of each
  key.
* `latest_eq_some_iff_of_ascending` — if the values ascend, that is the
  greatest one.
* `selectsAbove_take_upperBound` — cutting the iteration from an upper bound
  selects the first entries above it.
* `insert_mapValues`, `upperBound_mapValues` — changing the values commutes
  with both operations.
-/

namespace GoPrep.Verified.SortedMap

variable {K V W : Type*} [LinearOrder K]

/-- A map from `K` to `V`, as its entries in ascending key order. -/
structure OrderedMap (K V : Type*) [LinearOrder K] where
  entries : List (K × V)
  ascending : entries.Pairwise fun a b => a.1 < b.1

/-- Assignment in a list of entries. -/
def assign (k : K) (v : V) : List (K × V) → List (K × V)
  | [] => [(k, v)]
  | e :: rest =>
      if k < e.1 then (k, v) :: e :: rest
      else if k = e.1 then (k, v) :: rest
      else e :: assign k v rest

theorem mem_assign_cases {k : K} {v : V} {e : K × V} {es : List (K × V)}
    (h : e ∈ assign k v es) : e = (k, v) ∨ e ∈ es := by
  induction es with
  | nil => exact .inl (List.mem_singleton.mp h)
  | cons d rest ih =>
      rw [assign] at h
      split at h
      · exact List.mem_cons.mp h
      split at h
      · exact (List.mem_cons.mp h).imp_right (List.mem_cons_of_mem d)
      · rcases List.mem_cons.mp h with rfl | h
        · exact .inr List.mem_cons_self
        · exact (ih h).imp_right (List.mem_cons_of_mem d)

theorem ascending_assign (k : K) (v : V) {es : List (K × V)}
    (h : es.Pairwise fun a b => a.1 < b.1) :
    (assign k v es).Pairwise fun a b => a.1 < b.1 := by
  induction es with
  | nil => exact List.pairwise_singleton _ _
  | cons d rest ih =>
      obtain ⟨hd, hrest⟩ := List.pairwise_cons.mp h
      rw [assign]
      split
      next hlt =>
        refine List.pairwise_cons.mpr ⟨fun e he => ?_, h⟩
        rcases List.mem_cons.mp he with rfl | he
        · exact hlt
        · exact hlt.trans (hd e he)
      split
      next _ heq =>
        refine List.pairwise_cons.mpr ⟨fun e he => ?_, hrest⟩
        rw [heq]
        exact hd e he
      next hlt heq =>
        refine List.pairwise_cons.mpr ⟨fun e he => ?_, ih hrest⟩
        rcases mem_assign_cases he with rfl | he
        · exact lt_of_le_of_ne (not_lt.mp hlt) (Ne.symm heq)
        · exact hd e he

/-- Assignment gives `k` the value `v` and leaves every other key alone. -/
theorem mem_assign {k : K} {v : V} {es : List (K × V)}
    (h : es.Pairwise fun a b => a.1 < b.1) {e : K × V} :
    e ∈ assign k v es ↔ e = (k, v) ∨ (e ∈ es ∧ e.1 ≠ k) := by
  induction es with
  | nil => simp [assign]
  | cons d rest ih =>
      obtain ⟨hd, hrest⟩ := List.pairwise_cons.mp h
      rw [assign]
      split
      next hlt =>
        have hne : ∀ e ∈ d :: rest, e.1 ≠ k := by
          intro e he
          rcases List.mem_cons.mp he with rfl | he
          · exact hlt.ne'
          · exact (hlt.trans (hd e he)).ne'
        rw [List.mem_cons]
        exact or_congr_right ⟨fun he => ⟨he, hne e he⟩, And.left⟩
      split
      next _ heq =>
        have hne : ∀ e ∈ rest, e.1 ≠ k := fun e he => by
          rw [heq]
          exact (hd e he).ne'
        rw [List.mem_cons, List.mem_cons]
        refine or_congr_right ⟨fun he => ⟨.inr he, hne e he⟩, ?_⟩
        rintro ⟨rfl | he, hk⟩
        · exact absurd heq.symm hk
        · exact he
      next hlt heq =>
        rw [List.mem_cons, ih hrest, List.mem_cons]
        constructor
        · rintro (rfl | rfl | ⟨he, hk⟩)
          · exact .inr ⟨.inl rfl, Ne.symm heq⟩
          · exact .inl rfl
          · exact .inr ⟨.inr he, hk⟩
        · rintro (rfl | ⟨rfl | he, hk⟩)
          · exact .inr (.inl rfl)
          · exact .inl rfl
          · exact .inr (.inr ⟨he, hk⟩)

namespace OrderedMap

def empty : OrderedMap K V := ⟨[], List.Pairwise.nil⟩

/-- `m[k] = v`. -/
def insert (m : OrderedMap K V) (k : K) (v : V) : OrderedMap K V :=
  ⟨assign k v m.entries, ascending_assign k v m.ascending⟩

/-- The iteration from the first key greater than `bound`. -/
def upperBound (m : OrderedMap K V) (bound : K) : List (K × V) :=
  m.entries.dropWhile fun e => decide (e.1 ≤ bound)

/-- The same keys with other values. -/
def mapValues (f : V → W) (m : OrderedMap K V) : OrderedMap K W :=
  ⟨m.entries.map (Prod.map id f),
    List.pairwise_map.mpr (m.ascending.imp fun h => h)⟩

theorem ext {m m' : OrderedMap K V} (h : m.entries = m'.entries) :
    m = m' := by
  cases m
  cases m'
  exact (mk.injEq _ _ _ _).mpr h

/-- A map is determined by its entries, in whatever order they are named. -/
theorem eq_of_mem_iff {m m' : OrderedMap K V}
    (h : ∀ e, e ∈ m.entries ↔ e ∈ m'.entries) : m = m' := by
  have hnodup : ∀ m : OrderedMap K V, m.entries.Nodup := fun m =>
    m.ascending.imp fun {a b} hlt heq => (heq ▸ hlt).false
  apply ext
  refine ((List.perm_ext_iff_of_nodup (hnodup m) (hnodup m')).mpr h)
    |>.eq_of_pairwise (fun a b _ _ hab hba => ?_) m.ascending m'.ascending
  exact absurd hba hab.not_gt

theorem mem_insert {m : OrderedMap K V} {k : K} {v : V} {e : K × V} :
    e ∈ (m.insert k v).entries ↔ e = (k, v) ∨ (e ∈ m.entries ∧ e.1 ≠ k) :=
  mem_assign m.ascending

/-- **Assignment commutes with a change of values.** -/
theorem insert_mapValues (f : V → W) (m : OrderedMap K V) (k : K) (v : V) :
    (m.insert k v).mapValues f = (m.mapValues f).insert k (f v) := by
  apply ext
  show (assign k v m.entries).map (Prod.map id f) =
    assign k (f v) (m.entries.map (Prod.map id f))
  induction m.entries with
  | nil => rfl
  | cons d rest ih =>
      simp only [assign, List.map_cons, Prod.map_fst, id_eq]
      split
      · rfl
      split
      · rfl
      · rw [List.map_cons, ih]

theorem upperBound_mapValues (f : V → W) (m : OrderedMap K V) (bound : K) :
    (m.mapValues f).upperBound bound =
      (m.upperBound bound).map (Prod.map id f) :=
  List.dropWhile_map ..

/-- In ascending order, dropping the keys up to the bound keeps exactly the
keys above it. -/
theorem upperBound_eq_filter (m : OrderedMap K V) (bound : K) :
    m.upperBound bound = m.entries.filter fun e => decide (bound < e.1) := by
  obtain ⟨es, hasc⟩ := m
  simp only [upperBound]
  induction es with
  | nil => rfl
  | cons d rest ih =>
      obtain ⟨hd, hrest⟩ := List.pairwise_cons.mp hasc
      rw [List.dropWhile_cons]
      split
      next hle =>
        have hnot : ¬ bound < d.1 := not_lt.mpr (by simpa using hle)
        rw [ih hrest, List.filter_cons_of_neg (by simpa using hnot)]
      next hle =>
        have hlt : bound < d.1 := by simpa using hle
        refine (List.filter_eq_self.mpr fun e he => ?_).symm
        rcases List.mem_cons.mp he with rfl | he
        · simpa using hlt
        · simpa using hlt.trans (hd e he)

theorem mem_upperBound {m : OrderedMap K V} {bound : K} {e : K × V} :
    e ∈ m.upperBound bound ↔ e ∈ m.entries ∧ bound < e.1 := by
  rw [upperBound_eq_filter, List.mem_filter, decide_eq_true_eq]

theorem ascending_upperBound (m : OrderedMap K V) (bound : K) :
    (m.upperBound bound).Pairwise fun a b => a.1 < b.1 :=
  m.ascending.sublist (List.dropWhile_sublist _)

end OrderedMap

/-! ## Sequences of assignments -/

/-- The value last given to `k`. -/
def latest (log : List (K × V)) (k : K) : Option V :=
  log.foldl (fun found e => if e.1 = k then some e.2 else found) none

@[simp] theorem latest_nil (k : K) : latest ([] : List (K × V)) k = none := rfl

theorem latest_concat (log : List (K × V)) (e : K × V) (k : K) :
    latest (log ++ [e]) k = if e.1 = k then some e.2 else latest log k := by
  rw [latest, List.foldl_append]
  rfl

/-- An assignment counts until its key is given another value. -/
theorem latest_append_cons {before after : List (K × V)} {e : K × V}
    (hafter : ∀ d ∈ after, d.1 ≠ e.1) :
    latest (before ++ e :: after) e.1 = some e.2 := by
  induction after using List.reverseRecOn with
  | nil => rw [latest_concat, if_pos rfl]
  | append_singleton after d ih =>
      have hne := hafter d (List.mem_append_right _ List.mem_cons_self)
      rw [← List.cons_append, ← List.append_assoc, latest_concat, if_neg hne]
      exact ih fun d' hd' => hafter d' (List.mem_append_left _ hd')

/-- The map a sequence of assignments builds. -/
def ofLog (log : List (K × V)) : OrderedMap K V :=
  log.foldl (fun m e => m.insert e.1 e.2) .empty

theorem ofLog_concat (log : List (K × V)) (e : K × V) :
    ofLog (log ++ [e]) = (ofLog log).insert e.1 e.2 := by
  rw [ofLog, List.foldl_append]
  rfl

/-- **A map built by assignments holds the latest value of each key.** -/
theorem mem_ofLog {log : List (K × V)} {k : K} {v : V} :
    (k, v) ∈ (ofLog log).entries ↔ latest log k = some v := by
  induction log using List.reverseRecOn with
  | nil => simp [ofLog, OrderedMap.empty]
  | append_singleton log e ih =>
      rw [ofLog_concat, OrderedMap.mem_insert, latest_concat, ih]
      by_cases hk : e.1 = k
      · rw [if_pos hk]
        subst hk
        simp [Prod.ext_iff, eq_comm]
      · rw [if_neg hk]
        simp [Prod.ext_iff, Ne.symm hk]

theorem mem_of_latest {log : List (K × V)} {k : K} {v : V}
    (h : latest log k = some v) : (k, v) ∈ log := by
  induction log using List.reverseRecOn with
  | nil => cases h
  | append_singleton log e ih =>
      rw [latest_concat] at h
      rw [List.mem_append]
      split at h
      next hk =>
        refine .inr (List.mem_singleton.mpr ?_)
        rw [← hk, ← Option.some.inj h]
      · exact .inl (ih h)

/-- **If the values ascend, the latest value of a key is its greatest.** -/
theorem latest_eq_some_iff_of_ascending [Preorder V] {log : List (K × V)}
    (hasc : log.Pairwise fun a b => a.2 < b.2) {k : K} {v : V} :
    latest log k = some v ↔
      (k, v) ∈ log ∧ ∀ w, (k, w) ∈ log → w ≤ v := by
  induction log using List.reverseRecOn with
  | nil => simp
  | append_singleton log e ih =>
      obtain ⟨hlog, -, hlast⟩ := List.pairwise_append.mp hasc
      have hbelow : ∀ d ∈ log, d.2 < e.2 := fun d hd =>
        hlast d hd e (List.mem_singleton.mpr rfl)
      rw [latest_concat]
      split
      next hk =>
        subst hk
        constructor
        · intro hv
          obtain rfl := Option.some.inj hv
          refine ⟨List.mem_append_right _ (List.mem_singleton.mpr rfl), ?_⟩
          intro w hw
          rcases List.mem_append.mp hw with hw | hw
          · exact (hbelow _ hw).le
          · rw [← List.mem_singleton.mp hw]
        · rintro ⟨hv, hmax⟩
          rcases List.mem_append.mp hv with hv | hv
          · have hle := hmax e.2 (List.mem_append_right _
              (List.mem_singleton.mpr rfl))
            exact absurd ((hbelow _ hv).trans_le hle) (lt_irrefl _)
          · rw [← List.mem_singleton.mp hv]
      next hk =>
        have hmem : ∀ w, (k, w) ∈ log ++ [e] ↔ (k, w) ∈ log := fun w => by
          rw [List.mem_append, List.mem_singleton, or_iff_left]
          rintro rfl
          exact hk rfl
        simp only [ih hlog, hmem]

theorem mem_of_mem_ofLog {log : List (K × V)} {e : K × V}
    (h : e ∈ (ofLog log).entries) : e ∈ log :=
  mem_of_latest (mem_ofLog.mp h)

/-- Assigning other values builds the same map with other values. -/
theorem ofLog_map (f : V → W) (log : List (K × V)) :
    ofLog (log.map (Prod.map id f)) = (ofLog log).mapValues f := by
  induction log using List.reverseRecOn with
  | nil => rfl
  | append_singleton log e ih =>
      rw [List.map_append, List.map_singleton, ofLog_concat, ofLog_concat, ih,
        OrderedMap.insert_mapValues]
      rfl

/-! ## Selecting the first entries above a bound -/

/-- `out` is the first `limit` entries with a key above `bound`, in ascending
key order, of the partial function `value`. -/
structure SelectsAbove (value : K → Option V) (bound : K) (limit : Nat)
    (out : List (K × V)) : Prop where
  ascending : out.Pairwise fun a b => a.1 < b.1
  above : ∀ e ∈ out, bound < e.1
  values : ∀ e ∈ out, value e.1 = some e.2
  length_le : out.length ≤ limit
  /-- What is left out comes after `limit` smaller keys. -/
  first : ∀ k v, bound < k → value k = some v →
    (k, v) ∈ out ∨ (out.length = limit ∧ ∀ e ∈ out, e.1 < k)

/-- **Cutting the iteration selects the first entries.** -/
theorem selectsAbove_take_upperBound {m : OrderedMap K V}
    {value : K → Option V}
    (hm : ∀ k v, (k, v) ∈ m.entries ↔ value k = some v) (bound : K)
    (limit : Nat) :
    SelectsAbove value bound limit ((m.upperBound bound).take limit) := by
  have hasc := m.ascending_upperBound bound
  constructor
  · exact hasc.sublist (List.take_sublist _ _)
  · exact fun e he => (OrderedMap.mem_upperBound.mp (List.mem_of_mem_take he)).2
  · intro e he
    exact (hm e.1 e.2).mp
      (OrderedMap.mem_upperBound.mp (List.mem_of_mem_take he)).1
  · exact List.length_take_le _ _
  · intro k v hk hv
    have hmem := OrderedMap.mem_upperBound.mpr ⟨(hm k v).mpr hv, hk⟩
    rw [← List.take_append_drop limit (m.upperBound bound)] at hasc hmem
    rcases List.mem_append.mp hmem with hmem | hmem
    · exact .inl hmem
    · refine .inr ⟨?_, fun e he =>
        (List.pairwise_append.mp hasc).2.2 e he (k, v) hmem⟩
      have hpos := List.length_pos_of_mem hmem
      rw [List.length_drop] at hpos
      rw [List.length_take]
      omega

end GoPrep.Verified.SortedMap
