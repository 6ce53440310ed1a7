import Mathlib.Algebra.Order.Ring.Nat
import Mathlib.Data.List.Nodup

/-!
# The string interner

The `StringInterner` of `tier-2-cpp-performance-patterns-prep.md`.  The keys
of its map are views of the strings in its vector, so they dangle as soon as
the vector reallocates.  A view is an index together with the number of
reallocations there had been when it was taken; looking through a view that
dangles is undefined and answers `none`.

## Main results

* `Interned.intern` — a call keeps the map in step with the vector.
* `interner_spec` — the ids are the places of the strings in the order of
  their first occurrences, and no view ever dangles.
-/

namespace GoPrep.Ports.StringInterner

/-- A `std::string_view` of a whole string of the vector. -/
structure View where
  generation : Nat
  index : Nat
  deriving DecidableEq, Repr

/-- `generation` counts the reallocations of the vector. -/
structure Interner where
  id_to_string_pool : List String
  capacity : Nat
  generation : Nat
  string_to_id_map : List (View × UInt32)
  deriving DecidableEq, Repr

namespace Interner

/-- `reserve(4096)` leads to some capacity. -/
def new (capacity : Nat) : Interner := ⟨[], capacity, 0, []⟩

def size (x : Interner) : Nat := x.id_to_string_pool.length

/-- The string that is viewed. -/
def deref (x : Interner) (view : View) : Option String :=
  if view.generation = x.generation then x.id_to_string_pool[view.index]?
  else none

/-- The id of the first of these entries whose key is the string. -/
def findIn (x : Interner) (str : String) :
    List (View × UInt32) → Option (Option UInt32)
  | [] => some none
  | entry :: rest => do
      let key ← x.deref entry.1
      if key = str then return some entry.2
      else x.findIn str rest

def find (x : Interner) (str : String) : Option (Option UInt32) :=
  x.findIn str x.string_to_id_map

/-- `id_to_string_pool.push_back(str)`; without room the vector moves. -/
def pushBack (x : Interner) (str : String) : Interner :=
  let pool := x.id_to_string_pool ++ [str]
  if x.size < x.capacity then { x with id_to_string_pool := pool }
  else
    { x with
      id_to_string_pool := pool
      capacity := 2 * x.capacity + 1
      generation := x.generation + 1 }

/-- `string_to_id_map[view] = id`. -/
def assign (x : Interner) (view : View) (id : UInt32) : Option Interner := do
  let str ← x.deref view
  match ← x.find str with
  | none =>
      return { x with
        string_to_id_map := x.string_to_id_map ++ [(view, id)] }
  | some _ =>
      return { x with
        string_to_id_map := x.string_to_id_map.map fun entry =>
          if x.deref entry.1 = some str then (entry.1, id) else entry }

def full : String :=
  "Intern pool capacity exceeded. Reallocation forbidden for pointer " ++
    "stability."

def intern (x : Interner) (str : String) :
    Option (Except String UInt32 × Interner) := do
  match ← x.find str with
  | some id => return (.ok id, x)
  | none =>
      if x.size ≥ x.capacity then return (.error full, x)
      else
        let x := x.pushBack str
        let new_id := UInt32.ofNat (x.size - 1)
        let view_into_pool := ⟨x.generation, x.size - 1⟩
        let x ← x.assign view_into_pool new_id
        return (.ok new_id, x)

def lookup (x : Interner) (id : UInt32) : Except String View :=
  if id.toNat ≥ x.size then .error "Invalid interned string ID"
  else .ok ⟨x.generation, id.toNat⟩

/-- One call after the other, with their answers. -/
def internAll (x : Interner) :
    List String → Option (List (Except String UInt32) × Interner)
  | [] => some ([], x)
  | str :: strs => do
      let (answer, x) ← x.intern str
      let (answers, x) ← x.internAll strs
      return (answer :: answers, x)

end Interner

/-! ## First occurrences -/

/-- The strings that occur, each once, in the order in which they first do. -/
def addNew (seen : List String) (str : String) : List String :=
  if str ∈ seen then seen else seen ++ [str]

def firsts (strs : List String) : List String := strs.foldl addNew []

theorem nodup_addNew {seen : List String} (h : seen.Nodup) (str : String) :
    (addNew seen str).Nodup := by
  unfold addNew
  split
  · exact h
  next hnew => exact List.concat_eq_append ▸ List.Nodup.concat hnew h

theorem mem_addNew (seen : List String) (str : String) :
    str ∈ addNew seen str := by
  unfold addNew
  split
  next hold => exact hold
  next => exact List.mem_append_right _ (List.mem_singleton_self str)

theorem prefix_addNew (seen : List String) (str : String) :
    seen <+: addNew seen str := by
  unfold addNew
  split
  · exact List.prefix_refl seen
  · exact List.prefix_append seen [str]

theorem prefix_foldl_addNew (seen strs : List String) :
    seen <+: strs.foldl addNew seen := by
  induction strs generalizing seen with
  | nil => exact List.prefix_refl seen
  | cons str strs ih => exact (prefix_addNew seen str).trans (ih _)

theorem mem_foldl_addNew {seen strs : List String} {str : String}
    (h : str ∈ strs ∨ str ∈ seen) : str ∈ strs.foldl addNew seen := by
  induction strs generalizing seen with
  | nil => exact h.resolve_left List.not_mem_nil
  | cons first strs ih =>
      apply ih
      rcases h with h | h
      · rcases List.mem_cons.mp h with rfl | h
        · exact .inr (mem_addNew seen str)
        · exact .inl h
      · exact .inr ((prefix_addNew seen first).subset h)

/-- A string keeps its place. -/
theorem idxOf_foldl_addNew {seen strs : List String} {str : String}
    (h : str ∈ seen) :
    (strs.foldl addNew seen).idxOf str = seen.idxOf str := by
  obtain ⟨more, hmore⟩ := prefix_foldl_addNew seen strs
  rw [← hmore, List.idxOf_append_of_mem h]

/-! ## The map and the vector -/

/-- After calls in which the strings `seen` occurred: the vector holds as many
of them as it has room for, and the map has a view of each. -/
structure Interned (capacity : Nat) (seen : List String) (x : Interner) :
    Prop where
  capacity_eq : x.capacity = capacity
  nodup : seen.Nodup
  pool_eq : x.id_to_string_pool = seen.take capacity
  map_eq : x.string_to_id_map = (List.range x.size).map fun i =>
    (⟨x.generation, i⟩, UInt32.ofNat i)

theorem interned_new (capacity : Nat) :
    Interned capacity [] (.new capacity) :=
  ⟨rfl, .nil, List.take_nil.symm, rfl⟩

/-- What the calls answer, by the places of the strings. -/
def answer (capacity : Nat) (order : List String) (str : String) :
    Except String UInt32 :=
  if order.idxOf str < capacity then .ok (UInt32.ofNat (order.idxOf str))
  else .error Interner.full

namespace Interned

variable {capacity : Nat} {seen : List String} {x : Interner} {str : String}

theorem nodup_pool (h : Interned capacity seen x) :
    x.id_to_string_pool.Nodup := by
  rw [h.pool_eq]
  exact h.nodup.sublist (List.take_sublist _ _)

/-- Looking through the entries of these indices finds the one of the
string. -/
theorem findIn_eq (indices : List Nat) (hindices : ∀ i ∈ indices, i < x.size) :
    x.findIn str (indices.map fun i =>
        (⟨x.generation, i⟩, UInt32.ofNat i)) =
      some ((indices.find? fun i =>
        decide (x.id_to_string_pool[i]? = some str)).map UInt32.ofNat) := by
  induction indices with
  | nil => rfl
  | cons i indices ih =>
      obtain ⟨key, hkey⟩ : ∃ key, x.id_to_string_pool[i]? = some key :=
        ⟨_, List.getElem?_eq_getElem (hindices i List.mem_cons_self)⟩
      have hrest := ih fun j hj => hindices j (List.mem_cons_of_mem _ hj)
      rw [List.map_cons, Interner.findIn, Interner.deref, if_pos rfl, hkey,
        Option.bind_eq_bind, Option.bind_some, List.find?_cons, hkey]
      by_cases heq : key = str
      · subst heq
        simp
      · simp [heq, hrest]

theorem size_eq (h : Interned capacity seen x) :
    x.size = min capacity seen.length := by
  rw [Interner.size, h.pool_eq, List.length_take]

theorem find_of_mem (h : Interned capacity seen x) {i : Nat}
    (hi : x.id_to_string_pool[i]? = some str) :
    x.find str = some (some (UInt32.ofNat i)) := by
  have hlt : i < x.size := (List.getElem?_eq_some_iff.mp hi).1
  rw [Interner.find, h.map_eq, findIn_eq _ fun j hj => List.mem_range.mp hj]
  cases hfound : (List.range x.size).find? fun j =>
      decide (x.id_to_string_pool[j]? = some str) with
  | none =>
      have hnone := List.find?_eq_none.mp hfound i (List.mem_range.mpr hlt)
      exact absurd hi (by simpa using hnone)
  | some j =>
      have hj : x.id_to_string_pool[j]? = some str := by
        simpa using List.find?_some hfound
      obtain rfl : i = j :=
        (List.getElem?_inj hlt h.nodup_pool).mp (hi.trans hj.symm)
      rfl

theorem find_of_notMem (h : Interned capacity seen x)
    (hnew : str ∉ x.id_to_string_pool) : x.find str = some none := by
  rw [Interner.find, h.map_eq, findIn_eq _ fun j hj => List.mem_range.mp hj,
    List.find?_eq_none.mpr fun j _ => ?_]
  · rfl
  · rw [decide_eq_true_eq]
    exact fun hj => hnew (List.mem_of_getElem? hj)

/-- The string is in the vector. -/
theorem intern_old (h : Interned capacity seen x)
    (hold : str ∈ x.id_to_string_pool) :
    x.intern str = some (answer capacity (addNew seen str) str, x) ∧
      addNew seen str = seen := by
  have hmem := hold
  rw [h.pool_eq] at hmem
  have hseen : str ∈ seen := List.mem_of_mem_take hmem
  have hadd : addNew seen str = seen := if_pos hseen
  have hidx : seen.idxOf str = x.id_to_string_pool.idxOf str := by
    conv_lhs => rw [← List.take_append_drop capacity seen]
    rw [List.idxOf_append_of_mem hmem, h.pool_eq]
  have hlt := List.idxOf_lt_length_of_mem hold
  have hget : x.id_to_string_pool[x.id_to_string_pool.idxOf str]? =
      some str := by
    rw [List.getElem?_eq_getElem hlt, List.getElem_idxOf]
  have hroom : seen.idxOf str < capacity := by
    have hsize := h.size_eq
    rw [Interner.size] at hsize
    omega
  refine ⟨?_, hadd⟩
  rw [Interner.intern, h.find_of_mem hget, hadd, answer, if_pos hroom, hidx]
  rfl

/-- The string is not in the vector, which is full. -/
theorem intern_full (h : Interned capacity seen x)
    (hnew : str ∉ x.id_to_string_pool) (hfull : capacity ≤ x.size) :
    x.intern str = some (answer capacity (addNew seen str) str, x) ∧
      Interned capacity (addNew seen str) x := by
  have hsize := h.size_eq
  obtain ⟨more, hmore⟩ := prefix_addNew seen str
  have htake : (addNew seen str).take capacity = seen.take capacity := by
    rw [← hmore, List.take_append_of_le_length (by omega)]
  have hidx : ¬ (addNew seen str).idxOf str < capacity := by
    intro hlt
    apply hnew
    rw [h.pool_eq, ← htake]
    have hlen := List.idxOf_lt_length_of_mem (mem_addNew seen str)
    refine List.mem_of_getElem? (i := (addNew seen str).idxOf str) ?_
    rw [List.getElem?_take_of_lt hlt, List.getElem?_eq_getElem hlen,
      List.getElem_idxOf]
  constructor
  · rw [Interner.intern, h.find_of_notMem hnew, answer, if_neg hidx]
    simp only [Option.bind_eq_bind, Option.bind_some]
    rw [if_pos (by rw [h.capacity_eq]; exact hfull)]
    rfl
  · exact ⟨h.capacity_eq, nodup_addNew h.nodup str, h.pool_eq.trans htake.symm,
      h.map_eq⟩

/-- The interner with one more string. -/
def extended (x : Interner) (str : String) : Interner :=
  { x with
    id_to_string_pool := x.id_to_string_pool ++ [str]
    string_to_id_map := x.string_to_id_map ++
      [(⟨x.generation, x.size⟩, UInt32.ofNat x.size)] }

/-- The new view is not in the map yet. -/
theorem assign_pushBack (h : Interned capacity seen x)
    (hnew : str ∉ x.id_to_string_pool) (hroom : x.size < capacity) :
    (x.pushBack str).assign ⟨x.generation, x.size⟩ (UInt32.ofNat x.size) =
      some (extended x str) := by
  have hpush : x.pushBack str =
      { x with id_to_string_pool := x.id_to_string_pool ++ [str] } :=
    if_pos (by rw [h.capacity_eq]; exact hroom)
  have hderef : (x.pushBack str).deref ⟨x.generation, x.size⟩ =
      some str := by
    rw [hpush, Interner.deref, if_pos rfl]
    exact List.getElem?_concat_length
  have hfind : (x.pushBack str).find str = some none := by
    have hsize : (x.pushBack str).size = x.size + 1 := by
      rw [hpush, Interner.size, List.length_append]
      rfl
    have hmap : (x.pushBack str).string_to_id_map =
        (List.range x.size).map fun i =>
          (⟨(x.pushBack str).generation, i⟩, UInt32.ofNat i) := by
      rw [hpush]
      exact h.map_eq
    rw [Interner.find, hmap, findIn_eq _ fun j hj => by
        rw [hsize]
        exact Nat.lt_succ_of_lt (List.mem_range.mp hj),
      List.find?_eq_none.mpr fun j hj => ?_]
    · rfl
    · rw [decide_eq_true_eq, hpush]
      show (x.id_to_string_pool ++ [str])[j]? ≠ some str
      rw [List.getElem?_append_left (List.mem_range.mp hj)]
      exact fun hget => hnew (List.mem_of_getElem? hget)
  rw [Interner.assign, hderef]
  simp only [Option.bind_eq_bind, Option.bind_some, hfind]
  rw [hpush]
  rfl

/-- The string is not in the vector, which has room. -/
theorem intern_new (h : Interned capacity seen x)
    (hnew : str ∉ x.id_to_string_pool) (hroom : x.size < capacity) :
    x.intern str =
        some (answer capacity (addNew seen str) str, extended x str) ∧
      Interned capacity (addNew seen str) (extended x str) := by
  have hsize := h.size_eq
  have hpool : x.id_to_string_pool = seen := by
    rw [h.pool_eq, List.take_of_length_le (by omega)]
  have hseen : str ∉ seen := hpool ▸ hnew
  have hadd : addNew seen str = seen ++ [str] := if_neg hseen
  have hidx : (addNew seen str).idxOf str = x.size := by
    rw [hadd, List.idxOf_append_of_notMem hseen, List.idxOf_cons_self,
      Nat.add_zero, ← hpool]
    rfl
  have hpush : x.pushBack str =
      { x with id_to_string_pool := x.id_to_string_pool ++ [str] } :=
    if_pos (by rw [h.capacity_eq]; exact hroom)
  have hlast : (x.pushBack str).size - 1 = x.size := by
    rw [hpush, Interner.size, List.length_append]
    rfl
  have hgeneration : (x.pushBack str).generation = x.generation := by
    rw [hpush]
  constructor
  · rw [Interner.intern, h.find_of_notMem hnew]
    simp only [Option.bind_eq_bind, Option.bind_some]
    rw [if_neg (by rw [h.capacity_eq]; omega), hlast, hgeneration,
      h.assign_pushBack hnew hroom, answer, hidx, if_pos hroom]
    rfl
  · refine ⟨h.capacity_eq, nodup_addNew h.nodup str, ?_, ?_⟩
    · show x.id_to_string_pool ++ [str] = (addNew seen str).take capacity
      rw [hpool, hadd, List.take_of_length_le]
      rw [List.length_append, List.length_singleton]
      omega
    · have hgrown : (extended x str).size = x.size + 1 := by
        rw [Interner.size, extended, List.length_append]
        rfl
      show x.string_to_id_map ++ _ = _
      rw [hgrown, List.range_succ, List.map_append, h.map_eq]
      rfl

/-- **A call answers by the place of its string**, keeps the map in step with
the vector, and leaves every view good. -/
theorem intern (h : Interned capacity seen x) (str : String) :
    ∃ x', x.intern str =
        some (answer capacity (addNew seen str) str, x') ∧
      Interned capacity (addNew seen str) x' ∧
      ∀ view s, x.deref view = some s → x'.deref view = some s := by
  by_cases hold : str ∈ x.id_to_string_pool
  · obtain ⟨hintern, hadd⟩ := h.intern_old hold
    exact ⟨x, hintern, by rw [hadd]; exact h, fun _ _ hview => hview⟩
  · by_cases hroom : x.size < capacity
    · obtain ⟨hintern, hnext⟩ := h.intern_new hold hroom
      refine ⟨_, hintern, hnext, fun view s hview => ?_⟩
      unfold Interner.deref at hview ⊢
      split at hview
      next hgeneration =>
        have hlt := (List.getElem?_eq_some_iff.mp hview).1
        exact (if_pos hgeneration).trans
          ((List.getElem?_append_left hlt).trans hview)
      next => cases hview
    · obtain ⟨hintern, hnext⟩ := h.intern_full hold (Nat.not_lt.mp hroom)
      exact ⟨x, hintern, hnext, fun _ _ hview => hview⟩

/-- The calls of a run, one after the other. -/
theorem internAll (h : Interned capacity seen x) (strs : List String) :
    ∃ x', x.internAll strs =
        some (strs.map (answer capacity (strs.foldl addNew seen)), x') ∧
      Interned capacity (strs.foldl addNew seen) x' ∧
      ∀ view s, x.deref view = some s → x'.deref view = some s := by
  induction strs generalizing seen x with
  | nil => exact ⟨x, rfl, h, fun _ _ hview => hview⟩
  | cons str strs ih =>
      obtain ⟨x₁, hfirst, hnext, hviews⟩ := h.intern str
      obtain ⟨x₂, hrest, hlast, hviews'⟩ := ih hnext
      refine ⟨x₂, ?_, hlast, fun view s hview =>
        hviews' view s (hviews view s hview)⟩
      have hsame : answer capacity (addNew seen str) str =
          answer capacity (strs.foldl addNew (addNew seen str)) str := by
        rw [answer, answer, idxOf_foldl_addNew (mem_addNew seen str)]
      rw [Interner.internAll, hfirst, hsame]
      simp only [Option.bind_eq_bind, Option.bind_some, hrest]
      rfl

/-- An id leads back to its string. -/
theorem lookup_answer (h : Interned capacity seen x)
    (hcapacity : capacity ≤ 2 ^ 32) (hstr : str ∈ seen) {id : UInt32}
    (hid : answer capacity seen str = .ok id) :
    ∃ view, x.lookup id = .ok view ∧ x.deref view = some str := by
  unfold answer at hid
  split at hid
  next hlt =>
    cases hid
    have hsize := h.size_eq
    have hlen := List.idxOf_lt_length_of_mem hstr
    have hnat : (UInt32.ofNat (seen.idxOf str)).toNat = seen.idxOf str :=
      UInt32.toNat_ofNat_of_lt' (Nat.lt_of_lt_of_le hlt hcapacity)
    refine ⟨⟨x.generation, seen.idxOf str⟩, ?_, ?_⟩
    · rw [Interner.lookup, hnat, if_neg (by omega)]
    · rw [Interner.deref, if_pos rfl, h.pool_eq, List.getElem?_take_of_lt hlt,
        List.getElem?_eq_getElem hlen, List.getElem_idxOf]
  next => cases hid

end Interned

/-- **Interning and looking up.**  In every run of calls on a new interner
with room for at most `2 ^ 32` strings no dangling view is looked through; a
call answers the place of its string among the first occurrences, or throws
when that place is beyond the capacity; an id that was answered leads back to
its string, and the view stays good whatever is interned afterwards; other
ids throw. -/
theorem interner_spec {capacity : Nat} (hcapacity : capacity ≤ 2 ^ 32)
    (strs : List String) :
    ∃ x, (Interner.new capacity).internAll strs =
        some (strs.map (answer capacity (firsts strs)), x) ∧
      x.size = min capacity (firsts strs).length ∧
      (∀ str ∈ strs, ∀ id, answer capacity (firsts strs) str = .ok id →
        ∃ view, x.lookup id = .ok view ∧ ∀ more answers x',
          x.internAll more = some (answers, x') →
          x'.deref view = some str) ∧
      ∀ id, x.size ≤ id.toNat →
        x.lookup id = .error "Invalid interned string ID" := by
  obtain ⟨x, hrun, hinterned, -⟩ := (interned_new capacity).internAll strs
  refine ⟨x, hrun, hinterned.size_eq, fun str hstr id hid => ?_,
    fun id hid => if_pos hid⟩
  obtain ⟨view, hlookup, hview⟩ := hinterned.lookup_answer hcapacity
    (mem_foldl_addNew (.inl hstr)) hid
  refine ⟨view, hlookup, fun more answers x' hmore => ?_⟩
  obtain ⟨x'', hmore', -, hviews⟩ := hinterned.internAll more
  obtain rfl := (Prod.mk.inj (Option.some.inj (hmore.symm.trans hmore'))).2
  exact hviews view str hview

/-- Room for two strings: the third one is refused, the first one still
found. -/
theorem interner_spec_two :
    ∃ x, (Interner.new 2).internAll ["b", "a", "b", "c", "a"] =
        some ([.ok 0, .ok 1, .ok 0, .error Interner.full, .ok 1], x) ∧
      ∃ view, x.lookup 1 = .ok view ∧ x.deref view = some "a" := by
  obtain ⟨x, hrun, -, hback, -⟩ := interner_spec
    (by decide : 2 ≤ 2 ^ 32) ["b", "a", "b", "c", "a"]
  obtain ⟨view, hlookup, hview⟩ := hback "a" (by decide) 1 (by decide)
  exact ⟨x, hrun, view, hlookup, hview [] [] x rfl⟩

end GoPrep.Ports.StringInterner
