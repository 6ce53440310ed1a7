import Mathlib.Data.List.Nodup

/-!
# Least-recently-used maps

A map of bounded size, kept as the list of its entries from the most to the
least recently used one.  Looking a key up with `touch` moves its entry to the
front; `put` writes an entry at the front and drops what no longer fits.
Operations only ever drop or move entries, apart from the one `put` writes: so
what holds of every entry is kept by all of them.
-/

namespace GoPrep.Verified

structure LRU (K V : Type*) (capacity : Nat) where
  /-- The most recently used entry first. -/
  entries : List (K × V)
  nodup : (entries.map Prod.fst).Nodup
  length_le : entries.length ≤ capacity

namespace LRU

variable {K V : Type*} {capacity : Nat}

def empty : LRU K V capacity where
  entries := []
  nodup := List.nodup_nil
  length_le := Nat.zero_le capacity

variable [DecidableEq K]

def lookup (c : LRU K V capacity) (k : K) : Option V :=
  (c.entries.find? fun e => e.1 = k).map Prod.snd

/-- The entries of the other keys. -/
def others (c : LRU K V capacity) (k : K) : List (K × V) :=
  c.entries.filter fun e => e.1 ≠ k

theorem mem_of_mem_others {c : LRU K V capacity} {k : K} {e : K × V}
    (h : e ∈ c.others k) : e ∈ c.entries :=
  List.mem_of_mem_filter h

theorem nodup_others (c : LRU K V capacity) (k : K) :
    ((c.others k).map Prod.fst).Nodup :=
  c.nodup.sublist (List.filter_sublist.map Prod.fst)

theorem notMem_others (c : LRU K V capacity) (k : K) :
    k ∉ (c.others k).map Prod.fst := by
  intro hk
  obtain ⟨e, he, rfl⟩ := List.mem_map.mp hk
  have hne := List.of_mem_filter he
  simp at hne

/-- Writes the entry of a key, evicting the least recently used one when the
map is full. -/
def put (c : LRU K V capacity) (k : K) (v : V) : LRU K V capacity where
  entries := ((k, v) :: c.others k).take capacity
  nodup := by
    have hcons : (((k, v) :: c.others k).map Prod.fst).Nodup :=
      List.nodup_cons.mpr ⟨c.notMem_others k, c.nodup_others k⟩
    exact hcons.sublist ((List.take_sublist _ _).map Prod.fst)
  length_le := List.length_take_le _ _

/-- Makes a present key the most recently used one: its entry is written again,
which evicts nothing. -/
def touch (c : LRU K V capacity) (k : K) : LRU K V capacity :=
  match c.lookup k with
  | none => c
  | some v => c.put k v

def erase (c : LRU K V capacity) (k : K) : LRU K V capacity where
  entries := c.others k
  nodup := c.nodup_others k
  length_le := Nat.le_trans (List.length_filter_le _ _) c.length_le

/-! ## What holds of every entry -/

theorem mem_of_lookup {c : LRU K V capacity} {k : K} {v : V}
    (h : c.lookup k = some v) : (k, v) ∈ c.entries := by
  obtain ⟨e, hfind, rfl⟩ := Option.map_eq_some_iff.mp h
  have hkey : e.1 = k := by simpa using List.find?_some hfind
  rw [← hkey]
  exact List.mem_of_find?_eq_some hfind

variable {P : K × V → Prop} {c : LRU K V capacity}

theorem forall_put (hc : ∀ e ∈ c.entries, P e) {k : K} {v : V}
    (hP : P (k, v)) : ∀ e ∈ (c.put k v).entries, P e := by
  intro e he
  rcases List.mem_cons.mp (List.mem_of_mem_take he) with rfl | hother
  · exact hP
  · exact hc e (mem_of_mem_others hother)

theorem forall_touch (hc : ∀ e ∈ c.entries, P e) (k : K) :
    ∀ e ∈ (c.touch k).entries, P e := by
  unfold touch
  cases hlookup : c.lookup k with
  | none => exact hc
  | some v => exact forall_put hc (hc _ (mem_of_lookup hlookup))

theorem forall_erase (hc : ∀ e ∈ c.entries, P e) (k : K) :
    ∀ e ∈ (c.erase k).entries, P e :=
  fun e he => hc e (mem_of_mem_others he)

end LRU

end GoPrep.Verified
