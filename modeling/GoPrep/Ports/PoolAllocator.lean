import Mathlib.Data.List.Nodup
import GoPrep.Verified.Buffer
import GoPrep.Verified.Transition

/-!
# The pool allocator

The `PoolAllocator` of `tier-1-query-algorithmic-prep.md`.  A buffer is cut
into slots of one size; the free slots form a list that is threaded through
their own first eight bytes.  A client writes what it likes into the objects
it holds, over the pointers that stood there.

An access outside the buffer, or to a pointer that is not aligned, is undefined
and answers `none`, so a theorem that a call answers `some` also says that it
makes none.  The size of the buffer is taken not to overflow `size_t`.

## Main results

* `new_sound` — the constructor threads every slot into the list, if pointers
  are aligned there.
* `Sound.step` — the list is what no client holds, whatever the clients
  write, and nobody else writes into an object.
* `pool_allocator_sound` — objects are disjoint, keep their content, and none
  is lost, if the object size is a multiple of that of a pointer; otherwise the
  constructor already stores a pointer where it may not stand.
-/

namespace GoPrep.Ports.Allocators

open GoPrep.Verified
open GoPrep.Verified.Transition

/-! ## The allocator -/

/-- `sizeof(Node)`. -/
def nodeSize : Nat := 8

/-- `nullptr` is `0`. -/
structure PoolAllocator where
  raw_buffer : Buffer
  object_size : Nat
  object_capacity : Nat
  free_list_head : Nat

namespace PoolAllocator

/-- One round of the constructor's loop. -/
def threadSlot (pool : PoolAllocator) (i : Nat) : Option PoolAllocator := do
  let current_node := pool.raw_buffer.base + i * pool.object_size
  let raw_buffer ← pool.raw_buffer.store current_node pool.free_list_head
  return { pool with
    raw_buffer := raw_buffer
    free_list_head := current_node }

/-- The constructor, when `new uint8_t[]` returns a block at `base` with these
bytes in it.  The answer is `none` when it throws `std::bad_array_new_length`
instead, as it does for a size of `2 ^ 63` or more. -/
def new (obj_size capacity base : Nat) (bytes : Nat → UInt8) :
    Option (Option PoolAllocator) :=
  let object_size := if obj_size ≥ nodeSize then obj_size else nodeSize
  let size := object_size * capacity % 2 ^ 64
  if 2 ^ 63 ≤ size then some none
  else do
    let pool ← (List.range capacity).foldlM threadSlot
      { raw_buffer := ⟨base, size, bytes⟩
        object_size := object_size
        object_capacity := capacity
        free_list_head := 0 }
    return some pool

/-- The answer is `none` when `std::bad_alloc` is thrown. -/
def allocate (pool : PoolAllocator) : Option (Option Nat × PoolAllocator) :=
  if pool.free_list_head = 0 then some (none, pool)
  else do
    let slot := pool.free_list_head
    let next ← pool.raw_buffer.load slot
    return (some slot, { pool with free_list_head := next })

def deallocate (pool : PoolAllocator) (ptr : Nat) : Option PoolAllocator :=
  if ptr = 0 then some pool
  else do
    let raw_buffer ← pool.raw_buffer.store ptr pool.free_list_head
    return { pool with raw_buffer := raw_buffer, free_list_head := ptr }

/-! ## Runs -/

/-- The pool, the objects that were allocated and not yet deallocated, and
what was last written to each of their bytes. -/
structure State where
  pool : PoolAllocator
  live : List Nat
  contents : Nat → Option UInt8

def State.initial (pool : PoolAllocator) : State :=
  { pool := pool, live := [], contents := fun _ => none }

/-- The contents without those of the object at `p`. -/
def forget (contents : Nat → Option UInt8) (p object_size : Nat) :
    Nat → Option UInt8 :=
  fun a => if p ≤ a ∧ a < p + object_size then none else contents a

inductive Action
  | allocate
  | deallocate (ptr : Nat)
  | put (p : Nat) (b : UInt8)
  deriving DecidableEq, Repr

/-- A client deallocates what it was given, once, and writes inside it. -/
inductive Step (s : State) : Action → State → Prop
  | allocates (p : Nat) (pool : PoolAllocator) :
      s.pool.allocate = some (some p, pool) →
      Step s .allocate
        { pool := pool
          live := p :: s.live
          contents := forget s.contents p s.pool.object_size }
  | exhausted (pool : PoolAllocator) :
      s.pool.allocate = some (none, pool) →
      Step s .allocate { s with pool := pool }
  | deallocates (p : Nat) (pool : PoolAllocator) : p ∈ s.live →
      s.pool.deallocate p = some pool →
      Step s (.deallocate p)
        { pool := pool
          live := s.live.erase p
          contents := forget s.contents p s.pool.object_size }
  | deallocatesNull (pool : PoolAllocator) :
      s.pool.deallocate 0 = some pool →
      Step s (.deallocate 0) { s with pool := pool }
  | puts (object p : Nat) (b : UInt8) (raw_buffer : Buffer) :
      object ∈ s.live → object ≤ p → p < object + s.pool.object_size →
      s.pool.raw_buffer.put p b = some raw_buffer →
      Step s (.put p b)
        { s with
          pool := { s.pool with raw_buffer := raw_buffer }
          contents := fun a => if a = p then some b else s.contents a }

/-! ## Slots -/

/-- The addresses of the first `n` slots. -/
def slots (pool : PoolAllocator) (n : Nat) : List Nat :=
  (List.range n).map fun i => pool.raw_buffer.base + i * pool.object_size

/-- The shape that no call changes. -/
structure Shape (pool : PoolAllocator) : Prop where
  base_pos : 0 < pool.raw_buffer.base
  size_eq : pool.raw_buffer.size = pool.object_size * pool.object_capacity
  nodeSize_le : nodeSize ≤ pool.object_size
  fits : pool.raw_buffer.base + pool.raw_buffer.size ≤ 2 ^ 64
  aligned : ∀ i < pool.object_capacity,
    8 ∣ pool.raw_buffer.base + i * pool.object_size

/-- `other` has the buffer and the sizes of `pool`. -/
structure SameShape (pool other : PoolAllocator) : Prop where
  base : other.raw_buffer.base = pool.raw_buffer.base
  size : other.raw_buffer.size = pool.raw_buffer.size
  object_size : other.object_size = pool.object_size
  object_capacity : other.object_capacity = pool.object_capacity

variable {pool other : PoolAllocator}

theorem SameShape.shape (h : SameShape pool other) (hpool : pool.Shape) :
    other.Shape where
  base_pos := h.base ▸ hpool.base_pos
  size_eq := by
    rw [h.size, h.object_size, h.object_capacity, hpool.size_eq]
  nodeSize_le := h.object_size ▸ hpool.nodeSize_le
  fits := by rw [h.base, h.size]; exact hpool.fits
  aligned := by
    rw [h.base, h.object_size, h.object_capacity]
    exact hpool.aligned

theorem SameShape.slots_eq (h : SameShape pool other) (n : Nat) :
    other.slots n = pool.slots n := by
  rw [slots, slots, h.base, h.object_size]

theorem mem_slots {n p : Nat} : p ∈ pool.slots n ↔
    ∃ i < n, p = pool.raw_buffer.base + i * pool.object_size := by
  rw [slots, List.mem_map]
  constructor
  · rintro ⟨i, hi, rfl⟩
    exact ⟨i, List.mem_range.mp hi, rfl⟩
  · rintro ⟨i, hi, rfl⟩
    exact ⟨i, List.mem_range.mpr hi, rfl⟩

namespace Shape

/-- **Different slots do not overlap.** -/
theorem disjoint (_ : pool.Shape) {n p q : Nat} (hp : p ∈ pool.slots n)
    (hq : q ∈ pool.slots n) (hne : p ≠ q) :
    p + pool.object_size ≤ q ∨ q + pool.object_size ≤ p := by
  obtain ⟨i, -, rfl⟩ := mem_slots.mp hp
  obtain ⟨j, -, rfl⟩ := mem_slots.mp hq
  rcases Nat.lt_trichotomy i j with hlt | rfl | hlt
  · have hmul := Nat.mul_le_mul_right pool.object_size hlt
    rw [Nat.succ_mul] at hmul
    omega
  · exact absurd rfl hne
  · have hmul := Nat.mul_le_mul_right pool.object_size hlt
    rw [Nat.succ_mul] at hmul
    omega

theorem nodup_slots (h : pool.Shape) (n : Nat) : (pool.slots n).Nodup := by
  refine List.Nodup.map (fun i j hij => ?_) List.nodup_range
  have hpos : 0 < pool.object_size :=
    Nat.lt_of_lt_of_le (by decide) h.nodeSize_le
  exact Nat.eq_of_mul_eq_mul_right hpos (Nat.add_left_cancel hij)

/-- A slot is inside the buffer. -/
theorem holds (h : pool.Shape) {p : Nat}
    (hp : p ∈ pool.slots pool.object_capacity) :
    pool.raw_buffer.Holds p pool.object_size := by
  obtain ⟨i, hi, rfl⟩ := mem_slots.mp hp
  have hmul := Nat.mul_le_mul_right pool.object_size hi
  rw [Nat.succ_mul, Nat.mul_comm pool.object_capacity, ← h.size_eq] at hmul
  exact ⟨Nat.le_add_right _ _, by omega⟩

/-- A pointer may stand in a slot. -/
theorem holdsNode (h : pool.Shape) {p : Nat}
    (hp : p ∈ pool.slots pool.object_capacity) :
    pool.raw_buffer.HoldsPointer p := by
  obtain ⟨hle, hend⟩ := h.holds hp
  have hsize : nodeSize ≤ pool.object_size := h.nodeSize_le
  rw [nodeSize] at hsize
  obtain ⟨i, hi, rfl⟩ := mem_slots.mp hp
  exact ⟨⟨hle, by omega⟩, h.aligned i hi⟩

theorem pos (h : pool.Shape) {n p : Nat} (hp : p ∈ pool.slots n) :
    p ≠ 0 := by
  obtain ⟨i, -, rfl⟩ := mem_slots.mp hp
  have := h.base_pos
  omega

end Shape

/-! ## The free list -/

/-- Following the pointers from `head` leads through these slots. -/
inductive FreeList (m : Buffer) : Nat → List Nat → Prop
  | nil : FreeList m 0 []
  | cons {p next : Nat} {free : List Nat} : p ≠ 0 → m.load p = some next →
      FreeList m next free → FreeList m p (p :: free)

namespace FreeList

variable {m m' : Buffer} {head : Nat} {free : List Nat}

/-- A list that loads the same pointers is the same list. -/
theorem congr (h : FreeList m head free)
    (hload : ∀ p ∈ free, m'.load p = m.load p) : FreeList m' head free := by
  induction h with
  | nil => exact .nil
  | cons hp hnext _ ih =>
      refine .cons hp ((hload _ List.mem_cons_self).trans hnext) (ih ?_)
      exact fun q hq => hload q (List.mem_cons_of_mem _ hq)

theorem eq_nil_iff (h : FreeList m head free) : head = 0 ↔ free = [] := by
  cases h with
  | nil => exact ⟨fun _ => rfl, fun _ => rfl⟩
  | cons hp _ _ => exact ⟨fun hz => absurd hz hp, nofun⟩

theorem lt (h : FreeList m head free) {bound : Nat} (hbound : 0 < bound)
    (hfree : ∀ p ∈ free, p < bound) : head < bound := by
  cases h with
  | nil => exact hbound
  | cons _ _ _ => exact hfree _ List.mem_cons_self

end FreeList

/-! ## The calls -/

theorem allocate_nil
    (h : FreeList pool.raw_buffer pool.free_list_head []) :
    pool.allocate = some (none, pool) :=
  if_pos (h.eq_nil_iff.mpr rfl)

/-- The head of the list is handed out. -/
theorem allocate_cons {p : Nat} {free : List Nat}
    (h : FreeList pool.raw_buffer pool.free_list_head (p :: free)) :
    ∃ next, pool.allocate =
        some (some p, { pool with free_list_head := next }) ∧
      FreeList pool.raw_buffer next free := by
  obtain ⟨raw_buffer, object_size, object_capacity, head⟩ := pool
  cases h with
  | cons hp hload hrest =>
      refine ⟨_, ?_, hrest⟩
      rw [allocate, if_neg hp]
      simp only [hload]
      rfl

/-- A slot is put in front of the list. -/
theorem freeList_store {free : List Nat} {p : Nat} {m : Buffer}
    (hshape : pool.Shape)
    (h : FreeList pool.raw_buffer pool.free_list_head free)
    (hslots : ∀ q ∈ p :: free, q ∈ pool.slots pool.object_capacity)
    (hnodup : (p :: free).Nodup)
    (hstore : pool.raw_buffer.store p pool.free_list_head = some m) :
    FreeList m p (p :: free) := by
  have hp := hslots p List.mem_cons_self
  have hbound : pool.free_list_head < 2 ^ 64 := by
    refine h.lt (by decide) fun q hq => ?_
    obtain ⟨-, hle⟩ := hshape.holds (hslots q (List.mem_cons_of_mem _ hq))
    have hsize : nodeSize ≤ pool.object_size := hshape.nodeSize_le
    have hfits := hshape.fits
    rw [nodeSize] at hsize
    omega
  refine .cons (hshape.pos hp) (Buffer.load_store_self hstore hbound) ?_
  refine h.congr fun q hq => ?_
  have hne : q ≠ p := by
    rintro rfl
    exact (List.nodup_cons.mp hnodup).1 hq
  have hsize : nodeSize ≤ pool.object_size := hshape.nodeSize_le
  rw [nodeSize] at hsize
  refine (Buffer.stored_of_store hstore).load_of_disjoint ?_
  rcases hshape.disjoint (hslots q (List.mem_cons_of_mem _ hq)) hp hne
    with hle | hle
  · exact .inl (by omega)
  · exact .inr (by omega)

theorem sameShape_of_store {p v : Nat} {m : Buffer}
    (h : pool.raw_buffer.store p v = some m) (head : Nat) :
    SameShape pool { pool with raw_buffer := m, free_list_head := head } :=
  ⟨(Buffer.stored_of_store h).base, (Buffer.stored_of_store h).size, rfl, rfl⟩

/-! ## The invariant -/

/-- The free list is what no client holds, and the objects hold what was
written to them. -/
structure Sound (s : State) : Prop where
  shape : s.pool.Shape
  free : ∃ free, FreeList s.pool.raw_buffer s.pool.free_list_head free ∧
    (free ++ s.live).Perm (s.pool.slots s.pool.object_capacity)
  reads : ∀ a b, s.contents a = some b → s.pool.raw_buffer.bytes a = b
  within : ∀ a, s.contents a ≠ none →
    ∃ p ∈ s.live, p ≤ a ∧ a < p + s.pool.object_size

theorem forget_eq_some {contents : Nat → Option UInt8} {p n a : Nat}
    {b : UInt8} (h : forget contents p n a = some b) :
    (a < p ∨ p + n ≤ a) ∧ contents a = some b := by
  unfold forget at h
  split at h
  · cases h
  · exact ⟨by omega, h⟩

namespace Sound

variable {s t : State} {a : Action}

theorem allocates (h : Sound s) {p : Nat} {pool : PoolAllocator}
    (hpool : s.pool.allocate = some (some p, pool)) :
    Sound ⟨pool, p :: s.live,
      forget s.contents p s.pool.object_size⟩ := by
  obtain ⟨free, hfree, hperm⟩ := h.free
  cases free with
  | nil =>
      rw [allocate_nil hfree] at hpool
      cases hpool
  | cons q free =>
      obtain ⟨next, heq, hrest⟩ := allocate_cons hfree
      rw [heq] at hpool
      cases hpool
      refine ⟨⟨h.shape.base_pos, h.shape.size_eq, h.shape.nodeSize_le,
        h.shape.fits, h.shape.aligned⟩,
        ⟨free, hrest, List.perm_middle.trans hperm⟩, ?_, ?_⟩
      · intro a b hab
        exact h.reads a b (forget_eq_some hab).2
      · intro a ha
        obtain ⟨b, hb⟩ := Option.ne_none_iff_exists'.mp ha
        have hsome := (forget_eq_some hb).2
        obtain ⟨q, hq, hin⟩ := h.within a (by rw [hsome]; simp)
        exact ⟨q, List.mem_cons_of_mem _ hq, hin⟩

theorem deallocates (h : Sound s) {p : Nat} {pool : PoolAllocator}
    (hp : p ∈ s.live) (hpool : s.pool.deallocate p = some pool) :
    Sound ⟨pool, s.live.erase p,
      forget s.contents p s.pool.object_size⟩ := by
  obtain ⟨free, hfree, hperm⟩ := h.free
  have hslots : ∀ q ∈ free ++ s.live,
      q ∈ s.pool.slots s.pool.object_capacity := fun q hq =>
    hperm.mem_iff.mp hq
  have hnodup : (free ++ s.live).Nodup :=
    hperm.nodup_iff.mpr (h.shape.nodup_slots _)
  have hpslot := hslots p (List.mem_append_right _ hp)
  rw [deallocate, if_neg (h.shape.pos hpslot)] at hpool
  obtain ⟨m, hm, hpool⟩ := Option.bind_eq_some_iff.mp hpool
  cases hpool
  have hstored := Buffer.stored_of_store hm
  have hsame := sameShape_of_store hm p
  have hsize : nodeSize ≤ s.pool.object_size := h.shape.nodeSize_le
  rw [nodeSize] at hsize
  have hmoved : (p :: free ++ s.live.erase p).Perm (free ++ s.live) :=
    List.perm_middle.symm.trans
      ((List.perm_cons_erase hp).symm.append_left free)
  refine ⟨hsame.shape h.shape, ⟨p :: free, ?_, ?_⟩, ?_, ?_⟩
  · refine freeList_store h.shape hfree ?_ ?_ hm
    · intro q hq
      exact hslots q (hmoved.mem_iff.mp (List.mem_append_left _ hq))
    · exact List.Nodup.of_append_left (hmoved.nodup_iff.mpr hnodup)
  · exact hmoved.trans (hperm.trans (.of_eq (hsame.slots_eq _).symm))
  · intro a b hab
    obtain ⟨hout, hsome⟩ := forget_eq_some hab
    exact (hstored.frame a (by omega)).trans (h.reads a b hsome)
  · intro a ha
    obtain ⟨b, hb⟩ := Option.ne_none_iff_exists'.mp ha
    obtain ⟨hout, hsome⟩ := forget_eq_some hb
    obtain ⟨q, hq, hin⟩ := h.within a (by rw [hsome]; simp)
    -- the byte is in an object, and not in the one that is gone
    have hne : q ≠ p := by
      rintro rfl
      omega
    exact ⟨q, (List.mem_erase_of_ne hne).mpr hq, hin⟩

theorem puts (h : Sound s) {object p : Nat} {b : UInt8} {m : Buffer}
    (hobject : object ∈ s.live) (hle : object ≤ p)
    (hlt : p < object + s.pool.object_size)
    (hm : s.pool.raw_buffer.put p b = some m) :
    Sound { s with
      pool := { s.pool with raw_buffer := m }
      contents := fun a => if a = p then some b else s.contents a } := by
  obtain ⟨free, hfree, hperm⟩ := h.free
  have hslots : ∀ q ∈ free ++ s.live,
      q ∈ s.pool.slots s.pool.object_capacity := fun q hq =>
    hperm.mem_iff.mp hq
  have hnodup : (free ++ s.live).Nodup :=
    hperm.nodup_iff.mpr (h.shape.nodup_slots _)
  have hstored := Buffer.stored_of_put hm
  have hsame : SameShape s.pool { s.pool with raw_buffer := m } :=
    ⟨hstored.base, hstored.size, rfl, rfl⟩
  have hsize : nodeSize ≤ s.pool.object_size := h.shape.nodeSize_le
  rw [nodeSize] at hsize
  refine ⟨hsame.shape h.shape, ⟨free, ?_, ?_⟩, ?_, ?_⟩
  · refine hfree.congr fun q hq => hstored.load_of_disjoint ?_
    -- a free slot is not the object that is written to
    have hne : q ≠ object := by
      rintro rfl
      exact (List.disjoint_of_nodup_append hnodup) hq hobject
    rcases h.shape.disjoint (hslots q (List.mem_append_left _ hq))
      (hslots object (List.mem_append_right _ hobject)) hne with hle' | hle'
    · exact .inl (by omega)
    · exact .inr (by omega)
  · exact hperm.trans (.of_eq (hsame.slots_eq _).symm)
  · intro a b' hab
    dsimp only at hab
    split at hab
    next heq =>
      cases hab
      subst heq
      exact Buffer.bytes_of_put hm
    next hne =>
      exact (hstored.frame a (by omega)).trans (h.reads a b' hab)
  · intro a ha
    dsimp only at ha
    split at ha
    next heq =>
      subst heq
      exact ⟨object, hobject, hle, hlt⟩
    next => exact h.within a ha

/-- **Every step keeps the invariant.** -/
theorem step (h : Sound s) (hstep : Step s a t) : Sound t := by
  cases hstep with
  | allocates p pool hpool => exact h.allocates hpool
  | exhausted pool hpool =>
      obtain ⟨free, hfree, -⟩ := h.free
      cases free with
      | nil =>
          rw [allocate_nil hfree] at hpool
          cases hpool
          exact h
      | cons q free =>
          obtain ⟨next, heq, -⟩ := allocate_cons hfree
          rw [heq] at hpool
          cases hpool
  | deallocates p pool hp hpool => exact h.deallocates hp hpool
  | deallocatesNull pool hpool =>
      cases hpool
      exact h
  | puts object p b m hobject hle hlt hm => exact h.puts hobject hle hlt hm

end Sound

theorem SameShape.trans {pool₁ pool₂ pool₃ : PoolAllocator}
    (h : SameShape pool₁ pool₂) (h' : SameShape pool₂ pool₃) :
    SameShape pool₁ pool₃ :=
  ⟨h'.base.trans h.base, h'.size.trans h.size,
    h'.object_size.trans h.object_size,
    h'.object_capacity.trans h.object_capacity⟩

/-- No step changes the shape. -/
theorem Step.sameShape {s t : State} {a : Action} (h : Step s a t) :
    SameShape s.pool t.pool := by
  have hallocate : ∀ {answer pool}, s.pool.allocate = some (answer, pool) →
      SameShape s.pool pool := by
    intro answer pool hpool
    unfold allocate at hpool
    split at hpool
    · cases hpool
      exact ⟨rfl, rfl, rfl, rfl⟩
    · obtain ⟨next, -, hpool⟩ := Option.bind_eq_some_iff.mp hpool
      cases hpool
      exact ⟨rfl, rfl, rfl, rfl⟩
  have hdeallocate : ∀ {p pool}, s.pool.deallocate p = some pool →
      SameShape s.pool pool := by
    intro p pool hpool
    unfold deallocate at hpool
    split at hpool
    · cases hpool
      exact ⟨rfl, rfl, rfl, rfl⟩
    · obtain ⟨m, hm, hpool⟩ := Option.bind_eq_some_iff.mp hpool
      cases hpool
      exact sameShape_of_store hm p
  cases h with
  | allocates p pool hpool => exact hallocate hpool
  | exhausted pool hpool => exact hallocate hpool
  | deallocates p pool _ hpool => exact hdeallocate hpool
  | deallocatesNull pool hpool => exact hdeallocate hpool
  | puts object p b m _ _ _ hm =>
      have hstored := Buffer.stored_of_put hm
      exact ⟨hstored.base, hstored.size, rfl, rfl⟩

/-! ## The constructor -/

/-- `object_size` as the constructor sets it. -/
def objectSize (obj_size : Nat) : Nat :=
  if obj_size ≥ nodeSize then obj_size else nodeSize

theorem le_objectSize (obj_size : Nat) :
    obj_size ≤ objectSize obj_size ∧ nodeSize ≤ objectSize obj_size := by
  unfold objectSize
  split <;> omega

/-- The list after `n` rounds of the loop, the last slot first. -/
theorem threadSlots_eq (hshape : pool.Shape) (hhead : pool.free_list_head = 0)
    {n : Nat} (hn : n ≤ pool.object_capacity) :
    ∃ pool', (List.range n).foldlM threadSlot pool = some pool' ∧
      SameShape pool pool' ∧
      FreeList pool'.raw_buffer pool'.free_list_head
        (pool.slots n).reverse := by
  induction n with
  | zero => exact ⟨pool, rfl, ⟨rfl, rfl, rfl, rfl⟩, by rw [hhead]; exact .nil⟩
  | succ n ih =>
      obtain ⟨pool', hpool', hsame, hfree⟩ := ih (by omega)
      have hslots : ∀ {q}, q ∈ pool.slots (n + 1) →
          q ∈ pool'.slots pool'.object_capacity := by
        intro q hq
        rw [hsame.slots_eq, hsame.object_capacity]
        obtain ⟨i, hi, heq⟩ := mem_slots.mp hq
        exact mem_slots.mpr ⟨i, by omega, heq⟩
      have hsucc : pool.slots (n + 1) = pool.slots n ++
          [pool'.raw_buffer.base + n * pool'.object_size] := by
        rw [slots, List.range_succ, List.map_append, hsame.base,
          hsame.object_size]
        rfl
      have hreverse := congrArg List.reverse hsucc
      rw [List.reverse_append, List.reverse_singleton,
        List.singleton_append] at hreverse
      have hshape' := hsame.shape hshape
      have hlast : pool'.raw_buffer.base + n * pool'.object_size ∈
          pool.slots (n + 1) := by
        rw [hsucc]
        exact List.mem_append_right _ (List.mem_singleton_self _)
      obtain ⟨m, hm⟩ := Buffer.exists_store
        (hshape'.holdsNode (hslots hlast)) pool'.free_list_head
      have hsame' := hsame.trans (sameShape_of_store hm
        (pool'.raw_buffer.base + n * pool'.object_size))
      refine ⟨_, ?_, hsame', ?_⟩
      · rw [List.range_succ, List.foldlM_append, hpool']
        show ([n].foldlM threadSlot pool') = _
        rw [List.foldlM_cons, threadSlot, hm]
        rfl
      · rw [hreverse]
        refine freeList_store hshape' hfree ?_ ?_ hm
        · intro q hq
          rw [← hreverse] at hq
          exact hslots (List.mem_reverse.mp hq)
        · rw [← hreverse]
          exact List.nodup_reverse.mpr (hshape.nodup_slots (n + 1))

/-- Pointers are aligned in every slot: the objects have a size that is a
multiple of that of a pointer, or there is but one. -/
def SlotsAligned (obj_size capacity : Nat) : Prop :=
  8 ∣ objectSize obj_size ∨ capacity ≤ 1

instance (obj_size capacity : Nat) :
    Decidable (SlotsAligned obj_size capacity) :=
  inferInstanceAs (Decidable (_ ∨ _))

/-- The constructor when `new uint8_t[]` returns. -/
theorem new_eq {obj_size capacity base : Nat} (bytes : Nat → UInt8)
    (hsize : objectSize obj_size * capacity < 2 ^ 63) :
    new obj_size capacity base bytes =
      ((List.range capacity).foldlM threadSlot
        { raw_buffer := ⟨base, objectSize obj_size * capacity, bytes⟩
          object_size := objectSize obj_size
          object_capacity := capacity
          free_list_head := 0 }).map some := by
  have hmod : objectSize obj_size * capacity % 2 ^ 64 =
      objectSize obj_size * capacity := Nat.mod_eq_of_lt (by omega)
  rw [new, ← objectSize]
  simp only [hmod]
  rw [if_neg (Nat.not_le.mpr hsize)]
  exact Option.map_eq_bind.symm

/-- The constructor when `new uint8_t[]` throws. -/
theorem new_of_le {obj_size capacity : Nat} (base : Nat)
    (bytes : Nat → UInt8) (hsize : 2 ^ 63 ≤ objectSize obj_size * capacity)
    (hlt : objectSize obj_size * capacity < 2 ^ 64) :
    new obj_size capacity base bytes = some none := by
  rw [new, ← objectSize, Nat.mod_eq_of_lt hlt]
  exact if_pos hsize

/-- **The constructor succeeds**, with every slot in the list. -/
theorem new_sound {base : Nat} (hbase : 0 < base) (hdvd : 8 ∣ base)
    {obj_size capacity : Nat} (haligned : SlotsAligned obj_size capacity)
    (bytes : Nat → UInt8) (hsize : objectSize obj_size * capacity < 2 ^ 63)
    (hfits : base + objectSize obj_size * capacity ≤ 2 ^ 64) :
    ∃ pool, new obj_size capacity base bytes = some (some pool) ∧
      pool.object_size = objectSize obj_size ∧
      pool.object_capacity = capacity ∧ Sound (.initial pool) := by
  have hslots : ∀ i < capacity, 8 ∣ base + i * objectSize obj_size := by
    intro i hi
    rcases haligned with hobject | hone
    · exact Nat.dvd_add hdvd (Nat.dvd_mul_left_of_dvd hobject i)
    · obtain rfl : i = 0 := by omega
      rwa [Nat.zero_mul, Nat.add_zero]
  have hshape : Shape
      { raw_buffer := ⟨base, objectSize obj_size * capacity, bytes⟩
        object_size := objectSize obj_size
        object_capacity := capacity
        free_list_head := 0 } :=
    ⟨hbase, rfl, (le_objectSize obj_size).2, hfits, hslots⟩
  obtain ⟨pool, hpool, hsame, hfree⟩ :=
    threadSlots_eq hshape rfl (Nat.le_refl capacity)
  refine ⟨pool, ?_, hsame.object_size, hsame.object_capacity,
    hsame.shape hshape, ⟨_, hfree, ?_⟩, nofun, fun a ha => absurd rfl ha⟩
  · rw [new_eq bytes hsize]
    exact congrArg _ hpool
  · show (_ ++ []).Perm (pool.slots pool.object_capacity)
    rw [List.append_nil, hsame.slots_eq, hsame.object_capacity]
    exact List.reverse_perm _

/-- A round of the loop leaves the buffer where it is. -/
theorem threadSlot_base {pool pool' : PoolAllocator} {i : Nat}
    (h : threadSlot pool i = some pool') :
    pool'.raw_buffer.base = pool.raw_buffer.base ∧
      pool'.object_size = pool.object_size := by
  obtain ⟨m, hm, hpool⟩ := Option.bind_eq_some_iff.mp h
  cases hpool
  exact ⟨(Buffer.stored_of_store hm).base, rfl⟩

/-- **A second slot that is not aligned** is where the constructor stores a
pointer all the same. -/
theorem new_eq_none {base : Nat} (hdvd : 8 ∣ base) {obj_size capacity : Nat}
    (haligned : ¬ SlotsAligned obj_size capacity) (bytes : Nat → UInt8)
    (hsize : objectSize obj_size * capacity < 2 ^ 63) :
    new obj_size capacity base bytes = none := by
  obtain ⟨hobject, hcapacity⟩ := not_or.mp haligned
  obtain ⟨n, rfl⟩ : ∃ n, capacity = 2 + n := ⟨capacity - 2, by omega⟩
  rw [new_eq bytes hsize, List.range_add, List.foldlM_append,
    Option.map_eq_none_iff]
  show (([0, 1].foldlM threadSlot _).bind _ : Option PoolAllocator) = none
  rw [List.foldlM_cons]
  cases hfirst : threadSlot _ 0 with
  | none => rfl
  | some pool =>
      obtain ⟨hbase, hsame⟩ := threadSlot_base hfirst
      have hodd : ¬ 8 ∣ pool.raw_buffer.base + 1 * pool.object_size := by
        rw [hbase, hsame, Nat.one_mul]
        exact fun h => hobject ((Nat.dvd_add_right hdvd).mp h)
      have hsecond : threadSlot pool 1 = none := by
        rw [threadSlot, Buffer.store_eq_none hodd]
        rfl
      show (([1].foldlM threadSlot pool).bind _ : Option PoolAllocator) = none
      rw [List.foldlM_cons, hsecond]
      rfl

/-! ## What a client can rely on -/

/-- The promises of a pool of `capacity` objects of `obj_size` bytes. -/
structure Promises (obj_size capacity : Nat) (s : State) : Prop where
  nodup : s.live.Nodup
  size : obj_size ≤ s.pool.object_size
  inside : ∀ p ∈ s.live, p ≠ 0 ∧
    s.pool.raw_buffer.Holds p s.pool.object_size
  disjoint : ∀ p ∈ s.live, ∀ q ∈ s.live, p ≠ q →
    p + s.pool.object_size ≤ q ∨ q + s.pool.object_size ≤ p
  /-- An object has the bytes that were last written to it. -/
  reads : ∀ a b, s.contents a = some b → s.pool.raw_buffer.bytes a = b
  /-- Only `capacity` objects at once exhaust the pool. -/
  exhausted : s.live.length = capacity →
    s.pool.allocate = some (none, s.pool)
  allocate : s.live.length ≠ capacity →
    ∃ p pool, s.pool.allocate = some (some p, pool) ∧ p ∉ s.live
  deallocate : ∀ p ∈ s.live, ∃ pool, s.pool.deallocate p = some pool

theorem Sound.promises {s : State} (h : Sound s) {obj_size capacity : Nat}
    (hsize : obj_size ≤ s.pool.object_size)
    (hcapacity : s.pool.object_capacity = capacity) :
    Promises obj_size capacity s := by
  obtain ⟨free, hfree, hperm⟩ := h.free
  have hslots : ∀ q ∈ s.live,
      q ∈ s.pool.slots s.pool.object_capacity := fun q hq =>
    hperm.mem_iff.mp (List.mem_append_right _ hq)
  have hnodup : (free ++ s.live).Nodup :=
    hperm.nodup_iff.mpr (h.shape.nodup_slots _)
  have hlength : free.length + s.live.length = capacity := by
    rw [← List.length_append, hperm.length_eq, slots, List.length_map,
      List.length_range, hcapacity]
  refine
    { nodup := List.Nodup.of_append_right hnodup
      size := hsize
      inside := fun p hp =>
        ⟨h.shape.pos (hslots p hp), h.shape.holds (hslots p hp)⟩
      disjoint := fun p hp q hq =>
        h.shape.disjoint (hslots p hp) (hslots q hq)
      reads := h.reads
      exhausted := fun hfull => ?_
      allocate := fun hroom => ?_
      deallocate := fun p hp => ?_ }
  · cases free with
    | nil => exact allocate_nil hfree
    | cons q free =>
        rw [List.length_cons] at hlength
        omega
  · cases free with
    | nil => exact absurd (by simpa using hlength) hroom
    | cons q free =>
        obtain ⟨next, heq, -⟩ := allocate_cons hfree
        refine ⟨q, _, heq, fun hq => ?_⟩
        exact List.disjoint_of_nodup_append hnodup List.mem_cons_self hq
  · have hpos := h.shape.pos (hslots p hp)
    obtain ⟨m, hm⟩ := Buffer.exists_store
      (h.shape.holdsNode (hslots p hp)) s.pool.free_list_head
    exact ⟨_, by rw [deallocate, if_neg hpos, hm]; rfl⟩

/-- **The pool allocator.**  For every object size and capacity whose product
fits: if `new uint8_t[]` accepts it and pointers are aligned in the slots, the
constructor succeeds, and after any calls of clients that deallocate what they
hold and write inside it, whatever they write, the promises hold; if pointers
are not aligned there, the constructor stores one all the same; and if
`new uint8_t[]` does not accept the size, the constructor throws. -/
theorem pool_allocator_sound {base : Nat} (hbase : 0 < base) (hdvd : 8 ∣ base)
    (obj_size capacity : Nat) (bytes : Nat → UInt8)
    (hfits : base + objectSize obj_size * capacity ≤ 2 ^ 64) :
    (objectSize obj_size * capacity < 2 ^ 63 →
      (SlotsAligned obj_size capacity →
        ∃ pool, new obj_size capacity base bytes = some (some pool) ∧
          ∀ s, Reaches Step (.initial pool) s →
            Promises obj_size capacity s) ∧
      (¬ SlotsAligned obj_size capacity →
        new obj_size capacity base bytes = none)) ∧
    (2 ^ 63 ≤ objectSize obj_size * capacity →
      new obj_size capacity base bytes = some none) := by
  refine ⟨fun hsize => ⟨fun haligned => ?_, fun haligned =>
      new_eq_none hdvd haligned bytes hsize⟩,
    fun hsize => new_of_le base bytes hsize (by omega)⟩
  obtain ⟨pool, hpool, hobject, hcapacity, hsound⟩ :=
    new_sound hbase hdvd haligned bytes hsize hfits
  refine ⟨pool, hpool, fun s hs => ?_⟩
  have hinv : Sound s ∧ SameShape pool s.pool :=
    hs.invariant (I := fun s => Sound s ∧ SameShape pool s.pool)
      (fun _ _ _ h hstep => ⟨h.1.step hstep, h.2.trans hstep.sameShape⟩)
      ⟨hsound, rfl, rfl, rfl, rfl⟩
  refine hinv.1.promises ?_ (hinv.2.object_capacity.trans hcapacity)
  rw [hinv.2.object_size, hobject]
  exact (le_objectSize obj_size).1

/-- Two objects of four bytes; the second one is taken again, after a client
has written over the pointer in it.  Two objects of twelve bytes are not to be
had. -/
theorem pool_allocator_sound_two :
    (∃ pool s, new 4 2 16 (fun _ => 170) = some (some pool) ∧
      Reaches Step (.initial pool) s ∧ s.live = [24, 16] ∧
      Promises 4 2 s) ∧
    new 12 2 16 (fun _ => 170) = none := by
  obtain ⟨pool, hpool, hpromises⟩ := ((pool_allocator_sound
    (by decide : 0 < 16) (by decide) 4 2 (fun _ => 170) (by decide)).1
    (by decide)).1 (by decide)
  obtain rfl := Option.get_of_eq_some rfl (Option.some.inj hpool)
  have hfirst : Step
      (.initial (((new 4 2 16 fun _ => 170).get rfl).get rfl)) .allocate _ :=
    .allocates 24 _ rfl
  have hput := ((Reaches.single hfirst).tail (.allocates 16 _ rfl)).tail
    (.puts 24 26 7 _ (by decide) (by decide) (by decide) rfl)
  have hagain := (hput.tail (.deallocates 24 _ (by decide) rfl)).tail
    (.allocates 24 _ rfl)
  refine ⟨⟨_, _, hpool, hagain, rfl, hpromises _ hagain⟩, ?_⟩
  exact ((pool_allocator_sound (by decide : 0 < 16) (by decide) 12 2
    (fun _ => 170) (by decide)).1 (by decide)).2 (by decide)

end PoolAllocator

end GoPrep.Ports.Allocators
