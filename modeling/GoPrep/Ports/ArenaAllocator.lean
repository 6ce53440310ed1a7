import Mathlib.Algebra.Order.Ring.Nat

/-!
# The arena allocator

The `ArenaAllocator` of `tier-1-query-algorithmic-prep.md`: an offset into a
buffer is bumped past the padding and the size of each request, and set back
by `reset`.  Its sums are taken in `size_t`, so a huge request can wrap around
the test that is to refuse it.

## Main results

* `call_granted`, `call_refused` — the two answers to a request.
* `Bumped.call` — a call that does not wrap hands out a block behind the
  others.
* `arena_sound_iff` — in a run the blocks since the last reset are inside the
  buffer, aligned and disjoint exactly when no request wraps.
-/

namespace GoPrep.Ports.Allocators

/-- The buffer is given by its address. -/
structure ArenaAllocator where
  buffer : UInt64
  capacity : UInt64
  offset : UInt64
  deriving DecidableEq, Repr

namespace ArenaAllocator

/-! ## The allocator -/

def new (buffer size : UInt64) : ArenaAllocator :=
  { buffer := buffer, capacity := size, offset := 0 }

/-- The bytes up to the next multiple of `alignment`. -/
def padding (arena : ArenaAllocator) (alignment : UInt64) : UInt64 :=
  let current_address := arena.buffer + arena.offset
  (alignment - current_address % alignment) % alignment

/-- `alignment` is not zero.  The answer is `none` when `std::bad_alloc` is
thrown. -/
def allocate (arena : ArenaAllocator) (size alignment : UInt64) :
    Option UInt64 × ArenaAllocator :=
  let padding := arena.padding alignment
  if arena.offset + padding + size > arena.capacity then (none, arena)
  else
    let offset := arena.offset + padding
    (some (arena.buffer + offset), { arena with offset := offset + size })

def deallocate (arena : ArenaAllocator) (_ptr : UInt64) : ArenaAllocator :=
  arena

def reset (arena : ArenaAllocator) : ArenaAllocator :=
  { arena with offset := 0 }

/-! ## Calls -/

/-- A block that was handed out. -/
structure Block where
  ptr : UInt64
  size : UInt64
  alignment : UInt64
  deriving DecidableEq, Repr

/-- The arena, and the blocks since the last reset, the last one first. -/
structure State where
  arena : ArenaAllocator
  blocks : List Block
  deriving DecidableEq, Repr

inductive Action
  | allocate (size alignment : UInt64)
  | deallocate (ptr : UInt64)
  | reset
  deriving DecidableEq, Repr

def State.initial (buffer size : UInt64) : State := ⟨new buffer size, []⟩

def State.call (s : State) : Action → State
  | .allocate size alignment =>
      let (answer, arena) := s.arena.allocate size alignment
      ⟨arena, (answer.map fun ptr => ⟨ptr, size, alignment⟩).toList ++
        s.blocks⟩
  | .deallocate ptr => { s with arena := s.arena.deallocate ptr }
  | .reset => ⟨s.arena.reset, []⟩

def State.after (s : State) (run : List Action) : State :=
  run.foldl State.call s

/-- An alignment is not zero. -/
def Action.valid : Action → Prop
  | .allocate _ alignment => alignment ≠ 0
  | _ => True

/-! ## One call -/

/-- Where a block of this size would end, counted from the buffer. -/
def blockEnd (arena : ArenaAllocator) (size alignment : UInt64) : Nat :=
  arena.offset.toNat + (arena.padding alignment).toNat + size.toNat

/-- The block does not fit, and its end as a `size_t` does. -/
def Action.wraps (s : State) : Action → Prop
  | .allocate size alignment =>
      s.arena.capacity.toNat < s.arena.blockEnd size alignment ∧
        s.arena.blockEnd size alignment % 2 ^ 64 ≤ s.arena.capacity.toNat
  | _ => False

instance (s : State) : (a : Action) → Decidable (a.wraps s)
  | .allocate _ _ => inferInstanceAs (Decidable (_ ∧ _))
  | .deallocate _ | .reset => inferInstanceAs (Decidable False)

theorem toNat_blockEnd (arena : ArenaAllocator) (size alignment : UInt64) :
    (arena.offset + arena.padding alignment + size).toNat =
      arena.blockEnd size alignment % 2 ^ 64 := by
  rw [UInt64.toNat_add, UInt64.toNat_add, blockEnd, Nat.mod_add_mod]

theorem toNat_padding (arena : ArenaAllocator) {alignment : UInt64}
    (halignment : alignment ≠ 0) :
    (arena.padding alignment).toNat =
      (alignment.toNat - (arena.buffer + arena.offset).toNat %
        alignment.toNat) % alignment.toNat := by
  have hpos : 0 < alignment.toNat := by
    rw [Nat.pos_iff_ne_zero]
    exact fun h => halignment (UInt64.toNat_inj.mp h)
  have hle : (arena.buffer + arena.offset) % alignment ≤ alignment := by
    rw [UInt64.le_iff_toNat_le, UInt64.toNat_mod]
    exact (Nat.mod_lt _ hpos).le
  rw [padding, UInt64.toNat_mod, UInt64.toNat_sub_of_le _ _ hle,
    UInt64.toNat_mod]

/-- A number and its padding are a multiple. -/
theorem dvd_add_padding (n : Nat) {k : Nat} (hk : 0 < k) :
    k ∣ n + (k - n % k) % k := by
  have hlt := Nat.mod_lt n hk
  apply Nat.dvd_of_mod_eq_zero
  rw [Nat.add_mod, Nat.mod_mod, ← Nat.add_mod]
  calc (n + (k - n % k)) % k
      = (n % k + (k - n % k)) % k := by rw [Nat.mod_add_mod]
    _ = k % k := by rw [Nat.add_sub_cancel' hlt.le]
    _ = 0 := Nat.mod_self k

/-- The address the block would have, counted without bounds. -/
def address (arena : ArenaAllocator) (alignment : UInt64) : Nat :=
  arena.buffer.toNat + arena.offset.toNat + (arena.padding alignment).toNat

theorem toNat_ptr (arena : ArenaAllocator) (alignment : UInt64) :
    (arena.buffer + (arena.offset + arena.padding alignment)).toNat =
      arena.address alignment % 2 ^ 64 := by
  rw [UInt64.toNat_add, UInt64.toNat_add, Nat.add_mod_mod, address,
    Nat.add_assoc]

/-- The block that is handed out when the test lets it pass. -/
def block (arena : ArenaAllocator) (size alignment : UInt64) : Block :=
  { ptr := arena.buffer + (arena.offset + arena.padding alignment)
    size := size
    alignment := alignment }

theorem call_granted {s : State} {size alignment : UInt64}
    (h : s.arena.blockEnd size alignment % 2 ^ 64 ≤
      s.arena.capacity.toNat) :
    s.call (.allocate size alignment) =
      ⟨{ s.arena with
          offset := s.arena.offset + s.arena.padding alignment + size },
        s.arena.block size alignment :: s.blocks⟩ := by
  rw [← toNat_blockEnd, ← UInt64.le_iff_toNat_le] at h
  rw [State.call, allocate, if_neg (UInt64.not_lt.mpr h)]
  rfl

theorem call_refused {s : State} {size alignment : UInt64}
    (h : ¬ s.arena.blockEnd size alignment % 2 ^ 64 ≤
      s.arena.capacity.toNat) :
    s.call (.allocate size alignment) = s := by
  rw [← toNat_blockEnd, ← UInt64.le_iff_toNat_le] at h
  rw [State.call, allocate, if_pos (UInt64.not_le.mp h)]
  rfl

/-! ## The promises -/

/-- The blocks are inside the buffer, aligned and disjoint. -/
structure Promises (s : State) : Prop where
  inside : ∀ b ∈ s.blocks, s.arena.buffer.toNat ≤ b.ptr.toNat ∧
    b.ptr.toNat + b.size.toNat ≤
      s.arena.buffer.toNat + s.arena.capacity.toNat
  aligned : ∀ b ∈ s.blocks, b.alignment.toNat ∣ b.ptr.toNat
  disjoint : s.blocks.Pairwise fun b b' =>
    b.ptr.toNat + b.size.toNat ≤ b'.ptr.toNat ∨
      b'.ptr.toNat + b'.size.toNat ≤ b.ptr.toNat

/-- The offset is behind all blocks. -/
structure Bumped (s : State) : Prop extends Promises s where
  buffer_pos : 0 < s.arena.buffer.toNat
  fits : s.arena.buffer.toNat + s.arena.capacity.toNat < 2 ^ 64
  offset_le : s.arena.offset ≤ s.arena.capacity
  behind : ∀ b ∈ s.blocks, b.ptr.toNat + b.size.toNat ≤
    s.arena.buffer.toNat + s.arena.offset.toNat

namespace Bumped

variable {s : State} {size alignment : UInt64}

/-- The address is a multiple of the alignment, and the next one. -/
theorem address_spec (h : Bumped s) (halignment : alignment ≠ 0) :
    alignment.toNat ∣ s.arena.address alignment ∧
      s.arena.address alignment <
        s.arena.buffer.toNat + s.arena.offset.toNat + alignment.toNat := by
  have hpos : 0 < alignment.toNat := by
    rw [Nat.pos_iff_ne_zero]
    exact fun hzero => halignment (UInt64.toNat_inj.mp hzero)
  have hfits := h.fits
  have hoffset := UInt64.le_iff_toNat_le.mp h.offset_le
  have hcurrent : (s.arena.buffer + s.arena.offset).toNat =
      s.arena.buffer.toNat + s.arena.offset.toNat := by
    rw [UInt64.toNat_add, Nat.mod_eq_of_lt (by omega)]
  rw [address, toNat_padding s.arena halignment, hcurrent]
  exact ⟨dvd_add_padding _ hpos,
    Nat.add_lt_add_left (Nat.mod_lt _ hpos) _⟩

/-- **A call that does not wrap keeps the promises.** -/
theorem call (h : Bumped s) {a : Action} (hvalid : a.valid)
    (hwraps : ¬ a.wraps s) : Bumped (s.call a) := by
  cases a with
  | deallocate ptr => exact h
  | reset =>
      exact
        { inside := nofun
          aligned := nofun
          disjoint := .nil
          buffer_pos := h.buffer_pos
          fits := h.fits
          offset_le := UInt64.le_iff_toNat_le.mpr (Nat.zero_le _)
          behind := nofun }
  | allocate size alignment =>
      by_cases hgranted : s.arena.blockEnd size alignment % 2 ^ 64 ≤
          s.arena.capacity.toNat
      · have hfits := h.fits
        have hend : s.arena.blockEnd size alignment ≤
            s.arena.capacity.toNat := by
          by_contra hlt
          exact hwraps ⟨Nat.not_le.mp hlt, hgranted⟩
        have hoffset : (s.arena.offset + s.arena.padding alignment +
            size).toNat = s.arena.blockEnd size alignment := by
          rw [toNat_blockEnd, Nat.mod_eq_of_lt (by omega)]
        have haddress : s.arena.address alignment + size.toNat =
            s.arena.buffer.toNat + s.arena.blockEnd size alignment := by
          rw [address, blockEnd]
          omega
        have hptr : (s.arena.block size alignment).ptr.toNat =
            s.arena.address alignment := by
          rw [block, toNat_ptr, Nat.mod_eq_of_lt (by omega)]
        have hnext : s.arena.buffer.toNat + s.arena.offset.toNat ≤
            s.arena.address alignment := Nat.le_add_right _ _
        have hsize : (s.arena.block size alignment).size = size := rfl
        rw [call_granted hgranted]
        exact
          { inside := List.forall_mem_cons.mpr
              ⟨by rw [hptr, hsize]; dsimp only; omega, h.inside⟩
            aligned := List.forall_mem_cons.mpr
              ⟨hptr ▸ (h.address_spec hvalid).1, h.aligned⟩
            disjoint := .cons
              (fun b hb => .inr (by
                rw [hptr]
                exact (h.behind b hb).trans hnext))
              h.disjoint
            buffer_pos := h.buffer_pos
            fits := h.fits
            offset_le := UInt64.le_iff_toNat_le.mpr (hoffset ▸ hend)
            behind := by
              dsimp only
              rw [hoffset]
              refine List.forall_mem_cons.mpr
                ⟨by rw [hptr, hsize]; omega, fun b hb => ?_⟩
              have := h.behind b hb
              omega }
      · rw [call_refused hgranted]
        exact h

/-- **A call that wraps breaks one.** -/
theorem not_promises_call (h : Bumped s) {a : Action} (hvalid : a.valid)
    (hwraps : a.wraps s) : ¬ Promises (s.call a) := by
  cases a with
  | deallocate ptr => exact hwraps.elim
  | reset => exact hwraps.elim
  | allocate size alignment =>
      obtain ⟨hlt, hgranted⟩ := hwraps
      rw [call_granted hgranted]
      intro hpromises
      have hmem : s.arena.block size alignment ∈
          s.arena.block size alignment :: s.blocks := List.mem_cons_self
      obtain ⟨hstart, hend⟩ := hpromises.inside _ hmem
      have haligned := hpromises.aligned _ hmem
      obtain ⟨hdvd, hless⟩ := h.address_spec hvalid
      have hfits := h.fits
      have hpos := h.buffer_pos
      have hoffset := UInt64.le_iff_toNat_le.mp h.offset_le
      have hptr : (s.arena.block size alignment).ptr.toNat =
          s.arena.address alignment % 2 ^ 64 := toNat_ptr _ _
      have hblock : s.arena.address alignment + size.toNat =
          s.arena.buffer.toNat + s.arena.blockEnd size alignment := by
        rw [address, blockEnd]
        omega
      have hsize : (s.arena.block size alignment).size = size := rfl
      dsimp only at hstart hend
      rw [hptr] at hstart hend haligned
      rw [hsize] at hend
      by_cases hsmall : s.arena.address alignment < 2 ^ 64
      · -- the block starts where it should, and ends behind the buffer
        rw [Nat.mod_eq_of_lt hsmall] at hend
        omega
      · -- the address has wrapped too, and an aligned one only to `nullptr`
        have hbound := alignment.toNat_lt
        have hmod : s.arena.address alignment % 2 ^ 64 < alignment.toNat := by
          omega
        have hzero := Nat.eq_zero_of_dvd_of_lt haligned hmod
        omega

end Bumped

/-! ## Runs -/

/-- From a state that keeps the promises, a run goes on to do so exactly when
no call of it wraps. -/
theorem Bumped.promises_iff {s : State} (h : Bumped s) {run : List Action}
    (hvalid : ∀ a ∈ run, a.valid) :
    (∀ i, Promises (s.after (run.take i))) ↔
      ∀ (i : Nat) (a : Action), run[i]? = some a →
        ¬ a.wraps (s.after (run.take i)) := by
  induction run generalizing s with
  | nil =>
      refine ⟨fun _ i a ha => by simp at ha, fun _ i => ?_⟩
      rw [List.take_nil]
      exact h.toPromises
  | cons a run ih =>
      have ha := hvalid a List.mem_cons_self
      have hrest := fun (hwraps : ¬ a.wraps s) =>
        ih (h.call ha hwraps) fun b hb => hvalid b (List.mem_cons_of_mem _ hb)
      constructor
      · intro hall
        have hwraps : ¬ a.wraps s := fun hwraps =>
          h.not_promises_call ha hwraps (hall 1)
        intro i b hb
        cases i with
        | zero =>
            obtain rfl := Option.some.inj hb
            exact hwraps
        | succ i =>
            exact (hrest hwraps).mp (fun j => hall (j + 1)) i b hb
      · intro hnone i
        cases i with
        | zero => exact h.toPromises
        | succ i =>
            exact (hrest (hnone 0 a rfl)).mpr
              (fun j b hb => hnone (j + 1) b hb) i

/-- **The arena keeps its promises exactly when no request wraps.**  For
every buffer that does not reach the end of the address space and every run
of calls with alignments that are not zero. -/
theorem arena_sound_iff {buffer size : UInt64} (hbuffer : buffer ≠ 0)
    (hfits : buffer.toNat + size.toNat < 2 ^ 64) {run : List Action}
    (hvalid : ∀ a ∈ run, a.valid) :
    (∀ i, Promises ((State.initial buffer size).after (run.take i))) ↔
      ∀ (i : Nat) (a : Action), run[i]? = some a →
        ¬ a.wraps ((State.initial buffer size).after (run.take i)) := by
  refine Bumped.promises_iff ?_ hvalid
  exact
    { inside := nofun
      aligned := nofun
      disjoint := .nil
      buffer_pos := Nat.pos_of_ne_zero fun hzero =>
        hbuffer (UInt64.toNat_inj.mp hzero)
      fits := hfits
      offset_le := UInt64.le_iff_toNat_le.mpr (Nat.zero_le _)
      behind := nofun }

/-- The third request is eight bytes short of all there are, and is
granted. -/
theorem arena_sound_iff_huge :
    (∀ i, Promises ((State.initial 4096 64).after
        (([.allocate 3 1, .allocate 8 8] : List Action).take i))) ∧
      ¬ ∀ i, Promises ((State.initial 4096 64).after
        (([.allocate 3 1, .allocate 8 8,
          .allocate 18446744073709551608 1] : List Action).take i)) := by
  constructor
  · refine (arena_sound_iff (by decide) (by decide) ?_).mpr fun i a ha => ?_
    · simp [Action.valid]
    · match i, ha with
      | 0, rfl => decide
      | 1, rfl => decide
  · intro hall
    refine (arena_sound_iff (by decide) (by decide) ?_).mp hall 2 _ rfl ?_
    · simp [Action.valid]
    · decide

end ArenaAllocator

end GoPrep.Ports.Allocators
