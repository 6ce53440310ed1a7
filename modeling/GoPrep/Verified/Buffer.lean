import Mathlib.Algebra.Order.Ring.Nat
import Mathlib.Tactic.ByContra

/-!
# Buffers

A block of bytes at an address, as `new uint8_t[size]` returns it.  Pointers
are numbers below `2 ^ 64` and take eight bytes, the least significant one
first, at an address that is a multiple of eight.  An access that is not inside
the block is undefined behaviour and answers `none`, and so is one to a pointer
that is not aligned.

## Main results

* `load_store_self` — a pointer that was stored reads back.
* `Stored.load_of_disjoint` — a write elsewhere is not seen.
-/

namespace GoPrep.Verified

structure Buffer where
  base : Nat
  size : Nat
  bytes : Nat → UInt8

namespace Buffer

/-! ## Bytes -/

/-- The number that the `n` bytes from `p` on stand for. -/
def readLE (bytes : Nat → UInt8) : Nat → Nat → Nat
  | 0, _ => 0
  | n + 1, p => (bytes p).toNat + 256 * readLE bytes n (p + 1)

/-- The byte that `v` has at `p` when it is written at `q`. -/
def byteLE (v q p : Nat) : UInt8 := UInt8.ofNat (v / 256 ^ (p - q))

/-- `v` in the `n` bytes from `q` on. -/
def writeLE (bytes : Nat → UInt8) (n v q : Nat) : Nat → UInt8 :=
  fun p => if q ≤ p ∧ p < q + n then byteLE v q p else bytes p

theorem readLE_congr {bytes bytes' : Nat → UInt8} {n p : Nat}
    (h : ∀ a, p ≤ a → a < p + n → bytes' a = bytes a) :
    readLE bytes' n p = readLE bytes n p := by
  induction n generalizing p with
  | zero => rfl
  | succ n ih =>
      rw [readLE, readLE, h p (Nat.le_refl p) (by omega),
        ih fun a hle hlt => h a (by omega) (by omega)]

/-- Bytes that agree with those of `v` stand for `v`. -/
theorem readLE_eq {bytes : Nat → UInt8} {n v p : Nat} (hv : v < 256 ^ n)
    (h : ∀ i < n, bytes (p + i) = UInt8.ofNat (v / 256 ^ i)) :
    readLE bytes n p = v := by
  induction n generalizing v p with
  | zero => exact (Nat.lt_one_iff.mp hv).symm
  | succ n ih =>
      have hfirst := h 0 (Nat.succ_pos n)
      rw [Nat.add_zero, Nat.pow_zero, Nat.div_one] at hfirst
      have hrest : readLE bytes n (p + 1) = v / 256 := by
        apply ih
        · exact Nat.div_lt_of_lt_mul (by rwa [Nat.pow_succ'] at hv)
        · intro i hi
          rw [Nat.add_assoc, Nat.add_comm 1 i, h (i + 1) (by omega),
            Nat.div_div_eq_div_mul, Nat.pow_succ']
      rw [readLE, hfirst, hrest, UInt8.toNat_ofNat']
      exact Nat.mod_add_div v 256

theorem readLE_writeLE (bytes : Nat → UInt8) {n v : Nat} (q : Nat)
    (hv : v < 256 ^ n) : readLE (writeLE bytes n v q) n q = v := by
  refine readLE_eq hv fun i hi => ?_
  rw [writeLE, if_pos ⟨by omega, by omega⟩, byteLE, Nat.add_sub_cancel_left]

/-! ## Accesses -/

/-- The `n` bytes from `p` on are inside the block. -/
def Holds (m : Buffer) (p n : Nat) : Prop :=
  m.base ≤ p ∧ p + n ≤ m.base + m.size

instance (m : Buffer) (p n : Nat) : Decidable (m.Holds p n) :=
  inferInstanceAs (Decidable (_ ∧ _))

/-- A pointer may stand at `p`: there is room for it, and `p` is aligned. -/
def HoldsPointer (m : Buffer) (p : Nat) : Prop := m.Holds p 8 ∧ 8 ∣ p

instance (m : Buffer) (p : Nat) : Decidable (m.HoldsPointer p) :=
  inferInstanceAs (Decidable (_ ∧ _))

/-- `*p`, for a pointer to a pointer. -/
def load (m : Buffer) (p : Nat) : Option Nat :=
  if m.HoldsPointer p then some (readLE m.bytes 8 p) else none

/-- `*p = v`, for a pointer to a pointer. -/
def store (m : Buffer) (p v : Nat) : Option Buffer :=
  if m.HoldsPointer p then some { m with bytes := writeLE m.bytes 8 v p }
  else none

/-- `*p = b`, for a pointer to a byte. -/
def put (m : Buffer) (p : Nat) (b : UInt8) : Option Buffer :=
  if m.Holds p 1 then
    some { m with bytes := fun a => if a = p then b else m.bytes a }
  else none

variable {m m' : Buffer} {p q v : Nat}

/-- What a store leaves. -/
structure Stored (m : Buffer) (p n : Nat) (m' : Buffer) : Prop where
  base : m'.base = m.base
  size : m'.size = m.size
  /-- Nothing changes outside the bytes that are written. -/
  frame : ∀ a, a < p ∨ p + n ≤ a → m'.bytes a = m.bytes a

theorem stored_of_store (h : m.store p v = some m') : Stored m p 8 m' := by
  unfold store at h
  split at h
  · obtain rfl := Option.some.inj h
    refine ⟨rfl, rfl, fun a ha => ?_⟩
    show writeLE m.bytes 8 v p a = m.bytes a
    rw [writeLE, if_neg (by omega)]
  · cases h

theorem stored_of_put {b : UInt8} (h : m.put p b = some m') :
    Stored m p 1 m' := by
  unfold put at h
  split at h
  · obtain rfl := Option.some.inj h
    refine ⟨rfl, rfl, fun a ha => ?_⟩
    show (if a = p then b else m.bytes a) = m.bytes a
    rw [if_neg (by omega)]
  · cases h

theorem bytes_of_put {b : UInt8} (h : m.put p b = some m') :
    m'.bytes p = b := by
  unfold put at h
  split at h
  · obtain rfl := Option.some.inj h
    exact if_pos rfl
  · cases h

namespace Stored

variable {n : Nat}

theorem holdsPointer_iff (h : Stored m p n m') (q : Nat) :
    m'.HoldsPointer q ↔ m.HoldsPointer q := by
  rw [HoldsPointer, HoldsPointer, Holds, Holds, h.base, h.size]

/-- **A pointer elsewhere is not changed.** -/
theorem load_of_disjoint (h : Stored m p n m')
    (hdisjoint : q + 8 ≤ p ∨ p + n ≤ q) : m'.load q = m.load q := by
  have hread : readLE m'.bytes 8 q = readLE m.bytes 8 q :=
    readLE_congr fun a hle hlt => h.frame a (by omega)
  simp only [load, h.holdsPointer_iff, hread]

end Stored

/-- **A pointer that was stored reads back.** -/
theorem load_store_self (h : m.store p v = some m') (hv : v < 2 ^ 64) :
    m'.load p = some v := by
  have hholds : m.HoldsPointer p := by
    by_contra hout
    rw [store, if_neg hout] at h
    cases h
  rw [load, if_pos (((stored_of_store h).holdsPointer_iff p).mpr hholds)]
  rw [store, if_pos hholds] at h
  obtain rfl := Option.some.inj h
  exact congrArg some (readLE_writeLE m.bytes p hv)

theorem exists_store (hholds : m.HoldsPointer p) (v : Nat) :
    ∃ m', m.store p v = some m' :=
  ⟨_, if_pos hholds⟩

theorem store_eq_none (hout : ¬ 8 ∣ p) (v : Nat) : m.store p v = none :=
  if_neg fun hholds => hout hholds.2

end Buffer

end GoPrep.Verified
