import Mathlib.Data.Int.ModEq
import Mathlib.Data.List.Basic

/-!
# Ring buffers

A ring is a buffer of fixed length with a start index; its contents are the
slots met walking forward from the start, wrapping at the end of the buffer.
`RingHolds buffer start contents` says that the walk meets `contents`, in
order.  A full and an empty ring share their end positions, so the number of
live slots is carried by the contents and never recomputed from two indices.

## Main results

* `RingHolds.push` — writing the slot after the last live one appends.
* `RingHolds.pop` — the start slot holds the first element, and advancing
  the start removes it.
-/

namespace GoPrep.Verified.Ring

variable {α : Type*}

/-- The live slots of `buffer`, from `start` on, are exactly `contents`. -/
structure RingHolds (buffer : List α) (start : Nat) (contents : List α) :
    Prop where
  fits : contents.length ≤ buffer.length
  slot : ∀ i v, contents[i]? = some v →
    buffer[(start + i) % buffer.length]? = some v

theorem ringHolds_nil (buffer : List α) (start : Nat) :
    RingHolds buffer start [] :=
  ⟨Nat.zero_le _, fun i v h => by simp at h⟩

/-- Two offsets less than a lap apart meet different slots. -/
theorem slot_ne {start i j len : Nat} (hi : i < j) (hj : j < len) :
    (start + i) % len ≠ (start + j) % len := by
  intro heq
  have hdvd : len ∣ (start + j) - (start + i) :=
    (Nat.modEq_iff_dvd' (by omega)).mp heq
  have hle := Nat.le_of_dvd (by omega) hdvd
  omega

/-- **Writing the first free slot appends to the contents.** -/
theorem RingHolds.push {buffer contents : List α} {start : Nat}
    (h : RingHolds buffer start contents)
    (hroom : contents.length < buffer.length) (v : α) :
    RingHolds (buffer.set ((start + contents.length) % buffer.length) v)
      start (contents ++ [v]) := by
  constructor
  · rw [List.length_append, List.length_set, List.length_singleton]
    omega
  · intro i w hi
    rw [List.length_set]
    rcases Nat.lt_trichotomy i contents.length with hlt | heq | hgt
    · rw [List.getElem?_append_left hlt] at hi
      rw [List.getElem?_set_ne (slot_ne hlt hroom).symm]
      exact h.slot i w hi
    · subst heq
      have hw : v = w := by simpa using hi
      rw [List.getElem?_set_self (Nat.mod_lt _ (by omega)), hw]
    · rw [List.getElem?_eq_none (by simp; omega)] at hi
      simp at hi

/-- The start slot holds the first of the contents. -/
theorem RingHolds.front {buffer rest : List α} {start : Nat} {v : α}
    (h : RingHolds buffer start (v :: rest)) :
    buffer[start % buffer.length]? = some v := by
  have hslot := h.slot 0 v (by simp)
  rwa [Nat.add_zero] at hslot

/-- **Advancing the start drops the first of the contents.** -/
theorem RingHolds.pop {buffer rest : List α} {start : Nat} {v : α}
    (h : RingHolds buffer start (v :: rest)) :
    RingHolds buffer ((start + 1) % buffer.length) rest := by
  have hfits := h.fits
  rw [List.length_cons] at hfits
  refine ⟨by omega, fun i w hi => ?_⟩
  have hslot := h.slot (i + 1) w (by simpa using hi)
  rwa [Nat.mod_add_mod, Nat.add_assoc, Nat.add_comm 1 i]

/-- The slots met from the start, as the buffer itself is read. -/
theorem RingHolds.map_range {buffer contents : List α} {start : Nat}
    (h : RingHolds buffer start contents) :
    (List.range contents.length).map
        (fun i => buffer[(start + i) % buffer.length]?) =
      contents.map some := by
  apply List.ext_getElem?
  intro i
  rw [List.getElem?_map, List.getElem?_map]
  by_cases hi : i < contents.length
  · rw [List.getElem?_range hi, List.getElem?_eq_getElem hi,
      Option.map_some, Option.map_some,
      h.slot i _ (List.getElem?_eq_getElem hi)]
  · rw [List.getElem?_eq_none (by simpa using hi),
      List.getElem?_eq_none (by simpa using hi)]
    rfl

/-! ## The bounded FIFO queue -/

/-- What an observer sees of a queue. -/
inductive FifoAction (α : Type*)
  | put (v : α)
  | get (v : α)

/-- A FIFO queue of at most `capacity` elements. -/
inductive FifoStep (capacity : Nat) :
    List α → FifoAction α → List α → Prop
  | put {contents : List α} {v : α} : contents.length < capacity →
      FifoStep capacity contents (.put v) (contents ++ [v])
  | get {v : α} {rest : List α} :
      FifoStep capacity (v :: rest) (.get v) rest

end GoPrep.Verified.Ring
