import GoPrep.Verified.EquiJoin

/-!
# The rows of the join exercises

`hash-join.cpp`, `nested-loop-join-variations.cpp` and `sort-merge-join.cpp`
each declare the same two structs.  Keys are only compared and hashed, so the
C++ `int` is modelled by `Int`; payloads are only ever copied.
-/

namespace GoPrep.Ports.JoinRows

open GoPrep.Verified.EquiJoin

structure Row where
  key : Int
  payload : String
  deriving Repr, DecidableEq

structure JoinedRow where
  left : Row
  right : Row
  deriving Repr, DecidableEq

theorem JoinedRow.mk_injective2 : Function.Injective2 JoinedRow.mk := by
  intro a b c d h
  exact ⟨congrArg JoinedRow.left h, congrArg JoinedRow.right h⟩

/-- The joined row with its two sides exchanged. -/
def JoinedRow.swap (joined : JoinedRow) : JoinedRow :=
  ⟨joined.right, joined.left⟩

/-- The reference: the equality join of two row lists. -/
abbrev equalityJoin (left right : List Row) : List JoinedRow :=
  equiJoin JoinedRow.mk Row.key Row.key left right

/-- What undefined behaviour the partitioning code could run into. -/
inductive Fault
  | moduloByZero
  | indexOutOfRange
  deriving Repr, DecidableEq

/-- How the partitioning code can fail: in undefined behaviour, or with the
exception of a vector that would be too long. -/
inductive Failure
  | undefined (fault : Fault)
  | lengthError
  deriving Repr, DecidableEq

end GoPrep.Ports.JoinRows
