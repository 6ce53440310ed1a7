import Mathlib.Data.List.Basic

/-!
# Cursors over a snapshot

A cursor goes once through a list of items that was fixed when it was made.
`run` is what the calls of its three operations are answered; an object of
another kind refines the cursor when each of its calls gives the answer of
the cursor it stands for.

## Main results

* `items_run` — the items delivered are those from the position on, as many as
  there were calls of `next` before the first `close`.
* `Refines.run_eq` — an object that refines the cursor answers every sequence
  of calls as the cursor does.
-/

namespace GoPrep.Verified.SnapshotCursor

variable {α σ : Type*}

structure Cursor (α : Type*) where
  items : List α
  position : Nat
  closed : Bool

inductive Op
  | hasNext
  | next
  | close
  deriving DecidableEq, Repr

inductive Answer (α : Type*)
  | flag (more : Bool)
  | item (a : α)
  | ended
  | closed

namespace Cursor

def start (items : List α) : Cursor α :=
  { items := items, position := 0, closed := false }

def hasNext (c : Cursor α) : Bool :=
  !c.closed && decide (c.position < c.items.length)

/-- The item at the position. -/
def current (c : Cursor α) : Option α :=
  if c.closed then none else c.items[c.position]?

def step (c : Cursor α) : Op → Cursor α × Answer α
  | .hasNext => (c, .flag c.hasNext)
  | .next =>
      match c.current with
      | some a => ({ c with position := c.position + 1 }, .item a)
      | none => (c, .ended)
  | .close => ({ c with closed := true }, .closed)

/-- The answers to a sequence of calls. -/
def run (c : Cursor α) : List Op → List (Answer α)
  | [] => []
  | op :: ops => (c.step op).2 :: (c.step op).1.run ops

theorem hasNext_eq (c : Cursor α) : c.hasNext = c.current.isSome := by
  rw [hasNext, current]
  cases c.closed with
  | true => rfl
  | false =>
      cases hitem : c.items[c.position]? with
      | none =>
          have hle := List.getElem?_eq_none_iff.mp hitem
          simp [Nat.not_lt.mpr hle]
      | some a =>
          have hlt := (List.getElem?_eq_some_iff.mp hitem).1
          simp [hlt]

end Cursor

/-- The items among the answers. -/
def Answer.item? : Answer α → Option α
  | .item a => some a
  | _ => none

/-- The calls of `next` before the first `close`. -/
def nextsBeforeClose : List Op → Nat
  | [] => 0
  | .hasNext :: ops => nextsBeforeClose ops
  | .next :: ops => nextsBeforeClose ops + 1
  | .close :: _ => 0

/-- A closed cursor delivers nothing. -/
theorem items_run_closed {c : Cursor α} (hclosed : c.closed = true)
    (ops : List Op) : (c.run ops).filterMap Answer.item? = [] := by
  induction ops generalizing c with
  | nil => rfl
  | cons op ops ih =>
      have hnone : c.current = none := by
        rw [Cursor.current, hclosed, if_pos rfl]
      cases op with
      | hasNext => exact ih hclosed
      | next =>
          simp only [Cursor.run, Cursor.step, hnone]
          exact ih hclosed
      | close => exact ih rfl

/-- **A cursor delivers its items in order, each once.** -/
theorem items_run (c : Cursor α) (hopen : c.closed = false) (ops : List Op) :
    (c.run ops).filterMap Answer.item? =
      (c.items.drop c.position).take (nextsBeforeClose ops) := by
  induction ops generalizing c with
  | nil => simp [Cursor.run, nextsBeforeClose]
  | cons op ops ih =>
      cases op with
      | hasNext => exact ih c hopen
      | close => exact items_run_closed rfl ops
      | next =>
          have hcurrent : c.current = c.items[c.position]? := by
            rw [Cursor.current, hopen]
            rfl
          cases hitem : c.items[c.position]? with
          | none =>
              have hle := List.getElem?_eq_none_iff.mp hitem
              have hrest := ih c hopen
              simp only [Cursor.run, Cursor.step, hcurrent, hitem]
              rw [List.drop_eq_nil_of_le hle, List.take_nil] at hrest ⊢
              exact hrest
          | some a =>
              obtain ⟨hlt, hget⟩ := List.getElem?_eq_some_iff.mp hitem
              have hrest := ih { c with position := c.position + 1 } hopen
              simp only [Cursor.run, Cursor.step, hcurrent, hitem]
              rw [List.drop_eq_getElem_cons hlt, hget, nextsBeforeClose,
                List.take_succ_cons, ← hrest]
              rfl

/-! ## Refinement -/

/-- An object whose calls may go several ways, with their answers. -/
abbrev Calls (σ α : Type*) := σ → Op → Answer α → σ → Prop

/-- `answers` are those of some run of the object. -/
inductive Runs (Call : Calls σ α) : σ → List Op → List (Answer α) → Prop
  | nil (s : σ) : Runs Call s [] []
  | cons {s t : σ} {op : Op} {answer : Answer α} {ops : List Op}
      {answers : List (Answer α)} : Call s op answer t →
      Runs Call t ops answers → Runs Call s (op :: ops) (answer :: answers)

/-- Whatever way a call of the object goes, it answers as the cursor does and
stays related to it. -/
def Refines (Call : Calls σ α) (R : σ → Cursor α → Prop) : Prop :=
  ∀ s c op answer t, R s c → Call s op answer t →
    (c.step op).2 = answer ∧ R t (c.step op).1

theorem Refines.run_eq {Call : Calls σ α} {R : σ → Cursor α → Prop}
    (h : Refines Call R) {s : σ} {c : Cursor α} {ops : List Op}
    {answers : List (Answer α)} (hR : R s c) (hruns : Runs Call s ops answers) :
    answers = c.run ops := by
  induction hruns generalizing c with
  | nil => rfl
  | cons hcall _ ih =>
      obtain ⟨hanswer, hnext⟩ := h _ _ _ _ _ hR hcall
      rw [Cursor.run, hanswer, ih hnext]

end GoPrep.Verified.SnapshotCursor
