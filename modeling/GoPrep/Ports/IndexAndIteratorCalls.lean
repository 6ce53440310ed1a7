import GoPrep.Ports.IndexAndIterator
import GoPrep.Verified.Linearization

/-!
# Concurrent calls on the tab-separated index

The calls of `src/index_and_iterator.cpp` in any interleaving.  `insert` holds
`fileMutex` from `tellp` to `flush` and `mapMutex` for its update; `query`
shares `mapMutex` for its loop and opens the file after it; `next` takes no
lock.  A line reaches the file in pieces of any size, so a reader may find the
last one unfinished, and a stream may lag behind the file it reads from.

## Main results

* `Step.linearizes` — the effects of the calls, `insert`s at their updates and
  `query`s at their loops, stand in an order that respects real time.
* `Step.holders_le` — one `insert` writes at a time.
-/

namespace GoPrep.Ports.IndexAndIterator

open GoPrep.Ports.IndexRecord (newline)
open GoPrep.Verified
open GoPrep.Verified.ByteFile
open GoPrep.Verified.Linearization
open GoPrep.Verified.RealTime
open GoPrep.Verified.SortedMap
open GoPrep.Verified.ThreadTable
open GoPrep.Verified.Transition

/-! ## Calls -/

/-- The line of a record. -/
def Record.line (r : Record) : Bytes := r.format ++ [newline]

/-- Where an `insert` stands; `telling` and `writing` are inside the first
block, `updating` inside the second.  `left` is what of the line is not in the
file yet. -/
inductive InsertPc
  | lockingFile
  | telling
  | writing (currenOffset : Nat) (left : Bytes)
  | lockingMap (currenOffset : Nat)
  | updating (currenOffset : Nat)
  | returned (currenOffset : Nat)
  deriving DecidableEq, Repr

/-- Where a `query` stands.  After its return its owner calls `next`, which
has answered `results` so far. -/
inductive QueryPc
  | lockingMap
  | traversing
  | opening (collectedOffsets : List Nat)
  | returned (result : Except String Iterator)
      (results : List (Except String Record))

inductive Call
  | insert (id : UInt64) (value : Bytes) (pc : InsertPc)
  | query (minId : UInt64) (limit : Int32) (pc : QueryPc)

inductive Lock
  | fileMutex
  | mapShared
  | mapUnique
  deriving DecidableEq, Repr

/-- Two calls may not hold these at once. -/
def Lock.conflicts : Lock → Lock → Bool
  | .fileMutex, .fileMutex => true
  | .mapUnique, .mapUnique => true
  | .mapUnique, .mapShared => true
  | .mapShared, .mapUnique => true
  | _, _ => false

/-- What a call does to the table at the step that counts: the entry it puts
into the map, or nothing. -/
inductive Effect
  | inserted (e : Entry)
  | queried
  deriving DecidableEq, Repr

namespace Call

/-- The lock a call holds. -/
def lock : Call → Option Lock
  | .insert _ _ .telling => some .fileMutex
  | .insert _ _ (.writing _ _) => some .fileMutex
  | .insert _ _ (.updating _) => some .mapUnique
  | .query _ _ .traversing => some .mapShared
  | _ => none

def holdsFile (call : Call) : Bool := decide (call.lock = some .fileMutex)

def hasReturned : Call → Bool
  | .insert _ _ (.returned _) => true
  | .query _ _ (.returned _ _) => true
  | _ => false

end Call

/-- The stream has come to see this much of the file. -/
def Iterator.see (it : Iterator) (seen : Bytes) : Iterator :=
  { it with inFile := { it.inFile with file := seen } }

/-- The `query` after its owner has called `next`. -/
def Call.afterNext (minId : UInt64) (limit : Int32) (it : Iterator)
    (results : List (Except String Record)) (uninit : UInt64) : Call :=
  match it.next uninit with
  | .error what =>
      .query minId limit (.returned (.ok it) (results ++ [.error what]))
  | .ok (r, it') =>
      .query minId limit (.returned (.ok it') (results ++ [.ok r]))

/-! ## Moves -/

/-- A call moves from the first `Call` to the second. -/
inductive Moves (x : Index) : Call → Call → Index → Option Effect → Prop
  -- `insert`, the file
  | locksFile (id : UInt64) (value : Bytes) :
      Moves x (.insert id value .lockingFile) (.insert id value .telling)
        x none
  | tells (id : UInt64) (value : Bytes) :
      Moves x (.insert id value .telling)
        (.insert id value (.writing x.table.length (Record.line ⟨id, value⟩)))
        x none
  | puts (id : UInt64) (value : Bytes) (currenOffset : Nat)
      (piece left : Bytes) :
      Moves x (.insert id value (.writing currenOffset (piece ++ left)))
        (.insert id value (.writing currenOffset left))
        { x with table := x.table ++ piece } none
  | flushes (id : UInt64) (value : Bytes) (currenOffset : Nat) :
      Moves x (.insert id value (.writing currenOffset []))
        (.insert id value (.lockingMap currenOffset)) x none
  -- `insert`, the map
  | locksMap (id : UInt64) (value : Bytes) (currenOffset : Nat) :
      Moves x (.insert id value (.lockingMap currenOffset))
        (.insert id value (.updating currenOffset)) x none
  | updates (id : UInt64) (value : Bytes) (currenOffset : Nat) :
      Moves x (.insert id value (.updating currenOffset))
        (.insert id value (.returned currenOffset))
        { x with idToOffsetMap := x.idToOffsetMap.insert id currenOffset }
        (some (.inserted (id, currenOffset, value)))
  -- `query`
  | sharesMap (minId : UInt64) (limit : Int32) :
      Moves x (.query minId limit .lockingMap)
        (.query minId limit .traversing) x none
  | traverses (minId : UInt64) (limit : Int32) :
      Moves x (.query minId limit .traversing)
        (.query minId limit (.opening (x.collect minId limit))) x
        (some .queried)
  | opens (minId : UInt64) (limit : Int32) (collectedOffsets : List Nat)
      (opened : Bool) :
      Moves x (.query minId limit (.opening collectedOffsets))
        (.query minId limit (.returned (Iterator.new collectedOffsets
          (if opened then some x.table else none)) [])) x none
  -- the owner of an iterator calls `next`
  | nexts (minId : UInt64) (limit : Int32) (it : Iterator)
      (results : List (Except String Record)) (seen : Bytes)
      (uninit : UInt64) : it.inFile.file <+: seen → seen <+: x.table →
      Moves x (.query minId limit (.returned (.ok it) results))
        (.afterNext minId limit (it.see seen) results uninit) x none

/-! ## Runs -/

/-- The index and the calls on it, with the order of their effects and the
history of their invocations and responses. -/
structure State where
  index : Index
  calls : List Call
  order : List (Nat × Effect)
  history : List Event

/-- A new index, over the file there was. -/
def State.initial (index : Index) : State :=
  { index := index, calls := [], order := [], history := [] }

namespace State

/-- No call stands in the way of the lock `call` needs where it stands. -/
def mayHold (s : State) (call : Call) : Bool :=
  match call.lock with
  | none => true
  | some lock => s.calls.all fun other =>
      match other.lock with
      | none => true
      | some held => !lock.conflicts held

def begin (s : State) (call : Call) : State :=
  { s with
    calls := s.calls ++ [call]
    history := s.history ++ [.invoke s.calls.length] }

end State

inductive Action
  | insert (id : UInt64) (value : Bytes)
  | query (minId : UInt64) (limit : Int32)
  | move (c : Nat)
  deriving DecidableEq, Repr

/-- A call that comes to hold a lock finds it free; one that goes on holding
its own needs nothing. -/
inductive Step : State → Action → State → Prop
  | insert (s : State) (id : UInt64) (value : Bytes) :
      Step s (.insert id value) (s.begin (.insert id value .lockingFile))
  | query (s : State) (minId : UInt64) (limit : Int32) :
      Step s (.query minId limit) (s.begin (.query minId limit .lockingMap))
  | move (s : State) (c : Nat) (old new : Call) (index : Index)
      (effect : Option Effect) : s.calls[c]? = some old →
      Moves s.index old new index effect →
      (new.lock = old.lock ∨ s.mayHold new = true) →
      Step s (.move c)
        { index := index
          calls := s.calls.set c new
          order := s.order ++ (effect.map fun e => (c, e)).toList
          history := s.history ++ respond Call.hasReturned c old new }

/-- A value has no newline in it. -/
def Action.assumed : Action → Prop
  | .insert _ value => newline ∉ value
  | _ => True

def AssumedStep (s : State) (a : Action) (t : State) : Prop :=
  Step s a t ∧ a.assumed

/-! ## The order of the effects -/

/-- What a call past its effect did. -/
def Call.effect : Call → Option Effect
  | .insert id value (.returned currenOffset) =>
      some (.inserted (id, currenOffset, value))
  | .query _ _ (.opening _) => some .queried
  | .query _ _ (.returned _ _) => some .queried
  | _ => none

theorem Call.afterNext_eq (minId : UInt64) (limit : Int32) (it : Iterator)
    (results : List (Except String Record)) (uninit : UInt64) :
    ∃ it' results', Call.afterNext minId limit it results uninit =
      .query minId limit (.returned (.ok it') results') := by
  unfold Call.afterNext
  split
  · exact ⟨_, _, rfl⟩
  · exact ⟨_, _, rfl⟩

namespace Moves

variable {x y : Index} {old new : Call} {effect : Option Effect}

/-- **A move has no effect, or is the effect of its call**, which has not
responded. -/
theorem takesEffect (h : Moves x old new y effect) (c : Nat)
    (order : List (Nat × Effect)) :
    TakesEffect Call.effect Call.hasReturned c old new order
      (order ++ (effect.map fun e => (c, e)).toList) := by
  cases h with
  | updates id value currenOffset => exact .inr ⟨_, rfl, rfl, rfl, rfl⟩
  | traverses minId limit => exact .inr ⟨_, rfl, rfl, rfl, rfl⟩
  | nexts minId limit it results seen uninit _ _ =>
      obtain ⟨it', results', hafter⟩ :=
        Call.afterNext_eq minId limit (it.see seen) results uninit
      rw [hafter]
      exact .inl ⟨List.append_nil _, rfl⟩
  | _ => exact .inl ⟨List.append_nil _, rfl⟩

theorem hasReturned (h : Moves x old new y effect)
    (hold : old.hasReturned = true) : new.hasReturned = true := by
  cases h with
  | nexts minId limit it results seen uninit _ _ =>
      obtain ⟨it', results', hafter⟩ :=
        Call.afterNext_eq minId limit (it.see seen) results uninit
      rw [hafter]
      rfl
  | _ => cases hold

/-- The table only grows. -/
theorem table_grows (h : Moves x old new y effect) :
    x.table <+: y.table := by
  cases h with
  | puts => exact List.prefix_append _ _
  | _ => exact List.prefix_refl _

end Moves

/-- The calls, their effects and their history. -/
def State.Linearizes (s : State) : Prop :=
  Linearization.Linearizes Call.effect Call.hasReturned s.calls s.order
    s.history

/-- **The order of the effects respects real time.** -/
theorem Step.linearizes {s t : State} {a : Action} (hstep : Step s a t)
    (h : s.Linearizes) : t.Linearizes := by
  cases hstep with
  | insert id value => exact h.begin rfl rfl
  | query minId limit => exact h.begin rfl rfl
  | move c old new index effect hc hmove _ =>
      exact h.move hc (hmove.takesEffect c s.order) hmove.hasReturned

theorem Step.order_grows {s t : State} {a : Action} (h : Step s a t) :
    s.order <+: t.order := by
  cases h with
  | move => exact List.prefix_append _ _
  | _ => exact List.prefix_refl _

/-! ## One writer at a time -/

/-- Who holds `fileMutex` keeps the others out. -/
theorem State.holdsFile_eq_false {s : State} {call : Call}
    (hfree : s.mayHold call = true) (hcall : call.holdsFile = true) :
    ∀ other ∈ s.calls, other.holdsFile = false := by
  have hlock : call.lock = some .fileMutex := of_decide_eq_true hcall
  intro other hother
  rw [State.mayHold, hlock] at hfree
  have hnot := List.all_eq_true.mp hfree other hother
  cases hheld : other.lock with
  | none =>
      rw [Call.holdsFile, hheld]
      rfl
  | some held =>
      rw [hheld] at hnot
      cases held with
      | fileMutex => cases hnot
      | mapShared | mapUnique =>
          rw [Call.holdsFile, hheld]
          rfl

/-- **One `insert` writes at a time.** -/
theorem Step.holders_le {s t : State} {a : Action} (hstep : Step s a t)
    (h : s.calls.countP Call.holdsFile ≤ 1) :
    t.calls.countP Call.holdsFile ≤ 1 := by
  cases hstep with
  | insert id value | query minId limit =>
      show (s.calls ++ [_]).countP Call.holdsFile ≤ 1
      rw [List.countP_append, List.countP_singleton]
      exact h
  | move c old new index effect hc _ hlock =>
      show (s.calls.set c new).countP Call.holdsFile ≤ 1
      have hset := countP_set Call.holdsFile hc new
      rcases hlock with hsame | hfree
      · have hkeeps : new.holdsFile = old.holdsFile := by
          rw [Call.holdsFile, Call.holdsFile, hsame]
        rw [hkeeps] at hset
        omega
      · cases hholds : new.holdsFile with
        | false =>
            rw [hholds] at hset
            simp only [Bool.false_eq_true, if_false] at hset
            omega
        | true =>
            have hothers := State.holdsFile_eq_false hfree hholds
            have hzero : s.calls.countP Call.holdsFile = 0 := by
              apply List.countP_eq_zero.mpr
              intro other hother
              rw [hothers other hother]
              exact Bool.false_ne_true
            rw [hholds, if_pos rfl] at hset
            omega

end GoPrep.Ports.IndexAndIterator
