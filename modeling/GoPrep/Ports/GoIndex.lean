import GoPrep.Ports.IteratorPlusIndex

/-!
# The Go index

A port of `indexImpl` in `src/go-concurrency-practice/
final_iterator_plus_index/library.go`, which `iterator_plus_index.cpp` is the
migration of.  `Insert` and `Query` check the context, then register with the
wait group, then work; `Close` cancels the context and waits for the group.
Each of these is a step of its own.

The source leaves `open`, `writeData` and `readAt` out.  The file is the list
of the records that `writeData` has appended, `landing` the byte offset it
returns for the next one; both calls may fail, and a failed `writeData` has
appended no record.  As the source asks, `indexMap` is taken to iterate in
ascending order.  Of an iterator only the offsets are kept that `Query` gives
it.

A `sync.WaitGroup` keeps its counter and its number of waiters in one word.
`Wait` returns at once when the counter is zero.  Otherwise it counts itself
and sleeps until a `Done` that brings the counter to zero has set the word to
zero.  Misuse panics: in an `Add` that finds the counter at zero while there
are waiters, which it does after adding; in that `Done`, if the counter has
moved before it resets the word; and in a woken `Wait` that finds the word not
zero.  The check of that `Done` and its reset are one step.
-/

namespace GoPrep.Ports.GoIndex

open GoPrep.Verified.ByteFile
open GoPrep.Verified.SortedMap

structure Record where
  id : UInt64
  text : Bytes
  deriving DecidableEq, Repr

/-! ## Calls -/

/-- Where an `Insert` stands: before the statement named, or in `writing` and
`updating` inside the critical section of `dbFileData.mu` or `mu`.  The
deferred `wg.Done()` is `finishing`, and `releasing` after the last decrement;
in `misusing` the `wg.Add(1)` is about to panic. -/
inductive InsertPc
  | checking
  | adding
  | misusing
  | opening
  | locking
  | writing
  | lockingMap (byteOffset : Nat)
  | updating (byteOffset : Nat)
  | finishing (err : Option String)
  | releasing (err : Option String)
  | returned (err : Option String)
  | addPanicked
  | donePanicked
  deriving DecidableEq, Repr

/-- Where a `Query` stands; `traversing` holds `mu` for reading. -/
inductive QueryPc
  | checking
  | adding
  | misusing
  | lockingMap
  | traversing
  | finishing (fileOffsets : List Nat)
  | releasing (fileOffsets : List Nat)
  | returned (fileOffsets : List Nat)
  | addPanicked
  | donePanicked
  deriving DecidableEq, Repr

/-- Where a `Close` stands; `asleep` and `released` are inside `wg.Wait()`. -/
inductive ClosePc
  | cancelling
  | waiting
  | asleep
  | released
  | returned
  | panicked
  deriving DecidableEq, Repr

inductive Call
  | insert (id : UInt64) (text : Bytes) (pc : InsertPc)
  | query (minId : UInt64) (limit : Int) (pc : QueryPc)
  | close (pc : ClosePc)
  deriving DecidableEq, Repr

inductive Lock
  | fileMu
  | muShared
  | muUnique
  deriving DecidableEq, Repr

/-- Two calls may not hold these at once. -/
def Lock.conflicts : Lock → Lock → Bool
  | .fileMu, .fileMu => true
  | .muUnique, .muUnique => true
  | .muUnique, .muShared => true
  | .muShared, .muUnique => true
  | _, _ => false

namespace Call

/-- The lock a call holds. -/
def lock : Call → Option Lock
  | .insert _ _ .writing => some .fileMu
  | .insert _ _ (.updating _) => some .muUnique
  | .query _ _ .traversing => some .muShared
  | _ => none

/-- The waiters of the wait group are woken. -/
def release : Call → Call
  | .close .asleep => .close .released
  | call => call

/-- A method of the wait group has panicked. -/
def hasPanicked : Call → Bool
  | .insert _ _ .addPanicked => true
  | .insert _ _ .donePanicked => true
  | .query _ _ .addPanicked => true
  | .query _ _ .donePanicked => true
  | .close .panicked => true
  | _ => false

end Call

/-! ## The index -/

/-- What `indexImpl` and its `fileData` hold, besides the locks; `wg` and
`waiters` are the two halves of the wait group. -/
structure Index where
  file : List Record
  indexMap : OrderedMap UInt64 Nat
  wg : Nat
  waiters : Nat
  ctxDone : Bool

namespace Index

/-- `newIndexImpl` over an empty file. -/
def initial : Index :=
  { file := [], indexMap := .empty, wg := 0, waiters := 0, ctxDone := false }

/-- The counter is at zero, and the waiters have not been woken. -/
def awaited (x : Index) : Bool := decide (x.wg = 0 ∧ x.waiters ≠ 0)

/-- `wg.Add(1)`. -/
def add (x : Index) : Index := { x with wg := x.wg + 1 }

/-- The decrement of `wg.Done()`. -/
def finish (x : Index) : Index := { x with wg := x.wg - 1 }

/-- The reset of the last `wg.Done()`. -/
def reset (x : Index) : Index := { x with waiters := 0 }

/-- `wg.Wait()` counts a waiter. -/
def wait (x : Index) : Index := { x with waiters := x.waiters + 1 }

/-- A `writeData` that succeeds. -/
def write (x : Index) (r : Record) : Index :=
  { x with file := x.file ++ [r] }

/-- `i.indexMap[id] = byte_offset`. -/
def update (x : Index) (id : UInt64) (byteOffset : Nat) : Index :=
  { x with indexMap := x.indexMap.insert id byteOffset }

/-- The `for id, offset := range i.indexMap` loop of `Query`. -/
def rangeLoop (minId : UInt64) (limit : Int) :
    List (UInt64 × Nat) → List Nat → Int → List Nat
  | [], offsets, _ => offsets
  | (id, offset) :: rest, offsets, count =>
      let taken := decide (id > minId)
      let offsets' := if taken then offsets ++ [offset] else offsets
      let count' := if taken then count + 1 else count
      if count' ≥ limit then offsets'
      else rangeLoop minId limit rest offsets' count'

/-- The offsets a `Query` collects. -/
def collect (x : Index) (minId : UInt64) (limit : Int) : List Nat :=
  rangeLoop minId limit x.indexMap.entries [] 0

end Index

/-! ## Moves -/

/-- A call moves from the first `Call` to the second.  The flag tells whether
the waiters are woken. -/
inductive Moves (landing : List Record → Nat) (x : Index) :
    Call → Call → Index → Bool → Prop
  -- `Insert`
  | insertRejected (id : UInt64) (text : Bytes) : x.ctxDone = true →
      Moves landing x (.insert id text .checking)
        (.insert id text (.returned
          (some "not accepting anymore inserts, the index is closed")))
        x false
  | insertChecks (id : UInt64) (text : Bytes) : x.ctxDone = false →
      Moves landing x (.insert id text .checking) (.insert id text .adding)
        x false
  | insertAdds (id : UInt64) (text : Bytes) : x.awaited = false →
      Moves landing x (.insert id text .adding) (.insert id text .opening)
        x.add false
  | insertMisuses (id : UInt64) (text : Bytes) : x.awaited = true →
      Moves landing x (.insert id text .adding) (.insert id text .misusing)
        x.add false
  | insertAddPanics (id : UInt64) (text : Bytes) :
      Moves landing x (.insert id text .misusing)
        (.insert id text .addPanicked) x false
  | opens (id : UInt64) (text : Bytes) :
      Moves landing x (.insert id text .opening) (.insert id text .locking)
        x false
  | openFails (id : UInt64) (text : Bytes) :
      Moves landing x (.insert id text .opening)
        (.insert id text (.finishing (some "error opening the file")))
        x false
  | insertLocksFile (id : UInt64) (text : Bytes) :
      Moves landing x (.insert id text .locking) (.insert id text .writing)
        x false
  | writes (id : UInt64) (text : Bytes) :
      Moves landing x (.insert id text .writing)
        (.insert id text (.lockingMap (landing x.file))) (x.write ⟨id, text⟩)
        false
  | writeFails (id : UInt64) (text : Bytes) :
      Moves landing x (.insert id text .writing)
        (.insert id text (.finishing (some "error writing to the file")))
        x false
  | insertLocksMap (id : UInt64) (text : Bytes) (byteOffset : Nat) :
      Moves landing x (.insert id text (.lockingMap byteOffset))
        (.insert id text (.updating byteOffset)) x false
  | updates (id : UInt64) (text : Bytes) (byteOffset : Nat) :
      Moves landing x (.insert id text (.updating byteOffset))
        (.insert id text (.finishing none)) (x.update id byteOffset) false
  | insertFinishes (id : UInt64) (text : Bytes) (err : Option String) :
      x.finish.awaited = false →
      Moves landing x (.insert id text (.finishing err))
        (.insert id text (.returned err)) x.finish false
  | insertFinishesLast (id : UInt64) (text : Bytes) (err : Option String) :
      x.finish.awaited = true →
      Moves landing x (.insert id text (.finishing err))
        (.insert id text (.releasing err)) x.finish false
  | insertReleases (id : UInt64) (text : Bytes) (err : Option String) :
      x.wg = 0 →
      Moves landing x (.insert id text (.releasing err))
        (.insert id text (.returned err)) x.reset true
  | insertDonePanics (id : UInt64) (text : Bytes) (err : Option String) :
      x.wg ≠ 0 →
      Moves landing x (.insert id text (.releasing err))
        (.insert id text .donePanicked) x false
  -- `Query`
  | queryRejected (minId : UInt64) (limit : Int) : x.ctxDone = true →
      Moves landing x (.query minId limit .checking)
        (.query minId limit (.returned [])) x false
  | queryChecks (minId : UInt64) (limit : Int) : x.ctxDone = false →
      Moves landing x (.query minId limit .checking)
        (.query minId limit .adding) x false
  | queryAdds (minId : UInt64) (limit : Int) : x.awaited = false →
      Moves landing x (.query minId limit .adding)
        (.query minId limit .lockingMap) x.add false
  | queryMisuses (minId : UInt64) (limit : Int) : x.awaited = true →
      Moves landing x (.query minId limit .adding)
        (.query minId limit .misusing) x.add false
  | queryAddPanics (minId : UInt64) (limit : Int) :
      Moves landing x (.query minId limit .misusing)
        (.query minId limit .addPanicked) x false
  | queryLocksMap (minId : UInt64) (limit : Int) :
      Moves landing x (.query minId limit .lockingMap)
        (.query minId limit .traversing) x false
  | traverses (minId : UInt64) (limit : Int) :
      Moves landing x (.query minId limit .traversing)
        (.query minId limit (.finishing (x.collect minId limit))) x false
  | queryFinishes (minId : UInt64) (limit : Int) (fileOffsets : List Nat) :
      x.finish.awaited = false →
      Moves landing x (.query minId limit (.finishing fileOffsets))
        (.query minId limit (.returned fileOffsets)) x.finish false
  | queryFinishesLast (minId : UInt64) (limit : Int)
      (fileOffsets : List Nat) : x.finish.awaited = true →
      Moves landing x (.query minId limit (.finishing fileOffsets))
        (.query minId limit (.releasing fileOffsets)) x.finish false
  | queryReleases (minId : UInt64) (limit : Int) (fileOffsets : List Nat) :
      x.wg = 0 →
      Moves landing x (.query minId limit (.releasing fileOffsets))
        (.query minId limit (.returned fileOffsets)) x.reset true
  | queryDonePanics (minId : UInt64) (limit : Int) (fileOffsets : List Nat) :
      x.wg ≠ 0 →
      Moves landing x (.query minId limit (.releasing fileOffsets))
        (.query minId limit .donePanicked) x false
  -- `Close`
  | cancels :
      Moves landing x (.close .cancelling) (.close .waiting)
        { x with ctxDone := true } false
  | closeReturns : x.wg = 0 →
      Moves landing x (.close .waiting) (.close .returned) x false
  | closeWaits : x.wg ≠ 0 →
      Moves landing x (.close .waiting) (.close .asleep) x.wait false
  | closeReturnsReleased : x.wg = 0 → x.waiters = 0 →
      Moves landing x (.close .released) (.close .returned) x false
  | closePanics : x.wg ≠ 0 ∨ x.waiters ≠ 0 →
      Moves landing x (.close .released) (.close .panicked) x false

/-! ## Runs -/

structure State where
  index : Index
  calls : List Call

def State.initial : State :=
  { index := .initial, calls := [] }

/-- No call stands in the way of the lock `call` needs where it stands. -/
def State.mayHold (s : State) (call : Call) : Bool :=
  match call.lock with
  | none => true
  | some lock => s.calls.all fun other =>
      match other.lock with
      | none => true
      | some held => !lock.conflicts held

inductive Action
  | insert (id : UInt64) (text : Bytes)
  | query (minId : UInt64) (limit : Int)
  | close
  | move (c : Nat)
  deriving DecidableEq, Repr

inductive Rule (landing : List Record → Nat) : State → Action → State → Prop
  | insert (s : State) (id : UInt64) (text : Bytes) :
      Rule landing s (.insert id text)
        { s with calls := s.calls ++ [.insert id text .checking] }
  | query (s : State) (minId : UInt64) (limit : Int) :
      Rule landing s (.query minId limit)
        { s with calls := s.calls ++ [.query minId limit .checking] }
  | close (s : State) :
      Rule landing s .close
        { s with calls := s.calls ++ [.close .cancelling] }
  | move (s : State) (c : Nat) (old new : Call) (index : Index)
      (released : Bool) :
      s.calls[c]? = some old → Moves landing s.index old new index released →
      s.mayHold new = true →
      Rule landing s (.move c)
        { index := index
          calls :=
            if released then (s.calls.set c new).map Call.release
            else s.calls.set c new }

/-- A panic that nobody recovers ends the process. -/
def State.crashed (s : State) : Bool := s.calls.any Call.hasPanicked

/-- The steps of a process that has not crashed. -/
def Step (landing : List Record → Nat) (s : State) (a : Action) (t : State) :
    Prop :=
  s.crashed = false ∧ Rule landing s a t

end GoPrep.Ports.GoIndex
